import Mathlib.Algebra.BigOperators.Group.List.Basic
import Mathlib.Algebra.GroupWithZero.Nat
import Mathlib.Data.List.Basic

/-! JSON values and the texts that writers make of them. A writer is given by its separators and by
how it escapes a character; the sizes of two texts of one value are compared through these. -/

namespace Lib

/-- A JSON value, with floats of a type of their own. -/
inductive Json (φ : Type*)
  | null
  | bool (b : Bool)
  | int (n : ℤ)
  | float (x : φ)
  | str (s : String)
  | arr (items : List (Json φ))
  | obj (fields : List (String × Json φ))

/-- The bytes of a text in UTF-8. -/
def utf8Size (text : List Char) : ℕ := (text.map Char.utf8Size).sum

@[simp] theorem utf8Size_nil : utf8Size [] = 0 := rfl

@[simp] theorem utf8Size_cons (c : Char) (text : List Char) :
    utf8Size (c :: text) = c.utf8Size + utf8Size text := rfl

@[simp] theorem utf8Size_append (text text' : List Char) :
    utf8Size (text ++ text') = utf8Size text + utf8Size text' := by
  simp [utf8Size]

/-- Characters that each take at most `k` times the bytes take at most `k` times the bytes. -/
theorem utf8Size_flatMap_le {k : ℕ} {f g : Char → List Char}
    (h : ∀ c, utf8Size (f c) ≤ k * utf8Size (g c)) (text : List Char) :
    utf8Size (text.flatMap f) ≤ k * utf8Size (text.flatMap g) := by
  induction text with
  | nil => simp
  | cons c text ih =>
    have hc := h c
    simp only [List.flatMap_cons, utf8Size_append, Nat.mul_add]
    omega

structure Writer (φ : Type*) where
  itemSep : List Char
  keySep : List Char
  char : Char → List Char
  float : φ → List Char

namespace Writer

variable {φ : Type*}

def quoted (W : Writer φ) (s : String) : List Char :=
  '\x22' :: (s.toList.flatMap W.char ++ ['\x22'])

mutual

def write (W : Writer φ) : Json φ → List Char
  | .null => "null".toList
  | .bool b => (if b then "true" else "false").toList
  | .int n => (toString n).toList
  | .float x => W.float x
  | .str s => W.quoted s
  | .arr [] => "[]".toList
  | .arr (item :: items) => '[' :: (W.write item ++ W.writeItems items ++ [']'])
  | .obj [] => ['\x7b', '\x7d']
  | .obj ((key, value) :: fields) =>
    '\x7b' :: (W.quoted key ++ W.keySep ++ W.write value ++ W.writeFields fields ++ ['\x7d'])

/-- The items after the first. -/
def writeItems (W : Writer φ) : List (Json φ) → List Char
  | [] => []
  | item :: items => W.itemSep ++ W.write item ++ W.writeItems items

/-- The fields after the first. -/
def writeFields (W : Writer φ) : List (String × Json φ) → List Char
  | [] => []
  | (key, value) :: fields =>
    W.itemSep ++ W.quoted key ++ W.keySep ++ W.write value ++ W.writeFields fields

end

/-- No part of a text of `V` takes more than `k` times the bytes that it takes in one of `W`. -/
structure AtMost (k : ℕ) (V W : Writer φ) : Prop where
  pos : 1 ≤ k
  itemSep : utf8Size V.itemSep ≤ k * utf8Size W.itemSep
  keySep : utf8Size V.keySep ≤ k * utf8Size W.keySep
  char : ∀ c, utf8Size (V.char c) ≤ k * utf8Size (W.char c)
  float : ∀ x, utf8Size (V.float x) ≤ k * utf8Size (W.float x)

namespace AtMost

variable {k : ℕ} {V W : Writer φ}

theorem same (h : AtMost k V W) (text : List Char) : utf8Size text ≤ k * utf8Size text :=
  Nat.le_mul_of_pos_left _ h.pos

theorem quoted (h : AtMost k V W) (s : String) :
    utf8Size (V.quoted s) ≤ k * utf8Size (W.quoted s) := by
  have hquote := h.same ['\x22']
  have hs := utf8Size_flatMap_le h.char s.toList
  simp only [Writer.quoted, utf8Size_cons, utf8Size_append, utf8Size_nil, Nat.mul_add] at hquote ⊢
  omega

mutual

theorem write (h : AtMost k V W) :
    (j : Json φ) → utf8Size (V.write j) ≤ k * utf8Size (W.write j)
  | .null => h.same _
  | .bool _ => h.same _
  | .int _ => h.same _
  | .float x => h.float x
  | .str s => h.quoted s
  | .arr [] => h.same _
  | .arr (item :: items) => by
    have hopen := h.same ['[']
    have hclose := h.same [']']
    have hitem := h.write item
    have hitems := h.writeItems items
    simp only [Writer.write, utf8Size_cons, utf8Size_append, utf8Size_nil, Nat.mul_add] at *
    omega
  | .obj [] => h.same _
  | .obj ((key, value) :: fields) => by
    have hopen := h.same ['\x7b']
    have hclose := h.same ['\x7d']
    have hkey := h.quoted key
    have hsep := h.keySep
    have hvalue := h.write value
    have hfields := h.writeFields fields
    simp only [Writer.write, utf8Size_cons, utf8Size_append, utf8Size_nil, Nat.mul_add] at *
    omega

theorem writeItems (h : AtMost k V W) : (items : List (Json φ)) →
    utf8Size (V.writeItems items) ≤ k * utf8Size (W.writeItems items)
  | [] => Nat.zero_le _
  | item :: items => by
    have hsep := h.itemSep
    have hitem := h.write item
    have hitems := h.writeItems items
    simp only [Writer.writeItems, utf8Size_append, Nat.mul_add] at *
    omega

theorem writeFields (h : AtMost k V W) : (fields : List (String × Json φ)) →
    utf8Size (V.writeFields fields) ≤ k * utf8Size (W.writeFields fields)
  | [] => Nat.zero_le _
  | (key, value) :: fields => by
    have hitemSep := h.itemSep
    have hkey := h.quoted key
    have hkeySep := h.keySep
    have hvalue := h.write value
    have hfields := h.writeFields fields
    simp only [Writer.writeFields, utf8Size_append, Nat.mul_add] at *
    omega

end

end AtMost

/-! ### Objects -/

theorem writeFields_append (W : Writer φ) (fields fields' : List (String × Json φ)) :
    W.writeFields (fields ++ fields') = W.writeFields fields ++ W.writeFields fields' := by
  induction fields with
  | nil => rfl
  | cons field fields ih =>
    obtain ⟨key, value⟩ := field
    simp [writeFields, ih]

/-- A value that takes the place of another in an object changes its size by the difference. -/
theorem write_obj_replace (W : Writer φ) (before after : List (String × Json φ)) (key : String)
    (value value' : Json φ) :
    utf8Size (W.write (.obj (before ++ (key, value) :: after))) + utf8Size (W.write value') =
      utf8Size (W.write (.obj (before ++ (key, value') :: after))) + utf8Size (W.write value) := by
  cases before with
  | nil =>
    simp only [List.nil_append, write, utf8Size_cons, utf8Size_append]
    omega
  | cons field before =>
    obtain ⟨key₀, value₀⟩ := field
    simp only [List.cons_append, write, writeFields_append, writeFields, utf8Size_cons,
      utf8Size_append]
    omega

end Writer

/-! ### Two writers -/

/-- The characters that both writers escape with one letter. -/
def shortEscape (c : Char) : Option Char :=
  if c = '\x22' ∨ c = '\x5c' then some c
  else if c = '\n' then some 'n'
  else if c = '\r' then some 'r'
  else if c = '\t' then some 't'
  else if c = '\x08' then some 'b'
  else if c = '\x0c' then some 'f'
  else none

/-- A code unit as `u` and four hexadecimal digits behind a backslash. -/
def unicodeEscape (n : ℕ) : List Char :=
  ['\x5c', 'u', Nat.digitChar (n / 4096 % 16), Nat.digitChar (n / 256 % 16),
    Nat.digitChar (n / 16 % 16), Nat.digitChar (n % 16)]

/-- Everything beyond printable ASCII is escaped, as UTF-16 code units. -/
def asciiChar (c : Char) : List Char :=
  match shortEscape c with
  | some e => ['\x5c', e]
  | none =>
    if ' ' ≤ c ∧ c ≤ '~' then [c]
    else if c.toNat < 0x10000 then unicodeEscape c.toNat
    else unicodeEscape (0xd800 + (c.toNat - 0x10000) / 0x400) ++
      unicodeEscape (0xdc00 + (c.toNat - 0x10000) % 0x400)

/-- Only control characters are escaped. -/
def utf8Char (c : Char) : List Char :=
  match shortEscape c with
  | some e => ['\x5c', e]
  | none => if c < ' ' then unicodeEscape c.toNat else [c]

/-- Blanks behind the separators, and ASCII only. -/
def asciiWriter {φ : Type*} (float : φ → List Char) : Writer φ :=
  ⟨", ".toList, ": ".toList, asciiChar, float⟩

/-- No blanks, and UTF-8. -/
def compactWriter {φ : Type*} (float : φ → List Char) : Writer φ :=
  ⟨",".toList, ":".toList, utf8Char, float⟩

theorem utf8Size_digitChar (n : ℕ) : (Nat.digitChar (n % 16)).utf8Size = 1 := by
  have h : ∀ d < 16, (Nat.digitChar d).utf8Size = 1 := by decide
  exact h (n % 16) (Nat.mod_lt _ (by omega))

theorem utf8Size_unicodeEscape (n : ℕ) : utf8Size (unicodeEscape n) = 6 := by
  simp only [unicodeEscape, utf8Size_cons, utf8Size_digitChar, utf8Size_nil]
  rfl

theorem one_lt_utf8Size {c : Char} (h : 0x10000 ≤ c.toNat) : 1 < c.utf8Size := by
  have hpos := c.utf8Size_pos
  have hne : c.utf8Size ≠ 1 := by
    intro hone
    have hle := UInt32.le_iff_toNat_le.1 (Char.utf8Size_eq_one_iff.1 hone)
    change c.toNat ≤ 127 at hle
    omega
  omega

/-- An escaped text takes at most six times the bytes of the compact one. -/
theorem asciiChar_le (c : Char) : utf8Size (asciiChar c) ≤ 6 * utf8Size (utf8Char c) := by
  have hpos := c.utf8Size_pos
  unfold asciiChar utf8Char
  cases shortEscape c with
  | some e =>
    dsimp only
    omega
  | none =>
    dsimp only
    split_ifs with hprintable hcontrol hunit
    · exact absurd hcontrol (Char.not_lt.2 hprintable.1)
    · omega
    · simp [utf8Size_unicodeEscape]
    · simp only [utf8Size_unicodeEscape, utf8Size_cons, utf8Size_nil]
      omega
    · simp [utf8Size_unicodeEscape]
    · have hone := one_lt_utf8Size (c := c) (by omega)
      simp only [utf8Size_unicodeEscape, utf8Size_append, utf8Size_cons, utf8Size_nil]
      omega

theorem asciiWriter_atMost {φ : Type*} {float float' : φ → List Char}
    (h : ∀ x, utf8Size (float x) ≤ 6 * utf8Size (float' x)) :
    (asciiWriter float).AtMost 6 (compactWriter float') where
  pos := by decide
  itemSep := by
    change utf8Size ", ".toList ≤ 6 * utf8Size ",".toList
    decide
  keySep := by
    change utf8Size ": ".toList ≤ 6 * utf8Size ":".toList
    decide
  char := asciiChar_le
  float := h

end Lib
