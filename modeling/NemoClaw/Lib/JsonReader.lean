import NemoClaw.Lib.Digits
import NemoClaw.Lib.Json

/-! A reader of JSON texts, and that it reads back what the compact writer writes. -/

namespace Lib

/-- The characters of a number. -/
def isNumberChar (c : Char) : Bool :=
  c.isDigit || c = '-' || c = '+' || c = '.' || c = 'e' || c = 'E'

/-- How floats are written and read: as numbers with a point or an exponent. -/
structure FloatText (φ : Type*) where
  write : φ → List Char
  read : List Char → Option φ
  read_write : ∀ x, read (write x) = some x
  number : ∀ x, ∀ c ∈ write x, isNumberChar c = true
  start : ∀ x, ∃ c, (write x).head? = some c ∧ (c = '-' ∨ c.isDigit = true)
  point : ∀ x, '.' ∈ write x ∨ 'e' ∈ write x

namespace JsonReader

def skipBlanks (text : List Char) : List Char :=
  text.dropWhile fun c => c = ' ' || c = '\t' || c = '\n' || c = '\r'

/-! ### Strings -/

def hexValue (c : Char) : Option ℕ :=
  if c.isDigit then some (c.toNat - '0'.toNat)
  else if 'a' ≤ c ∧ c ≤ 'f' then some (c.toNat - 'a'.toNat + 10)
  else if 'A' ≤ c ∧ c ≤ 'F' then some (c.toNat - 'A'.toNat + 10)
  else none

/-- A code unit of four hexadecimal digits. -/
def codeUnit : List Char → Option (ℕ × List Char)
  | a :: b :: c :: d :: rest =>
    (hexValue a).bind fun a => (hexValue b).bind fun b => (hexValue c).bind fun c =>
      (hexValue d).map fun d => (a * 4096 + b * 256 + c * 16 + d, rest)
  | _ => none

/-- The second half of a surrogate pair. -/
def lowSurrogate (high : ℕ) : List Char → Option (Char × List Char)
  | '\x5c' :: 'u' :: rest =>
    match codeUnit rest with
    | some (low, rest) =>
      if 0xdc00 ≤ low ∧ low < 0xe000 then
        some (Char.ofNat (0x10000 + (high - 0xd800) * 0x400 + (low - 0xdc00)), rest)
      else none
    | none => none
  | _ => none

/-- What stands behind a backslash. -/
def unescape : List Char → Option (Char × List Char)
  | [] => none
  | c :: rest =>
    if c = 'u' then
      match codeUnit rest with
      | some (n, rest) =>
        if 0xd800 ≤ n ∧ n < 0xdc00 then lowSurrogate n rest
        else if 0xdc00 ≤ n ∧ n < 0xe000 then none
        else some (Char.ofNat n, rest)
      | none => none
    else if c = '\x22' ∨ c = '\x5c' ∨ c = '/' then some (c, rest)
    else if c = 'n' then some ('\n', rest)
    else if c = 'r' then some ('\r', rest)
    else if c = 't' then some ('\t', rest)
    else if c = 'b' then some ('\x08', rest)
    else if c = 'f' then some ('\x0c', rest)
    else none

/-- A string up to its closing quote. -/
def readChars : ℕ → List Char → Option (List Char × List Char)
  | 0, _ | _, [] => none
  | fuel + 1, c :: rest =>
    if c = '\x22' then some ([], rest)
    else if c = '\x5c' then
      (unescape rest).bind fun next =>
        (readChars fuel next.2).map fun read => (next.1 :: read.1, read.2)
    else if c < ' ' then none
    else (readChars fuel rest).map fun read => (c :: read.1, read.2)

def readString (text : List Char) : Option (String × List Char) :=
  (readChars text.length text).map fun read => (String.ofList read.1, read.2)

/-! ### Numbers -/

def readNat (digits : List Char) : Option ℕ :=
  if digits ≠ [] ∧ digits.all Char.isDigit = true ∧
      (digits.head? = some '0' → digits = ['0']) then
    some (Nat.ofDigitChars 10 digits 0)
  else none

def readInt (token : List Char) : Option ℤ :=
  if token.head? = some '-' then (readNat token.tail).map fun n : ℕ => -(n : ℤ)
  else (readNat token).map fun n : ℕ => (n : ℤ)

variable {φ : Type*}

def readNumber (F : FloatText φ) (token : List Char) : Option (Json φ) :=
  match readInt token with
  | some n => some (.int n)
  | none => (F.read token).map .float

/-! ### Values -/

def readWord (text : List Char) : Option (Json φ × List Char) :=
  if "null".toList <+: text then some (.null, text.drop 4)
  else if "true".toList <+: text then some (.bool true, text.drop 4)
  else if "false".toList <+: text then some (.bool false, text.drop 5)
  else none

mutual

def readValue (F : FloatText φ) : ℕ → List Char → Option (Json φ × List Char)
  | 0, _ => none
  | fuel + 1, text =>
    match skipBlanks text with
    | [] => none
    | c :: rest =>
      if c = '\x22' then (readString rest).map fun read => (.str read.1, read.2)
      else if c = '[' then
        if (skipBlanks rest).head? = some ']' then some (.arr [], (skipBlanks rest).tail)
        else (readItems F fuel rest).map fun read => (.arr read.1, read.2)
      else if c = '\x7b' then
        if (skipBlanks rest).head? = some '\x7d' then some (.obj [], (skipBlanks rest).tail)
        else (readFields F fuel rest).map fun read => (.obj read.1, read.2)
      else if c = '-' ∨ c.isDigit then
        (readNumber F ((c :: rest).takeWhile isNumberChar)).map fun value =>
          (value, (c :: rest).dropWhile isNumberChar)
      else readWord (c :: rest)

/-- The items up to the closing bracket. -/
def readItems (F : FloatText φ) : ℕ → List Char → Option (List (Json φ) × List Char)
  | 0, _ => none
  | fuel + 1, text =>
    (readValue F fuel text).bind fun item =>
      match skipBlanks item.2 with
      | ',' :: rest => (readItems F fuel rest).map fun read => (item.1 :: read.1, read.2)
      | ']' :: rest => some ([item.1], rest)
      | _ => none

/-- The fields up to the closing brace. -/
def readFields (F : FloatText φ) : ℕ → List Char → Option (List (String × Json φ) × List Char)
  | 0, _ => none
  | fuel + 1, text =>
    match skipBlanks text with
    | '\x22' :: rest =>
      (readString rest).bind fun key =>
        match skipBlanks key.2 with
        | ':' :: rest =>
          (readValue F fuel rest).bind fun value =>
            match skipBlanks value.2 with
            | ',' :: rest =>
              (readFields F fuel rest).map fun read => ((key.1, value.1) :: read.1, read.2)
            | '\x7d' :: rest => some ([(key.1, value.1)], rest)
            | _ => none
        | _ => none
    | _ => none

end

/-- A text that is one value. -/
def readJson (F : FloatText φ) (text : List Char) : Option (Json φ) :=
  match readValue F text.length text with
  | some (value, rest) => if skipBlanks rest = [] then some value else none
  | none => none

/-! ### What was written is read back -/

theorem head?_toDigits {n : ℕ} (h : n ≠ 0) : (Nat.toDigits 10 n).head? ≠ some '0' := by
  induction n using Nat.strongRecOn with
  | _ n ih =>
    rcases Nat.lt_or_ge n 10 with hlt | hge
    · rw [Nat.toDigits_of_lt_base hlt]
      have hdigit : ∀ d < 10, d ≠ 0 → d.digitChar ≠ '0' := by decide
      simpa using hdigit n hlt h
    · rw [Nat.toDigits_of_base_le (by decide) hge,
        List.head?_append_of_ne_nil _ Nat.toDigits_ne_nil]
      exact ih (n / 10) (by omega) (by omega)

theorem readNat_toString (n : ℕ) : readNat (toString n).toList = some n := by
  have hdigits : ∀ c ∈ Nat.toDigits 10 n, c.isDigit = true := fun c hc =>
    Nat.isDigit_of_mem_toDigits (by decide) (by decide) hc
  have hzero : (Nat.toDigits 10 n).head? = some '0' → Nat.toDigits 10 n = ['0'] := by
    intro h
    by_cases hn : n = 0
    · rw [hn]
      rfl
    · exact absurd h (head?_toDigits hn)
  rw [toList_toString, readNat, if_pos ⟨Nat.toDigits_ne_nil, List.all_eq_true.2 hdigits, hzero⟩,
    Nat.ofDigitChars_ten_toDigits]

theorem readInt_toString (n : ℤ) : readInt (toString n).toList = some n := by
  cases n with
  | ofNat n =>
    have htoString : toString (Int.ofNat n) = toString n := rfl
    obtain ⟨c, hc, hdigit⟩ := head?_toString n
    have hsign : (toString n).toList.head? ≠ some '-' := by
      rw [hc]
      rintro ⟨⟩
      exact absurd hdigit (by decide)
    rw [htoString, readInt, if_neg hsign, readNat_toString]
    rfl
  | negSucc n =>
    rw [toList_negSucc, readInt, if_pos List.head?_cons, List.tail_cons, readNat_toString]
    rfl

variable {φ : Type*} {F : FloatText φ}

/-- A float is not read as an integer. -/
theorem readInt_float (x : φ) : readInt (F.write x) = none := by
  have hpoint : ∀ token : List Char, '.' ∈ token ∨ 'e' ∈ token → readNat token = none := by
    intro token h
    refine if_neg fun hnat => ?_
    rcases h with h | h
    · exact absurd (List.all_eq_true.1 hnat.2.1 _ h) (by decide)
    · exact absurd (List.all_eq_true.1 hnat.2.1 _ h) (by decide)
  unfold readInt
  split_ifs with hsign
  · rw [hpoint _ ?_]
    · rfl
    · obtain ⟨l, hcons⟩ := List.head?_eq_some_iff.1 hsign
      rw [hcons, List.tail_cons]
      have hmem := F.point x
      rw [hcons] at hmem
      simpa using hmem
  · rw [hpoint _ (F.point x)]
    rfl

/-! ### Strings -/

theorem hexValue_digitChar (n : ℕ) : hexValue (Nat.digitChar (n % 16)) = some (n % 16) := by
  have h : ∀ d < 16, hexValue (Nat.digitChar d) = some d := by decide
  exact h (n % 16) (Nat.mod_lt _ (by decide))

theorem unescape_unicodeEscape {c : Char} (h : c < ' ') (rest : List Char) :
    unescape ((unicodeEscape c.toNat).tail ++ rest) = some (c, rest) := by
  have hlt : c.toNat < 32 := UInt32.lt_iff_toNat_lt.1 (Char.lt_def.1 h)
  have hunit : codeUnit (Nat.digitChar (c.toNat / 4096 % 16) ::
      Nat.digitChar (c.toNat / 256 % 16) :: Nat.digitChar (c.toNat / 16 % 16) ::
        Nat.digitChar (c.toNat % 16) :: rest) = some (c.toNat, rest) := by
    simp only [codeUnit, hexValue_digitChar, Option.bind_some, Option.map_some]
    rw [Option.some.injEq, Prod.mk.injEq]
    exact ⟨by omega, rfl⟩
  simp only [unicodeEscape, List.tail_cons, List.cons_append, List.nil_append, unescape, hunit]
  rw [if_pos trivial, if_neg (by omega), if_neg (by omega), Char.ofNat_toNat]

theorem unescape_shortEscape {c e : Char} (h : shortEscape c = some e) (rest : List Char) :
    unescape (e :: rest) = some (c, rest) := by
  unfold shortEscape at h
  split_ifs at h with hself hn hr ht hb hf
  · obtain rfl := Option.some.inj h
    rcases hself with rfl | rfl <;> rfl
  · rw [hn, ← Option.some.inj h]
    rfl
  · rw [hr, ← Option.some.inj h]
    rfl
  · rw [ht, ← Option.some.inj h]
    rfl
  · rw [hb, ← Option.some.inj h]
    rfl
  · rw [hf, ← Option.some.inj h]
    rfl

/-- A character that is written is read, whether it is escaped or not. -/
theorem readChars_utf8Char (c : Char) (fuel : ℕ) (rest : List Char) :
    readChars (fuel + 1) (utf8Char c ++ rest) =
      (readChars fuel rest).map fun read => (c :: read.1, read.2) := by
  have hescape : ∀ l, unescape l = some (c, rest) → readChars (fuel + 1) ('\x5c' :: l) =
      (readChars fuel rest).map fun read => (c :: read.1, read.2) := by
    intro l hl
    rw [readChars, if_neg (by decide), if_pos rfl, hl, Option.bind_some]
  unfold utf8Char
  cases hshort : shortEscape c with
  | some e => exact hescape (e :: rest) (unescape_shortEscape hshort rest)
  | none =>
    have hquote : c ≠ '\x22' := by
      rintro rfl
      exact absurd hshort (by decide)
    have hslash : c ≠ '\x5c' := by
      rintro rfl
      exact absurd hshort (by decide)
    dsimp only
    split_ifs with hcontrol
    · exact hescape _ (unescape_unicodeEscape hcontrol rest)
    · rw [List.singleton_append, readChars, if_neg hquote, if_neg hslash, if_neg hcontrol]

theorem readChars_quoted (text rest : List Char) (fuel : ℕ)
    (h : (text.flatMap utf8Char).length < fuel) :
    readChars fuel (text.flatMap utf8Char ++ '\x22' :: rest) = some (text, rest) := by
  induction text generalizing fuel with
  | nil =>
    obtain ⟨fuel, rfl⟩ := Nat.exists_eq_succ_of_ne_zero (Nat.ne_zero_of_lt h)
    rfl
  | cons c text ih =>
    obtain ⟨fuel, rfl⟩ := Nat.exists_eq_succ_of_ne_zero (Nat.ne_zero_of_lt h)
    rw [List.flatMap_cons, List.length_append] at h
    have hpos : 0 < (utf8Char c).length := by
      unfold utf8Char
      split
      · exact Nat.zero_lt_succ _
      · split_ifs <;> exact Nat.zero_lt_succ _
    rw [List.flatMap_cons, List.append_assoc, readChars_utf8Char, ih fuel (by omega)]
    rfl

theorem readString_quoted (s : String) (rest : List Char) :
    readString (s.toList.flatMap utf8Char ++ '\x22' :: rest) = some (s, rest) := by
  unfold readString
  rw [readChars_quoted]
  · simp
  · rw [List.length_append, List.length_cons]
    omega

/-! ### Values -/

/-- What follows does not go on with a number. -/
def NoNumber (rest : List Char) : Prop := ∀ c, rest.head? = some c → isNumberChar c = false

theorem noNumber_cons {c : Char} (h : isNumberChar c = false) (rest : List Char) :
    NoNumber (c :: rest) := by
  rintro _ ⟨⟩
  exact h

theorem skipBlanks_cons {c : Char} (h : (c = ' ' || c = '\t' || c = '\n' || c = '\r') = false)
    (rest : List Char) : skipBlanks (c :: rest) = c :: rest := by
  rw [skipBlanks, List.dropWhile_cons, if_neg (by simp [h])]

theorem not_blank_of_number {c : Char} (hc : c = '-' ∨ c.isDigit = true) :
    (c = ' ' || c = '\t' || c = '\n' || c = '\r') = false ∧ c ≠ ']' := by
  have hother : ∀ {d : Char}, ¬ (d = '-' ∨ d.isDigit = true) → c ≠ d := by
    rintro d hd rfl
    exact hd hc
  simp [hother (d := ' ') (by decide), hother (d := '\t') (by decide),
    hother (d := '\n') (by decide), hother (d := '\r') (by decide), hother (d := ']') (by decide)]

theorem readValue_number {token rest : List Char} {value : Json φ}
    (htoken : ∀ c ∈ token, isNumberChar c = true)
    (hstart : ∃ c, token.head? = some c ∧ (c = '-' ∨ c.isDigit = true))
    (hread : readNumber F token = some value) (hrest : NoNumber rest) (fuel : ℕ) :
    readValue F (fuel + 1) (token ++ rest) = some (value, rest) := by
  obtain ⟨c, hhead, hc⟩ := hstart
  obtain ⟨l, rfl⟩ := List.head?_eq_some_iff.1 hhead
  have hother : ∀ {d : Char}, ¬ (d = '-' ∨ d.isDigit = true) → c ≠ d := by
    rintro d hd rfl
    exact hd hc
  have htake : rest.takeWhile isNumberChar = [] := by
    cases rest with
    | nil => rfl
    | cons d rest => rw [List.takeWhile_cons, hrest d rfl, if_neg (by decide)]
  have hdrop : rest.dropWhile isNumberChar = rest := by
    cases rest with
    | nil => rfl
    | cons d rest => rw [List.dropWhile_cons, hrest d rfl, if_neg (by decide)]
  have htoken' : (c :: (l ++ rest)).takeWhile isNumberChar = c :: l := by
    rw [← List.cons_append, List.takeWhile_append_of_pos htoken, htake, List.append_nil]
  have hrest' : (c :: (l ++ rest)).dropWhile isNumberChar = rest := by
    rw [← List.cons_append, List.dropWhile_append_of_pos htoken, hdrop]
  rw [List.cons_append, readValue, skipBlanks_cons (not_blank_of_number hc).1]
  dsimp only
  rw [if_neg (hother (by decide)), if_neg (hother (by decide)), if_neg (hother (by decide)),
    if_pos hc, htoken', hrest', hread]
  rfl

theorem readValue_null (fuel : ℕ) (rest : List Char) :
    readValue F (fuel + 1) ("null".toList ++ rest) = some (.null, rest) := by
  simp [readValue, skipBlanks, readWord]

theorem readValue_bool (b : Bool) (fuel : ℕ) (rest : List Char) :
    readValue F (fuel + 1) ((if b then "true" else "false").toList ++ rest) =
      some (.bool b, rest) := by
  cases b
  · simp [readValue, skipBlanks, readWord]
  · simp [readValue, skipBlanks, readWord]

theorem readValue_int (n : ℤ) {rest : List Char} (hrest : NoNumber rest) (fuel : ℕ) :
    readValue F (fuel + 1) ((toString n).toList ++ rest) = some (.int n, rest) := by
  refine readValue_number (fun c hc => ?_) (exists_head_toString n) ?_ hrest fuel
  · rcases sign_or_digit_of_mem hc with rfl | hdigit
    · decide
    · simp [isNumberChar, hdigit]
  · rw [readNumber, readInt_toString]

theorem readValue_float (x : φ) {rest : List Char} (hrest : NoNumber rest) (fuel : ℕ) :
    readValue F (fuel + 1) (F.write x ++ rest) = some (.float x, rest) := by
  refine readValue_number (F.number x) (F.start x) ?_ hrest fuel
  rw [readNumber, readInt_float, F.read_write]
  rfl

theorem quoted_append (s : String) (rest : List Char) :
    (compactWriter F.write).quoted s ++ rest =
      '\x22' :: (s.toList.flatMap utf8Char ++ '\x22' :: rest) := by
  simp [Writer.quoted, compactWriter]

theorem readValue_str (s : String) (fuel : ℕ) (rest : List Char) :
    readValue F (fuel + 1) ((compactWriter F.write).quoted s ++ rest) = some (.str s, rest) := by
  rw [quoted_append, readValue, skipBlanks_cons (by decide)]
  dsimp only
  rw [if_pos rfl, readString_quoted]
  rfl

/-- A written value begins with no blank and no closing bracket. -/
theorem exists_head_write (j : Json φ) : ∃ c l, (compactWriter F.write).write j = c :: l ∧
    (c = ' ' || c = '\t' || c = '\n' || c = '\r') = false ∧ c ≠ ']' := by
  cases j with
  | null => exact ⟨_, _, rfl, by decide, by decide⟩
  | bool b => cases b <;> exact ⟨_, _, rfl, by decide, by decide⟩
  | int n =>
    obtain ⟨c, hhead, hc⟩ := exists_head_toString n
    obtain ⟨l, hcons⟩ := List.head?_eq_some_iff.1 hhead
    exact ⟨c, l, hcons, not_blank_of_number hc⟩
  | float x =>
    obtain ⟨c, hhead, hc⟩ := F.start x
    obtain ⟨l, hcons⟩ := List.head?_eq_some_iff.1 hhead
    exact ⟨c, l, hcons, not_blank_of_number hc⟩
  | str s => exact ⟨_, _, rfl, by decide, by decide⟩
  | arr items => cases items <;> exact ⟨_, _, rfl, by decide, by decide⟩
  | obj fields => cases fields <;> exact ⟨_, _, rfl, by decide, by decide⟩

/-- A written value is read. -/
def Reads (F : FloatText φ) (j : Json φ) : Prop :=
  ∀ (fuel : ℕ) (rest : List Char), ((compactWriter F.write).write j).length ≤ fuel →
    NoNumber rest → readValue F fuel ((compactWriter F.write).write j ++ rest) = some (j, rest)

theorem exists_fuel {j : Json φ} {fuel : ℕ}
    (h : ((compactWriter F.write).write j).length ≤ fuel) : ∃ n, fuel = n + 1 := by
  obtain ⟨c, l, hcons, -⟩ := exists_head_write (F := F) j
  rw [hcons, List.length_cons] at h
  exact ⟨fuel - 1, by omega⟩

mutual

theorem reads : (j : Json φ) → Reads F j
  | .null => fun fuel rest h _ => by
    obtain ⟨fuel, rfl⟩ := exists_fuel h
    exact readValue_null fuel rest
  | .bool b => fun fuel rest h _ => by
    obtain ⟨fuel, rfl⟩ := exists_fuel h
    exact readValue_bool b fuel rest
  | .int n => fun fuel rest h hrest => by
    obtain ⟨fuel, rfl⟩ := exists_fuel h
    exact readValue_int n hrest fuel
  | .float x => fun fuel rest h hrest => by
    obtain ⟨fuel, rfl⟩ := exists_fuel h
    exact readValue_float x hrest fuel
  | .str s => fun fuel rest h _ => by
    obtain ⟨fuel, rfl⟩ := exists_fuel h
    exact readValue_str s fuel rest
  | .arr [] => fun fuel rest h _ => by
    obtain ⟨fuel, rfl⟩ := exists_fuel h
    rfl
  | .arr (item :: items) => fun fuel rest h _ => by
    obtain ⟨fuel, rfl⟩ := exists_fuel h
    have hitems := readItems_write items item (reads item) fuel rest
    have htext : (compactWriter F.write).write (.arr (item :: items)) ++ rest =
        '[' :: ((compactWriter F.write).write item ++
          ((compactWriter F.write).writeItems items ++ ']' :: rest)) := by
      simp [Writer.write]
    have hlength : ((compactWriter F.write).write (.arr (item :: items))).length =
        ((compactWriter F.write).write item).length +
          ((compactWriter F.write).writeItems items).length + 2 := by
      simp [Writer.write]
      omega
    obtain ⟨c, l, hcons, hblank, hbracket⟩ := exists_head_write (F := F) item
    rw [htext, readValue, skipBlanks_cons (by decide)]
    dsimp only
    rw [if_neg (by decide), if_pos rfl, if_neg, hitems (by omega)]
    · rfl
    · rw [hcons, List.cons_append, skipBlanks_cons hblank, List.head?_cons, Option.some.injEq]
      exact hbracket
  | .obj [] => fun fuel rest h _ => by
    obtain ⟨fuel, rfl⟩ := exists_fuel h
    rfl
  | .obj ((key, value) :: fields) => fun fuel rest h _ => by
    obtain ⟨fuel, rfl⟩ := exists_fuel h
    have hfields := readFields_write fields key value (reads value) fuel rest
    have htext : (compactWriter F.write).write (.obj ((key, value) :: fields)) ++ rest =
        '\x7b' :: ((compactWriter F.write).quoted key ++ ':' ::
          ((compactWriter F.write).write value ++
            ((compactWriter F.write).writeFields fields ++ '\x7d' :: rest))) := by
      simp [Writer.write, compactWriter]
    have hlength : ((compactWriter F.write).write value).length +
        ((compactWriter F.write).writeFields fields).length + 2 ≤
          ((compactWriter F.write).write (.obj ((key, value) :: fields))).length := by
      simp [Writer.write]
      omega
    rw [htext, readValue, skipBlanks_cons (by decide)]
    dsimp only
    rw [if_neg (by decide), if_neg (by decide), if_pos rfl, if_neg, hfields (by omega)]
    · rfl
    · simp [Writer.quoted, skipBlanks]

theorem readItems_write : (items : List (Json φ)) → ∀ item, Reads F item →
    ∀ (fuel : ℕ) (rest : List Char),
      ((compactWriter F.write).write item).length +
        ((compactWriter F.write).writeItems items).length < fuel →
      readItems F fuel ((compactWriter F.write).write item ++
        ((compactWriter F.write).writeItems items ++ ']' :: rest)) = some (item :: items, rest)
  | [] => fun item hitem fuel rest h => by
    obtain ⟨fuel, rfl⟩ := Nat.exists_eq_succ_of_ne_zero (Nat.ne_zero_of_lt h)
    have hread := hitem fuel (']' :: rest) (by omega) (noNumber_cons (by decide) rest)
    rw [Writer.writeItems, List.nil_append, readItems, hread]
    rfl
  | item' :: items => fun item hitem fuel rest h => by
    obtain ⟨fuel, rfl⟩ := Nat.exists_eq_succ_of_ne_zero (Nat.ne_zero_of_lt h)
    have hitems := readItems_write items item' (reads item') fuel rest
    have htext : (compactWriter F.write).writeItems (item' :: items) ++ ']' :: rest =
        ',' :: ((compactWriter F.write).write item' ++
          ((compactWriter F.write).writeItems items ++ ']' :: rest)) := by
      simp [Writer.writeItems, compactWriter]
    have hlength : ((compactWriter F.write).writeItems (item' :: items)).length =
        ((compactWriter F.write).write item').length +
          ((compactWriter F.write).writeItems items).length + 1 := by
      simp [Writer.writeItems, compactWriter]
    rw [htext, readItems, hitem fuel _ (by omega) (noNumber_cons (by decide) _), Option.bind_some,
      skipBlanks_cons (by decide)]
    change (readItems F fuel _).map _ = _
    rw [hitems (by omega)]
    rfl

theorem readFields_write : (fields : List (String × Json φ)) → ∀ key value, Reads F value →
    ∀ (fuel : ℕ) (rest : List Char),
      ((compactWriter F.write).write value).length +
        ((compactWriter F.write).writeFields fields).length < fuel →
      readFields F fuel ((compactWriter F.write).quoted key ++ ':' ::
        ((compactWriter F.write).write value ++ ((compactWriter F.write).writeFields fields ++
          '\x7d' :: rest))) = some ((key, value) :: fields, rest)
  | [] => fun key value hvalue fuel rest h => by
    obtain ⟨fuel, rfl⟩ := Nat.exists_eq_succ_of_ne_zero (Nat.ne_zero_of_lt h)
    have hread := hvalue fuel ('\x7d' :: rest) (by omega) (noNumber_cons (by decide) rest)
    rw [Writer.writeFields, List.nil_append, quoted_append, readFields, skipBlanks_cons (by decide)]
    change (readString _).bind _ = _
    rw [readString_quoted, Option.bind_some, skipBlanks_cons (by decide)]
    change (readValue F fuel _).bind _ = _
    rw [hread]
    rfl
  | (key', value') :: fields => fun key value hvalue fuel rest h => by
    obtain ⟨fuel, rfl⟩ := Nat.exists_eq_succ_of_ne_zero (Nat.ne_zero_of_lt h)
    have hfields := readFields_write fields key' value' (reads value') fuel rest
    have htext : (compactWriter F.write).writeFields ((key', value') :: fields) ++ '\x7d' :: rest =
        ',' :: ((compactWriter F.write).quoted key' ++ ':' ::
          ((compactWriter F.write).write value' ++
            ((compactWriter F.write).writeFields fields ++ '\x7d' :: rest))) := by
      simp [Writer.writeFields, compactWriter]
    have hlength : ((compactWriter F.write).write value').length +
        ((compactWriter F.write).writeFields fields).length + 1 ≤
          ((compactWriter F.write).writeFields ((key', value') :: fields)).length := by
      simp [Writer.writeFields, compactWriter]
      omega
    rw [htext, quoted_append, readFields, skipBlanks_cons (by decide)]
    change (readString _).bind _ = _
    rw [readString_quoted, Option.bind_some, skipBlanks_cons (by decide)]
    change (readValue F fuel _).bind _ = _
    rw [hvalue fuel _ (by omega) (noNumber_cons (by decide) _), Option.bind_some,
      skipBlanks_cons (by decide)]
    change (readFields F fuel _).map _ = _
    rw [hfields (by omega)]
    rfl

end

theorem readJson_write (F : FloatText φ) (j : Json φ) :
    readJson F ((compactWriter F.write).write j) = some j := by
  have hread := reads (F := F) j ((compactWriter F.write).write j).length []
    (Nat.le_refl _) (by rintro _ ⟨⟩)
  rw [List.append_nil] at hread
  rw [readJson, hread]
  rfl

end JsonReader

end Lib
