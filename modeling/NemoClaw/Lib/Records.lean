import NemoClaw.Lib.Json

/-! Formats of values in JSON: how a value is written, and that it is read back. A record is written
as an object, without the fields that are `None`. -/

namespace Lib

universe u v w

/-- What is written is never `null`. -/
structure Format (φ : Type u) (α : Type v) where
  write : α → Json φ
  read : Json φ → Option α
  read_write : ∀ a, read (write a) = some a
  ne_null : ∀ a, write a ≠ .null

namespace Format

variable {φ : Type u} {α : Type v}

def string : Format φ String where
  write := .str
  read
    | .str s => some s
    | _ => none
  read_write _ := rfl
  ne_null _ := by simp

def bool : Format φ Bool where
  write := .bool
  read
    | .bool b => some b
    | _ => none
  read_write _ := rfl
  ne_null _ := by simp

def int : Format φ ℤ where
  write := .int
  read
    | .int n => some n
    | _ => none
  read_write _ := rfl
  ne_null _ := by simp

/-- An integer is read as a float, too. -/
def float (ofInt : ℤ → φ) : Format φ φ where
  write := .float
  read
    | .float x => some x
    | .int n => some (ofInt n)
    | _ => none
  read_write _ := rfl
  ne_null _ := by simp

/-- The values with a property. -/
def satisfying (F : Format φ α) (p : α → Prop) [DecidablePred p] : Format φ {a // p a} where
  write a := F.write a
  read j := (F.read j).bind fun a => if h : p a then some ⟨a, h⟩ else none
  read_write a := by rw [F.read_write, Option.bind_some, dif_pos a.2]
  ne_null a := F.ne_null a

def nat : Format φ ℕ where
  write n := .int n
  read
    | .int n => if 0 ≤ n then some n.toNat else none
    | _ => none
  read_write n := by simp
  ne_null _ := by simp

/-- An enumeration, by the strings of its members. -/
def enum (members : List α) (value : α → String)
    (complete : ∀ a, a ∈ members) (injective : ∀ a b, value a = value b → a = b) :
    Format φ α where
  write a := .str (value a)
  read
    | .str s => members.find? fun a => value a = s
    | _ => none
  read_write a := by
    dsimp only
    cases h : members.find? fun b => value b = value a with
    | none => exact absurd (List.find?_eq_none.1 h a (complete a)) (by simp)
    | some b => rw [injective b a (by simpa using List.find?_some h)]
  ne_null _ := by simp

theorem mapM_map_write (F : Format φ α) (as : List α) : (as.map F.write).mapM F.read = some as := by
  induction as with
  | nil => rfl
  | cons a as ih => simp [F.read_write, ih]

def list (F : Format φ α) : Format φ (List α) where
  write as := .arr (as.map F.write)
  read
    | .arr items => items.mapM F.read
    | _ => none
  read_write := F.mapM_map_write
  ne_null _ := by simp

/-- Any object. -/
def object : Format φ (List (String × Json φ)) where
  write := .obj
  read
    | .obj fields => some fields
    | _ => none
  read_write _ := rfl
  ne_null _ := by simp

end Format

/-! ### Fields -/

/-- A field of a record. What is `None` is not written. -/
structure FieldFormat (φ : Type u) (α : Type v) where
  name : String
  write : α → Option (Json φ)
  read : Option (Json φ) → Option α
  read_write : ∀ a, read (write a) = some a

namespace FieldFormat

variable {φ : Type u} {α : Type v}

def required (name : String) (F : Format φ α) : FieldFormat φ α where
  name := name
  write a := some (F.write a)
  read j := j.bind F.read
  read_write := F.read_write

def withDefault (name : String) (F : Format φ α) (default : α) : FieldFormat φ α where
  name := name
  write a := some (F.write a)
  read
    | some j => F.read j
    | none => some default
  read_write := F.read_write

def optional (name : String) (F : Format φ α) : FieldFormat φ (Option α) where
  name := name
  write a := a.map F.write
  read
    | none | some .null => some none
    | some j => (F.read j).map some
  read_write a := by
    cases a with
    | none => rfl
    | some a =>
      have hnull := F.ne_null a
      rw [Option.map_some]
      split
      · contradiction
      · rename_i h
        exact absurd (Option.some.inj h) hnull
      · rename_i j _ h
        rw [← Option.some.inj h, F.read_write]
        rfl

end FieldFormat

/-! ### Records -/

/-- The last value of a key counts. -/
def lookupField {φ : Type u} (fields : List (String × Json φ)) (name : String) :
    Option (Json φ) := fields.reverse.lookup name

structure Record (φ : Type u) (α : Type v) where
  names : List String
  nodup : names.Nodup
  write : α → List (String × Json φ)
  keys : ∀ a, ((write a).map Prod.fst).Sublist names
  read : (String → Option (Json φ)) → Option α
  read_write : ∀ a get, (∀ name ∈ names, get name = (write a).lookup name) → read get = some a

namespace Record

variable {φ : Type u} {α : Type v} {β : Type w}

def nil : Record φ Unit where
  names := []
  nodup := List.nodup_nil
  write _ := []
  keys _ := List.Sublist.refl _
  read _ := some ()
  read_write _ _ _ := rfl

theorem lookup_eq_none {fields : List (String × Json φ)} {name : String}
    (h : name ∉ fields.map Prod.fst) : fields.lookup name = none := by
  rw [List.lookup_eq_none_iff]
  intro field hfield
  have hne : name ≠ field.1 := by
    rintro rfl
    exact h (List.mem_map_of_mem hfield)
  simpa using hne

def cons (f : FieldFormat φ α) (R : Record φ β)
    (h : f.name ∉ R.names := by exact of_decide_eq_true rfl) : Record φ (α × β) where
  names := f.name :: R.names
  nodup := List.nodup_cons.2 ⟨h, R.nodup⟩
  write x := ((f.write x.1).map fun j => (f.name, j)).toList ++ R.write x.2
  keys x := by
    cases f.write x.1 with
    | none => exact (R.keys x.2).cons _
    | some j => exact (R.keys x.2).cons_cons _
  read get := (f.read (get f.name)).bind fun a => (R.read get).map fun b => (a, b)
  read_write x get hget := by
    have hname : get f.name = f.write x.1 := by
      rw [hget _ List.mem_cons_self]
      cases f.write x.1 with
      | none => exact lookup_eq_none fun hmem => h ((R.keys x.2).subset hmem)
      | some j => simp
    have hrest : ∀ name ∈ R.names, get name = (R.write x.2).lookup name := by
      intro name hmem
      rw [hget _ (List.mem_cons_of_mem _ hmem)]
      cases f.write x.1 with
      | none => rfl
      | some j =>
        have hne : (name == f.name) = false := by
          rw [beq_eq_false_iff_ne]
          rintro rfl
          exact h hmem
        simp [List.lookup_cons, hne]
    rw [hname, f.read_write, Option.bind_some, R.read_write x.2 get hrest]
    rfl

/-- The same fields, of another type. -/
def via (R : Record φ α) (tuple : β → α) (make : α → β) (h : ∀ b, make (tuple b) = b) :
    Record φ β where
  names := R.names
  nodup := R.nodup
  write b := R.write (tuple b)
  keys b := R.keys (tuple b)
  read get := (R.read get).map make
  read_write b get hget := by rw [R.read_write (tuple b) get hget, Option.map_some, h]

/-- Of keys that are all different, the first value is the last. -/
theorem lookupField_of_nodup {fields : List (String × Json φ)}
    (h : (fields.map Prod.fst).Nodup) (name : String) :
    lookupField fields name = fields.lookup name := by
  induction fields with
  | nil => rfl
  | cons field fields ih =>
    obtain ⟨key, value⟩ := field
    rw [List.map_cons, List.nodup_cons] at h
    have hrest : fields.reverse.lookup name = fields.lookup name := ih h.2
    rw [lookupField, List.reverse_cons, List.lookup_append, hrest, List.lookup_cons]
    by_cases hkey : name = key
    · subst hkey
      rw [lookup_eq_none h.1]
      simp
    · have hne : (name == key) = false := beq_eq_false_iff_ne.2 hkey
      simp [List.lookup_cons, hne]

theorem lookupField_write (R : Record φ α) (a : α) (name : String) :
    lookupField (R.write a) name = (R.write a).lookup name :=
  lookupField_of_nodup ((R.keys a).nodup R.nodup) name

/-- A record as an object, of which other fields are not read. -/
def ignoring (R : Record φ α) : Format φ α where
  write a := .obj (R.write a)
  read
    | .obj fields => R.read (lookupField fields)
    | _ => none
  read_write a := R.read_write a _ fun name _ => R.lookupField_write a name
  ne_null _ := by simp

/-- What reads an object, if it has no other fields. -/
def readForbidding (R : Record φ α) (fields : List (String × Json φ)) : Option α :=
  if ∀ field ∈ fields, field.1 ∈ R.names then R.read (lookupField fields) else none

theorem readForbidding_write (R : Record φ α) (a : α) :
    R.readForbidding (R.write a) = some a := by
  rw [readForbidding, if_pos fun field hfield => (R.keys a).subset (List.mem_map_of_mem hfield)]
  exact R.read_write a _ fun name _ => R.lookupField_write a name

/-- A record as an object without other fields. -/
def forbidding (R : Record φ α) : Format φ α where
  write a := .obj (R.write a)
  read
    | .obj fields => R.readForbidding fields
    | _ => none
  read_write := R.readForbidding_write
  ne_null _ := by simp

end Record

end Lib
