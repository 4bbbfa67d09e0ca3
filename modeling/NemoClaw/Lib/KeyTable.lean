import Mathlib.Data.List.Basic
import Mathlib.Data.List.Nodup

/-! Tables under a primary key that refuse a second row for a key. Whatever is inserted, and however
often, the first row of each key is the one that stays. -/

namespace Lib

structure KeyTable {κ ρ : Type*} (key : ρ → κ) where
  rows : List ρ
  primaryKey : (rows.map key).Nodup

namespace KeyTable

variable {κ ρ : Type*} {key : ρ → κ}

def keys (T : KeyTable key) : List κ := T.rows.map key

def empty : KeyTable key := ⟨[], List.nodup_nil⟩

theorem primaryKey_append {T : KeyTable key} {r : ρ} (h : key r ∉ T.keys) :
    ((T.rows ++ [r]).map key).Nodup := by
  rw [List.map_append, List.map_singleton]
  refine List.nodup_append.2 ⟨T.primaryKey, List.nodup_singleton _, ?_⟩
  intro k hk k' hk'
  obtain rfl := List.mem_singleton.1 hk'
  rintro rfl
  exact h hk

variable [DecidableEq κ] (T : KeyTable key)

/-- An insert, unless there is a row with its key. -/
def insert (r : ρ) : Option (KeyTable key) :=
  if h : key r ∈ T.keys then none else some ⟨T.rows ++ [r], primaryKey_append h⟩

/-- An insert that is given up when it is refused. -/
def insertNew (r : ρ) : KeyTable key := (T.insert r).getD T

def insertAll (rs : List ρ) : KeyTable key := rs.foldl insertNew T

def row? (k : κ) : Option ρ := T.rows.find? fun r => decide (key r = k)

/-! ### One insert -/

theorem insertNew_of_mem {r : ρ} (h : key r ∈ T.keys) : T.insertNew r = T := by
  rw [insertNew, insert, dif_pos h]
  rfl

theorem rows_insertNew {r : ρ} (h : key r ∉ T.keys) : (T.insertNew r).rows = T.rows ++ [r] := by
  rw [insertNew, insert, dif_neg h]
  rfl

theorem mem_keys_insertNew (r : ρ) (k : κ) : k ∈ (T.insertNew r).keys ↔ k ∈ T.keys ∨ key r = k := by
  by_cases h : key r ∈ T.keys
  · rw [T.insertNew_of_mem h]
    constructor
    · exact Or.inl
    · rintro (hk | rfl)
      · exact hk
      · exact h
  · rw [keys, T.rows_insertNew h, List.map_append, List.mem_append, List.map_singleton,
      List.mem_singleton, eq_comm (a := k)]
    rfl

theorem row?_eq_none_iff (k : κ) : T.row? k = none ↔ k ∉ T.keys := by
  rw [row?, List.find?_eq_none, keys, List.mem_map]
  simp

/-- An insert shows only under a key that had no row. -/
theorem row?_insertNew (r : ρ) (k : κ) :
    (T.insertNew r).row? k = (T.row? k).or (if key r = k then some r else none) := by
  by_cases h : key r ∈ T.keys
  · rw [T.insertNew_of_mem h]
    split
    · subst k
      obtain ⟨q, hq⟩ :=
        Option.ne_none_iff_exists'.1 (mt (T.row?_eq_none_iff (key r)).1 (not_not.2 h))
      rw [hq, Option.some_or]
    · rw [Option.or_none]
  · rw [row?, T.rows_insertNew h, List.find?_append]
    congr 1
    split <;> simp_all

/-! ### Many inserts -/

theorem insertAll_append (rs rs' : List ρ) :
    T.insertAll (rs ++ rs') = (T.insertAll rs).insertAll rs' := by
  simp [insertAll]

theorem mem_keys_insertAll (rs : List ρ) (k : κ) :
    k ∈ (T.insertAll rs).keys ↔ k ∈ T.keys ∨ ∃ r ∈ rs, key r = k := by
  induction rs generalizing T with
  | nil => simp [insertAll]
  | cons r rs ih =>
    have hcons : T.insertAll (r :: rs) = (T.insertNew r).insertAll rs := rfl
    rw [hcons, ih, mem_keys_insertNew, or_assoc, List.exists_mem_cons_iff]

/-- The row of a key is the one that was inserted first. -/
theorem row?_insertAll (rs : List ρ) (k : κ) :
    (T.insertAll rs).row? k = (T.row? k).or (rs.find? fun r => decide (key r = k)) := by
  induction rs generalizing T with
  | nil => simp [insertAll]
  | cons r rs ih =>
    have hcons : T.insertAll (r :: rs) = (T.insertNew r).insertAll rs := rfl
    rw [hcons, ih, row?_insertNew, Option.or_assoc, List.find?_cons]
    by_cases h : key r = k <;> simp [h]

/-- Rows whose keys are all taken change nothing. -/
theorem insertAll_of_mem {rs : List ρ} (h : ∀ r ∈ rs, key r ∈ T.keys) : T.insertAll rs = T := by
  induction rs with
  | nil => rfl
  | cons r rs ih =>
    have hcons : T.insertAll (r :: rs) = (T.insertNew r).insertAll rs := rfl
    rw [hcons, T.insertNew_of_mem (h r List.mem_cons_self)]
    exact ih fun q hq => h q (List.mem_cons_of_mem _ hq)

end KeyTable

end Lib
