import Mathlib.Data.List.Nodup
import NemoClaw.Lib.Dict

/-! Locks on keys, kept as a list of the keys that are taken. The holders are the entries of a
dictionary: what an entry is says which key it holds, if any. -/

namespace Lib

open Dict

variable {ι κ ν : Type*} [DecidableEq ι] {key : ν → Option κ}

/-- The taken keys are the keys that the entries hold, and no key is held by two. -/
structure KeyLocks (key : ν → Option κ) (taken : List κ) (d : Dict ι ν) : Prop where
  nodup : taken.Nodup
  mem_iff : ∀ k, k ∈ taken ↔ ∃ i v, d.lookup i = some v ∧ key v = some k
  single : ∀ i j v w, d.lookup i = some v → d.lookup j = some w → key v = key w →
    (key v).isSome → i = j

namespace KeyLocks

variable {taken : List κ} {d : Dict ι ν} {i : ι} {v w : ν} {k : κ}

theorem empty : KeyLocks key [] (∅ : Dict ι ν) where
  nodup := List.nodup_nil
  mem_iff k := by simp
  single i j v w hv := by simp at hv

theorem holder (hk : KeyLocks key taken d) (hv : d.lookup i = some v) (hkey : key v = some k) :
    k ∈ taken :=
  (hk.mem_iff k).2 ⟨i, v, hv, hkey⟩

/-- An entry that holds what it held before. -/
theorem keep (hk : KeyLocks key taken d) (hv : (d.lookup i).bind key = key w) :
    KeyLocks key taken (d.insert i w) := by
  have hread : ∀ j, ((d.insert i w).lookup j).bind key = (d.lookup j).bind key := by
    intro j
    by_cases he : j = i
    · subst he
      rw [AList.lookup_insert, hv]
      rfl
    · rw [AList.lookup_insert_ne he]
  have hiff : ∀ j k, (∃ v, (d.insert i w).lookup j = some v ∧ key v = some k) ↔
      ∃ v, d.lookup j = some v ∧ key v = some k := by
    intro j k
    rw [← Option.bind_eq_some_iff, ← Option.bind_eq_some_iff, hread]
  refine ⟨hk.nodup, ?_, ?_⟩
  · intro k
    rw [hk.mem_iff]
    exact exists_congr fun j => (hiff j k).symm
  · intro j j' u u' hu hu' hkey hsome
    obtain ⟨k, hk'⟩ := Option.isSome_iff_exists.1 hsome
    obtain ⟨x, hx, hxk⟩ := (hiff j k).1 ⟨u, hu, hk'⟩
    obtain ⟨x', hx', hxk'⟩ := (hiff j' k).1 ⟨u', hu', hkey.symm.trans hk'⟩
    exact hk.single j j' x x' hx hx' (hxk.trans hxk'.symm) (by rw [hxk]; rfl)

variable [DecidableEq κ]

/-- A key that is free is taken by an entry that held none. -/
theorem take (hk : KeyLocks key taken d) (hfree : k ∉ taken) (hv : (d.lookup i).bind key = none)
    (hw : key w = some k) : KeyLocks key (taken.insert k) (d.insert i w) := by
  have hold : ∀ v, d.lookup i = some v → key v = none := by
    intro v hi
    rwa [hi] at hv
  refine ⟨hk.nodup.insert, ?_, ?_⟩
  · intro k'
    rw [List.mem_insert_iff, hk.mem_iff]
    constructor
    · rintro (rfl | ⟨j, v, hj, hkey⟩)
      · exact ⟨i, w, AList.lookup_insert d, hw⟩
      · have hne : j ≠ i := by
          rintro rfl
          rw [hold v hj] at hkey
          contradiction
        exact ⟨j, v, (AList.lookup_insert_ne hne).trans hj, hkey⟩
    · rintro ⟨j, v, hj, hkey⟩
      rcases lookup_insert_eq_some.1 hj with ⟨-, rfl⟩ | ⟨-, hj⟩
      · exact Or.inl (Option.some.inj (hkey.symm.trans hw))
      · exact Or.inr ⟨j, v, hj, hkey⟩
  · intro j j' u u' hu hu' hkey hsome
    rcases lookup_insert_eq_some.1 hu with ⟨rfl, rfl⟩ | ⟨-, hu⟩
    · rcases lookup_insert_eq_some.1 hu' with ⟨rfl, -⟩ | ⟨-, hu'⟩
      · rfl
      · exact absurd (hk.holder hu' (hkey.symm.trans hw)) hfree
    · rcases lookup_insert_eq_some.1 hu' with ⟨-, rfl⟩ | ⟨-, hu'⟩
      · exact absurd (hk.holder hu (hkey.trans hw)) hfree
      · exact hk.single j j' u u' hu hu' hkey hsome

/-- The holder of a key gives it up. -/
theorem release (hk : KeyLocks key taken d) (hv : d.lookup i = some v) (hkey : key v = some k)
    (hw : key w = none) : KeyLocks key (taken.erase k) (d.insert i w) := by
  refine ⟨hk.nodup.erase k, ?_, ?_⟩
  · intro k'
    rw [hk.nodup.mem_erase_iff, hk.mem_iff]
    constructor
    · rintro ⟨hne, j, u, hj, hu⟩
      have hji : j ≠ i := by
        rintro rfl
        obtain rfl := Option.some.inj (hj.symm.trans hv)
        exact hne (Option.some.inj (hu.symm.trans hkey))
      exact ⟨j, u, (AList.lookup_insert_ne hji).trans hj, hu⟩
    · rintro ⟨j, u, hj, hu⟩
      rcases lookup_insert_eq_some.1 hj with ⟨-, rfl⟩ | ⟨hji, hj⟩
      · rw [hw] at hu
        contradiction
      · refine ⟨?_, j, u, hj, hu⟩
        rintro rfl
        exact hji (hk.single j i u v hj hv (hu.trans hkey.symm) (by rw [hu]; rfl))
  · intro j j' u u' hu hu' hsame hsome
    rcases lookup_insert_eq_some.1 hu with ⟨-, rfl⟩ | ⟨-, hu⟩
    · rw [hw] at hsome
      contradiction
    · rcases lookup_insert_eq_some.1 hu' with ⟨-, rfl⟩ | ⟨-, hu'⟩
      · rw [hsame, hw] at hsome
        contradiction
      · exact hk.single j j' u u' hu hu' hsame hsome

end KeyLocks

end Lib
