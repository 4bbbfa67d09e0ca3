import Mathlib.Data.Finset.Basic
import Mathlib.Data.Set.Insert

/-! Names that are replaced in a set one at a time. When no new name is an old one, the order of the
replacements and their repetition do not matter: the set is the original with the names of those
replaced so far exchanged. -/

namespace Lib

variable {ι α : Type*} {name newName : ι → α}

def replace [DecidableEq α] (old new : α) (s : Finset α) : Finset α :=
  if old ∈ s then insert new (s.erase old) else s

theorem mem_replace [DecidableEq α] {old new a : α} {s : Finset α} :
    a ∈ replace old new s ↔ (old ∈ s ∧ a = new) ∨ (a ∈ s ∧ a ≠ old) := by
  unfold replace
  split_ifs with h
  · rw [Finset.mem_insert, Finset.mem_erase]
    tauto
  · constructor
    · intro ha
      exact Or.inr ⟨ha, fun he => h (he ▸ ha)⟩
    · rintro (⟨hold, -⟩ | ⟨ha, -⟩)
      · exact absurd hold h
      · exact ha

variable (name newName) in
/-- `t` is `s` with the names of `D` replaced. -/
def Renamed (D : Set ι) (s t : Finset α) : Prop :=
  ∀ a, a ∈ t ↔ (∃ i ∈ D, a = newName i ∧ name i ∈ s) ∨ (a ∈ s ∧ ∀ i ∈ D, a ≠ name i)

theorem renamed_refl (s : Finset α) : Renamed name newName ∅ s s := by
  intro a
  simp

section Fresh

variable (hname : name.Injective) (hfresh : ∀ i j, newName i ≠ name j)
include hfresh

theorem Renamed.name_mem {D : Set ι} {s t : Finset α} (h : Renamed name newName D s t) (k : ι) :
    name k ∈ t ↔ name k ∈ s ∧ ∀ i ∈ D, name k ≠ name i := by
  rw [h (name k)]
  constructor
  · rintro (⟨i, -, heq, -⟩ | hright)
    · exact absurd heq.symm (hfresh i k)
    · exact hright
  · exact Or.inr

/-- Where all names but one were replaced, that one is missing only if it stands in the set. -/
theorem Renamed.univ_iff {k : ι} {s t : Finset α} (hname : name.Injective)
    (h : Renamed name newName {k}ᶜ s t) :
    Renamed name newName Set.univ s t ↔ name k ∉ s := by
  constructor
  · intro hall hmem
    have hkept : name k ∈ t := by
      refine (h.name_mem hfresh k).2 ⟨hmem, ?_⟩
      intro i hi heq
      exact hi (hname heq).symm
    exact ((hall.name_mem hfresh k).1 hkept).2 k trivial rfl
  · intro hnot a
    rw [h a]
    constructor
    · rintro (⟨i, -, heq, hmem⟩ | ⟨hmem, hne⟩)
      · exact Or.inl ⟨i, trivial, heq, hmem⟩
      · refine Or.inr ⟨hmem, ?_⟩
        intro i _ heq
        by_cases hik : i = k
        · rw [heq, hik] at hmem
          exact hnot hmem
        · exact hne i hik heq
    · rintro (⟨i, -, heq, hmem⟩ | ⟨hmem, hne⟩)
      · refine Or.inl ⟨i, ?_, heq, hmem⟩
        rintro rfl
        exact hnot hmem
      · exact Or.inr ⟨hmem, fun i _ => hne i trivial⟩

include hname

theorem Renamed.replace [DecidableEq α] {D : Set ι} {s t : Finset α}
    (h : Renamed name newName D s t) (k : ι) :
    Renamed name newName (insert k D) s (replace (name k) (newName k) t) := by
  intro a
  rw [mem_replace, h.name_mem hfresh, h a]
  constructor
  · rintro (⟨⟨hk, -⟩, rfl⟩ | ⟨⟨i, hi, rfl, hmem⟩ | ⟨hmem, hne⟩, hnot⟩)
    · exact Or.inl ⟨k, Set.mem_insert k D, rfl, hk⟩
    · exact Or.inl ⟨i, Set.mem_insert_of_mem k hi, rfl, hmem⟩
    · exact Or.inr ⟨hmem, Set.forall_mem_insert.2 ⟨hnot, hne⟩⟩
  · rintro (⟨i, hi, rfl, hmem⟩ | ⟨hmem, hne⟩)
    · by_cases hiD : i ∈ D
      · exact Or.inr ⟨Or.inl ⟨i, hiD, rfl, hmem⟩, hfresh i k⟩
      · obtain rfl := (Set.mem_insert_iff.1 hi).resolve_right hiD
        refine Or.inl ⟨⟨hmem, ?_⟩, rfl⟩
        intro j hj heq
        rw [hname heq] at hiD
        exact hiD hj
    · exact Or.inr ⟨Or.inr ⟨hmem, fun i hi => hne i (Set.mem_insert_of_mem k hi)⟩,
        hne k (Set.mem_insert k D)⟩

end Fresh

end Lib
