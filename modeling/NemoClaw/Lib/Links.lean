import Mathlib.Data.List.Nodup
import NemoClaw.Lib.Dict

/-! A relation kept twice: one dictionary lists the members of each key, the other the keys of each
member. The rules say that adding a pair to both, taking one out of both and taking a member out of
all its keys keep the two lists in step. -/

namespace Lib

namespace Dict

variable {κ α : Type*} [DecidableEq κ]

def members (d : Dict κ (List α)) (k : κ) : List α := (d.lookup k).getD []

theorem members_of_lookup {d : Dict κ (List α)} {k : κ} {l : List α} (h : d.lookup k = some l) :
    members d k = l := by
  rw [members, h]
  rfl

theorem members_of_none {d : Dict κ (List α)} {k : κ} (h : d.lookup k = none) :
    members d k = [] := by
  rw [members, h]
  rfl

theorem members_insert (d : Dict κ (List α)) (k k' : κ) (l : List α) :
    members (d.insert k l) k' = if k' = k then l else members d k' := by
  by_cases h : k' = k
  · subst h
    simp [members]
  · simp [members, AList.lookup_insert_ne h, h]

theorem members_erase (d : Dict κ (List α)) (k k' : κ) :
    members (d.erase k) k' = if k' = k then [] else members d k' := by
  by_cases h : k' = k
  · subst h
    simp [members]
  · simp [members, AList.lookup_erase_ne h, h]

theorem members_setDefault (d : Dict κ (List α)) (k k' : κ) :
    members (setDefault d k []) k' = members d k' := by
  unfold setDefault
  split
  · rfl
  · rename_i hnone
    rw [members_insert]
    split
    · subst k'
      simp [members, Option.not_isSome_iff_eq_none.1 hnone]
    · rfl

theorem lookup_setDefault_ne {d : Dict κ (List α)} {k k' : κ} (h : k' ≠ k) (l : List α) :
    (setDefault d k l).lookup k' = d.lookup k' := by
  unfold setDefault
  split
  · rfl
  · exact AList.lookup_insert_ne h

theorem isSome_setDefault (d : Dict κ (List α)) (k : κ) (l : List α) :
    ((setDefault d k l).lookup k).isSome := by
  unfold setDefault
  split
  · assumption
  · simp

/-- No key has an empty list. -/
def NoEmpty (d : Dict κ (List α)) : Prop := ∀ k, d.lookup k ≠ some []

theorem noEmpty_insert {d : Dict κ (List α)} (h : NoEmpty d) (k : κ) {l : List α} (hl : l ≠ []) :
    NoEmpty (d.insert k l) := by
  intro k' hk
  rcases lookup_insert_eq_some.1 hk with ⟨-, rfl⟩ | ⟨-, hk⟩
  · exact hl rfl
  · exact h k' hk

variable [DecidableEq α]

/-- Take a member out of a key, and the key out with its last member. -/
def leave (a : α) (d : Dict κ (List α)) (k : κ) : Dict κ (List α) :=
  match d.lookup k with
  | none | some [] => d
  | some l => if l.erase a = [] then d.erase k else d.insert k (l.erase a)

theorem members_leave (a : α) (d : Dict κ (List α)) (k k' : κ) :
    members (leave a d k) k' = if k' = k then (members d k).erase a else members d k' := by
  unfold leave
  split
  · rename_i hnone
    rw [members_of_none hnone]
    split
    · subst k'
      exact members_of_none hnone
    · rfl
  · rename_i hempty
    rw [members_of_lookup hempty]
    split
    · subst k'
      exact members_of_lookup hempty
    · rfl
  · rename_i l _ hl
    rw [members_of_lookup hl]
    split
    · rename_i hlast
      rw [members_erase, hlast]
    · rw [members_insert]

/-- One member leaving keys leaves the others where they are. -/
theorem mem_leave_of_ne {a a' : α} (h : a' ≠ a) (d : Dict κ (List α)) (k k' : κ) :
    a' ∈ members (leave a d k) k' ↔ a' ∈ members d k' := by
  rw [members_leave]
  split
  · subst k'
    exact List.mem_erase_of_ne h
  · rfl

theorem mem_foldl_leave_of_ne {a a' : α} (h : a' ≠ a) (d : Dict κ (List α)) (ks : List κ) (k' : κ) :
    a' ∈ members (ks.foldl (leave a) d) k' ↔ a' ∈ members d k' := by
  induction ks generalizing d with
  | nil => rfl
  | cons k ks ih => rw [List.foldl_cons, ih, mem_leave_of_ne h]

theorem mem_of_mem_foldl_leave {a a' : α} {d : Dict κ (List α)} {ks : List κ} {k' : κ}
    (h : a' ∈ members (ks.foldl (leave a) d) k') : a' ∈ members d k' := by
  induction ks generalizing d with
  | nil => exact h
  | cons k ks ih =>
    have hmem := ih h
    rw [members_leave] at hmem
    split at hmem
    · subst k'
      exact List.mem_of_mem_erase hmem
    · exact hmem

theorem noEmpty_leave {d : Dict κ (List α)} (h : NoEmpty d) (a : α) (k : κ) :
    NoEmpty (leave a d k) := by
  unfold leave
  split
  · exact h
  · exact h
  · split
    · intro k' hk
      exact h k' (lookup_erase_eq_some.1 hk).2
    · rename_i hne
      exact noEmpty_insert h k hne

end Dict

open Dict

variable {κ α : Type*} [DecidableEq κ] [DecidableEq α]

structure Linked (d : Dict κ (List α)) (d' : Dict α (List κ)) : Prop where
  inverse : ∀ k a, a ∈ members d k ↔ k ∈ members d' a
  nodup : ∀ k, (members d k).Nodup
  nodup' : ∀ a, (members d' a).Nodup
  noEmpty : NoEmpty d

namespace Linked

variable {d : Dict κ (List α)} {d' d'' : Dict α (List κ)}

theorem empty : Linked (∅ : Dict κ (List α)) (∅ : Dict α (List κ)) :=
  ⟨fun _ _ => ⟨fun h => by contradiction, fun h => by contradiction⟩, fun _ => List.nodup_nil,
    fun _ => List.nodup_nil, fun _ h => by contradiction⟩

/-- Only the lists of the second dictionary matter. -/
theorem congr (h : Linked d d') (hm : ∀ a, members d'' a = members d' a) : Linked d d'' :=
  ⟨fun k a => by rw [hm, h.inverse], h.nodup, fun a => hm a ▸ h.nodup' a, h.noEmpty⟩

theorem link (h : Linked d d') (k : κ) (a : α) :
    Linked (d.insert k ((members d k).insert a)) (d'.insert a ((members d' a).insert k)) := by
  refine ⟨?_, ?_, ?_, ?_⟩
  · intro k' a'
    have hold := h.inverse k' a'
    rw [members_insert, members_insert]
    by_cases hk : k' = k
    · subst hk
      by_cases ha : a' = a
      · subst ha
        simp
      · simp [ha, hold]
    · by_cases ha : a' = a
      · subst ha
        simp [hk, hold]
      · simp [hk, ha, hold]
  · intro k'
    rw [members_insert]
    split
    · exact (h.nodup k).insert
    · exact h.nodup k'
  · intro a'
    rw [members_insert]
    split
    · exact (h.nodup' a).insert
    · exact h.nodup' a'
  · refine noEmpty_insert h.noEmpty k ?_
    intro hnil
    have hmem : a ∈ (members d k).insert a := List.mem_insert_self
    rw [hnil] at hmem
    contradiction

theorem unlink (h : Linked d d') (k : κ) (a : α) :
    Linked (leave a d k) (d'.insert a ((members d' a).erase k)) := by
  refine ⟨?_, ?_, ?_, noEmpty_leave h.noEmpty a k⟩
  · intro k' a'
    have hold := h.inverse k' a'
    rw [members_leave, members_insert]
    by_cases hk : k' = k
    · subst hk
      by_cases ha : a' = a
      · subst ha
        simp [(h.nodup k').mem_erase_iff, (h.nodup' a').mem_erase_iff]
      · simp [ha, (h.nodup k').mem_erase_iff, hold]
    · by_cases ha : a' = a
      · subst ha
        simp [hk, (h.nodup' a').mem_erase_iff, hold]
      · simp [hk, ha, hold]
  · intro k'
    rw [members_leave]
    split
    · exact (h.nodup k).erase a
    · exact h.nodup k'
  · intro a'
    rw [members_insert]
    split
    · exact (h.nodup' a).erase k
    · exact h.nodup' a'

/-- A member leaves these of its keys. -/
theorem unlinkAll (h : Linked d d') (a : α) (ks : List κ) :
    Linked (ks.foldl (leave a) d) (d'.insert a ((members d' a).diff ks)) := by
  induction ks generalizing d d' with
  | nil => exact h.congr fun a' => by rw [members_insert]; split <;> simp [*]
  | cons k ks ih =>
    refine (ih (h.unlink k a)).congr fun a' => ?_
    simp only [members_insert, List.diff_cons, if_true]
    split <;> rfl

/-- A member leaves all its keys. -/
theorem drop (h : Linked d d') (a : α) :
    Linked ((members d' a).foldl (leave a) d) (d'.erase a) := by
  have hnone : (members d' a).diff (members d' a) = [] := by
    rw [List.eq_nil_iff_forall_not_mem]
    intro k hk
    rw [(h.nodup' a).mem_sdiff_iff] at hk
    exact hk.2 hk.1
  refine (h.unlinkAll a (members d' a)).congr fun a' => ?_
  rw [members_erase, members_insert, hnone]

end Linked

end Lib
