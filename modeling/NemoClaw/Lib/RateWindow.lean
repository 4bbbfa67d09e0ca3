import Mathlib.Algebra.Order.Group.Defs
import Mathlib.Data.List.Basic
import Mathlib.Data.List.Induction
import Mathlib.Order.Defs.LinearOrder

/-! Sliding windows. Each call leaves its time behind and forgets the times that are a whole width
back. It is admitted if no more than so many are then left, its own included, and counts for the
calls behind it whether it is admitted or not. -/

namespace Lib

variable {α : Type*} [AddCommGroup α] [LinearOrder α]

section

variable (width : α) (most : ℕ)

/-- The times that are left at `now`. -/
def recent (times : List α) (now : α) : List α :=
  times.filter fun t => decide (now - t < width)

def noteCall (times : List α) (now : α) : List α := recent width times now ++ [now]

/-- What calls at these times leave behind. -/
def noteCalls (times : List α) : List α := times.foldl (noteCall width) []

def admits (times : List α) (now : α) : Bool :=
  decide ((noteCall width (noteCalls width times) now).length ≤ most)

/-- A log of calls, each with whether it was admitted. -/
inductive Verdicts : List (α × Bool) → Prop
  | nil : Verdicts []
  | snoc {log t} (h : Verdicts log) :
      Verdicts (log ++ [(t, admits width most (log.map Prod.fst) t)])

end

variable [IsOrderedAddMonoid α] {width : α} {most : ℕ} {times : List α} {now : α}

theorem recent_recent {t : α} (ht : t ≤ now) :
    recent width (recent width times t) now = recent width times now := by
  unfold recent
  rw [List.filter_filter]
  refine List.filter_congr ?_
  intro x _
  rw [Bool.and_eq_left_iff_imp]
  simp only [decide_eq_true_eq]
  intro hx
  exact lt_of_le_of_lt (sub_le_sub_right ht x) hx

/-- What was forgotten would be forgotten now. -/
theorem recent_noteCalls (hsorted : times.Pairwise (· ≤ ·)) (hnow : ∀ t ∈ times, t ≤ now) :
    recent width (noteCalls width times) now = recent width times now := by
  induction times using List.reverseRecOn with
  | nil => rfl
  | append_singleton times t ih =>
    have htail := List.pairwise_append.1 hsorted
    have hkeep : recent width (noteCalls width (times ++ [t])) now =
        recent width (noteCalls width times) now ++ recent width [t] now := by
      rw [noteCalls, List.foldl_append, List.foldl_cons, List.foldl_nil, noteCall, recent,
        List.filter_append]
      rw [← recent_recent (hnow t (by simp))]
      rfl
    rw [hkeep, ih htail.1 fun x hx => hnow x (List.mem_append_left _ hx)]
    exact (List.filter_append ..).symm

/-- A call is admitted exactly if fewer than `most` were made in the time behind it. -/
theorem admits_iff (hsorted : times.Pairwise (· ≤ ·)) (hnow : ∀ t ∈ times, t ≤ now) :
    admits width most times now = true ↔ (recent width times now).length < most := by
  rw [admits, decide_eq_true_iff, noteCall, recent_noteCalls hsorted hnow, List.length_append]
  exact Nat.succ_le_iff

/-- In no time of this width are more than `most` calls admitted. -/
theorem Verdicts.length_le {log : List (α × Bool)} (h : Verdicts width most log)
    (hsorted : (log.map Prod.fst).Pairwise (· ≤ ·)) (start : α) :
    (log.filter fun p => decide (p.2 = true ∧ start ≤ p.1 ∧ p.1 < start + width)).length ≤
      most := by
  induction h with
  | nil => exact Nat.zero_le most
  | @snoc log t h ih =>
    rw [List.map_append, List.pairwise_append] at hsorted
    obtain ⟨hlog, -, hlast⟩ := hsorted
    have hnow : ∀ x ∈ log.map Prod.fst, x ≤ t := fun x hx => hlast x hx t (by simp)
    rw [List.filter_append, List.length_append]
    let inside : α × Bool → Bool := fun p =>
      decide (p.2 = true ∧ start ≤ p.1 ∧ p.1 < start + width)
    by_cases hcounts : admits width most (log.map Prod.fst) t = true ∧ start ≤ t ∧
        t < start + width
    · have hfew := (admits_iff hlog hnow).1 hcounts.1
      have hle : (log.filter fun p =>
          decide (p.2 = true ∧ start ≤ p.1 ∧ p.1 < start + width)).length ≤
            (recent width (log.map Prod.fst) t).length := by
        rw [recent, List.filter_map, List.length_map]
        refine List.Sublist.length_le (List.monotone_filter_right _ ?_)
        intro p hp
        simp only [decide_eq_true_eq, Function.comp_apply] at hp ⊢
        rw [sub_lt_iff_lt_add]
        calc t < start + width := hcounts.2.2
          _ ≤ p.1 + width := add_le_add_left hp.2.1 width
          _ = width + p.1 := add_comm _ _
      have hone : [(t, admits width most (log.map Prod.fst) t)].filter inside =
          [(t, admits width most (log.map Prod.fst) t)] :=
        List.filter_cons_of_pos (decide_eq_true hcounts)
      rw [hone, List.length_singleton]
      omega
    · have hnone : [(t, admits width most (log.map Prod.fst) t)].filter inside = [] :=
        List.filter_cons_of_neg (by rw [decide_eq_true_iff]; exact hcounts)
      rw [hnone]
      exact ih hlog

end Lib
