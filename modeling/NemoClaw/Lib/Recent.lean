import Mathlib.Algebra.Ring.Parity
import Mathlib.Data.List.Chain
import Mathlib.Data.List.DropRight

/-! Logs of which only the last entries are kept. Keeping the last `n` after each append keeps the
last `n` of all; a log made of blocks of one length is cut between two blocks exactly if that
length divides `n`. -/

namespace Lib

variable {α β : Type*}

theorem length_rtake (xs : List α) (n : ℕ) : (xs.rtake n).length = min n xs.length := by
  rw [List.rtake, List.length_drop]
  omega

theorem rtake_suffix (xs : List α) (n : ℕ) : xs.rtake n <:+ xs := List.drop_suffix _ _

theorem rtake_eq_self {xs : List α} {n : ℕ} (h : xs.length ≤ n) : xs.rtake n = xs := by
  rw [List.rtake, Nat.sub_eq_zero_of_le h, List.drop_zero]

theorem rtake_append_of_le {xs ys : List α} {n : ℕ} (h : n ≤ ys.length) :
    (xs ++ ys).rtake n = ys.rtake n := by
  have hcount : (xs ++ ys).length - n = xs.length + (ys.length - n) := by
    rw [List.length_append, Nat.add_sub_assoc h]
  rw [List.rtake, List.rtake, hcount, List.drop_append, List.drop_eq_nil_of_le (by omega),
    List.nil_append, Nat.add_sub_cancel_left]

/-- What was dropped before is dropped again. -/
theorem rtake_rtake_append (xs ys : List α) (n : ℕ) :
    (xs.rtake n ++ ys).rtake n = (xs ++ ys).rtake n := by
  rcases Nat.le_total xs.length n with hle | hle
  · rw [rtake_eq_self hle]
  · have hlen : n ≤ (xs.rtake n ++ ys).length := by
      rw [List.length_append, length_rtake]
      omega
    have hsplit : xs ++ ys = xs.take (xs.length - n) ++ (xs.rtake n ++ ys) := by
      rw [← List.append_assoc, List.rtake, List.take_append_drop]
    rw [hsplit, rtake_append_of_le hlen]

section Blocks

variable {f : α → List β} {k : ℕ} (hf : ∀ x, (f x).length = k)
include hf

theorem length_flatMap_blocks (xs : List α) : (xs.flatMap f).length = k * xs.length := by
  induction xs with
  | nil => simp
  | cons x xs ih =>
    rw [List.flatMap_cons, List.length_append, ih, hf, List.length_cons, Nat.mul_succ,
      Nat.add_comm]

theorem drop_flatMap_blocks (xs : List α) (n : ℕ) :
    (xs.flatMap f).drop (k * n) = (xs.drop n).flatMap f := by
  induction n generalizing xs with
  | zero => simp
  | succ n ih =>
    cases xs with
    | nil => simp
    | cons x xs =>
      rw [List.flatMap_cons, List.drop_succ_cons, ← ih xs, Nat.mul_succ, Nat.add_comm,
        List.drop_append, List.drop_eq_nil_of_le (by rw [hf]; omega), hf, List.nil_append,
        Nat.add_sub_cancel_left]

theorem rtake_flatMap_blocks (xs : List α) (n : ℕ) :
    (xs.flatMap f).rtake (k * n) = (xs.rtake n).flatMap f := by
  rw [List.rtake, length_flatMap_blocks hf, ← Nat.mul_sub, drop_flatMap_blocks hf, List.rtake]

/-- The kept entries are whole blocks. -/
theorem rtake_blocks_iff (xs : List α) (n : ℕ) :
    (∃ ys, ys <:+ xs ∧ (xs.flatMap f).rtake n = ys.flatMap f) ↔ k ∣ n ∨ k * xs.length ≤ n := by
  constructor
  · rintro ⟨ys, -, hys⟩
    have hlen := congrArg List.length hys
    rw [length_rtake, length_flatMap_blocks hf, length_flatMap_blocks hf] at hlen
    rcases Nat.le_total (k * xs.length) n with hle | hle
    · exact Or.inr hle
    · rw [Nat.min_eq_left hle] at hlen
      exact Or.inl ⟨ys.length, hlen⟩
  · rintro (⟨m, rfl⟩ | hle)
    · exact ⟨xs.rtake m, rtake_suffix xs m, rtake_flatMap_blocks hf xs m⟩
    · rw [← length_flatMap_blocks hf] at hle
      exact ⟨xs, List.suffix_rfl, rtake_eq_self hle⟩

end Blocks

/-- Along a list whose neighbours differ, the ends agree exactly if the length is odd. -/
theorem head_eq_last_iff {c : α → Bool} {x : α} {xs : List α}
    (h : (x :: xs).IsChain fun a b => c a ≠ c b) :
    c x = c ((x :: xs).getLast (by simp)) ↔ Odd (x :: xs).length := by
  induction xs generalizing x with
  | nil => simp
  | cons y ys ih =>
    obtain ⟨hne, htail⟩ := List.isChain_cons_cons.1 h
    rw [List.getLast_cons_cons, List.length_cons, Nat.odd_add_one, ← ih htail]
    cases hx : c x <;> cases hy : c y <;> simp_all

end Lib
