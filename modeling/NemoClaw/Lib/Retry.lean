import Mathlib.Data.List.Basic

/-! Attempts that are tried again. Whether another attempt follows one depends on its number and on
its outcome; the first outcome that is not tried again settles the matter. -/

namespace Lib.Retry

variable {ξ : Type*} (again : ℕ → ξ → Bool)

/-- The outcome that settles the attempts, the first of which has the number `n`. -/
def settled : ℕ → List ξ → Option ξ
  | _, [] => none
  | n, x :: xs => if again n x then settled (n + 1) xs else some x

/-- The outcomes in front of it. -/
def retried : ℕ → List ξ → List ξ
  | _, [] => []
  | n, x :: xs => if again n x then x :: retried (n + 1) xs else []

variable {again}

theorem settled_append {n : ℕ} {xs : List ξ} (h : settled again n xs = none) (ys : List ξ) :
    settled again n (xs ++ ys) = settled again (n + xs.length) ys := by
  induction xs generalizing n with
  | nil => rfl
  | cons x xs ih =>
    unfold settled at h
    split_ifs at h with hagain
    rw [List.cons_append, settled, if_pos hagain, ih h, List.length_cons]
    congr 1
    omega

theorem retried_append {n : ℕ} {xs : List ξ} (h : settled again n xs = none) (ys : List ξ) :
    retried again n (xs ++ ys) = xs ++ retried again (n + xs.length) ys := by
  induction xs generalizing n with
  | nil => rfl
  | cons x xs ih =>
    unfold settled at h
    split_ifs at h with hagain
    rw [List.cons_append, retried, if_pos hagain, ih h, List.length_cons, List.cons_append]
    congr 3
    omega

/-- What is tried again only below a number of attempts is settled by then. -/
theorem settled_isSome {bound n : ℕ} (hbound : ∀ m x, again m x = true → m < bound) {xs : List ξ}
    (hn : bound < n + xs.length) (hxs : xs ≠ []) : (settled again n xs).isSome := by
  induction xs generalizing n with
  | nil => contradiction
  | cons x xs ih =>
    unfold settled
    split_ifs with hagain
    · have hlt := hbound n x hagain
      cases xs with
      | nil =>
        simp only [List.length_cons, List.length_nil] at hn
        omega
      | cons y ys =>
        apply ih
        · simp only [List.length_cons] at hn ⊢
          omega
        · exact List.cons_ne_nil y ys
    · rfl

end Lib.Retry
