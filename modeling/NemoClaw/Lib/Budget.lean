import Mathlib.Algebra.Order.Group.Nat
import NemoClaw.Lib.Machine

/-! Charged steps. A potential that pays for each of them, and that no step raises, bounds how many
a run takes. -/

namespace Lib.Machine

variable {σ ε : Type*} {M : Machine σ ε}

/-- The charged steps of a run. -/
def charged (c : ε → Bool) (tr : List (σ × ε)) : ℕ := tr.countP fun p => c p.2

/-- What is left of the potential and what was charged are together no more than there was. -/
theorem Trace.charged_le {c : ε → Bool} {tr : List (σ × ε)} {s : σ} (h : M.Trace tr s)
    (potential : σ → ℕ) (I : σ → Prop) (h0 : I M.init)
    (hstep : ∀ s e s', I s → M.step s e = some s' → I s' ∧
      potential s' + (if c e then 1 else 0) ≤ potential s) :
    potential s + charged c tr ≤ potential M.init := by
  induction h with
  | nil => exact le_rfl
  | @snoc tr s e s' h he ih =>
    have hI : I s := h.invariant h0 fun s e s' hi hs => (hstep s e s' hi hs).1
    have hpays := (hstep s e s' hI he).2
    have hlast : charged c (tr ++ [(s, e)]) = charged c tr + if c e then 1 else 0 := by
      simp [charged, List.countP_append, List.countP_singleton]
    rw [hlast]
    omega

end Lib.Machine
