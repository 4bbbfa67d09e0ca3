import NemoClaw.Lib.Machine

/-! A machine with an observer beside it. The two step in any order; the observer sees the state of
the machine, and the machine knows nothing of the observer. -/

namespace Lib

namespace Machine

variable {σ ε τ φ : Type*}

def beside (M : Machine σ ε) (start : τ) (watch : σ → τ → φ → Option τ) :
    Machine (σ × τ) (ε ⊕ φ) where
  init := (M.init, start)
  step x
    | .inl e => (M.step x.1 e).map fun s => (s, x.2)
    | .inr f => (watch x.1 x.2 f).map fun t => (x.1, t)

/-- The steps of the machine itself. -/
def own (tr : List ((σ × τ) × (ε ⊕ φ))) : List (σ × ε) :=
  tr.filterMap fun p => p.2.getLeft?.map fun e => (p.1.1, e)

variable {M : Machine σ ε} {start : τ} {watch : σ → τ → φ → Option τ}
  {tr : List ((σ × τ) × (ε ⊕ φ))} {x : σ × τ}

theorem own_append (tr tr' : List ((σ × τ) × (ε ⊕ φ))) : own (tr ++ tr') = own tr ++ own tr' :=
  List.filterMap_append

/-- The machine runs as it does alone. -/
theorem trace_own (h : (M.beside start watch).Trace tr x) : M.Trace (own tr) x.1 := by
  induction h with
  | nil => exact .nil
  | @snoc tr x e x' _ he ih =>
    rw [own_append]
    cases e with
    | inl e =>
      obtain ⟨s, hs, rfl⟩ := Option.map_eq_some_iff.1 he
      exact ih.snoc hs
    | inr f =>
      obtain ⟨t, -, rfl⟩ := Option.map_eq_some_iff.1 he
      have hnone : own [(x, (Sum.inr f : ε ⊕ φ))] = [] := rfl
      rw [hnone, List.append_nil]
      exact ih

/-- What the machine and the observer both keep. -/
theorem beside_invariant {I : σ → τ → Prop} (h : (M.beside start watch).Trace tr x)
    (h0 : I M.init start)
    (hmachine : ∀ s t e s', I s t → M.step s e = some s' → I s' t)
    (hwatch : ∀ s t f t', I s t → watch s t f = some t' → I s t') : I x.1 x.2 := by
  refine h.invariant (I := fun x => I x.1 x.2) h0 ?_
  intro x e x' hi he
  cases e with
  | inl e =>
    obtain ⟨s, hs, rfl⟩ := Option.map_eq_some_iff.1 he
    exact hmachine _ _ e _ hi hs
  | inr f =>
    obtain ⟨t, ht, rfl⟩ := Option.map_eq_some_iff.1 he
    exact hwatch _ _ f _ hi ht

end Machine

end Lib
