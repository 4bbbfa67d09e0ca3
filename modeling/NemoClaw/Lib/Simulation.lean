import NemoClaw.Lib.Machine

/-! Simulations between event machines. A step of the concrete machine is some steps of the abstract
one, or none. What holds along the runs of the abstract machine then holds along those of the
concrete one, as far as the relation tells. -/

namespace Lib.Machine

variable {σ ε τ δ : Type*} {M : Machine σ ε} {N : Machine τ δ}

/-- The events that the abstract machine takes in a run of the concrete one. -/
def image (f : σ → ε → List δ) (tr : List (σ × ε)) : List δ :=
  tr.flatMap fun p => f p.1 p.2

variable (M N) in
/-- `f` names the events that a step of `M` is for `N`. -/
structure Simulation (R : σ → τ → Prop) (f : σ → ε → List δ) : Prop where
  init : R M.init N.init
  step : ∀ s e s' t, R s t → M.step s e = some s' →
    ∃ steps t', N.exec t (f s e) = some (steps, t') ∧ R s' t'

theorem exec_one {t t' : τ} {d : δ} (h : N.step t d = some t') :
    N.exec t [d] = some ([(t, d)], t') := by
  simp [exec, h]

theorem exec_two {t₀ t₁ t₂ : τ} {d₀ d₁ : δ} (h₀ : N.step t₀ d₀ = some t₁)
    (h₁ : N.step t₁ d₁ = some t₂) : N.exec t₀ [d₀, d₁] = some ([(t₀, d₀), (t₁, d₁)], t₂) := by
  simp [exec, h₀, h₁]

/-- The events of a run determine where it ends. -/
theorem Trace.state_unique {tr tr' : List (σ × ε)} {s s' : σ} (h : M.Trace tr s)
    (h' : M.Trace tr' s') (hevents : tr.map Prod.snd = tr'.map Prod.snd) : s = s' := by
  induction h generalizing tr' s' with
  | nil =>
    cases h' with
    | nil => rfl
    | snoc => simp at hevents
  | @snoc tr s e s₁ _ he ih =>
    cases h' with
    | nil => simp at hevents
    | @snoc tr' s' e' s₁' h' he' =>
      rw [List.map_append, List.map_append] at hevents
      obtain ⟨hbefore, hlast⟩ := List.append_inj' hevents rfl
      obtain rfl := ih h' hbefore
      obtain rfl := List.singleton_inj.1 hlast
      exact Option.some.inj (he.symm.trans he')

variable {R : σ → τ → Prop} {f : σ → ε → List δ}

theorem Simulation.run (h : Simulation M N R f) {tr : List (σ × ε)} {s : σ} (hs : M.Trace tr s) :
    ∃ tr' t, N.Trace tr' t ∧ R s t ∧ tr'.map Prod.snd = image f tr := by
  induction hs with
  | nil => exact ⟨[], N.init, .nil, h.init, rfl⟩
  | @snoc tr s e s' _ he ih =>
    obtain ⟨tr', t, ht, hR, himage⟩ := ih
    obtain ⟨steps, t', hsteps, hR'⟩ := h.step s e s' t hR he
    obtain ⟨ht', hevents⟩ := Trace.of_exec_from ht hsteps
    refine ⟨tr' ++ steps, t', ht', hR', ?_⟩
    rw [List.map_append, himage, hevents]
    simp [image]

end Lib.Machine
