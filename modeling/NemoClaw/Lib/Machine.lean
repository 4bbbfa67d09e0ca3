import Mathlib.Data.List.Induction

/-! Event machines: a state, an event chosen by the environment, and a step that may refuse
it. A run is kept as the list of its steps, so a property can speak of every state and of
every step of it. Guarded runs are the ones whose steps all meet a condition on the state
before the step and the event. -/

namespace Lib

structure Machine (σ ε : Type*) where
  init : σ
  step : σ → ε → Option σ

namespace Machine

variable {σ ε : Type*} (M : Machine σ ε)

/-- A run: its steps, each event with the state it meets, and the state it ends in. -/
inductive Trace : List (σ × ε) → σ → Prop
  | nil : Trace [] M.init
  | snoc {tr s e s'} : Trace tr s → M.step s e = some s' → Trace (tr ++ [(s, e)]) s'

/-- `P` holds in every state of the run, the last one included. -/
def Always (P : σ → Prop) (tr : List (σ × ε)) (s : σ) : Prop :=
  (∀ p ∈ tr, P p.1) ∧ P s

/-- Every step of the run meets `G`. -/
def Guarded (G : σ → ε → Prop) (tr : List (σ × ε)) : Prop :=
  ∀ p ∈ tr, G p.1 p.2

/-- Run a list of events; the steps taken and the last state. -/
def exec : σ → List ε → Option (List (σ × ε) × σ)
  | s, [] => some ([], s)
  | s, e :: es => (M.step s e).bind fun s' => (exec s' es).map fun r => ((s, e) :: r.1, r.2)

variable {M}

theorem guarded_snoc {G : σ → ε → Prop} {tr : List (σ × ε)} {s : σ} {e : ε} :
    Guarded G (tr ++ [(s, e)]) ↔ Guarded G tr ∧ G s e := by
  simp [Guarded, or_imp, forall_and]

theorem always_snoc {P : σ → Prop} {tr : List (σ × ε)} {s s' : σ} {e : ε} :
    Always P (tr ++ [(s, e)]) s' ↔ Always P tr s ∧ P s' := by
  simp [Always, or_imp, forall_and]

theorem Always.imp {P Q : σ → Prop} {tr : List (σ × ε)} {s : σ} (h : Always P tr s)
    (hPQ : ∀ s, P s → Q s) : Always Q tr s :=
  ⟨fun p hp => hPQ p.1 (h.1 p hp), hPQ s h.2⟩

namespace Trace

variable {tr : List (σ × ε)} {s s' : σ} {e : ε}

/-- An invariant of the steps that meet `G` holds in the last state of a guarded run. -/
theorem guarded_invariant {G : σ → ε → Prop} {I : σ → Prop} (h : M.Trace tr s)
    (hG : Guarded G tr) (h0 : I M.init)
    (hstep : ∀ s e s', I s → G s e → M.step s e = some s' → I s') : I s := by
  induction h with
  | nil => exact h0
  | @snoc tr s e s' _ he ih =>
    obtain ⟨hG, hg⟩ := guarded_snoc.1 hG
    exact hstep s e s' (ih hG) hg he

theorem invariant {I : σ → Prop} (h : M.Trace tr s) (h0 : I M.init)
    (hstep : ∀ s e s', I s → M.step s e = some s' → I s') : I s :=
  h.guarded_invariant (G := fun _ _ => True) (fun _ _ => trivial) h0
    fun s e s' hi _ he => hstep s e s' hi he

/-- The part of a run before one of its steps is a run. -/
theorem prefix_of_mem (h : M.Trace tr s) {p : σ × ε} (hp : p ∈ tr) :
    ∃ pre, pre <+: tr ∧ M.Trace pre p.1 ∧ ∃ s', M.step p.1 p.2 = some s' := by
  induction h with
  | nil => simp at hp
  | @snoc tr s e s' h he ih =>
    rcases List.mem_append.1 hp with hp | hp
    · obtain ⟨pre, hpre, hrun⟩ := ih hp
      exact ⟨pre, hpre.trans (List.prefix_append _ _), hrun⟩
    · obtain rfl := List.mem_singleton.1 hp
      exact ⟨tr, List.prefix_append _ _, h, s', he⟩

theorem last (h : M.Trace (tr ++ [(s, e)]) s') : M.Trace tr s ∧ M.step s e = some s' := by
  generalize htr : tr ++ [(s, e)] = tr' at h
  cases h with
  | nil => simp at htr
  | snoc h he =>
    obtain ⟨rfl, hp⟩ := List.append_inj' htr rfl
    obtain ⟨rfl, rfl⟩ := Prod.mk.inj (List.head_eq_of_cons_eq hp)
    exact ⟨h, he⟩

/-- A run up to one of its steps. -/
theorem before {pre post : List (σ × ε)} {p : σ × ε} (h : M.Trace (pre ++ p :: post) s) :
    M.Trace pre p.1 := by
  induction post using List.reverseRecOn generalizing s with
  | nil => exact h.last.1
  | append_singleton post q ih =>
    rw [← List.cons_append, ← List.append_assoc] at h
    exact ih h.last.1

theorem of_append {pre post : List (σ × ε)} (h : M.Trace (pre ++ post) s) :
    ∃ s', M.Trace pre s' := by
  cases post with
  | nil => exact ⟨s, by simpa using h⟩
  | cons p post => exact ⟨p.1, h.before⟩

/-- What holds behind a step, and is kept by the later ones that meet `G`, holds of all that
followed the step. -/
theorem since {G : σ → ε → Prop} {I : List (σ × ε) → σ → Prop} {pre later : List (σ × ε)}
    {p : σ × ε} (h : M.Trace (pre ++ p :: later) s) (hG : Guarded G later)
    (h0 : ∀ s', M.step p.1 p.2 = some s' → I [] s')
    (hstep : ∀ l s e s', I l s → G s e → M.step s e = some s' → I (l ++ [(s, e)]) s') :
    I later s := by
  induction later using List.reverseRecOn generalizing s with
  | nil => exact h0 s h.last.2
  | append_singleton l q ih =>
    rw [← List.cons_append, ← List.append_assoc] at h
    obtain ⟨hrun, he⟩ := h.last
    obtain ⟨hG, hg⟩ := guarded_snoc.1 hG
    exact hstep l q.1 q.2 s (ih hrun hG) hg he

/-- What holds behind a step, and is kept by every step, holds in all states that follow it. -/
theorem always_since {I : σ → Prop} {pre later : List (σ × ε)} {p : σ × ε}
    (h : M.Trace (pre ++ p :: later) s) (h0 : ∀ s', M.step p.1 p.2 = some s' → I s')
    (hstep : ∀ s e s', I s → M.step s e = some s' → I s') : Always I later s := by
  refine h.since (G := fun _ _ => True) (I := Always I) (fun _ _ => trivial) ?_ ?_
  · intro s' hs
    exact ⟨by simp, h0 s' hs⟩
  · intro later s e s' hi _ hs
    exact always_snoc.2 ⟨hi, hstep s e s' hi.2 hs⟩

/-- What holds in all states that follow a step holds right behind it. -/
theorem next_of_since {P : σ → Prop} {pre later : List (σ × ε)} {p : σ × ε}
    (h : M.Trace (pre ++ p :: later) s) (ha : Always P later s)
    (hs : M.step p.1 p.2 = some s') : P s' := by
  cases later with
  | nil =>
    obtain rfl := Option.some.inj (h.last.2.symm.trans hs)
    exact ha.2
  | cons q later =>
    rw [List.append_cons] at h
    have hlast := h.before.last.2
    obtain rfl := Option.some.inj (hlast.symm.trans hs)
    exact ha.1 q List.mem_cons_self

theorem always_of_guarded {G : σ → ε → Prop} {I : σ → Prop} (h : M.Trace tr s)
    (hG : Guarded G tr) (h0 : I M.init)
    (hstep : ∀ s e s', I s → G s e → M.step s e = some s' → I s') : Always I tr s := by
  refine ⟨?_, h.guarded_invariant hG h0 hstep⟩
  intro p hp
  obtain ⟨pre, hpre, hrun, -⟩ := h.prefix_of_mem hp
  exact hrun.guarded_invariant (fun q hq => hG q (hpre.subset hq)) h0 hstep

/-- What holds throughout a run holds behind each of its steps. -/
theorem next_of_always {P : σ → Prop} (h : M.Trace tr s) (ha : Always P tr s) {p : σ × ε}
    (hp : p ∈ tr) (hs : M.step p.1 p.2 = some s') : P s' := by
  induction h with
  | nil => simp at hp
  | @snoc tr s e s'' _ he ih =>
    obtain ⟨hbefore, hlast⟩ := always_snoc.1 ha
    rcases List.mem_append.1 hp with hp | hp
    · exact ih hbefore hp
    · obtain rfl := List.mem_singleton.1 hp
      obtain rfl := Option.some.inj (he.symm.trans hs)
      exact hlast

theorem always_of_invariant {I : σ → Prop} (h : M.Trace tr s) (h0 : I M.init)
    (hstep : ∀ s e s', I s → M.step s e = some s' → I s') : Always I tr s :=
  h.always_of_guarded (G := fun _ _ => True) (fun _ _ => trivial) h0
    fun s e s' hi _ he => hstep s e s' hi he

/-- When a step keeps `P` exactly if it meets `G`, a run keeps `P` throughout exactly if all
its steps meet `G`. -/
theorem always_iff_guarded {G : σ → ε → Prop} {P : σ → Prop} (h : M.Trace tr s) (h0 : P M.init)
    (hstep : ∀ tr s e s', M.Trace tr s → P s → M.step s e = some s' → (P s' ↔ G s e)) :
    Always P tr s ↔ Guarded G tr := by
  induction h with
  | nil => simp [Always, Guarded, h0]
  | @snoc tr s e s' h he ih =>
    rw [always_snoc, guarded_snoc, ih]
    apply and_congr_right
    intro hG
    exact hstep tr s e s' h (ih.2 hG).2 he

/-- When `I` is kept by the steps that meet `G`, and a step from a state with `I` that keeps `P`
meets `G`, a run keeps `P` throughout exactly if all its steps meet `G`. -/
theorem always_iff_guarded_of_invariant {G : σ → ε → Prop} {I P : σ → Prop} (h : M.Trace tr s)
    (h0 : I M.init) (hI : ∀ s, I s → P s)
    (hstep : ∀ s e s', I s → M.step s e = some s' → (P s' → G s e) ∧ (G s e → I s')) :
    Always P tr s ↔ Guarded G tr := by
  have hkeep : ∀ s e s', I s → G s e → M.step s e = some s' → I s' :=
    fun s e s' hi hg he => (hstep s e s' hi he).2 hg
  constructor
  · intro halways
    induction h with
    | nil => simp [Guarded]
    | @snoc tr s e s' h he ih =>
      obtain ⟨hbefore, hp⟩ := always_snoc.1 halways
      have hg := ih hbefore
      exact guarded_snoc.2 ⟨hg, (hstep s e s' (h.guarded_invariant hg h0 hkeep) he).1 hp⟩
  · intro hg
    exact (h.always_of_guarded hg h0 hkeep).imp hI

theorem of_exec_from (h : M.Trace tr s) {es : List ε} {r : List (σ × ε) × σ}
    (he : M.exec s es = some r) : M.Trace (tr ++ r.1) r.2 ∧ r.1.map Prod.snd = es := by
  induction es generalizing tr s r with
  | nil =>
    obtain rfl := Option.some.inj he
    exact ⟨by simpa using h, rfl⟩
  | cons e es ih =>
    obtain ⟨s₁, h₁, hrest⟩ := Option.bind_eq_some_iff.1 he
    obtain ⟨r₁, hr₁, rfl⟩ := Option.map_eq_some_iff.1 hrest
    obtain ⟨htr, hmap⟩ := ih (h.snoc h₁) hr₁
    exact ⟨by simpa using htr, by simp [hmap]⟩

/-- A boolean check of the run that a list of events makes, as a fact about a run. -/
theorem of_check (es : List ε) {p : List (σ × ε) → σ → Bool}
    (he : (M.exec M.init es).map (fun r => p r.1 r.2) = some true) :
    ∃ tr s, M.Trace tr s ∧ tr.map Prod.snd = es ∧ p tr s = true := by
  obtain ⟨⟨tr, s⟩, hr, hp⟩ := Option.map_eq_some_iff.1 he
  obtain ⟨htr, hmap⟩ := of_exec_from (M := M) .nil hr
  exact ⟨tr, s, by simpa using htr, hmap, hp⟩

/-- The same for runs whose steps all meet `G`, checked by `g`. -/
theorem of_guarded_check (es : List ε) {G : σ → ε → Prop} {g : σ → ε → Bool}
    (hg : ∀ s e, g s e = true → G s e)
    (he : (M.exec M.init es).map (fun r => r.1.all fun q => g q.1 q.2) = some true) :
    ∃ tr s, M.Trace tr s ∧ tr.map Prod.snd = es ∧ Guarded G tr := by
  obtain ⟨tr, s, htr, hmap, hall⟩ := of_check es (p := fun tr _ => tr.all fun q => g q.1 q.2) he
  exact ⟨tr, s, htr, hmap, fun q hq => hg q.1 q.2 (List.all_eq_true.1 hall q hq)⟩

end Trace

end Machine

end Lib
