import NemoClaw.Orchestrator.Delegation

/-! What one step of the delegation manager can do to its `delegate` calls. -/

namespace NemoClaw

open Lib

namespace DelegatePhase

/-- The call has not begun to send. -/
def preparing : DelegatePhase → Bool
  | .acquiring | .spawning _ | .stoppingPrevious _ _ => true
  | _ => false

/-- The handle that the call holds is one for `agentId`. -/
def Holds (agentId : String) : DelegatePhase → Prop
  | .stoppingPrevious agent _ | .sending agent => agent.sandboxId = agentId
  | _ => True

end DelegatePhase

/-- How the phase of a call may change. -/
structure PhaseStep (agentId : String) (old : DelegatePhase) (r : Resumption)
    (new : DelegatePhase) : Prop where
  holds : old.Holds agentId → new.Holds agentId
  preparing : new.preparing = true → old.preparing = true
  sending : ∀ agent, new = .sending agent → old.preparing = true
  returned : new = .returned → r = .resumed ∧ ∃ agent, old = .sending agent

theorem PhaseStep.raised (agentId : String) (old : DelegatePhase) (r : Resumption) :
    PhaseStep agentId old r .raised :=
  ⟨fun _ => trivial, (fun hp => by contradiction), (fun _ hp => by contradiction),
    (fun hp => by contradiction)⟩

theorem PhaseStep.prepared {agentId : String} {old new : DelegatePhase}
    (h : old.preparing = true) (r : Resumption) (hholds : old.Holds agentId → new.Holds agentId)
    (hnew : new ≠ .returned) : PhaseStep agentId old r new :=
  ⟨hholds, fun _ => h, fun _ _ => h, fun hp => absurd hp hnew⟩

namespace DelegationManager

variable {cfg : DelegationConfig} {m m' : DelegationManager}

theorem calls_raise (m : DelegationManager) (c : CallId) (task : TaskAssignPayload) :
    (m.raise c task).calls = m.calls.insert c ⟨task, .raised⟩ := by
  unfold raise releaseUnlessSpawned
  split <;> rfl

theorem calls_install (m : DelegationManager) (c : CallId) (task : TaskAssignPayload) :
    ∃ new, (m.install c task).calls = m.calls.insert c ⟨task, new⟩ ∧
      new.Holds task.agentId.val ∧ new ≠ .returned := by
  unfold install
  dsimp only
  split
  · exact ⟨_, rfl, rfl, by simp⟩
  · exact ⟨_, rfl, rfl, by simp⟩

/-- A resumed call changes its own phase at most. -/
theorem calls_advance {c : CallId} {task : TaskAssignPayload} {old : DelegatePhase}
    {r : Resumption} (h : m.advance c task old r = some m') : m'.calls = m.calls ∨
      ∃ new, m'.calls = m.calls.insert c ⟨task, new⟩ ∧ PhaseStep task.agentId.val old r new := by
  have hraise : (m.raise c task).calls = m.calls ∨
      ∃ new, (m.raise c task).calls = m.calls.insert c ⟨task, new⟩ ∧
        PhaseStep task.agentId.val old r new :=
    Or.inr ⟨_, calls_raise m c task, .raised _ _ _⟩
  unfold advance at h
  split at h
  · split_ifs at h
    obtain rfl := Option.some.inj h
    exact Or.inl rfl
  · split_ifs at h
    obtain rfl := Option.some.inj h
    exact Or.inr ⟨_, rfl, .prepared rfl _ (fun _ => trivial) (by simp)⟩
  · split_ifs at h
    obtain rfl := Option.some.inj h
    exact Or.inr ⟨_, rfl, .raised _ _ _⟩
  · obtain rfl := Option.some.inj h
    obtain ⟨new, hcalls, hholds, hnew⟩ := calls_install m c task
    exact Or.inr ⟨new, hcalls, .prepared rfl _ (fun _ => hholds) hnew⟩
  · obtain rfl := Option.some.inj h
    exact hraise
  · obtain rfl := Option.some.inj h
    exact hraise
  · obtain rfl := Option.some.inj h
    exact Or.inr ⟨_, rfl, .prepared rfl _ id (by simp)⟩
  · obtain rfl := Option.some.inj h
    exact Or.inr ⟨_, rfl, .prepared rfl _ id (by simp)⟩
  · obtain rfl := Option.some.inj h
    exact hraise
  · next agent =>
    obtain rfl := Option.some.inj h
    exact Or.inr ⟨_, rfl, fun _ => trivial, (fun hp => by contradiction),
      (fun _ hp => by contradiction), fun _ => ⟨rfl, agent, rfl⟩⟩
  · obtain rfl := Option.some.inj h
    exact Or.inr ⟨_, rfl, fun _ => trivial, (fun hp => by contradiction),
      (fun _ hp => by contradiction), (fun hp => by contradiction)⟩
  · obtain rfl := Option.some.inj h
    exact hraise
  · obtain rfl := Option.some.inj h
    exact hraise
  · obtain rfl := Option.some.inj h
    exact hraise
  · obtain rfl := Option.some.inj h
    exact hraise
  · contradiction

theorem calls_delegate (cfg : DelegationConfig) (m : DelegationManager) (c : CallId)
    (task : TaskAssignPayload) : ∃ new,
    (m.delegate cfg c task).calls = m.calls.insert c ⟨task, new⟩ ∧
      new.Holds task.agentId.val ∧ (∀ agent, new ≠ .sending agent) ∧ new ≠ .returned := by
  unfold delegate
  split_ifs
  · exact ⟨_, rfl, trivial, by simp, by simp⟩
  · exact ⟨_, rfl, trivial, by simp, by simp⟩
  · exact ⟨_, rfl, trivial, by simp, by simp⟩
  · exact ⟨_, rfl, trivial, by simp, by simp⟩

theorem calls_terminate (m : DelegationManager) (w : String) :
    (m.terminate w).calls = m.calls := by
  unfold terminate
  split <;> rfl

/-- What a step of the manager does to the calls. -/
inductive CallsStep (m m' : DelegationManager) : DelegationEvent → Prop
  | began {c task new} (hc : m.calls.lookup c = none)
      (hcalls : m'.calls = m.calls.insert c ⟨task, new⟩) (hholds : new.Holds task.agentId.val)
      (hsending : ∀ agent, new ≠ .sending agent) (hreturned : new ≠ .returned) :
      CallsStep m m' (.delegate c task)
  | moved {c r task old new} (hc : m.calls.lookup c = some ⟨task, old⟩)
      (hcalls : m'.calls = m.calls.insert c ⟨task, new⟩)
      (hphase : PhaseStep task.agentId.val old r new) : CallsStep m m' (.call c r)
  | same {e} (hcalls : m'.calls = m.calls) : CallsStep m m' e

theorem calls_step {e : DelegationEvent} (h : m.step cfg e = some m') : CallsStep m m' e := by
  cases e with
  | delegate c task =>
    simp only [step, Option.ite_none_left_eq_some, Bool.not_eq_true] at h
    obtain ⟨hc, h⟩ := h
    obtain rfl := Option.some.inj h
    obtain ⟨new, hcalls, hholds, hsending, hreturned⟩ := calls_delegate cfg m c task
    exact .began (Option.isNone_iff_eq_none.1 (Option.isSome_eq_false_iff.1 hc)) hcalls hholds
      hsending hreturned
  | call c r =>
    obtain ⟨⟨task, old⟩, hc, h⟩ := Option.bind_eq_some_iff.1 h
    rcases calls_advance h with hcalls | ⟨new, hcalls, hphase⟩
    · exact .same hcalls
    · exact .moved hc hcalls hphase
  | terminate w =>
    obtain rfl := Option.some.inj h
    exact .same (calls_terminate m w)
  | close k =>
    simp only [step, Option.ite_none_left_eq_some] at h
    obtain rfl := Option.some.inj h.2
    exact .same rfl
  | closeNext k =>
    simp only [step] at h
    split at h
    · contradiction
    · contradiction
    · obtain rfl := Option.some.inj h
      exact .same (calls_terminate _ _)

end DelegationManager

end NemoClaw
