import NemoClaw.Orchestrator.Delegation
import NemoClaw.Orchestrator.FinalizationTools

/-! Re-delegations that fail (`re_delegate` of `tools/finalization.py` over `delegate` of
`orchestrator/delegation.py`). The context and the session take the follow-up before `delegate` is
awaited, and nothing takes it back. -/

namespace NemoClaw

open Lib

namespace FinalizationTools

/-- A call of `re_delegate`, with its run of `delegate`: the state of the manager, and what happens
to the manager until `delegate` is over. -/
structure Attempt where
  prompt : String
  maxTurns : Option ℤ := none
  model : Option String := none
  manager : DelegationManager
  call : CallId
  meanwhile : List DelegationEvent
  /-- the text of the exception, if `delegate` raises -/
  exc : String := ""

namespace Attempt

variable (E : ActionEnv) (cfg : DelegationConfig) (a : Attempt)

/-- What `delegate` of this assignment comes to, once it is over. -/
def delegate (task : TaskAssignPayload) : Option (Except String Unit) :=
  ((delegationMachine cfg).exec a.manager (.delegate a.call task :: a.meanwhile)).bind fun r =>
    (r.2.calls.lookup a.call).bind fun call =>
      match call.phase with
      | .returned => some (.ok ())
      | .raised => some (.error a.exc)
      | _ => none

/-- The run after the call, and what it returns or raises; none while `delegate` is suspended. -/
def reDelegate (run : FinalizationRun) : Option (FinalizationRun × Except String String) :=
  match E.delegationManager, run.session.task.followup a.prompt a.maxTurns a.model with
  | true, some followup => (a.delegate cfg followup).map fun delegated =>
    run.reDelegate E a.prompt a.maxTurns a.model delegated
  | _, _ => some (run.reDelegate E a.prompt a.maxTurns a.model (.ok ()))

/-- The call does not get as far as `delegate`: there is no manager, or the follow-up is invalid. -/
def Refused : Prop :=
  E.delegationManager = false ∨ a.prompt = "" ∨ ∃ n, a.maxTurns = some n ∧ n < 0

end Attempt

/-- It raises, or it returns an error. -/
def Failed : Except String String → Prop
  | .error _ => True
  | .ok message => isErrorMessage message = true

/-- One attempt after the other fails. -/
inductive FailedAttempts (E : ActionEnv) (cfg : DelegationConfig) :
    FinalizationRun → List Attempt → FinalizationRun → Prop
  | nil (run) : FailedAttempts E cfg run [] run
  | cons {run a run' result attempts run''} : a.reDelegate E cfg run = some (run', result) →
      Failed result → FailedAttempts E cfg run' attempts run'' →
      FailedAttempts E cfg run (a :: attempts) run''

/-- The tasks of the context and of the session and the session's state are what they were. -/
structure Intact (run run' : FinalizationRun) : Prop where
  context : run'.contextTask = run.contextTask
  session : run'.session.task = run.session.task
  state : run'.state = run.state

variable {E : ActionEnv} {cfg : DelegationConfig} {run run' run'' : FinalizationRun} {a : Attempt}
  {result : Except String String}

theorem followup_eq_none_iff (t : TaskAssignPayload) (prompt : String) (maxTurns : Option ℤ)
    (model : Option String) : t.followup prompt maxTurns model = none ↔
      prompt = "" ∨ ∃ n, maxTurns = some n ∧ n < 0 := by
  unfold TaskAssignPayload.followup resolveMaxTurns
  split
  · rename_i hprompt
    cases maxTurns with
    | none => simp [hprompt]
    | some n =>
      simp only [Option.map_eq_none_iff, hprompt, false_or]
      split
      · simp
        omega
      · split
        · simp
          omega
        · simp
          omega
  · rename_i hprompt
    simp [not_not.1 hprompt]

/-- An acknowledgement is no error. -/
theorem not_failed_reDelegated (session : FinalizationSession) :
    ¬ Failed (.ok (FinalizationActions.reDelegatedMessage session)) := by
  have hhead : (FinalizationActions.reDelegatedMessage session).toList.head? = some 'R' := by
    unfold FinalizationActions.reDelegatedMessage
    simp only [String.toList_append, List.append_assoc]
    rfl
  intro hfailed
  obtain ⟨rest, hrest⟩ := List.isPrefixOf_iff_prefix.1 hfailed
  rw [← hrest] at hhead
  have hchar : ('E' : Char) = 'R' := Option.some.inj hhead
  exact absurd hchar (by decide)

/-- What a failed attempt leaves: nothing new if it was refused, else the follow-up. -/
theorem reDelegate_cases (h : a.reDelegate E cfg run = some (run', result)) (hf : Failed result) :
    (a.Refused E ∧ run' = run) ∨ ¬ a.Refused E ∧ ∃ followup,
      run.session.task.followup a.prompt a.maxTurns a.model = some followup ∧
      run' = { run with
        contextTask := followup
        session := { run.session with task := followup } } := by
  unfold Attempt.reDelegate at h
  unfold Attempt.Refused
  rw [← followup_eq_none_iff run.session.task _ _ a.model]
  cases hm : E.delegationManager with
  | false =>
    rw [hm] at h
    simp only [FinalizationRun.reDelegate, hm] at h
    exact Or.inl ⟨Or.inl rfl, (Prod.mk.inj (Option.some.inj h)).1.symm⟩
  | true =>
    cases hfollow : run.session.task.followup a.prompt a.maxTurns a.model with
    | none =>
      rw [hm, hfollow] at h
      simp only [FinalizationRun.reDelegate, hm, hfollow] at h
      exact Or.inl ⟨Or.inr rfl, (Prod.mk.inj (Option.some.inj h)).1.symm⟩
    | some followup =>
      rw [hm, hfollow] at h
      obtain ⟨delegated, -, h⟩ := Option.map_eq_some_iff.1 h
      simp only [FinalizationRun.reDelegate, hm, hfollow] at h
      cases delegated with
      | ok =>
        obtain ⟨-, rfl⟩ := Prod.mk.inj h
        exact (not_failed_reDelegated _ hf).elim
      | error exc => exact Or.inr ⟨by simp, followup, rfl, (Prod.mk.inj h).1.symm⟩

theorem Intact.refl (run : FinalizationRun) : Intact run run := ⟨rfl, rfl, rfl⟩

/-- Failed attempts never take an iteration back. -/
theorem iterationNumber_le {attempts : List Attempt} (h : FailedAttempts E cfg run attempts run') :
    run.session.task.iterationNumber ≤ run'.session.task.iterationNumber := by
  induction h with
  | nil run => exact Nat.le_refl _
  | cons hattempt hfailed _ ih =>
    rcases reDelegate_cases hattempt hfailed with ⟨-, rfl⟩ | ⟨-, followup, hfollow, rfl⟩
    · exact ih
    · obtain ⟨-, -, -, -, hnumber⟩ := TaskAssignPayload.followup_eq hfollow
      have hle : followup.iterationNumber ≤ _ := ih
      omega

/-- Attempts that fail, however many and in whatever way, leave the tasks as they were exactly if
none of them gets as far as `delegate`. -/
theorem failed_attempts_intact_iff {attempts : List Attempt}
    (h : FailedAttempts E cfg run attempts run') :
    Intact run run' ↔ ∀ a ∈ attempts, a.Refused E := by
  induction h with
  | nil run => simp [Intact.refl]
  | @cons run a run₁ result attempts run' hattempt hfailed hrest ih =>
    rcases reDelegate_cases hattempt hfailed with ⟨hrefused, rfl⟩ |
      ⟨hreaches, followup, hfollow, rfl⟩
    · rw [ih, List.forall_mem_cons]
      exact (and_iff_right hrefused).symm
    · refine iff_of_false ?_ fun hall => hreaches (hall a List.mem_cons_self)
      intro hintact
      obtain ⟨-, -, -, -, hnumber⟩ := TaskAssignPayload.followup_eq hfollow
      have hle : followup.iterationNumber ≤ _ := iterationNumber_le hrest
      rw [hintact.session] at hle
      omega

/-! ### A failed spawn -/

/-- The spawn callback raises. -/
def failedSpawn : Attempt where
  prompt := "Add a test."
  manager := (delegationMachine {}).init
  call := 0
  meanwhile := [.call 0 .raised]
  exc := "failed to spawn sub-agent"

def unwired : ActionEnv := { FinalizationActions.plainPaths with delegationManager := false }

def fixBugRun : FinalizationRun where
  session := fixBugSession
  contextTask := fixBugSession.task

theorem failed_attempts_intact_iff_unwired : Intact fixBugRun fixBugRun ↔
    ∀ a ∈ [failedSpawn, failedSpawn], a.Refused unwired := by
  have h : FailedAttempts unwired {} fixBugRun [failedSpawn, failedSpawn] fixBugRun :=
    .cons rfl rfl (.cons rfl rfl (.nil fixBugRun))
  exact failed_attempts_intact_iff h

/-- After a failed spawn the registered context names an iteration that was never assigned. -/
theorem failed_spawn_counted : ¬ ∀ attempts run',
    FailedAttempts FinalizationActions.plainPaths {} fixBugRun attempts run' →
      Intact fixBugRun run' := by
  intro hall
  obtain ⟨run', hattempt⟩ : ∃ run', failedSpawn.reDelegate FinalizationActions.plainPaths {}
      fixBugRun = some (run', .error "failed to spawn sub-agent") := ⟨_, rfl⟩
  have hsession := (hall [failedSpawn] run' (.cons hattempt trivial (.nil _))).session
  rcases reDelegate_cases hattempt trivial with ⟨hrefused, -⟩ | ⟨-, followup, hfollow, rfl⟩
  · rcases hrefused with hmanager | hprompt | ⟨n, hturns, -⟩
    · exact Bool.noConfusion hmanager
    · exact absurd hprompt (by decide)
    · exact absurd hturns (by simp [failedSpawn])
  · obtain ⟨-, -, -, -, hnumber⟩ := TaskAssignPayload.followup_eq hfollow
    have hsame := congrArg TaskAssignPayload.iterationNumber hsession
    simp only [hnumber] at hsame
    omega

/-! ### Behind the Iterate button -/

/-- The task that a session on the registered context leaves in it when `delegate` raises is the
one that the handler of the feedback leaves there. -/
theorem context_of_feedback {s : FinalizationActions} {h : HandlerId} {request : NormalizedRequest}
    {c : CtxId} {ctx : WorkflowContext} (hc : s.contexts.lookup c = some ctx)
    (complete : TaskCompletePayload) (exc : String) :
    let session := FinalizationActions.sessionFactory c ctx complete
    let run : FinalizationRun := { session := session, contextTask := ctx.task }
    ((s.reDelegate E h request ctx session).contexts.lookup c).map WorkflowContext.task =
      some (run.reDelegate E request.text none none (.error exc)).1.contextTask := by
  simp only [FinalizationActions.reDelegate, FinalizationRun.reDelegate,
    FinalizationActions.sessionFactory]
  cases E.delegationManager with
  | false => simp [FinalizationActions.textReply, FinalizationActions.setPhase, hc]
  | true =>
    cases ctx.task.followup request.text none none with
    | none => simp [FinalizationActions.textReply, FinalizationActions.setPhase, hc]
    | some followup => simp [FinalizationActions.setPhase]

/-- That `delegate` raised changes the context no more. -/
theorem contexts_of_raised {s s' : FinalizationActions} {h : HandlerId}
    {request : NormalizedRequest} {workflowId exc : String} {session : FinalizationSession}
    (hs : s.advance E h request workflowId (.delegating session) (.raised exc) = some s') :
    s'.contexts = s.contexts := by
  obtain rfl := Option.some.inj hs
  rfl

end FinalizationTools

end NemoClaw
