import NemoClaw.Agent.Progress
import NemoClaw.Orchestrator.Approvals
import NemoClaw.Orchestrator.Feedback

/-! Progress of `Orchestrator.handle`. Every request goes on to its end, through its run or through
its finalization task, and each of its awaits brings it nearer to it. -/

namespace NemoClaw

open Lib

/-! ### The finalization actions -/

/-- The awaits to come. -/
def ActionPhase.left : ActionPhase → ℕ
  | .git _ _ left _ => left.length + 4
  | .creatingPr _ _ => 3
  | .renderingPush _ _ | .renderingDiscard _ _ | .delegating _ => 2
  | .deregistering _ | .renderingReDelegation _ => 1
  | .replied _ | .raised | .cancelled => 0

namespace FinalizationActions

/-- A registered workflow of this name has an empty id in its context. -/
def nameless (s : FinalizationActions) (w : String) : Bool :=
  (s.getWorkflow w).any fun workflow => decide (workflow.2.workflowId = "")

/-- A click that builds a completion for a workflow without an id. -/
def clicksNameless (s : FinalizationActions) (action : ActionPayload) : Bool :=
  decide (action.actionId = finalizationActionPushPr ∨
    action.actionId = finalizationActionDiscard) && s.nameless action.value

/-- A handler goes on without raising, with less than `n` awaits to come. -/
def Goes (s s' : FinalizationActions) (h : HandlerId) (n : ℕ) : Prop :=
  ∃ t, s'.tasks = s.tasks.insert h t ∧ t.phase ≠ .raised ∧ t.phase.left < n

/-- A handler begins, and raises at once or not. -/
def Begins (s s' : FinalizationActions) (h : HandlerId) (raises : Bool) : Prop :=
  ∃ t, s'.tasks = s.tasks.insert h t ∧ (t.phase = .raised ↔ raises = true)

variable {E : ActionEnv} {s s' : FinalizationActions} {h : HandlerId}
  {request : NormalizedRequest} {w : String} {n : ℕ}

theorem Goes.begins (hg : Goes s s' h n) : Begins s s' h false := by
  obtain ⟨t, htasks, hphase, -⟩ := hg
  exact ⟨t, htasks, iff_of_false hphase (by simp)⟩

theorem goes_textReply (hn : 0 < n) (text : String) : Goes s (s.textReply h request w text) h n :=
  ⟨_, rfl, by simp, hn⟩

theorem goes_deregisterWorkflow (hn : 1 < n) (message : String) :
    Goes s (s.deregisterWorkflow E h request w message) h n := by
  unfold deregisterWorkflow
  dsimp only
  split_ifs
  · exact ⟨_, rfl, by simp, hn⟩
  · exact ⟨_, rfl, by simp, by simp only [ActionPhase.left]; omega⟩

theorem goes_afterPush (hn : 1 < n) (message : String) (detached : Bool) :
    Goes s (s.afterPush E h request w message detached) h n := by
  unfold afterPush
  split_ifs
  · exact ⟨_, rfl, by simp, by simp only [ActionPhase.left]; omega⟩
  · exact goes_textReply (by omega) _
  · exact goes_deregisterWorkflow hn _

theorem goes_renderPush (hn : 2 < n) (message : String) (detached : Bool) :
    Goes s (s.renderPush E h request w message detached) h n := by
  unfold renderPush
  split_ifs
  · exact ⟨_, rfl, by simp, hn⟩
  · exact goes_afterPush (by omega) _ _

theorem goes_pushRaised (hn : 0 < n) (exc : String) (detached : Bool) :
    Goes s (s.pushRaised h request w exc detached) h n := by
  unfold pushRaised
  split_ifs
  · exact ⟨_, rfl, by simp, hn⟩
  · exact goes_textReply hn _

theorem goes_afterGit (session : FinalizationSession) (detached : Bool) (step : GitStep)
    (output : String) {left : List GitStep} (hn : left.length + 3 < n) :
    Goes s (s.afterGit E h request w session detached step output left) h n := by
  unfold afterGit
  split
  · exact goes_renderPush (by omega) _ _
  · refine ⟨_, rfl, by simp, ?_⟩
    simp only [ActionPhase.left, List.length_cons] at hn ⊢
    omega
  · refine ⟨_, rfl, by simp, ?_⟩
    simp only [ActionPhase.left]
    omega

theorem goes_afterDiscard (hn : 1 < n) (message : String) (isTerminal : Bool) :
    Goes s (s.afterDiscard E h request w message isTerminal) h n := by
  unfold afterDiscard
  split_ifs
  · exact goes_deregisterWorkflow hn _
  · exact goes_textReply (by omega) _

theorem goes_renderDiscard (hn : 2 < n) (message : String) (isTerminal : Bool) :
    Goes s (s.renderDiscard E h request w message isTerminal) h n := by
  unfold renderDiscard
  split_ifs
  · exact ⟨_, rfl, by simp, hn⟩
  · exact goes_afterDiscard (by omega) _ _

/-- After an await a handler has less to come. -/
theorem goes_advance {phase : ActionPhase} {outcome : ToolOutcome}
    (hs : s.advance E h request w phase outcome = some s') : Goes s s' h phase.left := by
  unfold advance at hs
  split at hs
  · obtain rfl := Option.some.inj hs
    exact goes_afterGit _ _ _ _ (by simp [ActionPhase.left])
  · obtain rfl := Option.some.inj hs
    split_ifs
    · exact goes_renderPush (by simp [ActionPhase.left]) _ _
    · exact goes_renderPush (by simp [ActionPhase.left]) _ _
  · obtain rfl := Option.some.inj hs
    exact goes_renderPush (by simp [ActionPhase.left]) _ _
  · obtain rfl := Option.some.inj hs
    exact goes_pushRaised (by simp [ActionPhase.left]) _ _
  · obtain rfl := Option.some.inj hs
    exact goes_pushRaised (by simp [ActionPhase.left]) _ _
  · obtain rfl := Option.some.inj hs
    exact goes_afterPush (by simp [ActionPhase.left]) _ _
  · obtain rfl := Option.some.inj hs
    exact goes_afterDiscard (by simp [ActionPhase.left]) _ _
  · obtain rfl := Option.some.inj hs
    exact goes_textReply (by simp [ActionPhase.left]) _
  · obtain rfl := Option.some.inj hs
    exact goes_textReply (by simp [ActionPhase.left]) _
  · obtain rfl := Option.some.inj hs
    split_ifs
    · exact ⟨_, rfl, by simp, by simp [ActionPhase.left]⟩
    · exact goes_textReply (by simp [ActionPhase.left]) _
  · obtain rfl := Option.some.inj hs
    exact goes_textReply (by simp [ActionPhase.left]) _
  · contradiction

theorem workflowId_of_stub {ctx : WorkflowContext} {summary : NonEmptyString}
    {complete : TaskCompletePayload} (hstub : completionStub ctx summary = some complete) :
    decide (ctx.workflowId = "") = false := by
  rw [decide_eq_false_iff_not]
  intro hid
  rw [completionStub_eq_none.2 hid] at hstub
  contradiction

theorem begins_handlePushPr (c : CtxId) (ctx : WorkflowContext) :
    Begins s (s.handlePushPr h request c ctx) h (decide (ctx.workflowId = "")) := by
  unfold handlePushPr
  split
  · rename_i hstub
    exact ⟨_, rfl, iff_of_true rfl (by simpa using completionStub_eq_none.1 hstub)⟩
  · rename_i complete hstub
    rw [workflowId_of_stub hstub]
    exact ⟨_, rfl, iff_of_false (by simp) (by simp)⟩

theorem begins_handleDiscard (c : CtxId) (ctx : WorkflowContext) (removal : Removal) :
    Begins s (s.handleDiscard E h request c ctx removal) h (decide (ctx.workflowId = "")) := by
  unfold handleDiscard
  split
  · rename_i hstub
    exact ⟨_, rfl, iff_of_true rfl (by simpa using completionStub_eq_none.1 hstub)⟩
  · rename_i complete hstub
    rw [workflowId_of_stub hstub]
    dsimp only
    split_ifs
    · split
      · exact (goes_textReply (by decide : 0 < 1) _).begins
      · exact (goes_renderDiscard (by decide : 2 < 3) _ _).begins
      · exact (goes_renderDiscard (by decide : 2 < 3) _ _).begins
    · exact (goes_renderDiscard (by decide : 2 < 3) _ _).begins

theorem begins_handle {action : ActionPayload} (ha : request.action = some action)
    (removal : Removal) :
    Begins s (s.handle E h request removal) h (s.clicksNameless action) := by
  unfold handle clicksNameless nameless
  simp only [ha]
  cases hw : s.getWorkflow action.value with
  | none =>
    simp only [Option.any_none, Bool.and_false]
    exact (goes_textReply (by decide : 0 < 1) _).begins
  | some found =>
    obtain ⟨c, ctx⟩ := found
    simp only [Option.any_some]
    split_ifs with hpush hdiscard hiterate
    · simpa [hpush] using begins_handlePushPr c ctx
    · simpa [hdiscard] using begins_handleDiscard c ctx removal
    · simp only [hpush, hdiscard, or_self, decide_false, Bool.false_and]
      exact (goes_textReply (by decide : 0 < 1) _).begins
    · simp only [hpush, hdiscard, or_self, decide_false, Bool.false_and]
      exact (goes_textReply (by decide : 0 < 1) _).begins

theorem begins_consumeIterationFeedback (threadKey : String) :
    Begins s (s.consumeIterationFeedback E h request threadKey) h
      ((s.pendingIteration.lookup threadKey).any s.nameless) := by
  unfold consumeIterationFeedback
  cases hpending : s.pendingIteration.lookup threadKey with
  | none => exact (goes_textReply (by decide : 0 < 1) _).begins
  | some w =>
    have hsame : ({ s with
        pendingIteration := s.pendingIteration.erase threadKey } : FinalizationActions).getWorkflow
          w = s.getWorkflow w := rfl
    simp only [Option.any_some, nameless, hsame]
    cases hw : s.getWorkflow w with
    | none => exact (goes_textReply (by decide : 0 < 1) _).begins
    | some found =>
      obtain ⟨c, ctx⟩ := found
      simp only [Option.any_some]
      split
      · rename_i hstub
        exact ⟨_, rfl, iff_of_true rfl (by simpa using completionStub_eq_none.1 hstub)⟩
      · rename_i complete hstub
        rw [workflowId_of_stub hstub]
        unfold reDelegate
        split_ifs
        · split
          · exact (goes_textReply (by decide : 0 < 1) _).begins
          · exact ⟨_, rfl, by simp⟩
        · exact (goes_textReply (by decide : 0 < 1) _).begins

/-- A handler goes on or is cancelled, or nothing happens to the handlers. -/
theorem tasks_step {e : ActionEvent} (hhandle : ∀ h request removal, e ≠ .handle h request removal)
    (hfeedback : ∀ h request threadKey, e ≠ .feedback h request threadKey)
    (hs : s.step E e = some s') :
    s'.tasks = s.tasks ∧ (∀ h outcome, e ≠ .resume h outcome) ∨
      ∃ h t t', s.tasks.lookup h = some t ∧ s'.tasks = s.tasks.insert h t' ∧
        t'.phase ≠ .raised ∧ t'.phase.left ≤ t.phase.left ∧
          ∀ h' outcome, e = .resume h' outcome → h' = h ∧ t'.phase.left < t.phase.left := by
  cases e with
  | register context =>
    simp only [step, Option.ite_none_left_eq_some] at hs
    exact Or.inl ⟨by rw [← Option.some.inj hs.2], by simp⟩
  | deregister workflowId =>
    exact Or.inl ⟨by rw [← Option.some.inj hs], by simp⟩
  | handle h request removal => exact absurd rfl (hhandle h request removal)
  | feedback h request threadKey => exact absurd rfl (hfeedback h request threadKey)
  | reDelegate h c task =>
    simp only [step, Option.ite_none_left_eq_some, Option.map_eq_some_iff] at hs
    obtain ⟨-, ctx, -, rfl⟩ := hs
    exact Or.inl ⟨rfl, by simp⟩
  | resume h outcome =>
    obtain ⟨t, ht, hadvance⟩ := Option.bind_eq_some_iff.1 hs
    obtain ⟨t', htasks, hphase, hleft⟩ := goes_advance hadvance
    refine Or.inr ⟨h, t, t', ht, htasks, hphase, hleft.le, ?_⟩
    intro h' outcome' heq
    exact ⟨(ActionEvent.resume.inj heq).1.symm, hleft⟩
  | cancel h =>
    obtain ⟨t, ht, hcancel⟩ := Option.bind_eq_some_iff.1 hs
    obtain ⟨phase, hphase, rfl⟩ := Option.map_eq_some_iff.1 hcancel
    refine Or.inr ⟨h, t, _, ht, rfl, ?_, ?_, by simp⟩
    · rintro rfl
      unfold cancelled at hphase
      split at hphase <;> simp at hphase
    · unfold cancelled at hphase
      split at hphase <;> simp at hphase <;> subst hphase <;> simp [ActionPhase.left, *]
  | iterationEnds h =>
    simp only [step, Option.ite_none_right_eq_some] at hs
    exact Or.inl ⟨by rw [← Option.some.inj hs.2], by simp⟩

end FinalizationActions

/-! ### Every request goes on -/

/-- The run of a request in progress. -/
def HandlingPhase.run : HandlingPhase → Option AgentRun
  | .running run | .resuming run _ => some run
  | _ => none

namespace Orchestrator

/-- The awaits to come of a request, with its finalization task. -/
def leftOf (E : OrchestratorEnv) (task : Option ActionTask) : HandlingPhase → ℕ ×ₗ ℕ ×ₗ ℕ
  | .running run | .resuming run _ => run.left E.agent
  | .inferring _ _ attempt =>
    toLex (0, toLex (1, initialInferenceAttemptCount + maxContinuationRetries - attempt))
  | .finalizing => toLex (0, toLex (0, task.elim 0 fun t => t.phase.left))
  | .replied _ | .raised | .cancelled => toLex (0, toLex (0, 0))

def left (E : OrchestratorEnv) (s : Orchestrator) (h : HandlerId) : ℕ ×ₗ ℕ ×ₗ ℕ :=
  (s.handlings.lookup h).elim (toLex (0, toLex (0, 0))) fun t =>
    leftOf E (s.actions.tasks.lookup h) t.phase

/-- The request has neither replied nor raised, and was not cancelled. -/
def inProgress (s : Orchestrator) (h : HandlerId) : Bool :=
  (s.handlings.lookup h).any fun t =>
    match t.phase with
    | .running _ | .resuming _ _ | .inferring _ _ _ => true
    | .finalizing => (s.actions.tasks.lookup h).any fun t => decide (0 < t.phase.left)
    | .replied _ | .raised | .cancelled => false

/-- The request awaits the backend, a call of a batch or a finalization tool; whatever comes of the
await leads on. -/
def Awaits (E : OrchestratorEnv) (s : Orchestrator) (h : HandlerId) : Prop :=
  (∀ response, (s.step E (.run h (.answered response))).isSome = true) ∨
  (∃ i, ∀ error, (s.step E (.run h (.toolReturned i (.raised error)))).isSome = true) ∨
  ∀ output, (s.step E (.actions (.resume h (.returned output)))).isSome = true

/-- An await of the request is over. -/
def own (h : HandlerId) : OrchestratorEvent → Bool
  | .run h' _ | .actions (.resume h' _) => decide (h' = h)
  | _ => false

/-- What holds of the requests in progress. -/
structure Progressing (E : OrchestratorEnv) (s : Orchestrator) : Prop where
  live : ∀ h t run, s.handlings.lookup h = some t → t.phase.run = some run →
    AgentRun.Live E.agent run ∧ run.inProgress = true
  pending : ∀ threadKey approval, s.pendingApprovals.lookup threadKey = some approval →
    approval.pending.toolCalls ≠ []
  finalizing : ∀ h, (s.actions.tasks.lookup h).isSome = true ↔
    ∃ t, s.handlings.lookup h = some t ∧ t.phase = .finalizing

variable {E : OrchestratorEnv} {s s' : Orchestrator} {h : HandlerId} {request : NormalizedRequest}

/-- What a request does after an await of its run. -/
theorem run_cases {e : RunEvent} (hs : s.step E (.run h e) = some s') : ∃ request phase,
    s.handlings.lookup h = some ⟨request, phase⟩ ∧
      ((∃ run run', phase = .running run ∧ run.step E.agent e = some run' ∧
        s' = s.running E h request run' (errorCategory E e)) ∨
      (∃ run run' approval, phase = .resuming run approval ∧ run.step E.agent e = some run' ∧
        s' = s.resuming E h request run' approval) ∨
      ∃ messages chunks attempt response, phase = .inferring messages chunks attempt ∧
        e = .answered response ∧
        s' = s.inferring E h request messages chunks attempt response) := by
  obtain ⟨⟨request, phase⟩, ht, hadvance⟩ := Option.bind_eq_some_iff.1 hs
  refine ⟨request, phase, ht, ?_⟩
  cases phase with
  | running run =>
    obtain ⟨run', hrun, rfl⟩ := Option.map_eq_some_iff.1 hadvance
    exact Or.inl ⟨run, run', rfl, hrun, rfl⟩
  | resuming run approval =>
    obtain ⟨run', hrun, rfl⟩ := Option.map_eq_some_iff.1 hadvance
    exact Or.inr (Or.inl ⟨run, run', approval, rfl, hrun, rfl⟩)
  | inferring messages chunks attempt =>
    cases e with
    | answered response =>
      obtain rfl := Option.some.inj hadvance
      exact Or.inr (Or.inr ⟨messages, chunks, attempt, response, rfl, rfl, rfl⟩)
    | toolReturned => contradiction
  | finalizing | replied | raised | cancelled => contradiction

theorem awaits_of_run {run : AgentRun} (hlive : AgentRun.Live E.agent run)
    (hrun : run.inProgress = true) (hstep : ∀ e, (run.step E.agent e).isSome = true →
      (s.step E (.run h e)).isSome = true) : Awaits E s h := by
  rcases AgentRun.goes_on hlive hrun with hanswered | ⟨i, hreturned⟩
  · exact Or.inl fun response => hstep _ (hanswered response)
  · exact Or.inr (Or.inl ⟨i, fun error => hstep _ (hreturned error)⟩)

/-- A request in progress goes on, whatever comes of its await. -/
theorem awaits_of_inProgress (hp : Progressing E s) (h : HandlerId)
    (hprogress : s.inProgress h = true) : Awaits E s h := by
  obtain ⟨⟨request, phase⟩, ht, hphase⟩ := (Option.any_eq_true _ _).1 hprogress
  cases phase with
  | running run =>
    obtain ⟨hlive, hrun⟩ := hp.live h _ run ht rfl
    refine awaits_of_run hlive hrun fun e hs => ?_
    simpa [step, ht, advance] using hs
  | resuming run approval =>
    obtain ⟨hlive, hrun⟩ := hp.live h _ run ht rfl
    refine awaits_of_run hlive hrun fun e hs => ?_
    simpa [step, ht, advance] using hs
  | inferring messages chunks attempt =>
    exact Or.inl fun response => by simp [step, ht, advance]
  | finalizing =>
    obtain ⟨t, htask, hleft⟩ := (Option.any_eq_true _ _).1 hphase
    refine Or.inr (Or.inr fun output => ?_)
    simp only [step, FinalizationActions.step, htask, Option.bind_some, Option.isSome_map]
    cases hphase' : t.phase <;>
      simp [hphase', ActionPhase.left, FinalizationActions.advance] at hleft ⊢
  | replied | raised | cancelled => contradiction

/-- The run is one that a request in progress may have. -/
def Fits (E : OrchestratorEnv) (phase : HandlingPhase) : Prop :=
  ∀ run, phase.run = some run → AgentRun.Live E.agent run ∧ run.inProgress = true

/-- A request begins: with a finalization task if it is a matter of finalization, and nothing new
is pending. -/
def BeginsOne (E : OrchestratorEnv) (s s' : Orchestrator) (h : HandlerId) : Prop :=
  ∃ t, s'.handlings = s.handlings.insert h t ∧ Fits E t.phase ∧
    (s'.actions.tasks = s.actions.tasks ∧ t.phase ≠ .finalizing ∨
      (∃ task, s'.actions.tasks = s.actions.tasks.insert h task) ∧ t.phase = .finalizing) ∧
    ∀ threadKey approval, s'.pendingApprovals.lookup threadKey = some approval →
      s.pendingApprovals.lookup threadKey = some approval

theorem fits_none {phase : HandlingPhase} (h : phase.run = none) : Fits E phase := by
  intro run hrun
  rw [h] at hrun
  contradiction

theorem fits_of_run {phase : HandlingPhase} {run : AgentRun} (hrun : phase.run = some run)
    (hlive : AgentRun.Live E.agent run) (hprogress : run.inProgress = true) : Fits E phase := by
  intro run' hrun'
  obtain rfl := Option.some.inj (hrun.symm.trans hrun')
  exact ⟨hlive, hprogress⟩

theorem beginsOne_plain {phase : HandlingPhase}
    (hhandlings : s'.handlings = s.handlings.insert h ⟨request, phase⟩)
    (htasks : s'.actions.tasks = s.actions.tasks) (hrun : phase.run = none)
    (hphase : phase ≠ .finalizing)
    (hpending : ∀ threadKey approval, s'.pendingApprovals.lookup threadKey = some approval →
      s.pendingApprovals.lookup threadKey = some approval) : BeginsOne E s s' h :=
  ⟨_, hhandlings, fits_none hrun, Or.inl ⟨htasks, hphase⟩, hpending⟩

theorem lookup_of_erase {threadKey : String} : ∀ threadKey' approval,
    (s.pendingApprovals.erase threadKey).lookup threadKey' = some approval →
      s.pendingApprovals.lookup threadKey' = some approval :=
  fun _ _ ha => (Dict.lookup_erase_eq_some.1 ha).2

theorem inProgress_of_other {run : AgentRun} (hreturned : ∀ result, run.phase ≠ .returned result)
    (hblocked : ∀ pending, run.phase ≠ .blocked pending) (hraised : run.phase ≠ .raised) :
    run.inProgress = true := by
  unfold AgentRun.inProgress
  split
  · exact absurd ‹_› (hreturned _)
  · exact absurd ‹_› (hblocked _)
  · contradiction
  · rfl

theorem beginsOne_handleMessage (systemPrompt : String) :
    BeginsOne E s (s.handleMessage E h request systemPrompt) h := by
  unfold handleMessage
  dsimp only
  split_ifs
  · obtain ⟨task, htasks, -⟩ : FinalizationActions.Begins s.actions
        (s.actions.consumeIterationFeedback E.actions h request request.threadKey) h _ :=
      FinalizationActions.begins_consumeIterationFeedback request.threadKey
    exact ⟨_, rfl, fits_none rfl, Or.inr ⟨⟨task, htasks⟩, rfl⟩, fun _ _ ha => ha⟩
  · exact beginsOne_plain rfl rfl rfl (by simp) lookup_of_erase
  · unfold running
    split
    · exact beginsOne_plain rfl rfl rfl (by simp) lookup_of_erase
    · exact absurd ‹_› ((AgentRun.quiet_start _ _ _).not_blocked _)
    · exact beginsOne_plain rfl rfl rfl (by simp) lookup_of_erase
    · have hprogress := inProgress_of_other ‹_› ‹_› ‹_›
      exact ⟨_, rfl, fits_of_run rfl (AgentRun.live_start _ _ _) hprogress,
        Or.inl ⟨rfl, by simp⟩, lookup_of_erase⟩

theorem beginsOne_handle (hp : Progressing E s) (circumstances : Circumstances) :
    BeginsOne E s (s.handle E h request circumstances) h := by
  unfold handle
  split
  · exact beginsOne_handleMessage _
  · rename_i action ha
    split_ifs
    · unfold handleWriteApproval
      split
      · exact beginsOne_plain rfl rfl rfl (by simp) fun _ _ ha => ha
      · rename_i approval hpending
        dsimp only
        split_ifs
        · exact beginsOne_plain rfl rfl rfl (by simp) lookup_of_erase
        · refine ⟨_, rfl, fits_of_run rfl ?_ rfl, Or.inl ⟨rfl, by simp⟩, lookup_of_erase⟩
          exact AgentRun.live_execute (hp.pending _ _ hpending) _ _ (by simp)
    · unfold handleWriteDenial
      split
      · exact beginsOne_plain rfl rfl rfl (by simp) fun _ _ ha => ha
      · exact beginsOne_plain rfl rfl rfl (by simp) lookup_of_erase
    · obtain ⟨task, htasks, -⟩ := FinalizationActions.begins_handle (E := E.actions) (h := h)
        (s := s.actions) ha circumstances.removal
      unfold handleFinalizationAction
      dsimp only
      split_ifs
      · exact ⟨_, rfl, fits_none rfl, Or.inr ⟨⟨task, htasks⟩, rfl⟩, fun _ _ ha => ha⟩
      · exact ⟨_, rfl, fits_none rfl, Or.inr ⟨⟨task, htasks⟩, rfl⟩, fun _ _ ha => ha⟩
    · exact beginsOne_handleMessage _

/-- A request goes on after an await of its run, with less to come. -/
def GoesOn (E : OrchestratorEnv) (s s' : Orchestrator) (h : HandlerId) (phase : HandlingPhase) :
    Prop :=
  ∃ t, s'.handlings = s.handlings.insert h t ∧ s'.actions = s.actions ∧ Fits E t.phase ∧
    t.phase ≠ .finalizing ∧ leftOf E none t.phase < leftOf E none phase ∧
    ∀ threadKey approval, s'.pendingApprovals.lookup threadKey = some approval →
      s.pendingApprovals.lookup threadKey = some approval ∨ approval.pending.toolCalls ≠ []

theorem goesOn_plain {phase phase' : HandlingPhase}
    (hhandlings : s'.handlings = s.handlings.insert h ⟨request, phase'⟩)
    (hactions : s'.actions = s.actions) (hpending : s'.pendingApprovals = s.pendingApprovals)
    (hrun : phase'.run = none) (hfinal : phase' ≠ .finalizing)
    (hleft : leftOf E none phase' < leftOf E none phase) : GoesOn E s s' h phase :=
  ⟨_, hhandlings, hactions, fits_none hrun, hfinal, hleft, fun _ _ ha => Or.inl (hpending ▸ ha)⟩

theorem goesOn_storeApproval {phase : HandlingPhase} {pending : PendingApproval}
    (hcalls : pending.toolCalls ≠ []) (hleft : toLex (0, toLex (0, 0)) < leftOf E none phase) :
    GoesOn E s (s.storeApproval h request pending) h phase := by
  refine ⟨_, rfl, rfl, fits_none rfl, by simp, hleft, ?_⟩
  intro threadKey approval ha
  rcases Dict.lookup_insert_eq_some.1 ha with ⟨-, rfl⟩ | ⟨-, hold⟩
  · exact Or.inr hcalls
  · exact Or.inl hold

theorem leftOf_of_run {phase : HandlingPhase} {run : AgentRun} (hrun : phase.run = some run) :
    phase ≠ .finalizing ∧ leftOf E none phase = run.left E.agent := by
  cases phase with
  | running | resuming =>
    obtain rfl := Option.some.inj hrun
    exact ⟨by simp, rfl⟩
  | inferring | finalizing | replied | raised | cancelled => contradiction

theorem calls_of_blocked {run : AgentRun} {pending : PendingApproval}
    (hlive : AgentRun.Live E.agent run) (hphase : run.phase = .blocked pending) :
    pending.toolCalls ≠ [] := by
  simpa only [AgentRun.Live, hphase] using hlive

/-- A request goes on with its run, which has less to come. -/
theorem goesOn_runsOn {run : AgentRun} {phase phase' : HandlingPhase}
    (hs : RunsOn s h request run phase' s') (hrun : phase'.run = some run)
    (hlive : AgentRun.Live E.agent run) (hzero : toLex (0, toLex (0, 0)) < leftOf E none phase)
    (hleft : run.left E.agent < leftOf E none phase) : GoesOn E s s' h phase := by
  cases hs with
  | ended prompt hlast =>
    obtain ⟨reply, rfl⟩ | rfl := hlast
    · exact goesOn_plain rfl rfl rfl rfl (by simp) hzero
    · exact goesOn_plain rfl rfl rfl rfl (by simp) hzero
  | @stored pending originalUserText hblocked =>
    have hcalls : pending.toolCalls ≠ [] := calls_of_blocked hlive hblocked
    exact goesOn_storeApproval hcalls hzero
  | goesOn hreturned hblocked hraised =>
    have hprogress := inProgress_of_other hreturned hblocked hraised
    obtain ⟨hfinal, hsame⟩ := leftOf_of_run (E := E) hrun
    refine ⟨_, rfl, rfl, fits_of_run hrun hlive hprogress, hfinal, ?_, fun _ _ ha => Or.inl ha⟩
    rw [hsame]
    exact hleft

theorem goesOn_inferring (messages : List Message) (chunks : List String) (attempt : ℕ)
    (response : Except String InferenceResponse) :
    GoesOn E s (s.inferring E h request messages chunks attempt response) h
      (.inferring messages chunks attempt) := by
  unfold inferring
  split
  · split
    · exact goesOn_plain rfl rfl rfl rfl (by simp) (AgentRun.left_lt.2 (by omega))
    · rename_i chunks' hrepair
      have hattempt : attempt + 1 < initialInferenceAttemptCount + maxContinuationRetries := by
        unfold inferenceWithRepair at hrepair
        simp only at hrepair
        split_ifs at hrepair with _ _ hattempt
        exact hattempt
      refine goesOn_plain rfl rfl rfl rfl (by simp) (AgentRun.left_lt.2 ?_)
      omega
  · exact goesOn_plain rfl rfl rfl rfl (by simp) (AgentRun.left_lt.2 (by omega))

theorem zero_lt_left {run : AgentRun} (hrun : run.inProgress = true) :
    toLex (0, toLex (0, 0)) < run.left E.agent := by
  have hraised := (AgentRun.raised_live (E := E.agent) (r := run) rfl hrun).2
  exact hraised

/-- A request goes on after an await of its run. -/
theorem goesOn_run (hp : Progressing E s) {e : RunEvent} (hs : s.step E (.run h e) = some s') :
    ∃ t, s.handlings.lookup h = some t ∧ t.phase ≠ .finalizing ∧ GoesOn E s s' h t.phase := by
  obtain ⟨request, phase, ht, hcase⟩ := run_cases hs
  refine ⟨_, ht, ?_⟩
  rcases hcase with ⟨run, run', rfl, hrun, rfl⟩ | ⟨run, run', approval, rfl, hrun, rfl⟩ |
    ⟨messages, chunks, attempt, response, rfl, -, rfl⟩
  · obtain ⟨hlive, hprogress⟩ := hp.live h _ run ht rfl
    obtain ⟨hlive', hleft⟩ := AgentRun.step_live hlive hrun
    refine ⟨by simp, goesOn_runsOn (runsOn_running _ _) rfl hlive' ?_ hleft⟩
    exact zero_lt_left hprogress
  · obtain ⟨hlive, hprogress⟩ := hp.live h _ run ht rfl
    obtain ⟨hlive', hleft⟩ := AgentRun.step_live hlive hrun
    refine ⟨by simp, goesOn_runsOn (runsOn_resuming _ _) rfl hlive' ?_ hleft⟩
    exact zero_lt_left hprogress
  · exact ⟨by simp, goesOn_inferring _ _ _ _⟩

/-- A step of the finalization actions that no request begins. -/
theorem actions_eq_some {e : ActionEvent} (hs : s.step E (.actions e) = some s') : ∃ actions,
    (∀ h request removal, e ≠ .handle h request removal) ∧
      (∀ h request threadKey, e ≠ .feedback h request threadKey) ∧
        s.actions.step E.actions e = some actions ∧ s' = { s with actions := actions } := by
  rcases step_cases hs with ⟨h, request, circumstances, he, -⟩ | ⟨h, e', t, he, -, -⟩ |
    ⟨h, batch, he, -⟩ | ⟨e', actions, he, hhandle, hfeedback, hactions, rfl⟩ | ⟨h, request, he, -⟩
  · contradiction
  · contradiction
  · contradiction
  · obtain rfl := OrchestratorEvent.actions.inj he
    exact ⟨actions, hhandle, hfeedback, hactions, rfl⟩
  · contradiction

theorem cancel_lookup (hs : s.step E (.cancel h) = some s') : ∃ t request,
    s.handlings.lookup h = some t ∧ t.phase ≠ .finalizing ∧
      s' = s.setPhase h request .cancelled := by
  simp only [step] at hs
  split at hs
  · exact ⟨_, _, ‹_›, by simp, (Option.some.inj hs).symm⟩
  · exact ⟨_, _, ‹_›, by simp, (Option.some.inj hs).symm⟩
  · exact ⟨_, _, ‹_›, by simp, (Option.some.inj hs).symm⟩
  · contradiction

/-- A request that is put in its place has a finalization task or not, as before. -/
theorem finalizing_insert (hp : Progressing E s) {t t' : Handling}
    (hhandlings : s'.handlings = s.handlings.insert h t')
    (htasks : s'.actions.tasks = s.actions.tasks) (ht : s.handlings.lookup h = some t)
    (hphase : t.phase ≠ .finalizing) (hphase' : t'.phase ≠ .finalizing) (h' : HandlerId) :
    (s'.actions.tasks.lookup h').isSome = true ↔
      ∃ t, s'.handlings.lookup h' = some t ∧ t.phase = .finalizing := by
  rw [htasks, hhandlings, hp.finalizing h']
  by_cases hne : h' = h
  · subst hne
    simp [ht, hphase, hphase']
  · rw [AList.lookup_insert_ne hne]

theorem live_insert (hp : Progressing E s) {t : Handling}
    (hhandlings : s'.handlings = s.handlings.insert h t) (hfits : Fits E t.phase) :
    ∀ h' t' run, s'.handlings.lookup h' = some t' → t'.phase.run = some run →
      AgentRun.Live E.agent run ∧ run.inProgress = true := by
  intro h' t' run ht' hrun
  rw [hhandlings] at ht'
  rcases Dict.lookup_insert_eq_some.1 ht' with ⟨-, rfl⟩ | ⟨-, hold⟩
  · exact hfits run hrun
  · exact hp.live h' t' run hold hrun

theorem progressing_step {e : OrchestratorEvent} (hp : Progressing E s)
    (hs : s.step E e = some s') : Progressing E s' := by
  cases e with
  | handle h request circumstances =>
    simp only [step, Option.ite_none_right_eq_some] at hs
    obtain ⟨⟨hfresh, -⟩, hs⟩ := hs
    obtain rfl := Option.some.inj hs
    obtain ⟨t, hhandlings, hfits, htasks, hpending⟩ := beginsOne_handle (E := E) (h := h) hp
      circumstances
    refine ⟨live_insert hp hhandlings hfits, ?_, ?_⟩
    · intro threadKey approval ha
      exact hp.pending threadKey approval (hpending threadKey approval ha)
    · intro h'
      simp only [isFresh, Bool.and_eq_true, Option.isNone_iff_eq_none] at hfresh
      by_cases hne : h' = h
      · subst hne
        rcases htasks with ⟨htasks, hphase⟩ | ⟨⟨task, htasks⟩, hphase⟩
        · simp [htasks, hhandlings, hfresh, hphase]
        · simp [htasks, hhandlings, hphase]
      · rw [hhandlings, AList.lookup_insert_ne hne, ← hp.finalizing h']
        rcases htasks with ⟨htasks, -⟩ | ⟨⟨task, htasks⟩, -⟩
        · rw [htasks]
        · rw [htasks, AList.lookup_insert_ne hne]
  | run h e =>
    obtain ⟨t, ht, hphase, t', hhandlings, hactions, hfits, hphase', -, hpending⟩ :=
      goesOn_run hp hs
    refine ⟨live_insert hp hhandlings hfits, ?_, ?_⟩
    · intro threadKey approval ha
      rcases hpending threadKey approval ha with hold | hnew
      · exact hp.pending threadKey approval hold
      · exact hnew
    · exact finalizing_insert hp hhandlings (by rw [hactions]) ht hphase hphase'
  | post h =>
    simp only [step] at hs
    split at hs
    · obtain rfl := Option.some.inj hs
      exact ⟨hp.live, hp.pending, hp.finalizing⟩
    · contradiction
  | actions e =>
    obtain ⟨actions, hhandle, hfeedback, hactions, rfl⟩ := actions_eq_some hs
    refine ⟨hp.live, hp.pending, ?_⟩
    intro h'
    rw [← hp.finalizing h']
    rcases FinalizationActions.tasks_step hhandle hfeedback hactions with ⟨htasks, -⟩ |
      ⟨h, t, t', ht, htasks, -, -, -⟩
    · rw [htasks]
    · rw [htasks]
      by_cases hne : h' = h
      · subst hne
        simp [ht]
      · rw [AList.lookup_insert_ne hne]
  | cancel h =>
    obtain ⟨t, request, ht, hphase, rfl⟩ := cancel_lookup hs
    exact ⟨live_insert hp rfl (fits_none rfl), hp.pending,
      finalizing_insert hp rfl rfl ht hphase (by simp)⟩

theorem left_eq_of_lookup (hhandlings : s'.handlings.lookup h = s.handlings.lookup h)
    (htasks : s'.actions.tasks.lookup h = s.actions.tasks.lookup h) : s'.left E h = s.left E h := by
  rw [left, left, hhandlings, htasks]

theorem leftOf_of_other {phase : HandlingPhase} (hphase : phase ≠ .finalizing)
    (task : Option ActionTask) : leftOf E task phase = leftOf E none phase := by
  cases phase with
  | finalizing => contradiction
  | running | resuming | inferring | replied | raised | cancelled => rfl

theorem zero_le_left (x : ℕ ×ₗ ℕ ×ₗ ℕ) : toLex (0, toLex (0, 0)) ≤ x := by
  obtain ⟨a, b, c⟩ := x
  exact not_lt.1 fun hlt => by
    have hlt' : toLex (a, toLex (b, c)) < toLex (0, toLex (0, 0)) := hlt
    rw [AgentRun.left_lt] at hlt'
    omega

/-- A step of the finalization handlers takes an await from the one that goes on. -/
theorem left_actions {e : ActionEvent} (hp : Progressing E s)
    (hs : s.step E (.actions e) = some s') (h : HandlerId) :
    s'.left E h ≤ s.left E h ∧ (own h (.actions e) = true → s'.left E h < s.left E h) := by
  obtain ⟨actions, hhandle, hfeedback, hactions, rfl⟩ := actions_eq_some hs
  rcases FinalizationActions.tasks_step hhandle hfeedback hactions with ⟨htasks, hother⟩ |
    ⟨h₀, t, t', ht, htasks, -, hle, hlt⟩
  · refine ⟨le_of_eq (left_eq_of_lookup rfl (by rw [htasks])), ?_⟩
    cases e with
    | resume h' outcome => exact absurd rfl (hother h' outcome)
    | register | deregister | handle | feedback | reDelegate | cancel | iterationEnds =>
      simp [own]
  · by_cases hne : h = h₀
    · subst hne
      obtain ⟨th, hth, hphase⟩ := (hp.finalizing h).1 (by rw [ht]; rfl)
      simp only [left, hth, htasks, AList.lookup_insert, ht, Option.elim_some, hphase, leftOf]
      constructor
      · rcases Nat.lt_or_eq_of_le hle with hlt | heq
        · exact (AgentRun.left_lt.2 (by omega)).le
        · rw [heq]
      · intro hown
        cases e with
        | resume h' outcome => exact AgentRun.left_lt.2 (by have := (hlt h' outcome rfl).2; omega)
        | register | deregister | handle | feedback | reDelegate | cancel | iterationEnds =>
          contradiction
    · refine ⟨le_of_eq (left_eq_of_lookup rfl ?_), ?_⟩
      · rw [htasks, AList.lookup_insert_ne hne]
      · intro hown
        cases e with
        | resume h' outcome =>
          obtain ⟨rfl, -⟩ := hlt h' outcome rfl
          exact absurd (of_decide_eq_true hown).symm hne
        | register | deregister | handle | feedback | reDelegate | cancel | iterationEnds =>
          contradiction

/-- No step gives a request that has begun more to await, and each await of its own takes one. -/
theorem left_step {e : OrchestratorEvent} (hp : Progressing E s) (hs : s.step E e = some s')
    (h : HandlerId) (hbegun : ∀ request circumstances, e ≠ .handle h request circumstances) :
    s'.left E h ≤ s.left E h ∧ (own h e = true → s'.left E h < s.left E h) := by
  cases e with
  | handle h₀ request circumstances =>
    have hne : h ≠ h₀ := by
      rintro rfl
      exact hbegun request circumstances rfl
    simp only [step, Option.ite_none_right_eq_some] at hs
    obtain rfl := Option.some.inj hs.2
    obtain ⟨t, hhandlings, -, htasks, -⟩ := beginsOne_handle (E := E) (h := h₀) hp circumstances
    refine ⟨le_of_eq (left_eq_of_lookup ?_ ?_), by simp [own]⟩
    · rw [hhandlings, AList.lookup_insert_ne hne]
    · rcases htasks with ⟨htasks, -⟩ | ⟨⟨task, htasks⟩, -⟩
      · rw [htasks]
      · rw [htasks, AList.lookup_insert_ne hne]
  | run h₀ e =>
    obtain ⟨t, ht, hphase, t', hhandlings, hactions, -, hphase', hleft, -⟩ := goesOn_run hp hs
    by_cases hne : h = h₀
    · subst hne
      have hlt : s'.left E h < s.left E h := by
        simp only [left, hhandlings, AList.lookup_insert, ht, Option.elim_some]
        rw [leftOf_of_other hphase, leftOf_of_other hphase']
        exact hleft
      exact ⟨hlt.le, fun _ => hlt⟩
    · refine ⟨le_of_eq (left_eq_of_lookup ?_ (by rw [hactions])), ?_⟩
      · rw [hhandlings, AList.lookup_insert_ne hne]
      · simp [own, Ne.symm hne]
  | post h₀ =>
    simp only [step] at hs
    split at hs
    · obtain rfl := Option.some.inj hs
      exact ⟨le_rfl, by simp [own]⟩
    · contradiction
  | actions e => exact left_actions hp hs h
  | cancel h₀ =>
    obtain ⟨t, request, ht, hphase, rfl⟩ := cancel_lookup hs
    refine ⟨?_, by simp [own]⟩
    by_cases hne : h = h₀
    · subst hne
      simp only [left, setPhase, AList.lookup_insert, Option.elim_some, leftOf]
      exact zero_le_left _
    · refine le_of_eq (left_eq_of_lookup ?_ rfl)
      exact AList.lookup_insert_ne hne

theorem progressing_initial : Progressing E {} := by
  refine ⟨?_, ?_, ?_⟩
  · intro h t run ht
    contradiction
  · intro threadKey approval ha
    contradiction
  · intro h
    simp

end Orchestrator

end NemoClaw
