import NemoClaw.Orchestrator.Progress
import NemoClaw.Orchestrator.Prompts

/-! What `Orchestrator.handle` answers. A request raises only behind an Approve click or on a
workflow without an id. A turn whose write was executed may go on with a further write, and is lost
if that write is never approved. -/

namespace NemoClaw

open Lib

/-! ### Requests -/

/-- The run behind an Approve click. -/
def HandlingPhase.resumed : HandlingPhase → Option AgentRun
  | .resuming run _ => some run
  | _ => none

/-- The batch that the reply is the prompt for. -/
def HandlingPhase.prompts : HandlingPhase → Option BatchId
  | .replied (.approval batch _ _) => some batch
  | _ => none

def HandlingPhase.isRaised : HandlingPhase → Bool
  | .raised => true
  | _ => false

def NormalizedRequest.isApproveClick (request : NormalizedRequest) : Bool :=
  request.action.any fun action => decide (action.actionId = approvalActionApprove)

namespace Orchestrator

/-- A further write of a turn that has executed one: an Approve click was answered with its
prompt. -/
def further (s : Orchestrator) (batch : BatchId) : Bool :=
  s.handlings.entries.any fun entry =>
    entry.2.request.isApproveClick && decide (entry.2.phase.prompts = some batch)

/-- The request drops what is pending in its thread. -/
def dropsPending (E : OrchestratorEnv) (s : Orchestrator) (request : NormalizedRequest) : Bool :=
  match request.action with
  | none => (s.pendingIteration E request).isNone
  | some action =>
    if action.actionId = approvalActionApprove then decide (E.agent.tools.tools = [])
    else if action.actionId = approvalActionDeny then true
    else if E.finalizationActions ∧ isFinalizationAction action then false
    else (s.pendingIteration E request).isNone

/-- The thread whose pending approval is dropped, or replaced by another one. -/
def vacates (E : OrchestratorEnv) (s : Orchestrator) : OrchestratorEvent → Option String
  | .handle _ request _ => if s.dropsPending E request then some request.threadKey else none
  | .run h e => (s.handlings.lookup h).bind fun t =>
    if t.phase.run.any fun run => run.asksWrite E.agent e then some t.request.threadKey else none
  | _ => none

/-- A run behind an Approve click raises. -/
def failsResumed (E : OrchestratorEnv) (s : Orchestrator) : OrchestratorEvent → Bool
  | .run h e => (s.handlings.lookup h).any fun t =>
    t.phase.resumed.any fun run => run.fails E.agent e
  | _ => false

/-- The request is for a workflow without an id, by a button or as feedback. -/
def asksNameless (E : OrchestratorEnv) (s : Orchestrator) : OrchestratorEvent → Bool
  | .handle _ request _ =>
    match request.action with
    | none => (s.pendingIteration E request).any s.actions.nameless
    | some action =>
      if action.actionId = approvalActionApprove ∨ action.actionId = approvalActionDeny then false
      else if E.finalizationActions ∧ isFinalizationAction action then
        s.actions.clicksNameless action
      else (s.pendingIteration E request).any s.actions.nameless
  | _ => false

/-- No run behind an Approve click fails, no workflow without an id is asked for, and no further
write of a turn that has executed one is dropped or replaced before it is approved. -/
def Answerable (E : OrchestratorEnv) (s : Orchestrator) (e : OrchestratorEvent) : Prop :=
  s.failsResumed E e = false ∧ s.asksNameless E e = false ∧
    ∀ threadKey ∈ s.vacates E e, ∀ approval ∈ s.pendingApprovals.lookup threadKey,
      s.further approval.batch = false

instance (E : OrchestratorEnv) (s : Orchestrator) (e : OrchestratorEvent) :
    Decidable (Answerable E s e) := by unfold Answerable; infer_instance

/-- No request has raised, and each further write of a turn is pending or was approved. -/
structure Answered (s : Orchestrator) : Prop where
  handled : ∀ h t, s.handlings.lookup h = some t → t.phase ≠ .raised
  finalized : ∀ h t, s.actions.tasks.lookup h = some t → t.phase ≠ .raised
  kept : ∀ batch, s.further batch = true →
    (∃ threadKey approval, s.pendingApprovals.lookup threadKey = some approval ∧
      approval.batch = batch) ∨
    ∃ threadKey prompt calls, .approved threadKey prompt batch calls ∈ s.log

/-- A request behind an Approve click goes on, or it ends: cancelled, with the turn in the history
of the thread, with an error, or with the prompt for a further write of the turn. -/
def TurnSettled (E : OrchestratorEnv) (s s' : Orchestrator) : Prop :=
  ∀ h request run approval, s.handlings.lookup h = some ⟨request, .resuming run approval⟩ →
    (∃ run', s'.handlings.lookup h = some ⟨request, .resuming run' approval⟩) ∨
    s'.handlings.lookup h = some ⟨request, .cancelled⟩ ∨
    (∃ content, s'.handlings.lookup h =
        some ⟨request, .replied (shapeResponse request content)⟩ ∧
      s'.prompt = s.prompt.commitTurn E.maxThreadHistory request.threadKey
        approval.pending.originalUserText content) ∨
    (∃ category, s'.handlings.lookup h =
      some ⟨request, .replied (errorResponse request category)⟩) ∨
    ∃ batch pending, s'.handlings.lookup h =
      some ⟨request, .replied (buildApprovalResponse request batch pending)⟩

/-- In the run every request is answered, and every turn whose write was executed is settled. -/
def Answers (E : OrchestratorEnv) (tr : List (Orchestrator × OrchestratorEvent))
    (s : Orchestrator) : Prop :=
  Machine.Always Answered tr s ∧
    ∀ p ∈ tr, ∀ s', p.1.step E p.2 = some s' → TurnSettled E p.1 s'

variable {E : OrchestratorEnv} {s s' : Orchestrator} {h : HandlerId} {request : NormalizedRequest}

theorem further_iff {batch : BatchId} : s.further batch = true ↔ ∃ h t,
    s.handlings.lookup h = some t ∧ t.request.isApproveClick = true ∧
      t.phase.prompts = some batch := by
  rw [further, List.any_eq_true]
  constructor
  · rintro ⟨⟨h, t⟩, hmem, hcheck⟩
    simp only [Bool.and_eq_true, decide_eq_true_eq] at hcheck
    exact ⟨h, t, AList.mem_lookup_iff.2 hmem, hcheck⟩
  · rintro ⟨h, t, ht, hclick, hprompts⟩
    exact ⟨⟨h, t⟩, AList.mem_lookup_iff.1 ht, by simp [hclick, hprompts]⟩

/-- What a step does to the requests: nothing, or one request begins or goes on. It raises exactly
if it is a run behind an Approve click that fails, and what it prompts for is stored. -/
def PutsOne (s s' : Orchestrator) (h : HandlerId) (raises : Bool) : Prop :=
  ∃ t, s'.handlings = s.handlings.insert h t ∧
    (∀ t₀, s.handlings.lookup h = some t₀ → t₀.phase.prompts = none ∧ t₀.phase ≠ .raised) ∧
    (t.phase = .raised ↔ raises = true) ∧
    ∀ batch, t.phase.prompts = some batch → ∃ threadKey calls description,
      s'.log = s.log ++ [.stored threadKey batch calls description]

/-- The request has not been answered. -/
def Unanswered (s : Orchestrator) (h : HandlerId) : Prop :=
  ∀ t, s.handlings.lookup h = some t → t.phase.prompts = none ∧ t.phase ≠ .raised

theorem putsOne_plain {phase : HandlingPhase} (hold : s.Unanswered h)
    (hhandlings : s'.handlings = s.handlings.insert h ⟨request, phase⟩)
    (hprompts : phase.prompts = none) (hraised : phase ≠ .raised) : PutsOne s s' h false := by
  refine ⟨_, hhandlings, hold, iff_of_false hraised (by simp), ?_⟩
  intro batch hbatch
  rw [hprompts] at hbatch
  contradiction

theorem putsOne_storeApproval (hold : s.Unanswered h) (pending : PendingApproval) :
    PutsOne s (s.storeApproval h request pending) h false := by
  refine ⟨_, rfl, hold, iff_of_false (by simp) (by simp), ?_⟩
  intro batch hbatch
  obtain rfl := Option.some.inj hbatch
  exact ⟨_, _, _, rfl⟩

theorem putsOne_running (hold : s.Unanswered h) (run : AgentRun) (category : ErrorCategory) :
    PutsOne s (s.running E h request run category) h false := by
  unfold running
  split
  · exact putsOne_plain hold rfl rfl (by simp)
  · exact putsOne_storeApproval hold _
  · exact putsOne_plain hold rfl rfl (by simp)
  · exact putsOne_plain hold rfl rfl (by simp)

theorem putsOne_resuming (hold : s.Unanswered h) {run : AgentRun} {raises blocks : Bool}
    (hends : run.EndsAs raises blocks) (approval : StoredApproval) :
    PutsOne s (s.resuming E h request run approval) h raises := by
  cases hraises : raises with
  | true =>
    have hphase := hends.1.2 hraises
    simp only [resuming, hphase]
    exact ⟨_, rfl, hold, iff_of_true rfl rfl, fun batch hbatch => by contradiction⟩
  | false =>
    have hphase : run.phase ≠ .raised := fun hraised => by
      rw [hends.1.1 hraised] at hraises
      contradiction
    unfold resuming
    split
    · exact putsOne_plain hold rfl rfl (by simp)
    · exact putsOne_storeApproval hold _
    · contradiction
    · exact putsOne_plain hold rfl rfl (by simp)

theorem putsOne_inferring (hold : s.Unanswered h) (messages : List Message) (chunks : List String)
    (attempt : ℕ) (response : Except String InferenceResponse) :
    PutsOne s (s.inferring E h request messages chunks attempt response) h false := by
  unfold inferring
  split
  · split
    · exact putsOne_plain hold rfl rfl (by simp)
    · exact putsOne_plain hold rfl rfl (by simp)
  · exact putsOne_plain hold rfl rfl (by simp)

theorem putsOne_handleMessage (hold : s.Unanswered h) (systemPrompt : String) :
    PutsOne s (s.handleMessage E h request systemPrompt) h false := by
  unfold handleMessage
  dsimp only
  split_ifs
  · exact putsOne_plain hold rfl rfl (by simp)
  · exact putsOne_plain hold rfl rfl (by simp)
  · unfold running
    split
    · exact putsOne_plain hold rfl rfl (by simp)
    · rename_i pending hphase
      exact absurd hphase ((AgentRun.quiet_start _ _ _).not_blocked pending)
    · exact putsOne_plain hold rfl rfl (by simp)
    · exact putsOne_plain hold rfl rfl (by simp)

theorem putsOne_handle (hold : s.Unanswered h) (circumstances : Circumstances) :
    PutsOne s (s.handle E h request circumstances) h false := by
  unfold handle
  split
  · exact putsOne_handleMessage hold _
  · split_ifs
    · unfold handleWriteApproval
      split
      · exact putsOne_plain hold rfl rfl (by simp)
      · dsimp only
        split_ifs
        · exact putsOne_plain hold rfl rfl (by simp)
        · exact putsOne_plain hold rfl rfl (by simp)
    · unfold handleWriteDenial
      split
      · exact putsOne_plain hold rfl rfl (by simp)
      · exact putsOne_plain hold rfl rfl (by simp)
    · unfold handleFinalizationAction
      dsimp only
      split_ifs
      · exact putsOne_plain hold rfl rfl (by simp)
      · exact putsOne_plain hold rfl rfl (by simp)
    · exact putsOne_handleMessage hold _

theorem unanswered_of_fresh (hfresh : s.isFresh h = true) : s.Unanswered h := by
  intro t ht
  simp [isFresh, ht] at hfresh

theorem unanswered_of_lookup {t : Handling} (ht : s.handlings.lookup h = some t)
    (hprompts : t.phase.prompts = none) (hraised : t.phase ≠ .raised) : s.Unanswered h := by
  intro t' ht'
  rw [ht] at ht'
  obtain rfl := Option.some.inj ht'
  exact ⟨hprompts, hraised⟩

theorem handlings_step {e : OrchestratorEvent} (hs : s.step E e = some s') :
    s'.handlings = s.handlings ∧ s.failsResumed E e = false ∨
      ∃ h, e.handler = some h ∧ PutsOne s s' h (s.failsResumed E e) := by
  cases e with
  | handle h request circumstances =>
    simp only [step, Option.ite_none_right_eq_some] at hs
    obtain ⟨⟨hfresh, -⟩, hs⟩ := hs
    obtain rfl := Option.some.inj hs
    exact Or.inr ⟨h, rfl, putsOne_handle (unanswered_of_fresh hfresh) circumstances⟩
  | run h e =>
    obtain ⟨request, phase, ht, hcase⟩ := run_cases hs
    refine Or.inr ⟨h, rfl, ?_⟩
    simp only [failsResumed, ht, Option.any_some]
    rcases hcase with ⟨run, run', rfl, -, rfl⟩ | ⟨run, run', approval, rfl, hrun, rfl⟩ |
      ⟨messages, chunks, attempt, response, rfl, -, rfl⟩
    · exact putsOne_running (unanswered_of_lookup ht rfl (by simp)) run' _
    · exact putsOne_resuming (unanswered_of_lookup ht rfl (by simp)) (AgentRun.step_endsAs hrun)
        approval
    · exact putsOne_inferring (unanswered_of_lookup ht rfl (by simp)) _ _ _ _
  | post h =>
    simp only [step] at hs
    split at hs
    · obtain rfl := Option.some.inj hs
      exact Or.inl ⟨rfl, rfl⟩
    · contradiction
  | actions e =>
    obtain ⟨actions, -, -, -, rfl⟩ := actions_eq_some hs
    exact Or.inl ⟨rfl, rfl⟩
  | cancel h =>
    have hold : s.Unanswered h := by
      rintro ⟨request, phase⟩ ht
      cases phase <;> simp [step, ht, HandlingPhase.prompts] at hs ⊢
    obtain ⟨t, request, -, -, rfl⟩ := cancel_lookup hs
    exact Or.inr ⟨_, rfl, putsOne_plain hold rfl rfl (by simp)⟩

/-! ### The finalization tasks -/

theorem tasks_running (run : AgentRun) (category : ErrorCategory) :
    (s.running E h request run category).actions = s.actions := by
  unfold running
  split <;> rfl

theorem lookup_of_pendingIteration {w : String} (hw : s.pendingIteration E request = some w) :
    s.actions.pendingIteration.lookup request.threadKey = some w := by
  unfold pendingIteration at hw
  split at hw
  · exact hw
  · contradiction

/-- What a step does to the finalization tasks: nothing, or one of them begins or goes on. -/
def TasksGo (s s' : Orchestrator) (raises : Bool) : Prop :=
  s'.actions.tasks = s.actions.tasks ∧ raises = false ∨
    ∃ h t, s'.actions.tasks = s.actions.tasks.insert h t ∧ (t.phase = .raised ↔ raises = true)

theorem tasksGo_handleMessage (systemPrompt : String) :
    TasksGo s (s.handleMessage E h request systemPrompt)
      ((s.pendingIteration E request).any s.actions.nameless) := by
  unfold handleMessage
  cases hfeedback : s.pendingIteration E request with
  | none =>
    simp only [Option.isSome_none, Bool.false_eq_true, ↓reduceIte, Option.any_none]
    split_ifs
    · exact Or.inl ⟨rfl, rfl⟩
    · exact Or.inl ⟨by rw [tasks_running]; rfl, rfl⟩
  | some w =>
    have hbegins : FinalizationActions.Begins s.actions
        (s.actions.consumeIterationFeedback E.actions h request request.threadKey) h _ :=
      FinalizationActions.begins_consumeIterationFeedback request.threadKey
    rw [lookup_of_pendingIteration hfeedback] at hbegins
    obtain ⟨t, htasks, hraised⟩ := hbegins
    exact Or.inr ⟨h, t, htasks, hraised⟩

theorem tasks_step {e : OrchestratorEvent} (hs : s.step E e = some s') :
    TasksGo s s' (s.asksNameless E e) := by
  cases e with
  | handle h request circumstances =>
    simp only [step, Option.ite_none_right_eq_some] at hs
    obtain rfl := Option.some.inj hs.2
    cases ha : request.action with
    | none =>
      simp only [handle, asksNameless, ha]
      exact tasksGo_handleMessage _
    | some action =>
      simp only [handle, asksNameless, ha]
      by_cases happrove : action.actionId = approvalActionApprove
      · rw [if_pos happrove, if_pos (Or.inl happrove)]
        unfold handleWriteApproval
        split
        · exact Or.inl ⟨rfl, rfl⟩
        · dsimp only
          split_ifs <;> exact Or.inl ⟨rfl, rfl⟩
      · rw [if_neg happrove]
        by_cases hdeny : action.actionId = approvalActionDeny
        · rw [if_pos hdeny, if_pos (Or.inr hdeny)]
          unfold handleWriteDenial
          split <;> exact Or.inl ⟨rfl, rfl⟩
        · rw [if_neg hdeny, if_neg (not_or.2 ⟨happrove, hdeny⟩)]
          split_ifs
          · obtain ⟨t, htasks, hraised⟩ := FinalizationActions.begins_handle (E := E.actions)
              (h := h) (s := s.actions) ha circumstances.removal
            exact Or.inr ⟨h, t, htasks, hraised⟩
          · exact tasksGo_handleMessage _
  | run h e =>
    obtain ⟨request, phase, -, ⟨run, run', -, -, rfl⟩ | ⟨run, run', approval, -, -, rfl⟩ |
      ⟨messages, chunks, attempt, response, -, -, rfl⟩⟩ := run_cases hs
    · exact Or.inl ⟨by rw [tasks_running], rfl⟩
    · refine Or.inl ⟨?_, rfl⟩
      unfold resuming
      split <;> rfl
    · refine Or.inl ⟨?_, rfl⟩
      unfold inferring
      split
      · split <;> rfl
      · rfl
  | post h =>
    simp only [step] at hs
    split at hs
    · obtain rfl := Option.some.inj hs
      exact Or.inl ⟨rfl, rfl⟩
    · contradiction
  | actions e =>
    obtain ⟨actions, hhandle, hfeedback, hactions, rfl⟩ := actions_eq_some hs
    rcases FinalizationActions.tasks_step hhandle hfeedback hactions with ⟨htasks, -⟩ |
      ⟨h, t, t', -, htasks, hphase, -, -⟩
    · exact Or.inl ⟨htasks, rfl⟩
    · exact Or.inr ⟨h, t', htasks, iff_of_false hphase (by simp [asksNameless])⟩
  | cancel h =>
    obtain ⟨t, request, -, -, rfl⟩ := cancel_lookup hs
    exact Or.inl ⟨rfl, rfl⟩

/-! ### The pending approvals -/

/-- What a step does to the pending approvals: it vacates a thread, it pops an approved batch, or
it leaves them as they are. -/
def Enters (s s' : Orchestrator) (vacated : Option String) : Prop :=
  (s'.log = s.log ∧ ∀ threadKey ∈ vacated, s.pendingApprovals.lookup threadKey = none) ∨
  ∃ x, s'.log = s.log ++ [x] ∧
    ((∃ threadKey v, vacated = some threadKey ∧ approvals.writes x = some (threadKey, v) ∧
      x.isApproved = false) ∨
    vacated = none ∧ (approvals.writes x = none ∨ x.isApproved = true))

theorem enters_same (hlog : s'.log = s.log) : Enters s s' none :=
  Or.inl ⟨hlog, by simp⟩

theorem enters_handleMessage (systemPrompt : String) :
    Enters s (s.handleMessage E h request systemPrompt)
      (if (s.pendingIteration E request).isNone then some request.threadKey else none) := by
  refine Or.inr ⟨_, log_handleMessage systemPrompt, ?_⟩
  cases s.pendingIteration E request with
  | none => exact Or.inl ⟨_, none, rfl, rfl, rfl⟩
  | some w => exact Or.inr ⟨rfl, Or.inl rfl⟩

theorem enters_handle (circumstances : Circumstances) :
    Enters s (s.handle E h request circumstances)
      (if s.dropsPending E request then some request.threadKey else none) := by
  cases ha : request.action with
  | none =>
    simp only [handle, dropsPending, ha]
    exact enters_handleMessage _
  | some action =>
    simp only [handle, dropsPending, ha]
    by_cases happrove : action.actionId = approvalActionApprove
    · rw [if_pos happrove, if_pos happrove]
      unfold handleWriteApproval
      cases hpending : s.pendingApprovals.lookup request.threadKey with
      | none =>
        refine Or.inl ⟨rfl, ?_⟩
        intro threadKey hvacated
        split at hvacated
        · obtain rfl := Option.some.inj hvacated
          exact hpending
        · contradiction
      | some approval =>
        dsimp only
        split_ifs with htools hnot hnot
        · exact Or.inr ⟨_, rfl, Or.inl ⟨_, none, rfl, rfl, rfl⟩⟩
        · simp [htools] at hnot
        · simp [htools] at hnot
        · exact Or.inr ⟨_, rfl, Or.inr ⟨rfl, Or.inr rfl⟩⟩
    · rw [if_neg happrove, if_neg happrove]
      by_cases hdeny : action.actionId = approvalActionDeny
      · rw [if_pos hdeny, if_pos hdeny]
        unfold handleWriteDenial
        cases hpending : s.pendingApprovals.lookup request.threadKey with
        | none =>
          refine Or.inl ⟨rfl, ?_⟩
          intro threadKey hvacated
          obtain rfl := Option.some.inj hvacated
          exact hpending
        | some approval => exact Or.inr ⟨_, rfl, Or.inl ⟨_, none, rfl, rfl, rfl⟩⟩
      · rw [if_neg hdeny, if_neg hdeny]
        by_cases hfinal : E.finalizationActions = true ∧ isFinalizationAction action = true
        · rw [if_pos hfinal, if_pos hfinal, if_neg Bool.false_ne_true]
          unfold handleFinalizationAction
          dsimp only
          split_ifs
          · exact Or.inr ⟨_, rfl, Or.inr ⟨rfl, Or.inl rfl⟩⟩
          · exact enters_same rfl
        · rw [if_neg hfinal, if_neg hfinal]
          exact enters_handleMessage _

/-- A run that is blocked stores its batch, and no other run stores one. -/
theorem enters_run {run : AgentRun} {raises blocks : Bool} (hends : run.EndsAs raises blocks) :
    (∀ category, Enters s (s.running E h request run category)
      (if blocks then some request.threadKey else none)) ∧
    ∀ approval, Enters s (s.resuming E h request run approval)
      (if blocks then some request.threadKey else none) := by
  cases hblocks : blocks with
  | true =>
    obtain ⟨pending, hphase⟩ := hends.2.2 hblocks
    simp only [running, resuming, hphase]
    exact ⟨fun _ => Or.inr ⟨_, rfl, Or.inl ⟨_, _, rfl, rfl, rfl⟩⟩,
      fun _ => Or.inr ⟨_, rfl, Or.inl ⟨_, _, rfl, rfl, rfl⟩⟩⟩
  | false =>
    have hphase : ∀ pending, run.phase ≠ .blocked pending := by
      intro pending hphase
      rw [hends.2.1 ⟨pending, hphase⟩] at hblocks
      contradiction
    refine ⟨?_, ?_⟩
    · intro category
      apply enters_same
      unfold running
      split
      · rfl
      · exact absurd ‹_› (hphase _)
      · rfl
      · rfl
    · intro approval
      apply enters_same
      unfold resuming
      split
      · rfl
      · exact absurd ‹_› (hphase _)
      · rfl
      · rfl

theorem enters_step {e : OrchestratorEvent} (hs : s.step E e = some s') :
    Enters s s' (s.vacates E e) := by
  cases e with
  | handle h request circumstances =>
    simp only [step, Option.ite_none_right_eq_some] at hs
    obtain rfl := Option.some.inj hs.2
    exact enters_handle circumstances
  | run h e =>
    obtain ⟨request, phase, ht, hcase⟩ := run_cases hs
    simp only [vacates, ht, Option.bind_some]
    rcases hcase with ⟨run, run', rfl, hrun, rfl⟩ | ⟨run, run', approval, rfl, hrun, rfl⟩ |
      ⟨messages, chunks, attempt, response, rfl, -, rfl⟩
    · exact (enters_run (AgentRun.step_endsAs hrun)).1 _
    · exact (enters_run (AgentRun.step_endsAs hrun)).2 approval
    · exact enters_same (log_inferring _ _ _ _)
  | post h | actions e | cancel h =>
    rcases step_cases hs with ⟨h, request, circumstances, he, -⟩ | ⟨h, e', t, he, -, -⟩ |
      ⟨h, batch, -, rfl⟩ | ⟨e', actions, -, -, -, -, rfl⟩ | ⟨h, request, -, rfl⟩
    · contradiction
    · contradiction
    · exact enters_same rfl
    · exact enters_same rfl
    · exact enters_same rfl

/-! ### Every request is answered -/

theorem further_of_insert {t : Handling} (hhandlings : s'.handlings = s.handlings.insert h t)
    (hold : s.Unanswered h) {batch : BatchId} (hbatch : s.further batch = true) :
    s'.further batch = true := by
  obtain ⟨h₀, t₀, ht₀, hclick, hprompts⟩ := further_iff.1 hbatch
  refine further_iff.2 ⟨h₀, t₀, ?_, hclick, hprompts⟩
  rw [hhandlings]
  refine Dict.lookup_insert_eq_some.2 (Or.inr ⟨?_, ht₀⟩)
  rintro rfl
  rw [(hold t₀ ht₀).1] at hprompts
  contradiction

/-- A further write of a turn stays one. -/
theorem further_step {e : OrchestratorEvent} (hs : s.step E e = some s') {batch : BatchId}
    (hbatch : s.further batch = true) : s'.further batch = true := by
  rcases handlings_step hs with ⟨hhandlings, -⟩ | ⟨h, -, t, hhandlings, hold, -, -⟩
  · unfold further at hbatch ⊢
    rw [hhandlings]
    exact hbatch
  · exact further_of_insert hhandlings hold hbatch

/-- A new one is stored. -/
theorem further_new {e : OrchestratorEvent} (hs : s.step E e = some s') {batch : BatchId}
    (hbatch : s'.further batch = true) : s.further batch = true ∨
      ∃ threadKey calls description,
        s'.log = s.log ++ [.stored threadKey batch calls description] := by
  obtain ⟨h₀, t₀, ht₀, hclick, hprompts⟩ := further_iff.1 hbatch
  rcases handlings_step hs with ⟨hhandlings, -⟩ | ⟨h, -, t, hhandlings, -, -, hstored⟩
  · rw [hhandlings] at ht₀
    exact Or.inl (further_iff.2 ⟨h₀, t₀, ht₀, hclick, hprompts⟩)
  · rw [hhandlings] at ht₀
    rcases Dict.lookup_insert_eq_some.1 ht₀ with ⟨-, rfl⟩ | ⟨-, hold⟩
    · exact Or.inr (hstored batch hprompts)
    · exact Or.inl (further_iff.2 ⟨h₀, t₀, hold, hclick, hprompts⟩)

/-- Pending, as the log has it. -/
theorem pending_iff (hr : Recorded E s) {batch : BatchId} :
    (∃ threadKey approval, s.pendingApprovals.lookup threadKey = some approval ∧
      approval.batch = batch) ↔ ∃ threadKey, approvals.content s.log threadKey = some batch := by
  constructor
  · rintro ⟨threadKey, approval, ha, rfl⟩
    exact ⟨threadKey, hr.approvals.content_of_lookup ha⟩
  · rintro ⟨threadKey, hcontent⟩
    rw [← hr.approvals threadKey, Option.map_eq_some_iff] at hcontent
    obtain ⟨approval, ha, hbatch⟩ := hcontent
    exact ⟨threadKey, approval, ha, hbatch⟩

/-- A batch that loses its place unapproved is not kept. -/
theorem lost_of_vacated (hr : Recorded E s) (hr' : Recorded E s') {x : OrchestratorEntry}
    (hlog : s'.log = s.log ++ [x]) {threadKey : String} {v : Option BatchId}
    (hwrites : approvals.writes x = some (threadKey, v)) (hx : x.isApproved = false)
    {approval : StoredApproval} (ha : s.pendingApprovals.lookup threadKey = some approval) :
    ¬ ((∃ threadKey, approvals.content s'.log threadKey = some approval.batch) ∨
      ∃ threadKey prompt calls, .approved threadKey prompt approval.batch calls ∈ s'.log) := by
  have hheld := hr.approvals.content_of_lookup ha
  have honce := once_of_legal hr'.legal
  rw [hlog] at honce ⊢
  obtain ⟨-, hnew⟩ := Slots.once_snoc.1 honce
  have hv : v ≠ some approval.batch := by
    rintro rfl
    exact hnew _ (Slots.item_of_writes hwrites) (Slots.mem_of_content hheld)
  rintro (⟨threadKey', hcontent⟩ | ⟨threadKey', prompt, calls, hmem⟩)
  · rw [Slots.content_snoc] at hcontent
    rcases Slots.write_eq_some hcontent with hput | ⟨hsame, hother⟩
    · rw [hwrites] at hput
      exact hv (Prod.mk.inj (Option.some.inj hput)).2
    · obtain rfl := Slots.content_inj (once_of_legal hr.legal) hheld hsame
      exact hother v hwrites
  · rcases List.mem_append.1 hmem with hmem | hmem
    · exact not_popped_of_held hr.legal hheld _ hmem rfl
    · obtain rfl := List.mem_singleton.1 hmem
      contradiction

/-- What was kept is kept, if no step vacates its thread. -/
theorem kept_of_entered (hr : Recorded E s) (hr' : Recorded E s') {x : OrchestratorEntry}
    (hlog : s'.log = s.log ++ [x])
    (hx : approvals.writes x = none ∨ x.isApproved = true ∨ ∃ threadKey v,
      approvals.writes x = some (threadKey, v) ∧ ∀ approval ∈ s.pendingApprovals.lookup threadKey,
        s.further approval.batch = false) {batch : BatchId} (hbatch : s.further batch = true)
    (hkept : (∃ threadKey, approvals.content s.log threadKey = some batch) ∨
      ∃ threadKey prompt calls, .approved threadKey prompt batch calls ∈ s.log) :
    (∃ threadKey, approvals.content s'.log threadKey = some batch) ∨
      ∃ threadKey prompt calls, .approved threadKey prompt batch calls ∈ s'.log := by
  rw [hlog]
  rcases hkept with ⟨threadKey, hcontent⟩ | ⟨threadKey, prompt, calls, hmem⟩
  · by_cases hwrites : ∃ v, approvals.writes x = some (threadKey, v)
    · obtain ⟨v, hwrites⟩ := hwrites
      rcases hx with hnone | happroved | ⟨threadKey', v', hwrites', hnot⟩
      · rw [hnone] at hwrites
        contradiction
      · refine Or.inr ?_
        cases x with
        | approved threadKey' prompt batch' calls =>
          obtain ⟨rfl, -⟩ := Prod.mk.inj (Option.some.inj hwrites)
          have hlegal : LegalEntry E s.log (.approved threadKey' prompt batch' calls) :=
            (legal_snoc.1 (hlog ▸ hr'.legal)).2
          obtain rfl : batch' = batch := Option.some.inj (hlegal.1.symm.trans hcontent)
          exact ⟨_, _, _, List.mem_append_right _ (List.mem_singleton_self _)⟩
        | stored | dropped | message | iterate => contradiction
      · rw [hwrites] at hwrites'
        obtain ⟨rfl, -⟩ := Prod.mk.inj (Option.some.inj hwrites')
        rw [← hr.approvals threadKey, Option.map_eq_some_iff] at hcontent
        obtain ⟨approval, ha, rfl⟩ := hcontent
        rw [hnot approval ha] at hbatch
        contradiction
    · refine Or.inl ⟨threadKey, ?_⟩
      rw [Slots.content_snoc, Slots.write_of_other fun v hv => hwrites ⟨v, hv⟩]
      exact hcontent
  · exact Or.inr ⟨threadKey, prompt, calls, List.mem_append_left _ hmem⟩

/-- What holds throughout an answered run. -/
structure Answering (E : OrchestratorEnv) (s : Orchestrator) : Prop where
  recorded : Recorded E s
  answered : Answered s

theorem kept_iff (hr : Recorded E s) : (∀ batch, s.further batch = true →
    (∃ threadKey approval, s.pendingApprovals.lookup threadKey = some approval ∧
      approval.batch = batch) ∨
    ∃ threadKey prompt calls, .approved threadKey prompt batch calls ∈ s.log) ↔
    ∀ batch, s.further batch = true →
      (∃ threadKey, approvals.content s.log threadKey = some batch) ∨
      ∃ threadKey prompt calls, .approved threadKey prompt batch calls ∈ s.log := by
  simp only [pending_iff hr]

/-- A step from an answered state leaves one exactly if it is answerable. -/
theorem answered_step {e : OrchestratorEvent} (hi : Answering E s) (hs : s.step E e = some s') :
    (Answered s' → Answerable E s e) ∧ (Answerable E s e → Answering E s') := by
  have hr := hi.recorded
  have hr' := recorded_step hr hs
  constructor
  · intro ha
    refine ⟨?_, ?_, ?_⟩
    · rcases handlings_step hs with ⟨-, hfails⟩ | ⟨h, -, t, hhandlings, -, hraised, -⟩
      · exact hfails
      · rw [← Bool.not_eq_true, ← hraised]
        exact ha.handled h t (by rw [hhandlings, AList.lookup_insert])
    · rcases tasks_step hs with ⟨-, hnameless⟩ | ⟨h, t, htasks, hraised⟩
      · exact hnameless
      · rw [← Bool.not_eq_true, ← hraised]
        exact ha.finalized h t (by rw [htasks, AList.lookup_insert])
    · intro threadKey hvacated approval hpending
      rw [← Bool.not_eq_true]
      intro hfurther
      rcases enters_step hs with ⟨-, hempty⟩ |
        ⟨x, hlog, ⟨threadKey', v, hv, hwrites, hx⟩ | ⟨hnone, -⟩⟩
      · rw [hempty threadKey hvacated] at hpending
        contradiction
      · rw [hv] at hvacated
        obtain rfl := Option.some.inj hvacated
        exact lost_of_vacated hr hr' hlog hwrites hx hpending
          ((kept_iff hr').1 ha.kept _ (further_step hs hfurther))
      · rw [hnone] at hvacated
        contradiction
  · rintro ⟨hfails, hnameless, hvacates⟩
    refine ⟨hr', ?_, ?_, ?_⟩
    · intro h₀ t₀ ht₀
      rcases handlings_step hs with ⟨hhandlings, -⟩ | ⟨h, -, t, hhandlings, -, hraised, -⟩
      · exact hi.answered.handled h₀ t₀ (hhandlings ▸ ht₀)
      · rw [hhandlings] at ht₀
        rcases Dict.lookup_insert_eq_some.1 ht₀ with ⟨-, rfl⟩ | ⟨-, hold⟩
        · rw [hfails] at hraised
          exact fun hphase => Bool.false_ne_true (hraised.1 hphase)
        · exact hi.answered.handled h₀ t₀ hold
    · intro h₀ t₀ ht₀
      rcases tasks_step hs with ⟨htasks, -⟩ | ⟨h, t, htasks, hraised⟩
      · exact hi.answered.finalized h₀ t₀ (htasks ▸ ht₀)
      · rw [htasks] at ht₀
        rcases Dict.lookup_insert_eq_some.1 ht₀ with ⟨-, rfl⟩ | ⟨-, hold⟩
        · rw [hnameless] at hraised
          exact fun hphase => Bool.false_ne_true (hraised.1 hphase)
        · exact hi.answered.finalized h₀ t₀ hold
    · rw [kept_iff hr']
      intro batch hbatch
      rcases further_new hs hbatch with hold | ⟨threadKey, calls, description, hlog⟩
      · have hkept := (kept_iff hr).1 hi.answered.kept batch hold
        rcases enters_step hs with ⟨hlog, -⟩ | ⟨x, hlog, hx⟩
        · rw [hlog]
          exact hkept
        · refine kept_of_entered hr hr' hlog ?_ hold hkept
          rcases hx with ⟨threadKey, v, hv, hwrites, -⟩ | ⟨-, hnone | happroved⟩
          · exact Or.inr (Or.inr ⟨threadKey, v, hwrites, hvacates threadKey hv⟩)
          · exact Or.inl hnone
          · exact Or.inr (Or.inl happroved)
      · refine Or.inl ⟨threadKey, ?_⟩
        rw [hlog, Slots.content_snoc]
        simp [Slots.write, approvals]

theorem lookup_of_other {e : OrchestratorEvent} (hs : s.step E e = some s')
    (hh : e.handler ≠ some h) : s'.handlings.lookup h = s.handlings.lookup h := by
  rcases handlings_step hs with ⟨hhandlings, -⟩ | ⟨h', hhandler, t, hhandlings, -, -, -⟩
  · rw [hhandlings]
  · rw [hhandlings]
    apply AList.lookup_insert_ne
    rintro rfl
    exact hh hhandler

/-- How a request behind an Approve click goes on or ends. -/
theorem resuming_lookup (run : AgentRun) (approval : StoredApproval)
    (hraised : run.phase ≠ .raised) : let s' := s.resuming E h request run approval
    (∃ run', s'.handlings.lookup h = some ⟨request, .resuming run' approval⟩) ∨
    (∃ content, s'.handlings.lookup h =
        some ⟨request, .replied (shapeResponse request content)⟩ ∧
      s'.prompt = s.prompt.commitTurn E.maxThreadHistory request.threadKey
        approval.pending.originalUserText content) ∨
    ∃ batch pending, s'.handlings.lookup h =
      some ⟨request, .replied (buildApprovalResponse request batch pending)⟩ := by
  unfold resuming
  split
  · exact Or.inr (Or.inl ⟨_, AList.lookup_insert _, rfl⟩)
  · exact Or.inr (Or.inr ⟨_, _, AList.lookup_insert _⟩)
  · contradiction
  · exact Or.inl ⟨_, AList.lookup_insert _⟩

/-- A request behind an Approve click that does not raise settles its turn, or goes on. -/
theorem turnSettled_step {e : OrchestratorEvent} (hs : s.step E e = some s')
    (ha : Answered s') : TurnSettled E s s' := by
  intro h request run approval ht
  by_cases hother : e.handler ≠ some h
  · exact Or.inl ⟨run, (lookup_of_other hs hother).trans ht⟩
  · have hhandler := not_not.1 hother
    cases e with
    | handle h' request' circumstances =>
      obtain rfl := Option.some.inj hhandler
      simp [step, isFresh, ht] at hs
    | run h' e =>
      obtain rfl := Option.some.inj hhandler
      obtain ⟨request', phase, ht', hcase⟩ := run_cases hs
      rw [ht] at ht'
      obtain ⟨rfl, rfl⟩ := Handling.mk.inj (Option.some.inj ht')
      rcases hcase with ⟨run₀, run', hphase, -, -⟩ | ⟨run₀, run', approval', hphase, hrun, rfl⟩ |
        ⟨messages, chunks, attempt, response, hphase, -, -⟩
      · contradiction
      · obtain ⟨rfl, rfl⟩ := HandlingPhase.resuming.inj hphase
        have hraised : run'.phase ≠ .raised := by
          intro hraised
          refine ha.handled h' ⟨request, .raised⟩ ?_ rfl
          simp only [resuming, hraised]
          exact AList.lookup_insert _
        rcases resuming_lookup (E := E) (s := s) run' approval hraised with hgoes | hreturned |
          hprompted
        · exact Or.inl hgoes
        · exact Or.inr (Or.inr (Or.inl hreturned))
        · exact Or.inr (Or.inr (Or.inr (Or.inr hprompted)))
      · contradiction
    | cancel h' =>
      obtain rfl := Option.some.inj hhandler
      simp only [step, ht] at hs
      obtain rfl := Option.some.inj hs
      exact Or.inr (Or.inl (AList.lookup_insert _))
    | post | actions => contradiction

theorem answering_initial : Answering E {} := by
  refine ⟨recorded_initial, ?_, ?_, ?_⟩
  · intro h t ht
    contradiction
  · intro h t ht
    contradiction
  · intro batch hbatch
    contradiction

theorem answers_iff {tr : List (Orchestrator × OrchestratorEvent)}
    (h : (orchestratorMachine E).Trace tr s) :
    Answers E tr s ↔ Machine.Guarded (Answerable E) tr := by
  have halways : Machine.Always Answered tr s ↔ Machine.Guarded (Answerable E) tr :=
    h.always_iff_guarded_of_invariant answering_initial (fun _ hi => hi.answered)
      fun _ _ _ hi hs => answered_step hi hs
  rw [← halways]
  refine ⟨And.left, fun ha => ⟨ha, ?_⟩⟩
  intro p hp s' hs
  exact turnSettled_step hs (h.next_of_always ha hp hs)

/-- Every request goes on, whatever comes of its awaits, and each of them brings it nearer to its
end. No request raises and every turn whose write was executed is settled, exactly if every step of
the run is answerable. -/
theorem handle_answers_iff (E : OrchestratorEnv) {tr : List (Orchestrator × OrchestratorEvent)}
    (h : (orchestratorMachine E).Trace tr s) :
    (∀ h, s.inProgress h = true → Awaits E s h) ∧
      (∀ h e s', s.step E e = some s' →
        (∀ request circumstances, e ≠ .handle h request circumstances) →
          s'.left E h ≤ s.left E h ∧ (own h e = true → s'.left E h < s.left E h)) ∧
      (Answers E tr s ↔ Machine.Guarded (Answerable E) tr) := by
  have hp : Progressing E s :=
    h.invariant progressing_initial fun s e s' hp hs => progressing_step hp hs
  refine ⟨awaits_of_inProgress hp, ?_, answers_iff h⟩
  intro h' e s' hs
  exact left_step hp hs h'

theorem handle_answers_approvedOnce : ∃ tr s, (orchestratorMachine fileWriter).Trace tr s ∧
    tr.map Prod.snd = approvedOnce ∧ Answers fileWriter tr s := by
  obtain ⟨tr, s, hrun, hevents, hguarded⟩ := Machine.Trace.of_guarded_check
    (M := orchestratorMachine fileWriter) approvedOnce (G := Answerable fileWriter)
    (fun _ _ => of_decide_eq_true) (by decide)
  exact ⟨tr, s, hrun, hevents, (handle_answers_iff fileWriter hrun).2.2.2 hguarded⟩

/-- The backend fails behind an approved write that was performed. -/
def failsAfterWrite : List OrchestratorEvent :=
  [.handle 0 (saying "r-0" "Write a note.") {}, answersWrite 0 "notes.txt", .post 0,
    .handle 1 (clicking "r-1" approvalActionApprove "t-1") { prompt := some 0 },
    .run 1 (.toolReturned 0 (.returned "ok")), .run 1 (.answered (.error "TIMEOUT"))]

theorem approve_raises : ∃ tr s, (orchestratorMachine fileWriter).Trace tr s ∧
    tr.map Prod.snd = failsAfterWrite ∧ performed tr = [(0, 0)] ∧ ¬ Answers fileWriter tr s := by
  obtain ⟨tr, s, hrun, hevents, hp⟩ := Machine.Trace.of_check
    (M := orchestratorMachine fileWriter) failsAfterWrite
    (p := fun tr s => decide (performed tr = [(0, 0)]) &&
      (s.handlings.lookup 1).any fun t => t.phase.isRaised) (by decide)
  rw [Bool.and_eq_true, decide_eq_true_eq] at hp
  obtain ⟨hperformed, hraised⟩ := hp
  obtain ⟨⟨request, phase⟩, ht, hphase⟩ := (Option.any_eq_true _ _).1 hraised
  refine ⟨tr, s, hrun, hevents, hperformed, ?_⟩
  rintro ⟨⟨-, hanswered⟩, -⟩
  cases phase with
  | raised => exact hanswered.handled 1 _ ht rfl
  | running | resuming | inferring | finalizing | replied | cancelled => contradiction

end Orchestrator

end NemoClaw
