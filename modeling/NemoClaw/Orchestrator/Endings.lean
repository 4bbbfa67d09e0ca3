import NemoClaw.Orchestrator.FinalizationTools

/-! How the finalisation of a completion ends (`_finalize` of `orchestrator/dispatcher.py`, around
`FinalizationCoordinator.finalize`): what it calls on the renderer, and whether it deregisters the
workflow. The model, its tools, the backend and the renderer are the environment. -/

namespace NemoClaw

open Lib

namespace Endings

open FinalizationTools

/-- What happens while a completion is finalised: the tool calls of the model, what its loop comes
to, and what becomes of `render_present_work` where there is no finalizer. A call that the registry
answers by itself does not reach the session. -/
structure Behaviour where
  calls : List FinalizationCall
  ending : Except String String
  presented : Except String Unit := .ok ()

/-- What `_finalize` does for others to see. -/
inductive Act
  | render (workflowId : String) (render : FinalizationRender)
  | completionFailure (workflowId error : String)
  | deregister (workflowId : String)
  deriving DecidableEq

/-- A renderer call with the outcome of the workflow: its work, the result of an action or a
failure. -/
def Act.Tells (workflowId : String) : Act → Prop
  | .render w _ | .completionFailure w _ => w = workflowId
  | .deregister _ => False

section

variable {π : Type} (D : DispatcherEnv π) (E : ActionEnv)

/-- The session that `finalize` opens. -/
def openRun (context : WorkflowContext) (complete : TaskCompletePayload) (c : CtxId) :
    FinalizationRun where
  session := ⟨context.task, complete, c⟩
  contextTask := context.task

/-- The exception handler of `_finalize`. -/
def failActs (workflowId error : String) : List Act :=
  (if D.config.renderer then [.completionFailure workflowId error] else []) ++
    [.deregister workflowId]

/-- `_finalize` after a `finalize` that came to `ending`. -/
def endActs (workflowId : String) (state : FinalizationState) : Except String String → List Act
  | .error exc => failActs D workflowId exc
  | .ok content =>
    if (finalizationResult workflowId content state).isTerminal then [.deregister workflowId]
    else []

/-- `_finalize` -/
def finalizeActs (context : WorkflowContext) (complete : TaskCompletePayload) (c : CtxId)
    (b : Behaviour) : List Act :=
  let workflowId := context.workflowId
  if D.config.finalizer then
    if verifyBaseline context.task complete then
      let run := (openRun context complete c).calls E b.calls
      run.renders.map (.render workflowId) ++ endActs D workflowId run.state b.ending
    else failActs D workflowId
      (D.driftText context.task.workspaceBaseline complete.workspaceBaseline)
  else if D.config.renderer then
    .render workflowId (.presentWork complete.summary complete.diff) ::
      match b.presented with
      | .ok () => []
      | .error exc => failActs D workflowId exc
  else []

/-! ### Which calls are rendered -/

/-- The tool gets as far as its call on the renderer. -/
def reaches (task : TaskAssignPayload) : FinalizationCall → Bool
  | .presentWorkToUser _ _ _ | .destroySandbox => true
  | .pushBranch branchName commitMessage remote git =>
    (doPushBranch E task.workspaceRoot branchName commitMessage remote git).isOk
  | .pushAndCreatePr branchName title _ remote git pr =>
    (pushAndCreatePrMessage E task.workspaceRoot branchName title remote git pr).isOk
  | .discardWork _ removal =>
    match removal with
    | .failed _ => !looksLikePerAgentWorkspace (E.pathName (E.expandedPath task.workspaceRoot))
        task.agentId
    | .absent | .removed => true
  | .reDelegate prompt maxTurns model delegated =>
    E.delegationManager && (task.followup prompt maxTurns model).isSome && delegated.isOk

/-- The finalisation raises: the baseline has drifted, or the loop raises. -/
def Raises (context : WorkflowContext) (complete : TaskCompletePayload) (b : Behaviour) : Prop :=
  verifyBaseline context.task complete = false ∨ ∃ exc, b.ending = .error exc

/-- The failure is rendered, or a tool call of the model gets as far as its call on the renderer. -/
def Told (context : WorkflowContext) (complete : TaskCompletePayload) (b : Behaviour) : Prop :=
  (D.config.renderer = true ∧ Raises context complete b) ∨
    (E.renderer = true ∧ verifyBaseline context.task complete = true ∧
      ∃ call ∈ b.calls, reaches E context.task call = true)

/-- The loop returns, and its tool calls performed an action but none that ends the workflow after
the last push that failed. -/
def Kept (context : WorkflowContext) (complete : TaskCompletePayload) (c : CtxId)
    (b : Behaviour) : Prop :=
  ¬ Raises context complete b ∧ performedIn E ⟨context.task, complete, c⟩ b.calls ≠ [] ∧
    Undecided (performedIn E ⟨context.task, complete, c⟩ b.calls)

/-! ### What the tools render -/

/-- Two assignments in the same workspace, for the same agent. -/
def SamePlace (task task' : TaskAssignPayload) : Prop :=
  task'.workspaceRoot = task.workspaceRoot ∧ task'.agentId = task.agentId

variable {E} {run : FinalizationRun}

theorem resolveMaxTurns_isSome (maxTurns : Option ℤ) (fallback fallback' : Option PositiveInt) :
    (resolveMaxTurns maxTurns fallback).isSome = (resolveMaxTurns maxTurns fallback').isSome := by
  unfold resolveMaxTurns
  cases maxTurns with
  | none => rfl
  | some n =>
    dsimp only
    split
    · rfl
    · split <;> rfl

/-- Whether a follow-up is valid does not depend on what it follows. -/
theorem followup_isSome (task task' : TaskAssignPayload) (prompt : String) (maxTurns : Option ℤ)
    (model : Option String) : (task'.followup prompt maxTurns model).isSome =
      (task.followup prompt maxTurns model).isSome := by
  unfold TaskAssignPayload.followup
  split
  · simpa using resolveMaxTurns_isSome maxTurns task'.maxTurns task.maxTurns
  · rfl

theorem reaches_samePlace {task task' : TaskAssignPayload} (h : SamePlace task task')
    (call : FinalizationCall) : reaches E task' call = reaches E task call := by
  obtain ⟨hroot, hagent⟩ := h
  cases call with
  | presentWorkToUser | destroySandbox => rfl
  | pushBranch | pushAndCreatePr => simp only [reaches, hroot]
  | discardWork => simp only [reaches, hroot, hagent]
  | reDelegate prompt maxTurns model delegated =>
    simp only [reaches, followup_isSome task task']

/-- What a tool call makes of the run: the session stays in its workspace, and nothing is rendered
unless the call gets there. -/
structure Speaks (E : ActionEnv) (run run' : FinalizationRun) (reached : Bool) : Prop where
  place : SamePlace run.session.task run'.session.task
  renders : run'.renders = [] ↔ run.renders = [] ∧ (E.renderer && reached) = false

theorem speaks_unchanged (run : FinalizationRun) : Speaks E run run false :=
  ⟨⟨rfl, rfl⟩, by simp⟩

theorem speaks_render (run : FinalizationRun) (action : FinalizationTools.FinalizationAction)
    (result : String) : Speaks E run (run.renderActionResult E action result) true := by
  unfold FinalizationRun.renderActionResult
  cases hr : E.renderer with
  | false => exact ⟨⟨rfl, rfl⟩, by simp [hr]⟩
  | true => exact ⟨⟨rfl, rfl⟩, by simp [hr]⟩

/-- Only the session and the rendered calls of the run after the call count. -/
theorem Speaks.congr {run run' run'' : FinalizationRun} {reached : Bool}
    (h : Speaks E run run' reached) (hsession : run''.session = run'.session)
    (hrenders : run''.renders = run'.renders) : Speaks E run run'' reached := by
  refine ⟨?_, ?_⟩
  · rw [hsession]
    exact h.place
  · rw [hrenders]
    exact h.renders

/-- A session may move on to another assignment in its workspace before the call is rendered. -/
theorem Speaks.moved {run run' run'' : FinalizationRun} {reached : Bool}
    (h : Speaks E run' run'' reached) (hplace : SamePlace run.session.task run'.session.task)
    (hrenders : run'.renders = run.renders) : Speaks E run run'' reached := by
  obtain ⟨⟨hroot, hagent⟩, hspeaks⟩ := h
  refine ⟨⟨hroot.trans hplace.1, hagent.trans hplace.2⟩, ?_⟩
  rw [hspeaks, hrenders]

theorem speaks_finishPush (run : FinalizationRun) (action : FinalizationTools.FinalizationAction)
    (message : Except String String) :
    Speaks E run (run.finishPush E action message).1 message.isOk := by
  cases message with
  | error exc => exact speaks_unchanged run
  | ok message => exact (speaks_render run action message).congr rfl rfl

theorem speaks_present (run : FinalizationRun) (summary : Option String) (includeDiff : Bool)
    (rendered : Except String Unit) :
    Speaks E run (run.presentWorkToUser E summary includeDiff rendered).1 true := by
  unfold FinalizationRun.presentWorkToUser
  cases hr : E.renderer with
  | false => exact ⟨⟨rfl, rfl⟩, by simp [hr, FinalizationRun.record]⟩
  | true =>
    cases rendered with
    | error | ok => exact ⟨⟨rfl, rfl⟩, by simp [hr, FinalizationRun.record]⟩

theorem speaks_discard (run : FinalizationRun) (reason : String) (removal : Removal) :
    Speaks E run (run.discardWork E reason removal).1
      (reaches E run.session.task (.discardWork reason removal)) := by
  unfold FinalizationRun.discardWork reaches
  cases hd : run.discardable E with
  | false =>
    have hr : Speaks E run ((run.renderActionResult E .discardWork ("Error: refusing to discard " ++
        "non-agent path " ++ E.expandedPath run.session.task.workspaceRoot)).record .discardWork
          ("Error: refusing to discard non-agent path " ++
            E.expandedPath run.session.task.workspaceRoot)) true :=
      (speaks_render run .discardWork _).congr rfl rfl
    rw [FinalizationRun.discardable] at hd
    cases removal with
    | failed exc => simpa [hd] using hr
    | absent | removed => exact hr
  | true =>
    rw [FinalizationRun.discardable] at hd
    cases removal with
    | failed exc => simpa [hd] using speaks_unchanged run
    | absent | removed => exact (speaks_render run .discardWork _).congr rfl rfl

theorem speaks_reDelegate (run : FinalizationRun) (prompt : String) (maxTurns : Option ℤ)
    (model : Option String) (delegated : Except String Unit) :
    Speaks E run (run.reDelegate E prompt maxTurns model delegated).1
      (reaches E run.session.task (.reDelegate prompt maxTurns model delegated)) := by
  unfold FinalizationRun.reDelegate
  simp only [reaches]
  cases E.delegationManager with
  | false => exact speaks_unchanged run
  | true =>
    cases hf : run.session.task.followup prompt maxTurns model with
    | none => exact speaks_unchanged run
    | some followup =>
      obtain ⟨-, hagent, hroot, -⟩ := TaskAssignPayload.followup_eq hf
      -- the session moves on before the task is sent
      let moved : FinalizationRun :=
        { run with contextTask := followup, session := { run.session with task := followup } }
      have hplace : SamePlace run.session.task moved.session.task := ⟨hroot, hagent⟩
      cases delegated with
      | error exc => exact (speaks_unchanged moved).moved hplace rfl
      | ok =>
        have hrender := speaks_render (E := E)
          { moved with delegated := moved.delegated ++ [followup] } .reDelegate
          (FinalizationActions.reDelegatedMessage moved.session)
        apply (hrender.moved hplace rfl).congr
        · rfl
        · rfl

theorem call_speaks (run : FinalizationRun) (call : FinalizationCall) :
    Speaks E run (run.call E call).1 (reaches E run.session.task call) := by
  cases call with
  | presentWorkToUser summary includeDiff rendered => exact speaks_present run _ _ _
  | pushBranch branchName commitMessage remote git => exact speaks_finishPush run _ _
  | pushAndCreatePr branchName title body remote git pr => exact speaks_finishPush run _ _
  | discardWork reason removal => exact speaks_discard run reason removal
  | reDelegate prompt maxTurns model delegated => exact speaks_reDelegate run _ _ _ _
  | destroySandbox => exact (speaks_render run .destroySandbox _).congr rfl rfl

/-- A run renders nothing exactly if no call gets as far as a renderer. -/
theorem calls_renders (run : FinalizationRun) (cs : List FinalizationCall) :
    (run.calls E cs).renders = [] ↔
      run.renders = [] ∧ ∀ call ∈ cs, (E.renderer && reaches E run.session.task call) = false := by
  induction cs generalizing run with
  | nil => simp [FinalizationRun.calls]
  | cons call cs ih =>
    have hcall := call_speaks (E := E) run call
    change ((run.call E call).1.calls E cs).renders = [] ↔ _
    rw [ih, hcall.renders, and_assoc, List.forall_mem_cons]
    simp only [reaches_samePlace hcall.place]

/-! ### Silence -/

/-- Whenever the workflow is deregistered, the outcome was rendered before. -/
def NeverSilent (workflowId : String) (acts : List Act) : Prop :=
  ∀ before after, acts = before ++ .deregister workflowId :: after →
    ∃ act ∈ before, act.Tells workflowId

variable {workflowId : String}

theorem neverSilent_of_not_mem {acts : List Act} (h : .deregister workflowId ∉ acts) :
    NeverSilent workflowId acts := by
  intro before after heq
  exact absurd (by simp [heq]) h

theorem neverSilent_snoc_iff {front : List Act} (h : .deregister workflowId ∉ front) :
    NeverSilent workflowId (front ++ [.deregister workflowId]) ↔
      ∃ act ∈ front, act.Tells workflowId := by
  constructor
  · exact fun hall => hall front [] rfl
  · intro htells before after heq
    rcases List.eq_nil_or_concat after with rfl | ⟨after, act, rfl⟩
    · obtain ⟨rfl, -⟩ := List.append_inj' heq rfl
      exact htells
    · have heq' : front ++ [.deregister workflowId] =
          (before ++ .deregister workflowId :: after) ++ [act] := by simpa using heq
      obtain ⟨rfl, -⟩ := List.append_inj' heq' rfl
      exact absurd (by simp) h

theorem not_mem_renders (renders : List FinalizationRender) :
    .deregister workflowId ∉ renders.map (Act.render workflowId) := by simp

theorem tells_renders_iff (renders : List FinalizationRender) :
    (∃ act ∈ renders.map (Act.render workflowId), act.Tells workflowId) ↔ renders ≠ [] := by
  cases renders with
  | nil => simp
  | cons render renders => simp [Act.Tells]

variable {D : DispatcherEnv π}

/-- A failure is silent only if neither it nor anything before it was rendered. -/
theorem neverSilent_fail_iff (workflowId : String) (renders : List FinalizationRender)
    (error : String) :
    NeverSilent workflowId
        (renders.map (Act.render workflowId) ++ failActs D workflowId error) ↔
      D.config.renderer = true ∨ renders ≠ [] := by
  unfold failActs
  rw [← List.append_assoc, neverSilent_snoc_iff]
  · cases D.config.renderer with
    | false => simpa using tells_renders_iff renders
    | true => simp [Act.Tells]
  · split <;> simp

theorem neverSilent_end_iff (workflowId : String) (renders : List FinalizationRender)
    (state : FinalizationState) (content : String) :
    NeverSilent workflowId
        (renders.map (Act.render workflowId) ++ endActs D workflowId state (.ok content)) ↔
      renders ≠ [] ∨ (finalizationResult workflowId content state).isTerminal = false := by
  simp only [endActs]
  cases (finalizationResult workflowId content state).isTerminal with
  | false => simpa using neverSilent_of_not_mem (not_mem_renders renders)
  | true =>
    rw [if_pos rfl, neverSilent_snoc_iff (not_mem_renders renders), tells_renders_iff]
    simp

variable {context : WorkflowContext} {complete : TaskCompletePayload} {c : CtxId} {b : Behaviour}

/-- The flag of the result is unset exactly if the run performed an action and none of those that
decide ended the workflow. -/
theorem isTerminal_eq_false_iff (content : String) :
    (finalizationResult workflowId content
        ((openRun context complete c).calls E b.calls).state).isTerminal = false ↔
      performedIn E ⟨context.task, complete, c⟩ b.calls ≠ [] ∧
        Undecided (performedIn E ⟨context.task, complete, c⟩ b.calls) := by
  obtain ⟨hflag, haction⟩ := calls_state (E := E) (openRun context complete c) b.calls
  have hperformed : performed E (openRun context complete c) b.calls =
      performedIn E ⟨context.task, complete, c⟩ b.calls := rfl
  rw [hperformed] at hflag haction
  rw [← flagAfter_eq_false_iff]
  simp only [finalizationResult, hflag, haction]
  cases hlast : (performedIn E ⟨context.task, complete, c⟩ b.calls).getLast? with
  | none => simp [openRun, List.getLast?_eq_none_iff.1 hlast]
  | some p =>
    have hne : performedIn E ⟨context.task, complete, c⟩ b.calls ≠ [] := by
      rintro hnil
      simp [hnil] at hlast
    simp [openRun, hne]

theorem renders_ne_nil_iff :
    ((openRun context complete c).calls E b.calls).renders ≠ [] ↔
      E.renderer = true ∧ ∃ call ∈ b.calls, reaches E context.task call = true := by
  rw [ne_eq, calls_renders]
  cases E.renderer with
  | false => simp [openRun]
  | true => simp [openRun]

/-- A workflow is never deregistered silently exactly if there is no finalizer to do so, the user
is told by a tool or of the failure, or the actions of the model keep it registered. -/
theorem never_silent_iff (D : DispatcherEnv π) (E : ActionEnv) (context : WorkflowContext)
    (complete : TaskCompletePayload) (c : CtxId) (b : Behaviour) :
    NeverSilent context.workflowId (finalizeActs D E context complete c b) ↔
      D.config.finalizer = false ∨ Told D E context complete b ∨ Kept E context complete c b := by
  unfold finalizeActs
  cases hfinalizer : D.config.finalizer with
  | false =>
    simp only [Bool.false_eq_true, if_false, true_or, iff_true]
    cases hrenderer : D.config.renderer with
    | false => exact neverSilent_of_not_mem (by simp)
    | true =>
      cases hpresented : b.presented with
      | ok =>
        refine neverSilent_of_not_mem ?_
        simp
      | error exc =>
        exact (neverSilent_fail_iff context.workflowId
          [.presentWork complete.summary complete.diff] exc).2 (.inl hrenderer)
  | true =>
    cases hverified : verifyBaseline context.task complete with
    | false =>
      have h := neverSilent_fail_iff (D := D) context.workflowId []
        (D.driftText context.task.workspaceBaseline complete.workspaceBaseline)
      simpa [Told, Kept, Raises, hverified] using h
    | true =>
      simp only [if_true]
      cases hending : b.ending with
      | error exc =>
        have h := neverSilent_fail_iff (D := D) context.workflowId
          ((openRun context complete c).calls E b.calls).renders exc
        rw [renders_ne_nil_iff] at h
        simpa [endActs, Told, Kept, Raises, hverified, hending] using h
      | ok content =>
        have h := neverSilent_end_iff (D := D) context.workflowId
          ((openRun context complete c).calls E b.calls).renders
          ((openRun context complete c).calls E b.calls).state content
        rw [renders_ne_nil_iff, isTerminal_eq_false_iff] at h
        simpa [Told, Kept, Raises, hverified, hending] using h

end

/-! ### A model that answers in text -/

/-- A workflow from a Slack channel. -/
def channelWorkflow : WorkflowContext :=
  { FinalizationActions.fixBugWorkflow with channelId := some "C1" }

/-- The model answers without a tool call. -/
def textAnswer : Behaviour where
  calls := []
  ending := .ok "The fix looks good."

theorem text_answer_silent : ¬ ∀ b, NeverSilent channelWorkflow.workflowId
    (finalizeActs wireDispatcher FinalizationActions.plainPaths channelWorkflow fixBugResult 0
      b) := by
  intro hall
  obtain ⟨act, hact, -⟩ := hall textAnswer [] [] rfl
  simp at hact

/-! ### The same in the dispatcher -/

section

variable {π : Type} (D : DispatcherEnv π) (E : ActionEnv)

/-- What the finalisation task hears of a tool call. -/
def callEvents (run : FinalizationRun) : FinalizationCall → List FinalizeEvent
  | .reDelegate prompt maxTurns model delegated =>
    .reDelegate prompt maxTurns model ::
      if E.delegationManager && (run.session.task.followup prompt maxTurns model).isSome then
        match delegated with
        | .ok () => [.resumed]
        | .error exc => [.raised exc]
      else []
  | _ => []

def runEvents (run : FinalizationRun) : List FinalizationCall → List FinalizeEvent
  | [] => []
  | call :: cs => callEvents E run call ++ runEvents (run.call E call).1 cs

def renderedEvents : List FinalizeEvent := if D.config.renderer then [.resumed] else []

/-- What the finalisation task of a completion hears, up to the deregistration. -/
def finalizeEvents (context : WorkflowContext) (complete : TaskCompletePayload) (c : CtxId)
    (b : Behaviour) : List FinalizeEvent :=
  .started ::
    if D.config.finalizer then
      if verifyBaseline context.task complete then
        let run := openRun context complete c
        .resumed :: (runEvents E run b.calls ++
          match b.ending with
          | .error exc => .raised exc :: renderedEvents D
          | .ok content =>
            let result := finalizationResult context.workflowId content (run.calls E b.calls).state
            [.finished result.isTerminal])
      else renderedEvents D
    else if D.config.renderer then
      match b.presented with
      | .ok () => [.resumed]
      | .error exc => [.raised exc, .resumed]
    else []

/-- Finalisation task `t` hears the events. -/
def hears (d : Dispatcher) (t : FinalizeId) (events : List FinalizeEvent) : Option Dispatcher :=
  events.foldlM (fun d event => d.step D (.finalize t event)) d

/-- Finalisation task `t`, of the workflow, is in `phase`, and `workflows` are registered. -/
structure Stands (d : Dispatcher) (t : FinalizeId) (c : CtxId) (complete : TaskCompletePayload)
    (context : WorkflowContext) (workflows : Dict String CtxId) (phase : FinalizePhase) : Prop where
  task : d.tasks.lookup t = some ⟨c, complete, phase⟩
  context : d.contexts.lookup c = some context
  workflows : d.workflows = workflows

variable {D E} {d : Dispatcher} {t : FinalizeId} {c : CtxId} {complete : TaskCompletePayload}
  {context : WorkflowContext} {workflows : Dict String CtxId} {phase : FinalizePhase}

theorem Stands.step (h : Stands d t c complete context workflows phase) (event : FinalizeEvent) :
    d.step D (.finalize t event) = d.advance D t ⟨c, complete, phase⟩ context phase event := by
  simp [Dispatcher.step, h.task, h.context]

theorem Stands.hears_cons (h : Stands d t c complete context workflows phase)
    (event : FinalizeEvent) (events : List FinalizeEvent) :
    hears D d t (event :: events) =
      (d.advance D t ⟨c, complete, phase⟩ context phase event).bind fun d =>
        hears D d t events := by
  rw [hears, List.foldlM_cons, h.step]
  rfl

theorem hears_append (d : Dispatcher) (t : FinalizeId) (events events' : List FinalizeEvent) :
    hears D d t (events ++ events') = (hears D d t events).bind fun d => hears D d t events' := by
  rw [hears, List.foldlM_append]
  rfl

theorem Stands.setPhase (h : Stands d t c complete context workflows phase)
    (phase' : FinalizePhase) :
    Stands (d.setPhase t ⟨c, complete, phase⟩ phase') t c complete context workflows phase' :=
  ⟨by simp [Dispatcher.setPhase], h.context, h.workflows⟩

@[simp] theorem session_renderActionResult (run : FinalizationRun)
    (action : FinalizationTools.FinalizationAction) (result : String) :
    (run.renderActionResult E action result).session = run.session := by
  unfold FinalizationRun.renderActionResult
  split <;> rfl

theorem session_finishPush (run : FinalizationRun) (action : FinalizationTools.FinalizationAction)
    (message : Except String String) :
    (run.finishPush E action message).1.session = run.session := by
  cases message with
  | error exc => rfl
  | ok message => exact session_renderActionResult run action message

theorem session_present (run : FinalizationRun) (summary : Option String) (includeDiff : Bool)
    (rendered : Except String Unit) :
    (run.presentWorkToUser E summary includeDiff rendered).1.session = run.session := by
  unfold FinalizationRun.presentWorkToUser
  cases E.renderer with
  | false => rfl
  | true =>
    cases rendered with
    | error | ok => rfl

theorem session_discard (run : FinalizationRun) (reason : String) (removal : Removal) :
    (run.discardWork E reason removal).1.session = run.session := by
  unfold FinalizationRun.discardWork
  cases run.discardable E with
  | false => exact session_renderActionResult run .discardWork _
  | true =>
    cases removal with
    | failed exc => rfl
    | absent | removed => exact session_renderActionResult run .discardWork _

/-- A follow-up goes to both sessions, or to neither. -/
theorem stands_reDelegate (hmanager : E.delegationManager = D.config.delegationManager)
    {run : FinalizationRun} (hc : run.session.context = c)
    (h : Stands d t c complete context workflows (.deciding run.session)) (prompt : String)
    (maxTurns : Option ℤ) (model : Option String) (delegated : Except String Unit) :
    ∃ d' context',
      hears D d t (callEvents E run (.reDelegate prompt maxTurns model delegated)) = some d' ∧
        context'.workflowId = context.workflowId ∧
        (run.call E (.reDelegate prompt maxTurns model delegated)).1.session.context = c ∧
          Stands d' t c complete context' workflows
            (.deciding (run.call E (.reDelegate prompt maxTurns model delegated)).1.session) := by
  simp only [callEvents, h.hears_cons, Dispatcher.advance, Option.bind_some]
  cases hm : D.config.delegationManager with
  | false =>
    simp only [FinalizationRun.call, FinalizationRun.reDelegate, Dispatcher.reDelegate, hm,
      hmanager, Bool.false_and, Bool.false_eq_true, if_false]
    exact ⟨d, context, rfl, rfl, hc, h⟩
  | true =>
    cases hf : run.session.task.followup prompt maxTurns model with
    | none =>
      simp only [FinalizationRun.call, FinalizationRun.reDelegate, Dispatcher.reDelegate, hm,
        hmanager, hf, Option.isSome_none, Bool.and_false, Bool.false_eq_true, if_false, if_true]
      exact ⟨d, context, rfl, rfl, hc, h⟩
    | some followup =>
      let context' : WorkflowContext := { context with task := followup }
      let session : FinalizationSession := { run.session with task := followup }
      let moved : Dispatcher := { d with contexts := d.contexts.insert c context' }
      have hmoved : Stands (moved.setPhase t ⟨c, complete, .deciding run.session⟩
          (.delegating session)) t c complete context' workflows (.delegating session) := by
        refine ⟨by simp [Dispatcher.setPhase], ?_, h.workflows⟩
        simp [Dispatcher.setPhase, moved]
      have hnext : d.reDelegate D t ⟨c, complete, .deciding run.session⟩ run.session context
          prompt maxTurns model =
            moved.setPhase t ⟨c, complete, .deciding run.session⟩ (.delegating session) := by
        simp [Dispatcher.reDelegate, hm, hf, hc, moved, context', session]
      have hsession : (run.reDelegate E prompt maxTurns model delegated).1.session = session := by
        cases delegated with
        | error exc => simp [FinalizationRun.reDelegate, hmanager, hm, hf, session]
        | ok =>
          simp only [FinalizationRun.reDelegate, hmanager, hm, hf, if_true]
          exact session_renderActionResult _ _ _
      simp only [hnext, hmanager, hm, FinalizationRun.call, hsession]
      cases delegated with
      | error exc => exact ⟨_, context', hmoved.hears_cons _ _, rfl, hc, hmoved.setPhase _⟩
      | ok => exact ⟨_, context', hmoved.hears_cons _ _, rfl, hc, hmoved.setPhase _⟩

/-- A tool call leaves the session of the finalisation task as the dispatcher has it. -/
theorem stands_call (hmanager : E.delegationManager = D.config.delegationManager)
    {run : FinalizationRun} (hc : run.session.context = c)
    (h : Stands d t c complete context workflows (.deciding run.session))
    (call : FinalizationCall) : ∃ d' context',
      hears D d t (callEvents E run call) = some d' ∧ context'.workflowId = context.workflowId ∧
        (run.call E call).1.session.context = c ∧
          Stands d' t c complete context' workflows (.deciding (run.call E call).1.session) := by
  have hstay : ∀ run' : FinalizationRun, run'.session = run.session → ∃ d' context',
      hears D d t [] = some d' ∧ context'.workflowId = context.workflowId ∧
        run'.session.context = c ∧
          Stands d' t c complete context' workflows (.deciding run'.session) := by
    intro run' hsession
    rw [hsession]
    exact ⟨d, context, rfl, rfl, hc, h⟩
  cases call with
  | presentWorkToUser summary includeDiff rendered => exact hstay _ (session_present _ _ _ _)
  | pushBranch branchName commitMessage remote git => exact hstay _ (session_finishPush _ _ _)
  | pushAndCreatePr branchName title body remote git pr => exact hstay _ (session_finishPush _ _ _)
  | discardWork reason removal => exact hstay _ (session_discard _ _ _)
  | destroySandbox => exact hstay _ (session_renderActionResult _ _ _)
  | reDelegate prompt maxTurns model delegated =>
    exact stands_reDelegate hmanager hc h prompt maxTurns model delegated

theorem stands_calls (hmanager : E.delegationManager = D.config.delegationManager)
    {run : FinalizationRun} (hc : run.session.context = c)
    (h : Stands d t c complete context workflows (.deciding run.session))
    (cs : List FinalizationCall) : ∃ d' context' session,
      hears D d t (runEvents E run cs) = some d' ∧ context'.workflowId = context.workflowId ∧
        Stands d' t c complete context' workflows (.deciding session) := by
  induction cs generalizing d context run with
  | nil => exact ⟨d, context, run.session, rfl, rfl, h⟩
  | cons call cs ih =>
    obtain ⟨d₁, context₁, hevents, hid, hc₁, h₁⟩ := stands_call hmanager hc h call
    obtain ⟨d₂, context₂, session, hrest, hid₂, h₂⟩ := ih hc₁ h₁
    refine ⟨d₂, context₂, session, ?_, hid₂.trans hid, h₂⟩
    rw [runEvents, hears_append, hevents]
    exact hrest

theorem workflows_finishTerminal (d : Dispatcher) (t : FinalizeId) (task : FinalizeTask)
    (context : WorkflowContext) :
    (d.finishTerminal D t task context).workflows = d.workflows.erase context.workflowId := by
  simp only [Dispatcher.finishTerminal, Dispatcher.deregisterWorkflow, Dispatcher.setPhase]
  split <;> rfl

/-- The exception handler deregisters the workflow, behind its renderer. -/
theorem hears_failFinalize (h : Stands d t c complete context workflows phase) (error : String) :
    ∃ d', hears D (d.failFinalize D t ⟨c, complete, phase⟩ context error) t (renderedEvents D)
        = some d' ∧ d'.workflows = workflows.erase context.workflowId := by
  unfold Dispatcher.failFinalize renderedEvents
  cases D.config.renderer with
  | false =>
    refine ⟨_, rfl, ?_⟩
    rw [← h.workflows]
    exact workflows_finishTerminal d t _ context
  | true =>
    have hfailed : Stands (d.effect (.completionFailure context complete error)) t c complete
        context workflows phase := ⟨h.task, h.context, h.workflows⟩
    refine ⟨_, (hfailed.setPhase .renderingFailure).hears_cons .resumed [], ?_⟩
    rw [← h.workflows]
    exact workflows_finishTerminal _ t _ context

theorem deregister_mem_failActs (workflowId error : String) :
    .deregister workflowId ∈ failActs D workflowId error := by
  simp [failActs]

/-- The dispatcher deregisters the workflow of a completion exactly if `_finalize` does. -/
theorem hears_finalizeEvents (hmanager : E.delegationManager = D.config.delegationManager)
    (h : Stands d t c complete context workflows .created) (b : Behaviour) :
    ∃ d', hears D d t (finalizeEvents D E context complete c b) = some d' ∧
      d'.workflows =
        if .deregister context.workflowId ∈ finalizeActs D E context complete c b then
          workflows.erase context.workflowId
        else workflows := by
  unfold finalizeEvents finalizeActs
  simp only [h.hears_cons, Dispatcher.advance, Option.bind_some, Dispatcher.startFinalize]
  cases hfinalizer : D.config.finalizer with
  | false =>
    cases hrenderer : D.config.renderer with
    | false => exact ⟨_, rfl, h.workflows⟩
    | true =>
      have hpresenting : Stands ((d.effect (.presentWork context complete.summary
          complete.diff)).setPhase t ⟨c, complete, .created⟩ .presenting) t c complete context
          workflows .presenting :=
        Stands.setPhase (d := d.effect (.presentWork context complete.summary complete.diff))
          ⟨h.task, h.context, h.workflows⟩ _
      cases hpresented : b.presented with
      | ok =>
        refine ⟨_, hpresenting.hears_cons .resumed [], ?_⟩
        simpa using (hpresenting.setPhase .done).workflows
      | error exc =>
        obtain ⟨d', hd, hworkflows⟩ := hears_failFinalize (D := D) hpresenting exc
        rw [renderedEvents, if_pos hrenderer] at hd
        refine ⟨d', ?_, by simpa [deregister_mem_failActs] using hworkflows⟩
        exact (hpresenting.hears_cons (.raised exc) [.resumed]).trans hd
  | true =>
    cases hverified : verifyBaseline context.task complete with
    | false =>
      obtain ⟨d', hd, hworkflows⟩ := hears_failFinalize (D := D) h
        (D.driftText context.task.workspaceBaseline complete.workspaceBaseline)
      exact ⟨d', hd, by simpa [deregister_mem_failActs] using hworkflows⟩
    | true =>
      have hverifying := h.setPhase .verifying
      have hdeciding := hverifying.setPhase (.deciding (openRun context complete c).session)
      obtain ⟨d₁, context₁, session, hcalls, hid, h₁⟩ :=
        stands_calls (c := c) hmanager rfl hdeciding b.calls
      have hrun : hears D ((d.setPhase t ⟨c, complete, .created⟩ .verifying).setPhase t
          ⟨c, complete, .verifying⟩ (.deciding ⟨context.task, complete, c⟩)) t
            (runEvents E (openRun context complete c) b.calls) = some d₁ := hcalls
      simp only [if_true, hverifying.hears_cons, Dispatcher.advance, Option.bind_some,
        hears_append]
      rw [hrun, Option.bind_some]
      cases hending : b.ending with
      | error exc =>
        obtain ⟨d', hd, hworkflows⟩ := hears_failFinalize (D := D) h₁ exc
        refine ⟨d', ?_, ?_⟩
        · exact (h₁.hears_cons (.raised exc) (renderedEvents D)).trans hd
        · simpa [endActs, deregister_mem_failActs, hid] using hworkflows
      | ok content =>
        refine ⟨_, h₁.hears_cons (.finished _) [], ?_⟩
        by_cases hterminal : (finalizationResult context.workflowId content
            ((openRun context complete c).calls E b.calls).state).isTerminal = true
        · have hworkflows := workflows_finishTerminal (D := D) d₁ t
            ⟨c, complete, .deciding session⟩ context₁
          rw [h₁.workflows, hid] at hworkflows
          simpa [endActs, hterminal] using hworkflows
        · simpa [endActs, hterminal] using (h₁.setPhase .done).workflows

end

end Endings

end NemoClaw
