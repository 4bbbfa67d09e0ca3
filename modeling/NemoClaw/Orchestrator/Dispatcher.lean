import NemoClaw.Lib.Machine
import NemoClaw.Orchestrator.Workflow

/-! The workflow dispatcher (`orchestrator/dispatcher.py`) as an event machine: the dispatch loop,
which handles one message at a time, and any number of finalisation tasks. One step is what a
coroutine does between two awaits. -/

namespace NemoClaw

open Lib

/-- A finalisation task. -/
abbrev FinalizeId := ℕ

structure DispatcherConfig where
  audit : Bool := true
  finalizer : Bool := true
  renderer : Bool := true
  delegationManager : Bool := true

structure DispatcherEnv (π : Type) where
  config : DispatcherConfig := {}
  codec : Codec π
  /-- the text of a `BaselineDriftError` -/
  driftText : Option WorkspaceBaseline → Option WorkspaceBaseline → String

/-- A call on a collaborator: the renderer, the audit DB or the delegation manager. -/
inductive WorkflowEffect
  | presentWork (context : WorkflowContext) (summary diff : String)
  | completionFailure (context : WorkflowContext) (complete : TaskCompletePayload) (error : String)
  | workflowError (context : WorkflowContext) (error : TaskErrorPayload)
  | workflowProgress (context : WorkflowContext) (progress : TaskProgressPayload)
  | delegationError (error : TaskErrorPayload)
  | auditFlush (flush : AuditFlushPayload)
  | terminate (workflowId : String)
  deriving DecidableEq

def WorkflowEffect.workflowId : WorkflowEffect → String
  | .presentWork context _ _ | .completionFailure context _ _ | .workflowError context _
  | .workflowProgress context _ => context.workflowId
  | .delegationError error => error.workflowId
  | .auditFlush flush => flush.workflowId
  | .terminate workflowId => workflowId

/-- What a finalisation task awaits. -/
inductive FinalizePhase
  | created
  | presenting
  /-- `finalize` up to the session: the diff check and the audit row -/
  | verifying
  /-- the finalization model is choosing a tool -/
  | deciding (session : FinalizationSession)
  /-- `delegate` inside `re_delegate` -/
  | delegating (session : FinalizationSession)
  | renderingFailure
  | deregistering
  | done
  deriving DecidableEq

structure FinalizeTask where
  context : CtxId
  complete : TaskCompletePayload
  phase : FinalizePhase
  deriving DecidableEq

/-- What the handler of the current message awaits. -/
inductive LoopPhase
  | idle
  | renderingError (payload : TaskErrorPayload)
  | loggingError (payload : TaskErrorPayload)
  | deregistering (workflowId : String)
  | renderingProgress (payload : TaskProgressPayload)
  | ingestingFlush (payload : AuditFlushPayload)
  deriving DecidableEq

structure Dispatcher where
  contexts : Dict CtxId WorkflowContext := ∅
  nextContext : CtxId := 0
  workflows : Dict String CtxId := ∅
  finalizationTasks : Dict String FinalizeId := ∅
  tasks : Dict FinalizeId FinalizeTask := ∅
  nextTask : FinalizeId := 0
  loop : LoopPhase := .idle
  effects : List WorkflowEffect := []
  /-- bookkeeping: the completions, by workflow and iteration, that found their workflow -/
  arrived : List (String × ℕ) := []
  /-- bookkeeping: the completions a finalisation task was forked for -/
  finalized : List (String × ℕ) := []

inductive FinalizeEvent
  | started
  | resumed
  | raised (error : String)
  | reDelegate (prompt : String) (maxTurns : Option ℤ) (model : Option String)
  | finished (isTerminal : Bool)

inductive DispatcherEvent (π : Type)
  | register (context : WorkflowContext)
  /-- a button handler calls `deregister_workflow` -/
  | deregister (workflowId : String)
  /-- a button handler calls `re_delegate` with the user's feedback -/
  | iterate (workflowId prompt : String)
  /-- the loop takes a message; `iteration` is bookkeeping: the iteration it reports on -/
  | message (msg : NMBMessage π) (iteration : ℕ)
  /-- what the current message's handler awaits is over, by a return or by an exception that the
  handler logs -/
  | loop
  | finalize (task : FinalizeId) (event : FinalizeEvent)

namespace Dispatcher

variable {π : Type}

def effect (d : Dispatcher) (e : WorkflowEffect) : Dispatcher :=
  { d with effects := d.effects ++ [e] }

def registerWorkflow (d : Dispatcher) (context : WorkflowContext) : Dispatcher :=
  { d with
    contexts := d.contexts.insert d.nextContext context
    nextContext := d.nextContext + 1
    workflows := d.workflows.insert context.workflowId d.nextContext }

/-- `re_delegate` of a session that a button handler opened on a registered workflow. -/
def iterate (E : DispatcherEnv π) (d : Dispatcher) (workflowId prompt : String) :
    Dispatcher :=
  match d.workflows.lookup workflowId with
  | none => d
  | some c =>
    match d.contexts.lookup c with
    | none => d
    | some context =>
      match context.task.followup prompt none none with
      | none => d
      | some followup =>
        if E.config.delegationManager then
          { d with contexts := d.contexts.insert c { context with task := followup } }
        else d

/-- `deregister_workflow` up to its await. -/
def deregisterWorkflow (E : DispatcherEnv π) (d : Dispatcher) (workflowId : String) : Dispatcher :=
  let d := { d with workflows := d.workflows.erase workflowId }
  if E.config.delegationManager then d.effect (.terminate workflowId) else d

/-! ### The dispatch loop -/

/-- The handler of a `task.error` deregisters its workflow. -/
def deregisterInLoop (E : DispatcherEnv π) (d : Dispatcher) (workflowId : String) : Dispatcher :=
  { d.deregisterWorkflow E workflowId with
    loop := if E.config.delegationManager then .deregistering workflowId else .idle }

/-- The latest finalisation task of the workflow is not done. -/
def finalizing (d : Dispatcher) (workflowId : String) : Bool :=
  match (d.finalizationTasks.lookup workflowId).bind fun t => d.tasks.lookup t with
  | none => false
  | some task => task.phase ≠ .done

def forkFinalize (d : Dispatcher) (context : CtxId) (payload : TaskCompletePayload) : Dispatcher :=
  { d with
    finalizationTasks := d.finalizationTasks.insert payload.workflowId.val d.nextTask
    tasks := d.tasks.insert d.nextTask ⟨context, payload, .created⟩
    nextTask := d.nextTask + 1 }

def handleTaskComplete (E : DispatcherEnv π) (d : Dispatcher) (msg : NMBMessage π)
    (iteration : ℕ) : Dispatcher :=
  match load E.codec.validateComplete .taskComplete msg.payload with
  | .error _ => d
  | .ok payload =>
    match d.workflows.lookup payload.workflowId.val with
    | none => d
    | some context =>
      let key := (payload.workflowId.val, iteration)
      let d := { d with arrived := d.arrived ++ [key] }
      if d.finalizing payload.workflowId then d
      else { d with finalized := d.finalized ++ [key] }.forkFinalize context payload

/-- `_handle_task_error` from its audit write on. -/
def logTaskError (E : DispatcherEnv π) (d : Dispatcher) (payload : TaskErrorPayload) :
    Dispatcher :=
  if E.config.audit then
    { d.effect (.delegationError payload) with loop := .loggingError payload }
  else d.deregisterInLoop E payload.workflowId

def handleTaskError (E : DispatcherEnv π) (d : Dispatcher) (msg : NMBMessage π) : Dispatcher :=
  match load E.codec.validateError .taskError msg.payload with
  | .error _ => d
  | .ok payload =>
    match (d.workflows.lookup payload.workflowId.val).bind fun c => d.contexts.lookup c with
    | none => d
    | some context =>
      if E.config.renderer then
        { d.effect (.workflowError context payload) with loop := .renderingError payload }
      else d.logTaskError E payload

def handleTaskProgress (E : DispatcherEnv π) (d : Dispatcher) (msg : NMBMessage π) : Dispatcher :=
  match load E.codec.validateProgress .taskProgress msg.payload with
  | .error _ => d
  | .ok payload =>
    match (d.workflows.lookup payload.workflowId.val).bind fun c => d.contexts.lookup c with
    | none => d
    | some context =>
      if E.config.renderer then
        { d.effect (.workflowProgress context payload) with loop := .renderingProgress payload }
      else d

def handleAuditFlush (E : DispatcherEnv π) (d : Dispatcher) (msg : NMBMessage π) : Dispatcher :=
  if E.config.audit then
    match load E.codec.validateAuditFlush .auditFlush msg.payload with
    | .error _ => d
    | .ok payload => { d.effect (.auditFlush payload) with loop := .ingestingFlush payload }
  else d

def dispatch (E : DispatcherEnv π) (d : Dispatcher) (msg : NMBMessage π) (iteration : ℕ) :
    Dispatcher :=
  if msg.type = some MessageType.taskComplete.value then d.handleTaskComplete E msg iteration
  else if msg.type = some MessageType.taskError.value then d.handleTaskError E msg
  else if msg.type = some MessageType.taskProgress.value then d.handleTaskProgress E msg
  else if msg.type = some MessageType.auditFlush.value then d.handleAuditFlush E msg
  else d

def resumeLoop (E : DispatcherEnv π) (d : Dispatcher) : LoopPhase → Option Dispatcher
  | .idle => none
  | .renderingError payload => some (d.logTaskError E payload)
  | .loggingError payload => some (d.deregisterInLoop E payload.workflowId)
  | .deregistering _ | .renderingProgress _ | .ingestingFlush _ => some { d with loop := .idle }

/-! ### Finalisation tasks -/

def setPhase (d : Dispatcher) (t : FinalizeId) (task : FinalizeTask) (phase : FinalizePhase) :
    Dispatcher :=
  { d with tasks := d.tasks.insert t { task with phase := phase } }

/-- `_finalize` deregisters the workflow and is done after that. -/
def finishTerminal (E : DispatcherEnv π) (d : Dispatcher) (t : FinalizeId) (task : FinalizeTask)
    (context : WorkflowContext) : Dispatcher :=
  (d.deregisterWorkflow E context.workflowId).setPhase t task
    (if E.config.delegationManager then .deregistering else .done)

/-- The exception handler of `_finalize`. -/
def failFinalize (E : DispatcherEnv π) (d : Dispatcher) (t : FinalizeId) (task : FinalizeTask)
    (context : WorkflowContext) (error : String) : Dispatcher :=
  if E.config.renderer then
    (d.effect (.completionFailure context task.complete error)).setPhase t task .renderingFailure
  else d.finishTerminal E t task context

/-- `_finalize` up to its first await. -/
def startFinalize (E : DispatcherEnv π) (d : Dispatcher) (t : FinalizeId) (task : FinalizeTask)
    (context : WorkflowContext) : Dispatcher :=
  if E.config.finalizer then
    if verifyBaseline context.task task.complete then d.setPhase t task .verifying
    else d.failFinalize E t task context
      (E.driftText context.task.workspaceBaseline task.complete.workspaceBaseline)
  else if E.config.renderer then
    (d.effect (.presentWork context task.complete.summary task.complete.diff)).setPhase t task
      .presenting
  else d.setPhase t task .done

/-- `FinalizationSession.re_delegate` up to its await of `delegate`. -/
def reDelegate (E : DispatcherEnv π) (d : Dispatcher) (t : FinalizeId) (task : FinalizeTask)
    (session : FinalizationSession) (context : WorkflowContext) (prompt : String)
    (maxTurns : Option ℤ) (model : Option String) : Dispatcher :=
  if E.config.delegationManager then
    match session.task.followup prompt maxTurns model with
    | none => d
    | some followup =>
      { d with contexts := d.contexts.insert session.context { context with task := followup } }
        |>.setPhase t task (.delegating { session with task := followup })
  else d

def advance (E : DispatcherEnv π) (d : Dispatcher) (t : FinalizeId) (task : FinalizeTask)
    (context : WorkflowContext) : FinalizePhase → FinalizeEvent → Option Dispatcher
  | .created, .started => some (d.startFinalize E t task context)
  | .presenting, .resumed => some (d.setPhase t task .done)
  | .presenting, .raised error | .verifying, .raised error | .deciding _, .raised error =>
    some (d.failFinalize E t task context error)
  | .verifying, .resumed =>
    some (d.setPhase t task (.deciding ⟨context.task, task.complete, task.context⟩))
  | .deciding session, .reDelegate prompt maxTurns model =>
    some (d.reDelegate E t task session context prompt maxTurns model)
  | .delegating session, .resumed | .delegating session, .raised _ =>
    some (d.setPhase t task (.deciding session))
  | .deciding _, .finished isTerminal =>
    some (if isTerminal then d.finishTerminal E t task context else d.setPhase t task .done)
  | .renderingFailure, .resumed | .renderingFailure, .raised _ =>
    some (d.finishTerminal E t task context)
  | .deregistering, .resumed => some (d.setPhase t task .done)
  | _, _ => none

def step (E : DispatcherEnv π) (d : Dispatcher) : DispatcherEvent π → Option Dispatcher
  | .register context => some (d.registerWorkflow context)
  | .deregister workflowId => some (d.deregisterWorkflow E workflowId)
  | .iterate workflowId prompt => some (d.iterate E workflowId prompt)
  | .message msg iteration =>
    if d.loop = .idle then some (d.dispatch E msg iteration) else none
  | .loop => d.resumeLoop E d.loop
  | .finalize t event =>
    (d.tasks.lookup t).bind fun task =>
      (d.contexts.lookup task.context).bind fun context =>
        d.advance E t task context task.phase event

/-! ### What the loop alone writes -/

/-- The completions that found their workflow, and those finalised. -/
def log (d : Dispatcher) : List (String × ℕ) × List (String × ℕ) := (d.arrived, d.finalized)

/-- The phase of the dispatch loop, the tasks it has forked and the completions it has logged. -/
def loopState (d : Dispatcher) :
    LoopPhase × FinalizeId × List (String × ℕ) × List (String × ℕ) :=
  (d.loop, d.nextTask, d.log)

section

variable {E : DispatcherEnv π} {d d' : Dispatcher}

@[simp] theorem loopState_deregisterWorkflow (d : Dispatcher) (w : String) :
    (d.deregisterWorkflow E w).loopState = d.loopState := by
  unfold deregisterWorkflow
  split <;> rfl

@[simp] theorem loopState_setPhase (d : Dispatcher) (t : FinalizeId) (task : FinalizeTask)
    (p : FinalizePhase) : (d.setPhase t task p).loopState = d.loopState := rfl

@[simp] theorem loopState_finishTerminal (d : Dispatcher) (t : FinalizeId) (task : FinalizeTask)
    (c : WorkflowContext) : (d.finishTerminal E t task c).loopState = d.loopState := by
  simp [finishTerminal]

@[simp] theorem loopState_failFinalize (d : Dispatcher) (t : FinalizeId) (task : FinalizeTask)
    (c : WorkflowContext) (error : String) :
    (d.failFinalize E t task c error).loopState = d.loopState := by
  unfold failFinalize
  split
  · rfl
  · simp

theorem loopState_startFinalize (d : Dispatcher) (t : FinalizeId) (task : FinalizeTask)
    (c : WorkflowContext) : (d.startFinalize E t task c).loopState = d.loopState := by
  unfold startFinalize
  split
  · split <;> simp
  · split <;> rfl

theorem loopState_reDelegate (d : Dispatcher) (t : FinalizeId) (task : FinalizeTask)
    (session : FinalizationSession) (c : WorkflowContext) (prompt : String) (n : Option ℤ)
    (model : Option String) :
    (d.reDelegate E t task session c prompt n model).loopState = d.loopState := by
  unfold reDelegate
  split
  · split <;> rfl
  · rfl

theorem loopState_iterate (d : Dispatcher) (w prompt : String) :
    (d.iterate E w prompt).loopState = d.loopState := by
  unfold iterate
  split
  · rfl
  · split
    · rfl
    · split
      · rfl
      · split <;> rfl

theorem loopState_advance {t : FinalizeId} {task : FinalizeTask} {c : WorkflowContext}
    {p : FinalizePhase} {e : FinalizeEvent} (h : d.advance E t task c p e = some d') :
    d'.loopState = d.loopState := by
  unfold advance at h
  split at h <;> cases h
  · exact loopState_startFinalize d t task c
  · rfl
  · simp
  · simp
  · simp
  · rfl
  · exact loopState_reDelegate d t task _ c _ _ _
  · rfl
  · rfl
  · split <;> simp
  · simp
  · simp
  · rfl

end

end Dispatcher

def dispatcherMachine {π : Type} (E : DispatcherEnv π) :
    Machine Dispatcher (DispatcherEvent π) where
  init := {}
  step := Dispatcher.step E

/-- An environment on unencoded payloads. -/
def wireDispatcher : DispatcherEnv WirePayload where
  codec := wireCodec
  driftText _ _ := "workspace baseline drift"

/-- What the dispatcher hears when an agent on `fixBugTask` completes it. -/
def fixBugComplete (id : String) : NMBMessage WirePayload :=
  { op := .deliver, id := id, fromSandbox := some "coding-wf-1",
    type := some MessageType.taskComplete.value,
    payload := some (.complete fixBugResult) }

end NemoClaw
