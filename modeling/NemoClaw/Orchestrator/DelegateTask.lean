import NemoClaw.Orchestrator.Calls
import NemoClaw.Orchestrator.Slots
import NemoClaw.Orchestrator.Workflow

/-! The tool `delegate_task` (`tools/delegation.py`) as an event machine, from its arguments to its
return. It leaves state in the dispatcher's registry, in the audit DB and in the delegation manager,
and takes it back in one `except` branch. Each of its awaits may return, raise or be cancelled, and
other coroutines work on other workflows in between: the workflow's id is drawn in the call. -/

namespace NemoClaw

open Lib

inductive DelegationStatus
  | started | complete | error
  deriving DecidableEq, Repr

/-- What `_make_delegate_task` binds. -/
structure DelegateTaskConfig where
  manager : DelegationConfig := {}
  parentSandboxId : String := "orchestrator"
  workspaceRoot : String
  dispatcher : Bool := true
  /-- the dispatcher has the delegation manager -/
  dispatcherManager : Bool := true
  defaultMaxTurns : Option ℤ := none
  defaultModel : Option String := none
  audit : Bool := true

structure RequestContext where
  requestId : String
  channelId : Option String := none
  threadTs : Option String := none

/-- The argument `workspace_baseline`. -/
structure BaselineArgument where
  repoUrl : Option String
  branch : Option String
  baseSha : Option String
  isShallow : Bool := true

structure DelegateTaskArgs where
  prompt : String
  maxTurns : Option ℤ := none
  model : Option String := none
  workspaceBaseline : Option BaselineArgument := none
  /-- the hex digits drawn for the agent's id -/
  agentHex : String
  /-- the hex digits drawn for the workflow's id -/
  workflowHex : String
  request : Option RequestContext := none

def nonEmptyString (s : String) : Option NonEmptyString :=
  if h : s ≠ "" then some ⟨s, h⟩ else none

def BaselineArgument.validate (b : BaselineArgument) : Option WorkspaceBaseline := do
  return {
    repoUrl := ← b.repoUrl.bind nonEmptyString
    branch := ← b.branch.bind nonEmptyString
    baseSha := ← b.baseSha.bind nonEmptyString
    isShallow := b.isShallow }

/-- `PositiveInt | None` -/
def positiveInt : Option ℤ → Option (Option PositiveInt)
  | none => some none
  | some n => if h : 0 < n.toNat then some (some ⟨n.toNat, h⟩) else none

/-- A non-empty prefix makes a non-empty id. -/
theorem append_ne_empty {p : String} (hp : p ≠ "") (s : String) : p ++ s ≠ "" := by
  intro h
  exact hp (String.append_eq_empty_iff.1 h).1

namespace DelegateTaskArgs

variable (cfg : DelegateTaskConfig) (args : DelegateTaskArgs)

def workflowId : NonEmptyString := ⟨"wf-" ++ args.workflowHex, append_ne_empty (by decide) _⟩

def agentId : NonEmptyString := ⟨"coding-" ++ args.agentHex, append_ne_empty (by decide) _⟩

def baseline : Option (Option WorkspaceBaseline) :=
  match args.workspaceBaseline with
  | none => some none
  | some b => b.validate.map some

/-- The assignment, unless an argument fails validation. -/
def task : Option TaskAssignPayload := do
  return {
    workspaceBaseline := ← args.baseline
    prompt := ← nonEmptyString args.prompt
    workflowId := args.workflowId
    parentSandboxId := ← nonEmptyString cfg.parentSandboxId
    agentId := args.agentId
    workspaceRoot := ← nonEmptyString (cfg.workspaceRoot ++ "/agent-" ++ args.agentHex)
    maxTurns := ← positiveInt ((args.maxTurns.filter (· ≠ 0)).or cfg.defaultMaxTurns)
    model := (truthy args.model).or cfg.defaultModel }

def context (task : TaskAssignPayload) : WorkflowContext where
  workflowId := task.workflowId.val
  task := task
  channelId := args.request.bind RequestContext.channelId
  threadTs := args.request.bind RequestContext.threadTs
  requestId := (args.request.map RequestContext.requestId).getD ""

end DelegateTaskArgs

/-- What the tool awaits, or how it is over. -/
inductive DelegateTaskPhase
  | loggingStarted
  | delegating
  /-- `terminate` in the `except` branch -/
  | deregistering (exc : String)
  | loggingError (exc : String)
  | acknowledged (message : String)
  | failed (message : String)
  | raised
  deriving DecidableEq, Repr

def DelegateTaskPhase.over : DelegateTaskPhase → Bool
  | .acknowledged _ | .failed _ | .raised => true
  | _ => false

structure DelegateTaskRun where
  workflows : Dict String WorkflowContext := ∅
  delegations : Dict String DelegationStatus := ∅
  manager : DelegationManager
  /-- bookkeeping: the process of the agent that this call spawned is running -/
  agentRuns : Bool := false
  phase : DelegateTaskPhase

/-- How a call on the audit DB ends. -/
inductive AuditOutcome
  | returned
  /-- an exception or a cancellation, before or after the commit -/
  | cutOff (committed : Bool)
  deriving DecidableEq, Repr

inductive DelegateTaskEvent
  | audit (outcome : AuditOutcome)
  /-- the tool's own call of `delegate`; `exc` is the text of the exception, if it raises one -/
  | delegate (resumption : Resumption) (exc : String)
  | deregistered (resumption : Resumption)
  | agentExits
  /-- what other coroutines do -/
  | manager (event : DelegationEvent)
  | register (context : WorkflowContext)
  | deregister (workflowId : String)
  | delegation (workflowId : String) (status : DelegationStatus)

/-- A call of the tool and what it finds. `uuid4` draws an id that nothing has. -/
structure DelegateTask where
  config : DelegateTaskConfig
  args : DelegateTaskArgs
  workflows : Dict String WorkflowContext := ∅
  delegations : Dict String DelegationStatus := ∅
  manager : DelegationManager
  /-- its call of `delegate` -/
  call : CallId
  new_call : manager.calls.lookup call = none
  new_workflow : workflows.lookup args.workflowId.val = none
  new_delegation : delegations.lookup args.workflowId.val = none
  new_handle : manager.spawned.lookup args.workflowId.val = none
  new_task : ∀ c call, manager.calls.lookup c = some call →
    call.task.workflowId.val ≠ args.workflowId.val

/-- A call of `delegate` that leaves this phase raises a `DelegationError`. -/
def DelegatePhase.delegationError : DelegatePhase → Resumption → Bool
  | .spawning _, .raised | .failing _ _, .resumed => true
  | _, _ => false

namespace DelegateTask

variable (D : DelegateTask)

def workflowId : String := D.args.workflowId.val

/-- `log_delegation_started` up to its commit. -/
def insertDelegation (s : DelegateTaskRun) : DelegateTaskRun :=
  { s with delegations := s.delegations.insert D.workflowId .started }

/-- `log_delegation_error` up to its commit. -/
def updateDelegation (s : DelegateTaskRun) : DelegateTaskRun :=
  if (s.delegations.lookup D.workflowId).isSome then
    { s with delegations := s.delegations.insert D.workflowId .error }
  else s

def fail (s : DelegateTaskRun) (exc : String) : DelegateTaskRun :=
  { s with phase := .failed ("Delegation failed: " ++ exc) }

def logError (s : DelegateTaskRun) (exc : String) : DelegateTaskRun :=
  if D.config.audit then { s with phase := .loggingError exc } else fail s exc

/-- `except DelegationError`, up to its first await. -/
def handleError (s : DelegateTaskRun) (exc : String) : DelegateTaskRun :=
  if D.config.dispatcher then
    let s := { s with workflows := s.workflows.erase D.workflowId }
    if D.config.dispatcherManager && s.manager.workflowSpawned D.workflowId then
      { s with manager := s.manager.terminate D.workflowId, phase := .deregistering exc }
    else D.logError s exc
  else D.logError s exc

def acknowledge (task : TaskAssignPayload) (s : DelegateTaskRun) : DelegateTaskRun :=
  { s with phase := .acknowledged ("Delegated. Workflow " ++ task.workflowId.val ++
      " is running in sub-agent " ++ task.agentId.val ++
      "; I'll post the results in this thread when it finishes.") }

/-- `delegate` has gone on: it is suspended again, has returned or has raised. -/
def settle (task : TaskAssignPayload) (s : DelegateTaskRun) (delegationError : Bool)
    (exc : String) : DelegateTaskRun :=
  match (s.manager.calls.lookup D.call).map DelegateCall.phase with
  | some .returned => acknowledge task s
  | some .raised => if delegationError then D.handleError s exc else { s with phase := .raised }
  | _ => { s with phase := .delegating }

def delegate (task : TaskAssignPayload) (s : DelegateTaskRun) : DelegateTaskRun :=
  D.settle task { s with manager := s.manager.delegate D.config.manager D.call task } true
    ("max_spawn_depth=" ++ toString D.config.manager.maxSpawnDepth ++ " forbids any delegation")

/-- The tool up to its first await. -/
def start (task : TaskAssignPayload) (s : DelegateTaskRun) : DelegateTaskRun :=
  let s := if D.config.dispatcher then
    { s with workflows := s.workflows.insert D.workflowId (D.args.context task) } else s
  if D.config.audit then { s with phase := .loggingStarted } else D.delegate task s

def resumeAudit (task : TaskAssignPayload) (s : DelegateTaskRun) (outcome : AuditOutcome) :
    Option DelegateTaskRun :=
  match s.phase, outcome with
  | .loggingStarted, .returned => some (D.delegate task (D.insertDelegation s))
  | .loggingStarted, .cutOff committed =>
    some { if committed then D.insertDelegation s else s with phase := .raised }
  | .loggingError exc, .returned => some (fail (D.updateDelegation s) exc)
  | .loggingError _, .cutOff committed =>
    some { if committed then D.updateDelegation s else s with phase := .raised }
  | _, _ => none

/-- The process of the call's agent after the call leaves this phase. A spawn that raises or is
cancelled leaves none; an agent whose `terminate` returns has stopped. -/
def agentRunsAfter (runs : Bool) : DelegatePhase → Resumption → Bool
  | .spawning _, .resumed => true
  | .failing _ _, .resumed => false
  | _, _ => runs

def resumeDelegate (task : TaskAssignPayload) (s : DelegateTaskRun) (r : Resumption)
    (exc : String) : Option DelegateTaskRun :=
  if s.phase = .delegating then
    (s.manager.calls.lookup D.call).bind fun call =>
      (s.manager.advance D.call call.task call.phase r).map fun manager =>
        D.settle task
          { s with manager := manager, agentRuns := agentRunsAfter s.agentRuns call.phase r }
          (call.phase.delegationError r) exc
  else none

def resumeDeregister (s : DelegateTaskRun) (r : Resumption) : Option DelegateTaskRun :=
  match s.phase, r with
  | .deregistering exc, .resumed | .deregistering exc, .raised => some (D.logError s exc)
  | .deregistering _, .cancelled => some { s with phase := .raised }
  | _, _ => none

/-- An event of the manager that is about this workflow or this call. -/
def touches (m : DelegationManager) : DelegationEvent → Bool
  | .delegate c task => c = D.call ∨ task.workflowId.val = D.workflowId
  | .call c _ => c = D.call
  | .terminate workflowId => workflowId = D.workflowId
  | .close _ => false
  | .closeNext k => (m.closing.lookup k).bind List.head? = some D.workflowId

def advance (task : TaskAssignPayload) (s : DelegateTaskRun) :
    DelegateTaskEvent → Option DelegateTaskRun
  | .audit outcome => D.resumeAudit task s outcome
  | .delegate r exc => D.resumeDelegate task s r exc
  | .deregistered r => D.resumeDeregister s r
  | .agentExits => some { s with agentRuns := false }
  | .manager e =>
    if D.touches s.manager e then none
    else (s.manager.step D.config.manager e).map fun manager => { s with manager := manager }
  | .register context =>
    if context.workflowId = D.workflowId then none
    else some { s with workflows := s.workflows.insert context.workflowId context }
  | .deregister workflowId =>
    if workflowId = D.workflowId then none
    else some { s with workflows := s.workflows.erase workflowId }
  | .delegation workflowId status =>
    if workflowId = D.workflowId then none
    else some { s with delegations := s.delegations.insert workflowId status }

/-- The state before the tool has done anything. -/
def before : DelegateTaskRun where
  workflows := D.workflows
  delegations := D.delegations
  manager := D.manager
  phase := .raised

/-- The run ends with the tool. -/
def machine : Machine DelegateTaskRun DelegateTaskEvent where
  init := match D.args.task D.config with
    | none => D.before
    | some task => D.start task D.before
  step s e := (D.args.task D.config).bind fun task =>
    if s.phase.over then none else D.advance task s e

/-- Nothing of the workflow is left: it is not registered, holds no slot, has no agent running, and
its row, if it has one, is an error. -/
structure Undone (s : DelegateTaskRun) : Prop where
  registered : s.workflows.lookup D.workflowId = none
  handle : s.manager.spawned.lookup D.workflowId = none
  slot : ∀ c call, s.manager.calls.lookup c = some call →
    call.task.workflowId.val = D.workflowId → DelegationManager.holds call = false
  agent : s.agentRuns = false
  row : ∀ status, s.delegations.lookup D.workflowId = some status → status = .error

/-- A `delegate` that leaves this phase does so without an exception, with a `DelegationError`, or
before there is anything to take back: neither store is wired in, and no agent runs. -/
def TakesBack (runs : Bool) : DelegatePhase → Resumption → Prop
  | .sending _, .cancelled => False
  | .acquiring, .cancelled | .spawning _, .cancelled =>
    D.config.dispatcher = false ∧ D.config.audit = false
  | .failing _ _, .raised | .failing _ _, .cancelled =>
    D.config.dispatcher = false ∧ D.config.audit = false ∧ runs = false
  | _, _ => True

/-- What becomes of an await lets the tool take back what it has left in the stores. An audit call
that is cut off does so if its row was not inserted and nothing was registered, or if its row is an
error by then. -/
def Reversible (s : DelegateTaskRun) : DelegateTaskEvent → Prop
  | .audit (.cutOff committed) =>
    match s.phase with
    | .loggingStarted => D.config.dispatcher = false ∧ committed = false
    | _ => committed = true
  | .delegate r _ => ∀ call, s.manager.calls.lookup D.call = some call →
      D.TakesBack s.agentRuns call.phase r
  | _ => True

/-! ### What other coroutines do -/

/-- Only the tool's own call is about its workflow. -/
def Alone (m : DelegationManager) : Prop :=
  ∀ c call, m.calls.lookup c = some call → call.task.workflowId.val = D.workflowId → c = D.call

/-- What the others leave alone. -/
structure Spared (m m' : DelegationManager) : Prop where
  handle : m'.spawned.lookup D.workflowId = m.spawned.lookup D.workflowId
  call : m'.calls.lookup D.call = m.calls.lookup D.call
  alone : D.Alone m → D.Alone m'

variable {D} {m m' : DelegationManager} {c : CallId} {task : TaskAssignPayload}
  {s s' : DelegateTaskRun}

theorem spawned_delegate (m : DelegationManager) (cfg : DelegationConfig) (c : CallId)
    (task : TaskAssignPayload) : (m.delegate cfg c task).spawned = m.spawned := by
  unfold DelegationManager.delegate
  split_ifs <;> rfl

theorem spawned_raise (m : DelegationManager) (c : CallId) (task : TaskAssignPayload) :
    (m.raise c task).spawned = m.spawned := by
  unfold DelegationManager.raise DelegationManager.releaseUnlessSpawned
  split_ifs <;> rfl

/-- A call that goes on changes the handle of its own workflow at most. -/
theorem lookup_spawned_advance {phase : DelegatePhase} {r : Resumption}
    (h : m.advance c task phase r = some m') {w : String} (hw : w ≠ task.workflowId.val) :
    m'.spawned.lookup w = m.spawned.lookup w := by
  have hraise : (m.raise c task).spawned.lookup w = m.spawned.lookup w := by rw [spawned_raise]
  cases phase with
  | acquiring =>
    cases r with
    | raised => contradiction
    | cancelRequested | resumed | cancelled =>
      simp only [DelegationManager.advance, Option.ite_none_right_eq_some] at h
      obtain rfl := Option.some.inj h.2
      rfl
  | spawning acquired =>
    cases r with
    | cancelRequested => contradiction
    | resumed =>
      obtain rfl := Option.some.inj h
      unfold DelegationManager.install
      split <;> exact AList.lookup_insert_ne hw
    | raised | cancelled =>
      obtain rfl := Option.some.inj h
      exact hraise
  | stoppingPrevious agent previous =>
    cases r with
    | cancelRequested => contradiction
    | resumed | raised =>
      obtain rfl := Option.some.inj h
      rfl
    | cancelled =>
      obtain rfl := Option.some.inj h
      exact hraise
  | sending agent =>
    cases r with
    | cancelRequested => contradiction
    | resumed =>
      obtain rfl := Option.some.inj h
      rfl
    | raised =>
      obtain rfl := Option.some.inj h
      simp only [DelegationManager.failSend, DelegationManager.setCall]
      split_ifs
      · exact AList.lookup_erase_ne hw
      · rfl
    | cancelled =>
      obtain rfl := Option.some.inj h
      exact hraise
  | failing agent popped =>
    cases r with
    | cancelRequested => contradiction
    | resumed | raised | cancelled =>
      obtain rfl := Option.some.inj h
      exact hraise
  | returned | raised => cases r <;> cases h

theorem Alone.insert (h : D.Alone m) {call : DelegateCall}
    (hcalls : m'.calls = m.calls.insert c call)
    (hown : call.task.workflowId.val = D.workflowId → c = D.call) : D.Alone m' := by
  intro c' call' hc' hw
  rw [hcalls, Dict.lookup_insert_eq_some] at hc'
  rcases hc' with ⟨rfl, rfl⟩ | ⟨-, hc'⟩
  · exact hown hw
  · exact h c' call' hc' hw

theorem spared_terminate {w : String} (h : w ≠ D.workflowId) (m : DelegationManager) :
    D.Spared m (m.terminate w) := by
  unfold DelegationManager.terminate
  split
  · exact ⟨rfl, rfl, id⟩
  · exact ⟨AList.lookup_erase_ne h.symm, rfl, id⟩

theorem spared_of_others (ha : D.Alone m) {e : DelegationEvent} (htouch : D.touches m e = false)
    (h : m.step D.config.manager e = some m') : D.Spared m m' := by
  cases e with
  | delegate c task =>
    simp only [touches, decide_eq_false_iff_not, not_or] at htouch
    simp only [DelegationManager.step, Option.ite_none_left_eq_some] at h
    obtain rfl := Option.some.inj h.2
    obtain ⟨phase, hcalls, -⟩ := DelegationManager.calls_delegate D.config.manager m c task
    refine ⟨by rw [spawned_delegate], ?_, ?_⟩
    · rw [hcalls, AList.lookup_insert_ne fun heq => htouch.1 heq.symm]
    · exact fun ha => ha.insert hcalls fun hw => absurd hw htouch.2
  | call c r =>
    simp only [touches, decide_eq_false_iff_not] at htouch
    obtain ⟨⟨task, phase⟩, hc, hadvance⟩ := Option.bind_eq_some_iff.1 h
    have hw : task.workflowId.val ≠ D.workflowId := fun hw => htouch (ha c _ hc hw)
    have hhandle := lookup_spawned_advance hadvance hw.symm
    rcases DelegationManager.calls_advance hadvance with hcalls | ⟨phase', hcalls, -⟩
    · refine ⟨hhandle, by rw [hcalls], ?_⟩
      intro ha c' call' hc'
      exact ha c' call' (hcalls ▸ hc')
    · refine ⟨hhandle, ?_, ?_⟩
      · rw [hcalls, AList.lookup_insert_ne fun heq => htouch heq.symm]
      · exact fun ha => ha.insert hcalls fun hw' => absurd hw' hw
  | terminate w =>
    simp only [touches, decide_eq_false_iff_not] at htouch
    obtain rfl := Option.some.inj h
    exact spared_terminate htouch m
  | close k =>
    simp only [DelegationManager.step, Option.ite_none_left_eq_some] at h
    obtain rfl := Option.some.inj h.2
    exact ⟨rfl, rfl, id⟩
  | closeNext k =>
    simp only [touches, decide_eq_false_iff_not] at htouch
    simp only [DelegationManager.step] at h
    split at h
    · contradiction
    · contradiction
    · rename_i w left hk
      obtain rfl := Option.some.inj h
      have hne : w ≠ D.workflowId := by
        rintro rfl
        exact htouch (by rw [hk]; rfl)
      have hspared := spared_terminate hne { m with closing := m.closing.insert k left }
      exact ⟨hspared.handle, hspared.call, hspared.alone⟩

/-! ### What the tool has left so far -/

/-- The tool has registered the workflow, if it has a dispatcher. -/
structure Begun (D : DelegateTask) (s : DelegateTaskRun) : Prop where
  alone : D.Alone s.manager
  registered : (s.workflows.lookup D.workflowId).isSome = D.config.dispatcher

/-- The row of the workflow, if there is an audit DB. -/
def Logged (D : DelegateTask) (s : DelegateTaskRun) : Prop :=
  s.delegations.lookup D.workflowId = if D.config.audit then some .started else none

/-- The manager has nothing of the workflow. -/
structure Cleared (D : DelegateTask) (s : DelegateTaskRun) : Prop where
  handle : s.manager.spawned.lookup D.workflowId = none
  agent : s.agentRuns = false

/-- The handle of the workflow and its agent while its call is in this phase. -/
def Delegates (D : DelegateTask) (s : DelegateTaskRun) : DelegatePhase → Prop
  | .acquiring | .spawning true => D.Cleared s
  | .sending agent => s.manager.spawned.lookup D.workflowId = some agent
  | .failing _ true => s.manager.spawned.lookup D.workflowId = none
  | _ => False

/-- What holds while the tool is not over. -/
def Ongoing (D : DelegateTask) (task : TaskAssignPayload) (s : DelegateTaskRun) : Prop :=
  match s.phase with
  | .loggingStarted => D.Begun s ∧ D.Cleared s ∧ s.manager.calls.lookup D.call = none ∧
      D.config.audit = true ∧ s.delegations.lookup D.workflowId = none
  | .delegating => D.Begun s ∧ D.Logged s ∧ ∃ phase,
      s.manager.calls.lookup D.call = some ⟨task, phase⟩ ∧ D.Delegates s phase
  | .loggingError _ => D.Alone s.manager ∧ D.Cleared s ∧ D.Logged s ∧ D.config.audit = true ∧
      s.workflows.lookup D.workflowId = none ∧
        s.manager.calls.lookup D.call = some ⟨task, .raised⟩
  | _ => False

/-- A step that leaves the tool suspended keeps the invariant and is no trouble; one that ends it
without an acknowledgement leaves nothing exactly if it is none. -/
def Lands (D : DelegateTask) (task : TaskAssignPayload) (s : DelegateTaskRun) (P : Prop) : Prop :=
  (s.phase.over = false → D.Ongoing task s ∧ P) ∧
    ((∃ message, s.phase = .failed message) ∨ s.phase = .raised → (D.Undone s ↔ P)) ∧
    ((∃ message, s.phase = .acknowledged message) → P)

theorem slot_of_alone (ha : D.Alone m)
    (hown : ∀ call, m.calls.lookup D.call = some call → DelegationManager.holds call = false) :
    ∀ c call, m.calls.lookup c = some call → call.task.workflowId.val = D.workflowId →
      DelegationManager.holds call = false := by
  intro c call hc hw
  obtain rfl := ha c call hc hw
  exact hown call hc

/-- What is left when the tool ends with the workflow registered and its row as it was. -/
theorem undone_iff_of_begun (hb : D.Begun s) (hl : D.Logged s)
    (hcall : s.manager.calls.lookup D.call = some ⟨task, .raised⟩) :
    D.Undone s ↔ D.config.dispatcher = false ∧ D.config.audit = false ∧ D.Cleared s := by
  have hslot := slot_of_alone hb.alone (fun call hc => by
    obtain rfl := Option.some.inj (hcall.symm.trans hc)
    rfl)
  have hregistered : s.workflows.lookup D.workflowId = none ↔ D.config.dispatcher = false := by
    rw [← hb.registered, Option.isSome_eq_false_iff, Option.isNone_iff_eq_none]
  have hrow : (∀ status, s.delegations.lookup D.workflowId = some status → status = .error) ↔
      D.config.audit = false := by
    rw [hl]
    cases D.config.audit <;> simp
  constructor
  · intro h
    exact ⟨hregistered.1 h.registered, hrow.1 h.row, h.handle, h.agent⟩
  · rintro ⟨hd, haudit, hc⟩
    exact ⟨hregistered.2 hd, hc.handle, hslot, hc.agent, hrow.2 haudit⟩

/-- The `except` branch: it ends with nothing left, or is left with the row to update. -/
theorem lands_handleError (hb : D.Begun s) (hl : D.Logged s) (hc : D.Cleared s)
    (hcall : s.manager.calls.lookup D.call = some ⟨task, .raised⟩) (exc : String) :
    D.Lands task (D.handleError s exc) True := by
  have hspawned : s.manager.workflowSpawned D.workflowId = false :=
    DelegationManager.workflowSpawned_eq_false.2 hc.handle
  have hslot := slot_of_alone hb.alone (fun call hcall' => by
    obtain rfl := Option.some.inj (hcall.symm.trans hcall')
    rfl)
  obtain ⟨workflows, hnone, heq⟩ : ∃ workflows, workflows.lookup D.workflowId = none ∧
      D.handleError s exc = D.logError { s with workflows := workflows } exc := by
    cases hd : D.config.dispatcher with
    | false =>
      refine ⟨s.workflows, ?_, by simp [handleError, hd]⟩
      simpa [hd] using hb.registered
    | true =>
      exact ⟨s.workflows.erase D.workflowId, AList.lookup_erase _ _, by
        simp [handleError, hd, hspawned]⟩
  rw [heq]
  unfold logError
  cases haudit : D.config.audit with
  | false =>
    refine ⟨fun hover => absurd hover (by simp [fail, DelegateTaskPhase.over]), fun _ => ?_,
      fun _ => trivial⟩
    refine iff_of_true ⟨hnone, hc.handle, hslot, hc.agent, ?_⟩ trivial
    intro status hstatus
    have hrow : s.delegations.lookup D.workflowId = none := by simpa [Logged, haudit] using hl
    exact absurd (hrow.symm.trans hstatus) (by simp)
  | true =>
    refine ⟨fun _ => ⟨⟨hb.alone, ⟨hc.handle, hc.agent⟩, hl, haudit, hnone, hcall⟩, trivial⟩, ?_,
      fun _ => trivial⟩
    simp

theorem lands_suspended (hb : D.Begun s) (hl : D.Logged s) {phase : DelegatePhase}
    (hcall : s.manager.calls.lookup D.call = some ⟨task, phase⟩) (hd : D.Delegates s phase)
    (delegationError : Bool) (exc : String) :
    D.Lands task (D.settle task s delegationError exc) True := by
  have hsettle : D.settle task s delegationError exc = { s with phase := .delegating } := by
    unfold settle
    rw [hcall]
    cases phase with
    | returned | raised => exact hd.elim
    | _ => rfl
  rw [hsettle]
  refine ⟨fun _ => ⟨⟨⟨hb.alone, hb.registered⟩, hl, phase, hcall, ?_⟩, trivial⟩, by simp, by simp⟩
  unfold Delegates at hd ⊢
  split at hd
  · exact ⟨hd.handle, hd.agent⟩
  · exact ⟨hd.handle, hd.agent⟩
  · exact hd
  · exact hd
  · exact hd.elim

theorem lands_returned (hcall : s.manager.calls.lookup D.call = some ⟨task, .returned⟩)
    (delegationError : Bool) (exc : String) :
    D.Lands task (D.settle task s delegationError exc) True := by
  have hsettle : D.settle task s delegationError exc = acknowledge task s := by
    unfold settle
    rw [hcall]
    rfl
  rw [hsettle]
  exact ⟨fun hover => absurd hover (by simp [acknowledge, DelegateTaskPhase.over]),
    by simp [acknowledge], fun _ => trivial⟩

theorem lands_error (hb : D.Begun s) (hl : D.Logged s) (hc : D.Cleared s)
    (hcall : s.manager.calls.lookup D.call = some ⟨task, .raised⟩) (exc : String) :
    D.Lands task (D.settle task s true exc) True := by
  have hsettle : D.settle task s true exc = D.handleError s exc := by
    unfold settle
    rw [hcall]
    rfl
  rw [hsettle]
  exact lands_handleError hb hl hc hcall exc

/-- Any other exception, or a cancellation, passes by the `except` branch. -/
theorem lands_raised (hb : D.Begun s) (hl : D.Logged s)
    (hcall : s.manager.calls.lookup D.call = some ⟨task, .raised⟩) (exc : String) :
    D.Lands task (D.settle task s false exc)
      (D.config.dispatcher = false ∧ D.config.audit = false ∧ D.Cleared s) := by
  have hsettle : D.settle task s false exc = { s with phase := .raised } := by
    unfold settle
    rw [hcall]
    rfl
  rw [hsettle]
  refine ⟨fun hover => absurd hover (by simp [DelegateTaskPhase.over]), fun _ => ?_, by simp⟩
  rw [undone_iff_of_begun (s := { s with phase := .raised }) ⟨hb.alone, hb.registered⟩ hl hcall]
  exact and_congr_right fun _ => and_congr_right fun _ =>
    ⟨fun h => ⟨h.handle, h.agent⟩, fun h => ⟨h.handle, h.agent⟩⟩

theorem Lands.congr {P Q : Prop} (h : D.Lands task s P) (hPQ : P ↔ Q) : D.Lands task s Q := by
  obtain rfl := propext hPQ
  exact h

/-! ### The tool's own call of `delegate` -/

theorem lookup_raise (m : DelegationManager) (c : CallId) (task : TaskAssignPayload) :
    (m.raise c task).calls.lookup c = some ⟨task, .raised⟩ := AList.lookup_insert _

theorem Begun.advance (hb : D.Begun s) {phase : DelegatePhase} {r : Resumption}
    {m' : DelegationManager} (h : s.manager.advance D.call task phase r = some m') (runs : Bool) :
    D.Begun { s with manager := m', agentRuns := runs } := by
  refine ⟨?_, hb.registered⟩
  rcases DelegationManager.calls_advance h with hcalls | ⟨phase', hcalls, -⟩
  · exact fun c call hc => hb.alone c call (hcalls ▸ hc)
  · exact hb.alone.insert hcalls fun _ => rfl

/-- The tool's own call waits for a slot. -/
theorem lands_acquiring (hb : D.Begun s) (hl : D.Logged s)
    (hcall : s.manager.calls.lookup D.call = some ⟨task, .acquiring⟩)
    (hd : D.Delegates s .acquiring) {r : Resumption} {m' : DelegationManager}
    (h : s.manager.advance D.call task .acquiring r = some m') (exc : String) :
    D.Lands task
      (D.settle task
        { s with manager := m', agentRuns := agentRunsAfter s.agentRuns .acquiring r }
        (DelegatePhase.acquiring.delegationError r) exc)
      (D.TakesBack s.agentRuns .acquiring r) := by
  have hbegun := hb.advance h (agentRunsAfter s.agentRuns .acquiring r)
  cases r with
  | raised => contradiction
  | cancelRequested =>
    simp only [DelegationManager.advance, Option.ite_none_right_eq_some] at h
    obtain rfl := Option.some.inj h.2
    exact lands_suspended hbegun hl hcall ⟨hd.handle, hd.agent⟩ _ exc
  | resumed =>
    simp only [DelegationManager.advance, Option.ite_none_right_eq_some] at h
    obtain rfl := Option.some.inj h.2
    exact lands_suspended hbegun hl (AList.lookup_insert _) ⟨hd.handle, hd.agent⟩ _ exc
  | cancelled =>
    simp only [DelegationManager.advance, Option.ite_none_right_eq_some] at h
    obtain rfl := Option.some.inj h.2
    refine (lands_raised hbegun hl (AList.lookup_insert _) exc).congr ?_
    exact and_congr_right fun _ => and_iff_left ⟨hd.handle, hd.agent⟩

/-- It spawns the agent. Nothing else is spawned for the workflow. -/
theorem lands_spawning (hb : D.Begun s) (hl : D.Logged s) (hw : task.workflowId.val = D.workflowId)
    (hd : D.Cleared s) {r : Resumption} {m' : DelegationManager}
    (h : s.manager.advance D.call task (.spawning true) r = some m') (exc : String) :
    D.Lands task
      (D.settle task
        { s with manager := m', agentRuns := agentRunsAfter s.agentRuns (.spawning true) r }
        ((DelegatePhase.spawning true).delegationError r) exc)
      (D.TakesBack s.agentRuns (.spawning true) r) := by
  have hbegun := hb.advance h (agentRunsAfter s.agentRuns (.spawning true) r)
  have hraise : (s.manager.raise D.call task).spawned.lookup D.workflowId = none := by
    rw [← hd.handle]
    exact congrArg _ (spawned_raise _ _ _)
  cases r with
  | cancelRequested => contradiction
  | resumed =>
    obtain rfl := Option.some.inj h
    have hnone : s.manager.spawned.lookup task.workflowId.val = none := by
      rw [hw]
      exact hd.handle
    have hinstall : s.manager.install D.call task =
        { s.manager with
          spawned := s.manager.spawned.insert task.workflowId.val
            ⟨task.agentId.val, D.call⟩ }.setCall D.call task
          (.sending ⟨task.agentId.val, D.call⟩) := by
      unfold DelegationManager.install
      rw [hnone]
    rw [hinstall] at hbegun ⊢
    refine lands_suspended hbegun hl (AList.lookup_insert _) ?_ _ exc
    show AList.lookup D.workflowId (s.manager.spawned.insert _ _) = _
    rw [← hw]
    exact AList.lookup_insert _
  | raised =>
    obtain rfl := Option.some.inj h
    exact lands_error hbegun hl ⟨hraise, hd.agent⟩ (lookup_raise _ _ _) exc
  | cancelled =>
    obtain rfl := Option.some.inj h
    refine (lands_raised hbegun hl (lookup_raise _ _ _) exc).congr ?_
    exact and_congr_right fun _ => and_iff_left ⟨hraise, hd.agent⟩

/-- It sends the task to the agent that it has spawned. -/
theorem lands_sending (hb : D.Begun s) (hl : D.Logged s) (hw : task.workflowId.val = D.workflowId)
    {agent : SpawnedAgent} (hd : s.manager.spawned.lookup D.workflowId = some agent)
    {r : Resumption} {m' : DelegationManager}
    (h : s.manager.advance D.call task (.sending agent) r = some m') (exc : String) :
    D.Lands task
      (D.settle task
        { s with manager := m', agentRuns := agentRunsAfter s.agentRuns (.sending agent) r }
        ((DelegatePhase.sending agent).delegationError r) exc)
      (D.TakesBack s.agentRuns (.sending agent) r) := by
  have hbegun := hb.advance h (agentRunsAfter s.agentRuns (.sending agent) r)
  cases r with
  | cancelRequested => contradiction
  | resumed =>
    obtain rfl := Option.some.inj h
    exact lands_returned (AList.lookup_insert _) _ exc
  | raised =>
    obtain rfl := Option.some.inj h
    have hown : s.manager.spawned.lookup task.workflowId.val = some agent := by
      rw [hw]
      exact hd
    have hfail : s.manager.failSend D.call task agent =
        { s.manager with
          spawned := s.manager.spawned.erase task.workflowId.val
          terminated := s.manager.terminated ++ [agent] }.setCall D.call task
          (.failing agent true) := by
      unfold DelegationManager.failSend
      simp [hown]
    rw [hfail] at hbegun ⊢
    refine lands_suspended hbegun hl (AList.lookup_insert _) ?_ _ exc
    show AList.lookup D.workflowId (s.manager.spawned.erase _) = none
    rw [← hw]
    exact AList.lookup_erase _ _
  | cancelled =>
    obtain rfl := Option.some.inj h
    refine (lands_raised hbegun hl (lookup_raise _ _ _) exc).congr ?_
    refine iff_of_false ?_ id
    rintro ⟨-, -, hc⟩
    have hhandle : s.manager.spawned.lookup D.workflowId = none := by
      rw [← hc.handle]
      exact congrArg _ (spawned_raise _ _ _).symm
    exact absurd (hhandle.symm.trans hd) (by simp)

/-- It terminates the agent after a failed send, with the handle taken back. -/
theorem lands_failing (hb : D.Begun s) (hl : D.Logged s)
    (hd : s.manager.spawned.lookup D.workflowId = none) {agent : SpawnedAgent} {r : Resumption}
    {m' : DelegationManager}
    (h : s.manager.advance D.call task (.failing agent true) r = some m') (exc : String) :
    D.Lands task
      (D.settle task
        { s with manager := m', agentRuns := agentRunsAfter s.agentRuns (.failing agent true) r }
        ((DelegatePhase.failing agent true).delegationError r) exc)
      (D.TakesBack s.agentRuns (.failing agent true) r) := by
  have hbegun := hb.advance h (agentRunsAfter s.agentRuns (.failing agent true) r)
  have hhandle : (s.manager.raise D.call task).spawned.lookup D.workflowId = none := by
    rw [spawned_raise]
    exact hd
  cases r with
  | cancelRequested => contradiction
  | resumed =>
    obtain rfl := Option.some.inj h
    exact lands_error hbegun hl ⟨hhandle, rfl⟩ (lookup_raise _ _ _) exc
  | raised | cancelled =>
    obtain rfl := Option.some.inj h
    refine (lands_raised hbegun hl (lookup_raise _ _ _) exc).congr ?_
    exact and_congr_right fun _ => and_congr_right fun _ =>
      ⟨fun hc => hc.agent, fun hruns => ⟨hhandle, hruns⟩⟩

/-- The tool's own call goes on. -/
theorem lands_resumeDelegate (hb : D.Begun s) (hl : D.Logged s)
    (hw : task.workflowId.val = D.workflowId) {phase : DelegatePhase}
    (hcall : s.manager.calls.lookup D.call = some ⟨task, phase⟩) (hd : D.Delegates s phase)
    {r : Resumption} {m' : DelegationManager}
    (h : s.manager.advance D.call task phase r = some m') (exc : String) :
    D.Lands task
      (D.settle task
        { s with manager := m', agentRuns := agentRunsAfter s.agentRuns phase r }
        (phase.delegationError r) exc) (D.TakesBack s.agentRuns phase r) := by
  cases phase with
  | acquiring => exact lands_acquiring hb hl hcall hd h exc
  | spawning acquired =>
    cases acquired with
    | false => exact hd.elim
    | true => exact lands_spawning hb hl hw ⟨hd.handle, hd.agent⟩ h exc
  | sending agent => exact lands_sending hb hl hw hd h exc
  | failing agent popped =>
    cases popped with
    | false => exact hd.elim
    | true => exact lands_failing hb hl hd h exc
  | stoppingPrevious agent previous => exact hd.elim
  | returned | raised => exact hd.elim

theorem lands_delegate (hw : task.workflowId.val = D.workflowId) (hb : D.Begun s)
    (hl : D.Logged s) (hc : D.Cleared s) : D.Lands task (D.delegate task s) True := by
  have hspawned := spawned_delegate s.manager D.config.manager D.call task
  obtain ⟨phase, hcalls, -⟩ :=
    DelegationManager.calls_delegate D.config.manager s.manager D.call task
  have hbegun : D.Begun { s with
      manager := s.manager.delegate D.config.manager D.call task } :=
    ⟨hb.alone.insert hcalls fun _ => rfl, hb.registered⟩
  have hcleared : D.Cleared { s with
      manager := s.manager.delegate D.config.manager D.call task } :=
    ⟨hspawned ▸ hc.handle, hc.agent⟩
  have hlive : s.manager.workflowSpawned task.workflowId.val = false := by
    rw [hw]
    exact DelegationManager.workflowSpawned_eq_false.2 hc.handle
  unfold delegate
  by_cases hdepth : D.config.manager.maxSpawnDepth < 1
  · refine lands_error hbegun hl hcleared ?_ _
    simp [DelegationManager.delegate, DelegationManager.setCall, hdepth]
  · by_cases hlocked : s.manager.semaphore.locked = true
    · have hcall : (s.manager.delegate D.config.manager D.call task).calls.lookup D.call =
          some ⟨task, .acquiring⟩ := by
        simp [DelegationManager.delegate, DelegationManager.setCall, hdepth, hlive, hlocked]
      exact lands_suspended hbegun hl hcall hcleared _ _
    · have hcall : (s.manager.delegate D.config.manager D.call task).calls.lookup D.call =
          some ⟨task, .spawning true⟩ := by
        simp [DelegationManager.delegate, DelegationManager.setCall, hdepth, hlive, hlocked]
      exact lands_suspended hbegun hl hcall hcleared _ _

/-! ### A step of the tool -/

/-- With its row an error, nothing of the workflow is left. -/
theorem undone_updateDelegation {exc : String} (hphase : s.phase = .loggingError exc)
    (ho : D.Ongoing task s) (phase : DelegateTaskPhase) :
    D.Undone { D.updateDelegation s with phase := phase } := by
  simp only [Ongoing, hphase] at ho
  obtain ⟨ha, hc, hl, haudit, hnone, hcall⟩ := ho
  have hstarted : s.delegations.lookup D.workflowId = some .started := by
    simpa [Logged, haudit] using hl
  have hupdate : D.updateDelegation s =
      { s with delegations := s.delegations.insert D.workflowId .error } := by
    simp [updateDelegation, hstarted]
  rw [hupdate]
  refine ⟨hnone, hc.handle, ?_, hc.agent, ?_⟩
  · refine slot_of_alone ha fun call hcall' => ?_
    obtain rfl := Option.some.inj (hcall.symm.trans hcall')
    rfl
  · intro status hstatus
    exact (Option.some.inj ((AList.lookup_insert _).symm.trans hstatus)).symm

/-- An audit call is over. -/
theorem lands_resumeAudit (hw : task.workflowId.val = D.workflowId) (ho : D.Ongoing task s)
    {outcome : AuditOutcome} (h : D.resumeAudit task s outcome = some s') :
    D.Lands task s' (D.Reversible s (.audit outcome)) := by
  unfold resumeAudit at h
  split at h
  · rename_i hphase
    obtain rfl := Option.some.inj h
    simp only [Ongoing, hphase] at ho
    obtain ⟨hb, hc, -, haudit, -⟩ := ho
    refine lands_delegate hw ⟨hb.alone, hb.registered⟩ ?_ ⟨hc.handle, hc.agent⟩
    simp [Logged, insertDelegation, haudit]
  · rename_i committed hphase
    obtain rfl := Option.some.inj h
    simp only [Ongoing, hphase] at ho
    obtain ⟨hb, hc, hcall, -, hrow⟩ := ho
    have hslot := slot_of_alone hb.alone fun call hc => absurd (hcall.symm.trans hc) (by simp)
    have hregistered : s.workflows.lookup D.workflowId = none ↔ D.config.dispatcher = false := by
      rw [← hb.registered, Option.isSome_eq_false_iff, Option.isNone_iff_eq_none]
    refine ⟨fun hover => absurd hover (by cases committed <;> simp [DelegateTaskPhase.over]),
      fun _ => ?_, by simp⟩
    simp only [Reversible, hphase]
    rw [← hregistered]
    cases committed with
    | false =>
      refine ⟨fun hu => ⟨hu.registered, rfl⟩, fun hnone => ?_⟩
      refine ⟨hnone.1, hc.handle, hslot, hc.agent, ?_⟩
      intro status hstatus
      exact absurd (hrow.symm.trans hstatus) (by simp)
    | true =>
      refine iff_of_false (fun hu => ?_) (by simp)
      exact absurd (hu.row .started (AList.lookup_insert _)) (by simp)
  · rename_i exc hphase
    obtain rfl := Option.some.inj h
    refine ⟨fun hover => absurd hover (by simp [fail, DelegateTaskPhase.over]), fun _ => ?_,
      fun _ => trivial⟩
    exact iff_of_true (undone_updateDelegation hphase ho _) trivial
  · rename_i exc committed hphase
    obtain rfl := Option.some.inj h
    refine ⟨fun hover => absurd hover (by cases committed <;> simp [DelegateTaskPhase.over]),
      fun _ => ?_, by simp⟩
    simp only [Reversible, hphase]
    cases committed with
    | false =>
      simp only [Ongoing, hphase] at ho
      obtain ⟨-, -, hl, haudit, -⟩ := ho
      have hstarted : s.delegations.lookup D.workflowId = some .started := by
        simpa [Logged, haudit] using hl
      refine iff_of_false (fun hu => ?_) (by simp)
      exact absurd (hu.row .started hstarted) (by simp)
    | true => exact iff_of_true (undone_updateDelegation hphase ho .raised) rfl
  · contradiction

theorem Ongoing.spared (ho : D.Ongoing task s) (hphase : s'.phase = s.phase)
    (hworkflows : s'.workflows.lookup D.workflowId = s.workflows.lookup D.workflowId)
    (hrow : s'.delegations.lookup D.workflowId = s.delegations.lookup D.workflowId)
    (hm : D.Alone s.manager → D.Spared s.manager s'.manager)
    (hruns : s.agentRuns = false → s'.agentRuns = false) : D.Ongoing task s' := by
  unfold Ongoing at ho ⊢
  rw [hphase]
  split at ho
  · obtain ⟨hb, hc, hcall, haudit, hnone⟩ := ho
    have hspared := hm hb.alone
    exact ⟨⟨hspared.alone hb.alone, hworkflows ▸ hb.registered⟩,
      ⟨hspared.handle.trans hc.handle, hruns hc.agent⟩, hspared.call.trans hcall, haudit,
      hrow.trans hnone⟩
  · obtain ⟨hb, hl, phase, hcall, hd⟩ := ho
    have hspared := hm hb.alone
    refine ⟨⟨hspared.alone hb.alone, hworkflows ▸ hb.registered⟩, hrow.trans hl, phase,
      hspared.call.trans hcall, ?_⟩
    unfold Delegates at hd ⊢
    split at hd
    · exact ⟨hspared.handle.trans hd.handle, hruns hd.agent⟩
    · exact ⟨hspared.handle.trans hd.handle, hruns hd.agent⟩
    · exact hspared.handle.trans hd
    · exact hspared.handle.trans hd
    · exact hd.elim
  · obtain ⟨ha, hc, hl, haudit, hnone, hcall⟩ := ho
    have hspared := hm ha
    exact ⟨hspared.alone ha, ⟨hspared.handle.trans hc.handle, hruns hc.agent⟩, hrow.trans hl,
      haudit, hworkflows.trans hnone, hspared.call.trans hcall⟩
  · exact ho.elim

theorem lands_of_ongoing (ho : D.Ongoing task s) : D.Lands task s True := by
  refine ⟨fun _ => ⟨ho, trivial⟩, fun hover => ?_, fun _ => trivial⟩
  rcases hover with ⟨message, hphase⟩ | hphase
  · simp [Ongoing, hphase] at ho
  · simp [Ongoing, hphase] at ho

theorem lands_advance (hw : task.workflowId.val = D.workflowId) (ho : D.Ongoing task s)
    {e : DelegateTaskEvent} (h : D.advance task s e = some s') :
    D.Lands task s' (D.Reversible s e) := by
  cases e with
  | audit outcome => exact lands_resumeAudit hw ho h
  | delegate r exc =>
    simp only [advance, resumeDelegate, Option.ite_none_right_eq_some] at h
    obtain ⟨hphase, h⟩ := h
    simp only [Ongoing, hphase] at ho
    obtain ⟨hb, hl, phase, hcall, hd⟩ := ho
    simp only [hcall, Option.bind_some] at h
    obtain ⟨m', hadvance, rfl⟩ := Option.map_eq_some_iff.1 h
    refine (lands_resumeDelegate hb hl hw hcall hd hadvance exc).congr ?_
    simp only [Reversible, hcall, Option.some.injEq, forall_eq']
  | deregistered r =>
    simp only [advance, resumeDeregister] at h
    split at h
    · rename_i hphase
      simp [Ongoing, hphase] at ho
    · rename_i hphase
      simp [Ongoing, hphase] at ho
    · rename_i hphase
      simp [Ongoing, hphase] at ho
    · contradiction
  | agentExits =>
    obtain rfl := Option.some.inj h
    exact lands_of_ongoing (ho.spared rfl rfl rfl (fun _ => ⟨rfl, rfl, id⟩) fun _ => rfl)
  | manager e =>
    simp only [advance, Option.ite_none_left_eq_some, Bool.not_eq_true] at h
    obtain ⟨htouch, h⟩ := h
    obtain ⟨m', hstep, rfl⟩ := Option.map_eq_some_iff.1 h
    exact lands_of_ongoing
      (ho.spared rfl rfl rfl (fun ha => spared_of_others ha htouch hstep) id)
  | register context =>
    simp only [advance, Option.ite_none_left_eq_some] at h
    obtain rfl := Option.some.inj h.2
    exact lands_of_ongoing (ho.spared rfl (AList.lookup_insert_ne (Ne.symm h.1)) rfl
      (fun _ => ⟨rfl, rfl, id⟩) id)
  | deregister workflowId =>
    simp only [advance, Option.ite_none_left_eq_some] at h
    obtain rfl := Option.some.inj h.2
    exact lands_of_ongoing (ho.spared rfl (AList.lookup_erase_ne (Ne.symm h.1)) rfl
      (fun _ => ⟨rfl, rfl, id⟩) id)
  | delegation workflowId status =>
    simp only [advance, Option.ite_none_left_eq_some] at h
    obtain rfl := Option.some.inj h.2
    exact lands_of_ongoing (ho.spared rfl rfl (AList.lookup_insert_ne (Ne.symm h.1))
      (fun _ => ⟨rfl, rfl, id⟩) id)

/-! ### From the arguments to the end -/

theorem workflowId_task (h : D.args.task D.config = some task) :
    task.workflowId.val = D.workflowId := by
  simp only [DelegateTaskArgs.task, Option.bind_eq_bind, Option.bind_eq_some_iff,
    Option.pure_def, Option.some.injEq] at h
  obtain ⟨_, -, _, -, _, -, _, -, _, -, rfl⟩ := h
  rfl

/-- The tool up to its first await. -/
theorem lands_start (h : D.args.task D.config = some task) :
    D.Lands task (D.start task D.before) True := by
  have hw := workflowId_task h
  have hnone : D.workflows.lookup D.workflowId = none := D.new_workflow
  obtain ⟨workflows, hregistered, hstart⟩ : ∃ workflows : Dict String WorkflowContext,
      (workflows.lookup D.workflowId).isSome = D.config.dispatcher ∧
        D.start task D.before =
          let s := { D.before with workflows := workflows }
          if D.config.audit then { s with phase := .loggingStarted } else D.delegate task s := by
    cases hd : D.config.dispatcher with
    | false => exact ⟨D.workflows, by rw [hnone]; rfl, by simp [start, hd, before]⟩
    | true =>
      exact ⟨D.workflows.insert D.workflowId (D.args.context task), by simp,
        by simp [start, hd, before]⟩
  have halone : D.Alone D.manager := fun c call hc hw => absurd hw (D.new_task c call hc)
  rw [hstart]
  cases haudit : D.config.audit with
  | true =>
    exact lands_of_ongoing ⟨⟨halone, hregistered⟩, ⟨D.new_handle, rfl⟩, D.new_call, haudit,
      D.new_delegation⟩
  | false =>
    refine lands_delegate hw ⟨halone, hregistered⟩ ?_ ⟨D.new_handle, rfl⟩
    rw [Logged, haudit]
    exact D.new_delegation

theorem undone_before : D.Undone D.before where
  registered := D.new_workflow
  handle := D.new_handle
  slot c call hc hw := absurd hw (D.new_task c call hc)
  agent := rfl
  row status hstatus := absurd (D.new_delegation.symm.trans hstatus) (by simp)

/-- The call of the tool, over any run of it: what comes to light at its end is how its awaits
ended. -/
theorem lands_run (h : D.args.task D.config = some task)
    {tr : List (DelegateTaskRun × DelegateTaskEvent)} (htr : D.machine.Trace tr s) :
    D.Lands task s (Machine.Guarded D.Reversible tr) := by
  induction htr with
  | nil =>
    have hinit : D.machine.init = D.start task D.before := by
      unfold machine
      rw [h]
    rw [hinit]
    exact (lands_start h).congr (by simp [Machine.Guarded])
  | @snoc tr s e s' htr hs ih =>
    simp only [machine, h, Option.bind_some, Option.ite_none_left_eq_some, Bool.not_eq_true] at hs
    obtain ⟨hover, hs⟩ := hs
    obtain ⟨ho, hguarded⟩ := ih.1 hover
    refine (lands_advance (workflowId_task h) ho hs).congr ?_
    rw [Machine.guarded_snoc, and_iff_right hguarded]

/-- A call of `delegate_task` that ends without the acknowledgement leaves nothing exactly if each
of its awaits ended so that it could be taken back. -/
theorem all_or_nothing_iff {tr : List (DelegateTaskRun × DelegateTaskEvent)}
    (h : D.machine.Trace tr s)
    (hend : (∃ message, s.phase = .failed message) ∨ s.phase = .raised) :
    D.Undone s ↔ Machine.Guarded D.Reversible tr := by
  cases htask : D.args.task D.config with
  | some task => exact (lands_run htask h).2.1 hend
  | none =>
    cases h with
    | nil =>
      refine iff_of_true ?_ (by simp [Machine.Guarded])
      have hinit : D.machine.init = D.before := by
        unfold machine
        rw [htask]
      rw [hinit]
      exact undone_before
    | snoc _ hs =>
      simp [machine, htask] at hs

/-! ### Slots -/

theorem agrees_of_delegates (hw : task.workflowId.val = D.workflowId) {phase : DelegatePhase}
    (hd : D.Delegates s phase) (r : Resumption) :
    s.manager.Agrees task.workflowId.val phase r := by
  rw [hw]
  cases phase with
  | acquiring => cases r <;> trivial
  | spawning acquired =>
    cases acquired with
    | false => exact hd.elim
    | true => cases r <;> exact iff_of_true rfl hd.handle
  | stoppingPrevious agent previous => exact hd.elim
  | sending agent =>
    have hsome : s.manager.spawned.lookup D.workflowId ≠ none := by
      rw [show s.manager.spawned.lookup D.workflowId = some agent from hd]
      simp
    cases r with
    | cancelled => exact hsome
    | resumed | raised | cancelRequested => trivial
  | failing agent popped =>
    cases popped with
    | false => exact hd.elim
    | true => cases r <;> exact iff_of_true rfl hd
  | returned | raised => exact hd.elim

/-- However the tool ends, its own call of `delegate` loses no slot and makes none up. -/
theorem slots_of_delegate {tr : List (DelegateTaskRun × DelegateTaskEvent)}
    (h : D.machine.Trace tr s') {r : Resumption} {exc : String}
    (hmem : (s, .delegate r exc) ∈ tr) :
    DelegationManager.KeepsSlots s.manager (.call D.call r) := by
  obtain ⟨pre, -, hpre, s'', hs⟩ := h.prefix_of_mem hmem
  obtain ⟨task, htask, hs⟩ := Option.bind_eq_some_iff.1 hs
  simp only [Option.ite_none_left_eq_some, Bool.not_eq_true] at hs
  obtain ⟨hover, hs⟩ := hs
  have ho := ((lands_run htask hpre).1 hover).1
  simp only [advance, resumeDelegate, Option.ite_none_right_eq_some] at hs
  simp only [Ongoing, hs.1] at ho
  obtain ⟨-, -, phase, hcall, hd⟩ := ho
  intro task' phase' hcall'
  obtain ⟨rfl, rfl⟩ := DelegateCall.mk.inj (Option.some.inj (hcall.symm.trans hcall'))
  exact agrees_of_delegates (workflowId_task htask) hd r

/-! ### A spawn that fails, and a row that cannot be inserted -/

/-- A first delegation. -/
def fixBug : DelegateTask where
  config := { workspaceRoot := "/work" }
  args := { prompt := "Fix the bug.", agentHex := "0000aaaa", workflowHex := "0000aaaabbbb" }
  manager := (delegationMachine {}).init
  call := 0
  new_call := rfl
  new_workflow := rfl
  new_delegation := rfl
  new_handle := rfl
  new_task := fun _ _ h => absurd h (by simp [delegationMachine])

/-- The spawn callback raises. -/
def failedSpawn : List DelegateTaskEvent :=
  [.audit .returned, .delegate .raised "failed to spawn sub-agent", .audit .returned]

theorem all_or_nothing_iff_failedSpawn : ∃ tr s, fixBug.machine.Trace tr s ∧
    tr.map Prod.snd = failedSpawn ∧ (fixBug.Undone s ↔ Machine.Guarded fixBug.Reversible tr) := by
  obtain ⟨tr, s, h, hevents, hs⟩ := Machine.Trace.of_check (M := fixBug.machine) failedSpawn
    (p := fun _ s => s.phase = .failed "Delegation failed: failed to spawn sub-agent")
    (by decide +kernel)
  exact ⟨tr, s, h, hevents, all_or_nothing_iff h (Or.inl ⟨_, of_decide_eq_true hs⟩)⟩

/-- The insert of the audit row raises, and the workflow stays registered. -/
theorem failed_insert_registered : ¬ ∀ tr s, fixBug.machine.Trace tr s →
    (∃ message, s.phase = .failed message) ∨ s.phase = .raised → fixBug.Undone s := by
  intro hall
  obtain ⟨tr, s, h, -, hs⟩ := Machine.Trace.of_check (M := fixBug.machine)
    [.audit (.cutOff false)]
    (p := fun _ s => decide (s.phase = .raised) && (s.workflows.lookup fixBug.workflowId).isSome)
    (by decide +kernel)
  obtain ⟨hphase, hsome⟩ := Bool.and_eq_true_iff.1 hs
  rw [(hall tr s h (Or.inr (of_decide_eq_true hphase))).registered] at hsome
  exact Bool.noConfusion hsome

end DelegateTask

end NemoClaw
