import NemoClaw.Lib.Dict
import NemoClaw.Lib.Machine
import NemoClaw.Lib.Semaphore
import NemoClaw.Nmb.Protocol

/-! The delegation manager (`orchestrator/delegation.py`) as an event machine. One step is what a
`delegate` call does between two awaits, or what `terminate` and `close` do before theirs; any
number of calls may be suspended at once, and each may be resumed, fail or be cancelled. -/

namespace NemoClaw

open Lib

structure DelegationConfig where
  maxConcurrent : ℕ := 4
  maxSpawnDepth : ℤ := 1

/-- One run of the coroutine `delegate`. -/
abbrev CallId := ℕ

/-- A handle. Handles are compared by identity, and a call spawns at most one. -/
structure SpawnedAgent where
  sandboxId : String
  spawnedBy : CallId
  deriving DecidableEq, Repr

/-- What a `delegate` call awaits. -/
inductive DelegatePhase
  | acquiring
  /-- `_spawn`; `acquired` is `acquired_for_new_workflow` -/
  | spawning (acquired : Bool)
  /-- `terminate` of the handle that was replaced -/
  | stoppingPrevious (agent previous : SpawnedAgent)
  | sending (agent : SpawnedAgent)
  /-- `terminate` of its own agent after a failed send; `popped` says whether the call took its
  handle, and the slot with it, out of `_spawned` -/
  | failing (agent : SpawnedAgent) (popped : Bool)
  | returned
  | raised
  deriving DecidableEq, Repr

structure DelegateCall where
  task : TaskAssignPayload
  phase : DelegatePhase
  deriving DecidableEq

structure DelegationManager where
  semaphore : Semaphore CallId
  spawned : Dict String SpawnedAgent := ∅
  calls : Dict CallId DelegateCall := ∅
  /-- the workflows left to a running `close` -/
  closing : Dict ℕ (List String) := ∅
  /-- the handles whose `terminate` was called, in order -/
  terminated : List SpawnedAgent := []

/-- What becomes of the await of a call. -/
inductive Resumption
  | resumed
  | raised
  | cancelled
  /-- `Task.cancel` while a semaphore waiter is pending -/
  | cancelRequested
  deriving DecidableEq, Repr

inductive DelegationEvent
  | delegate (call : CallId) (task : TaskAssignPayload)
  | call (call : CallId) (resumption : Resumption)
  | terminate (workflowId : String)
  | close (closer : ℕ)
  | closeNext (closer : ℕ)

namespace DelegationManager

def setCall (m : DelegationManager) (c : CallId) (task : TaskAssignPayload)
    (phase : DelegatePhase) : DelegationManager :=
  { m with calls := m.calls.insert c ⟨task, phase⟩ }

def workflowSpawned (m : DelegationManager) (workflowId : String) : Bool :=
  (m.spawned.lookup workflowId).isSome

def delegate (cfg : DelegationConfig) (m : DelegationManager) (c : CallId)
    (task : TaskAssignPayload) : DelegationManager :=
  if cfg.maxSpawnDepth < 1 then m.setCall c task .raised
  else if m.workflowSpawned task.workflowId.val then m.setCall c task (.spawning false)
  else if m.semaphore.locked then
    { m with semaphore := m.semaphore.enqueue c }.setCall c task .acquiring
  else { m with semaphore := m.semaphore.take }.setCall c task (.spawning true)

/-- `if task.workflow_id not in self._spawned: self._semaphore.release()` -/
def releaseUnlessSpawned (m : DelegationManager) (workflowId : String) : DelegationManager :=
  if m.workflowSpawned workflowId then m else { m with semaphore := m.semaphore.release }

/-- The exception reaches the outer handler of `delegate`, which raises it again. -/
def raise (m : DelegationManager) (c : CallId) (task : TaskAssignPayload) : DelegationManager :=
  (m.releaseUnlessSpawned task.workflowId.val).setCall c task .raised

/-- The new handle is installed, and the one it replaces terminated. -/
def install (m : DelegationManager) (c : CallId) (task : TaskAssignPayload) : DelegationManager :=
  let agent : SpawnedAgent := ⟨task.agentId.val, c⟩
  let installed := { m with spawned := m.spawned.insert task.workflowId.val agent }
  match m.spawned.lookup task.workflowId.val with
  | none => installed.setCall c task (.sending agent)
  | some previous =>
    { installed with terminated := m.terminated ++ [previous] }.setCall c task
      (.stoppingPrevious agent previous)

/-- The send failed: the call removes its own handle only, then terminates its agent. -/
def failSend (m : DelegationManager) (c : CallId) (task : TaskAssignPayload)
    (agent : SpawnedAgent) : DelegationManager :=
  let own : Bool := m.spawned.lookup task.workflowId.val = some agent
  { m with
    spawned := if own then m.spawned.erase task.workflowId.val else m.spawned
    terminated := m.terminated ++ [agent] }.setCall c task (.failing agent own)

def advance (m : DelegationManager) (c : CallId) (task : TaskAssignPayload) :
    DelegatePhase → Resumption → Option DelegationManager
  | .acquiring, .cancelRequested =>
    if m.semaphore.waiter c = some .pending then
      some { m with semaphore := m.semaphore.cancel c }
    else none
  | .acquiring, .resumed =>
    if m.semaphore.waiter c = some .granted then
      some ({ m with semaphore := m.semaphore.resume c }.setCall c task (.spawning true))
    else none
  | .acquiring, .cancelled =>
    if m.semaphore.waiter c = some .granted ∨ m.semaphore.waiter c = some .cancelled then
      some ({ m with semaphore := m.semaphore.abort c }.setCall c task .raised)
    else none
  | .spawning _, .resumed => some (m.install c task)
  | .spawning _, .raised | .spawning _, .cancelled => some (m.raise c task)
  | .stoppingPrevious agent _, .resumed | .stoppingPrevious agent _, .raised =>
    some (m.setCall c task (.sending agent))
  | .stoppingPrevious _ _, .cancelled => some (m.raise c task)
  | .sending _, .resumed => some (m.setCall c task .returned)
  | .sending agent, .raised => some (m.failSend c task agent)
  | .sending _, .cancelled => some (m.raise c task)
  | .failing _ _, .resumed | .failing _ _, .raised | .failing _ _, .cancelled =>
    some (m.raise c task)
  | _, _ => none

/-- `terminate` up to its await. -/
def terminate (m : DelegationManager) (workflowId : String) : DelegationManager :=
  match m.spawned.lookup workflowId with
  | none => m
  | some agent =>
    { m with
      spawned := m.spawned.erase workflowId
      semaphore := m.semaphore.release
      terminated := m.terminated ++ [agent] }

def step (cfg : DelegationConfig) (m : DelegationManager) :
    DelegationEvent → Option DelegationManager
  | .delegate c task => if (m.calls.lookup c).isSome then none else some (m.delegate cfg c task)
  | .call c r => (m.calls.lookup c).bind fun call => m.advance c call.task call.phase r
  | .terminate workflowId => some (m.terminate workflowId)
  | .close k =>
    if (m.closing.lookup k).isSome then none
    else some { m with closing := m.closing.insert k m.spawned.keys }
  | .closeNext k =>
    match m.closing.lookup k with
    | none | some [] => none
    | some (workflowId :: left) =>
      some ({ m with closing := m.closing.insert k left }.terminate workflowId)

end DelegationManager

def delegationMachine (cfg : DelegationConfig) : Machine DelegationManager DelegationEvent where
  init := { semaphore := ⟨cfg.maxConcurrent, []⟩ }
  step := DelegationManager.step cfg

end NemoClaw
