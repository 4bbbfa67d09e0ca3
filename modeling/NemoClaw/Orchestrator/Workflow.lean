import NemoClaw.Lib.Dict
import NemoClaw.Nmb.Protocol

/-! Workflow contexts and finalization sessions (`orchestrator/workflow.py`,
`tools/finalization.py`). A context is an object shared by the registry and by every session
opened on it: it keeps an identity of its own, and `re_delegate` writes to it in place. -/

namespace NemoClaw

open Lib

/-- A `WorkflowContext` object. -/
abbrev CtxId := ℕ

structure WorkflowContext where
  workflowId : String
  task : TaskAssignPayload
  channelId : Option String := none
  threadTs : Option String := none
  requestId : String := ""
  startedAt : ℚ := 0
  deriving DecidableEq

structure FinalizationSession where
  task : TaskAssignPayload
  complete : TaskCompletePayload
  context : CtxId
  deriving DecidableEq

/-- `max_turns or self.task.max_turns`; a negative number fails validation. -/
def resolveMaxTurns (maxTurns : Option ℤ) (fallback : Option PositiveInt) :
    Option (Option PositiveInt) :=
  match maxTurns with
  | none => some fallback
  | some n =>
    if h : 0 < n.toNat then some (some ⟨n.toNat, h⟩) else if n = 0 then some fallback else none

/-- The follow-up assignment of `re_delegate`, unless it fails validation. -/
def TaskAssignPayload.followup (t : TaskAssignPayload) (prompt : String)
    (maxTurns : Option ℤ) (model : Option String) : Option TaskAssignPayload :=
  if h : prompt ≠ "" then
    (resolveMaxTurns maxTurns t.maxTurns).map fun turns =>
      { t with
        prompt := ⟨prompt, h⟩
        maxTurns := turns
        model := (truthy model).or t.model
        isIteration := true
        iterationNumber := t.iterationNumber + 1 }
  else none

/-- A follow-up belongs to the same workflow, agent and workspace, one iteration later. -/
theorem TaskAssignPayload.followup_eq {t : TaskAssignPayload} {prompt : String}
    {maxTurns : Option ℤ} {model : Option String} {task : TaskAssignPayload}
    (h : t.followup prompt maxTurns model = some task) :
    task.workflowId = t.workflowId ∧ task.agentId = t.agentId ∧
      task.workspaceRoot = t.workspaceRoot ∧
        task.workspaceBaseline = t.workspaceBaseline ∧
          task.iterationNumber = t.iterationNumber + 1 := by
  unfold followup at h
  split_ifs at h
  obtain ⟨turns, -, rfl⟩ := Option.map_eq_some_iff.1 h
  exact ⟨rfl, rfl, rfl, rfl, rfl⟩

/-- `verify_baseline` -/
def verifyBaseline (task : TaskAssignPayload) (complete : TaskCompletePayload) : Bool :=
  task.workspaceBaseline = complete.workspaceBaseline

end NemoClaw
