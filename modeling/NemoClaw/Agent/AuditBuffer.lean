import NemoClaw.Audit.ToolCalls

/-! The audit buffer of a sub-agent (`agent/audit_buffer.py`): an `AuditSink` that keeps the rows
until the task is over. -/

namespace NemoClaw

structure AuditBuffer where
  workflowId : NonEmptyString
  parentSandboxId : NonEmptyString
  agentId : NonEmptyString
  agentRole : String := "coding"
  toolCalls : List AuditToolCallPayload := []
  deriving DecidableEq

/-- A line of the fallback file. -/
structure FallbackRow where
  workflowId : NonEmptyString
  parentSandboxId : NonEmptyString
  agentId : NonEmptyString
  agentRole : String
  toolCall : AuditToolCallPayload
  deriving DecidableEq

namespace AuditBuffer

/-- The buffer that `_await_and_handle_one_task` makes for a task. -/
def ofTask (task : TaskAssignPayload) : AuditBuffer where
  workflowId := task.workflowId
  parentSandboxId := task.parentSandboxId
  agentId := task.agentId

def isEmpty (buffer : AuditBuffer) : Bool := buffer.toolCalls.isEmpty

/-- `row_id or uuid.uuid4().hex[:16]` -/
def rowIdOr (uuid : NonEmptyString) : Option String → NonEmptyString
  | none => uuid
  | some rowId => if h : rowId ≠ "" then ⟨rowId, h⟩ else uuid

/-- The row of a call, unless its model refuses it. -/
def row (uuid : NonEmptyString) (call : ToolCallArgs) : Option AuditToolCallPayload :=
  if hc : call.command ≠ "" then
    if hd : 0 ≤ call.durationMs then
      some {
        id := rowIdOr uuid call.rowId
        service := call.service
        command := ⟨call.command, hc⟩
        args := call.args
        operationType := call.operationType
        approvalStatus := call.approvalStatus
        approvedBy := call.approvedBy
        approvalTimeMs := call.approvalTimeMs
        exitCode := call.exitCode
        durationMs := ⟨call.durationMs, hd⟩
        success := call.success
        errorCode := call.errorCode
        errorMessage := call.errorMessage
        responsePayload := call.responsePayload }
    else none
  else none

/-- `AuditBuffer.log_tool_call`. The attribution among its arguments is left to the envelope. -/
def logToolCall (uuid : NonEmptyString) (buffer : AuditBuffer) (call : ToolCallArgs) :
    Option (AuditBuffer × String) :=
  (row uuid call).map fun item =>
    ({ buffer with toolCalls := buffer.toolCalls ++ [item] }, item.id.val)

def toPayload (buffer : AuditBuffer) : AuditFlushPayload where
  workflowId := buffer.workflowId
  parentSandboxId := buffer.parentSandboxId
  agentId := buffer.agentId
  agentRole := buffer.agentRole
  toolCalls := buffer.toolCalls

/-- `write_jsonl_fallback`: the lines of the file, or nothing to write. -/
def jsonlFallback (buffer : AuditBuffer) : Option (List FallbackRow) :=
  if buffer.isEmpty then none
  else some (buffer.toolCalls.map fun item =>
    { workflowId := buffer.workflowId
      parentSandboxId := buffer.parentSandboxId
      agentId := buffer.agentId
      agentRole := buffer.agentRole
      toolCall := item })

end AuditBuffer

end NemoClaw
