import NemoClaw.Nmb.Models

/-! Typed payloads of the task protocol (`nmb/protocol.py`). A field bound of the source is part
of the field's type, so a value of a payload type is a validated payload. How a payload looks on
the wire is left open: `Codec` holds the two directions for each model. -/

namespace NemoClaw

inductive MessageType
  | taskAssign | taskProgress | taskComplete | taskError | auditFlush
  deriving DecidableEq, Repr

def MessageType.value : MessageType → String
  | .taskAssign => "task.assign"
  | .taskProgress => "task.progress"
  | .taskComplete => "task.complete"
  | .taskError => "task.error"
  | .auditFlush => "audit.flush"

theorem MessageType.value_injective {s t : MessageType} (h : s.value = t.value) : s = t := by
  cases s <;> cases t <;> first | rfl | simp [value] at h

/-- `Field(min_length=1)` -/
abbrev NonEmptyString := {s : String // s ≠ ""}

/-- `PositiveInt` -/
abbrev PositiveInt := {n : ℕ // 0 < n}

inductive TaskProgressStatus
  | starting | readingWorkspace | writingCode | runningTests | finalizing
  deriving DecidableEq, Repr

inductive TaskErrorKind
  | maxTurnsExceeded | toolFailure | policyDenied | inferenceError | other
  deriving DecidableEq, Repr

structure WorkspaceBaseline where
  repoUrl : NonEmptyString
  branch : NonEmptyString
  baseSha : NonEmptyString
  isShallow : Bool := true
  deriving DecidableEq

inductive Encoding
  | utf8 | base64
  deriving DecidableEq, Repr

structure ContextFile where
  path : NonEmptyString
  content : String
  encoding : Encoding := .utf8
  deriving DecidableEq

structure TaskAssignPayload where
  prompt : NonEmptyString
  workflowId : NonEmptyString
  parentSandboxId : NonEmptyString
  agentId : NonEmptyString
  workspaceRoot : NonEmptyString
  maxTurns : Option PositiveInt := none
  model : Option String := none
  toolSurface : Option (List String) := none
  contextFiles : List ContextFile := []
  workspaceBaseline : Option WorkspaceBaseline := none
  isIteration : Bool := false
  iterationNumber : ℕ := 0
  deriving DecidableEq

structure TaskProgressPayload where
  workflowId : NonEmptyString
  status : TaskProgressStatus
  pct : Option {n : ℕ // n ≤ 100} := none
  currentRound : Option ℕ := none
  tokensUsed : Option ℕ := none
  note : Option String := none
  deriving DecidableEq

structure TaskCompletePayload where
  workflowId : NonEmptyString
  summary : NonEmptyString
  diff : String := ""
  workspaceBaseline : Option WorkspaceBaseline := none
  filesChanged : List String := []
  notesPath : Option String := none
  gitCommitSha : Option String := none
  toolCallsMade : ℕ := 0
  roundsUsed : ℕ := 0
  modelUsed : Option String := none
  suggestedNextStep : Option String := none
  deriving DecidableEq

structure TaskErrorPayload where
  workflowId : NonEmptyString
  error : NonEmptyString
  errorKind : TaskErrorKind
  recoverable : Bool := false
  notesPath : Option String := none
  traceback : Option String := none
  deriving DecidableEq

inductive OperationType
  | read | write
  deriving DecidableEq, Repr

structure AuditToolCallPayload where
  id : NonEmptyString
  service : String := ""
  command : NonEmptyString
  args : String := ""
  operationType : OperationType
  approvalStatus : Option String := none
  approvedBy : Option String := none
  approvalTimeMs : Option ℚ := none
  exitCode : Option ℤ := none
  durationMs : {q : ℚ // 0 ≤ q}
  success : Bool
  errorCode : Option String := none
  errorMessage : Option String := none
  responsePayload : String := ""
  deriving DecidableEq

structure AuditFlushPayload where
  workflowId : NonEmptyString
  parentSandboxId : NonEmptyString
  agentId : NonEmptyString
  agentRole : String := "coding"
  toolCalls : List AuditToolCallPayload := []
  deriving DecidableEq

structure PayloadValidationError where
  payloadType : MessageType
  message : String
  deriving DecidableEq, Repr

/-- `dump` and `model_validate` of the payload models, on wire payloads `π`. -/
structure Codec (π : Type) where
  dumpAssign : TaskAssignPayload → π
  dumpProgress : TaskProgressPayload → π
  dumpComplete : TaskCompletePayload → π
  dumpError : TaskErrorPayload → π
  dumpAuditFlush : AuditFlushPayload → π
  validateAssign : π → Except String TaskAssignPayload
  validateProgress : π → Except String TaskProgressPayload
  validateComplete : π → Except String TaskCompletePayload
  validateError : π → Except String TaskErrorPayload
  validateAuditFlush : π → Except String AuditFlushPayload

def load {π α : Type} (validate : π → Except String α) (payloadType : MessageType)
    (raw : Option π) : Except PayloadValidationError α :=
  match raw with
  | none => .error ⟨payloadType, payloadType.value ++ ": payload is None"⟩
  | some p =>
    match validate p with
    | .error exc => .error ⟨payloadType, payloadType.value ++ ": " ++ exc⟩
    | .ok a => .ok a

theorem load_eq_ok {π α : Type} {validate : π → Except String α} {t : MessageType}
    {raw : Option π} {a : α} :
    load validate t raw = .ok a ↔ ∃ p, raw = some p ∧ validate p = .ok a := by
  unfold load
  cases raw with
  | none => simp
  | some p => cases h : validate p <;> simp [h]

/-- Payloads of the task protocol before they become JSON. -/
inductive WirePayload
  | assign (p : TaskAssignPayload)
  | progress (p : TaskProgressPayload)
  | complete (p : TaskCompletePayload)
  | error (p : TaskErrorPayload)
  | auditFlush (p : AuditFlushPayload)
  | shutdown (sandboxId : String)
  deriving DecidableEq

/-- The models forbid extra fields and each has a required field of its own, so a payload of one
model is not valid for another. -/
def wireCodec : Codec WirePayload where
  dumpAssign := .assign
  dumpProgress := .progress
  dumpComplete := .complete
  dumpError := .error
  dumpAuditFlush := .auditFlush
  validateAssign
    | .assign p => .ok p
    | _ => .error "validation error for TaskAssignPayload"
  validateProgress
    | .progress p => .ok p
    | _ => .error "validation error for TaskProgressPayload"
  validateComplete
    | .complete p => .ok p
    | _ => .error "validation error for TaskCompletePayload"
  validateError
    | .error p => .ok p
    | _ => .error "validation error for TaskErrorPayload"
  validateAuditFlush
    | .auditFlush p => .ok p
    | _ => .error "validation error for AuditFlushPayload"

def fixBugWorkflowId : NonEmptyString := ⟨"wf-1", by decide⟩

def fixBugTask : TaskAssignPayload where
  prompt := ⟨"Fix the bug", by decide⟩
  workflowId := fixBugWorkflowId
  parentSandboxId := ⟨"orchestrator", by decide⟩
  agentId := ⟨"coding-wf-1", by decide⟩
  workspaceRoot := ⟨"/tmp/wf", by decide⟩

def fixBugResult : TaskCompletePayload where
  workflowId := fixBugWorkflowId
  summary := ⟨"Fixed", by decide⟩

end NemoClaw
