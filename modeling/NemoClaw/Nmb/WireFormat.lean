import Mathlib.Data.Rat.Lemmas
import NemoClaw.Lib.Cuts
import NemoClaw.Lib.JsonReader
import NemoClaw.Lib.Records
import NemoClaw.Nmb.Broker
import NemoClaw.Nmb.Protocol

/-! The frames of the message bus as JSON texts (`NMBMessage.to_json` and `from_json`), and the
payloads of the task protocol as objects in them (`dump` and `model_validate`). Of `pydantic` the
reading of values of another type than the field's is left out. -/

namespace NemoClaw

open Lib

/-- `dict[str, Any]` -/
abbrev JsonFields := List (String × Json ℚ)

/-! ### The values of fields -/

def TaskProgressStatus.value : TaskProgressStatus → String
  | .starting => "starting"
  | .readingWorkspace => "reading_workspace"
  | .writingCode => "writing_code"
  | .runningTests => "running_tests"
  | .finalizing => "finalizing"

def TaskErrorKind.value : TaskErrorKind → String
  | .maxTurnsExceeded => "max_turns_exceeded"
  | .toolFailure => "tool_failure"
  | .policyDenied => "policy_denied"
  | .inferenceError => "inference_error"
  | .other => "other"

def Encoding.value : Encoding → String
  | .utf8 => "utf-8"
  | .base64 => "base64"

def OperationType.value : OperationType → String
  | .read => "READ"
  | .write => "WRITE"

namespace WireFormat

def op : Format ℚ Op :=
  .enum [.send, .request, .reply, .subscribe, .unsubscribe, .publish, .stream, .deliver, .ack,
    .error, .timeout] Op.value (by intro a; cases a <;> decide)
    (by intro a b; cases a <;> cases b <;> decide)

def status : Format ℚ TaskProgressStatus :=
  .enum [.starting, .readingWorkspace, .writingCode, .runningTests, .finalizing]
    TaskProgressStatus.value (by intro a; cases a <;> decide)
    (by intro a b; cases a <;> cases b <;> decide)

def errorKind : Format ℚ TaskErrorKind :=
  .enum [.maxTurnsExceeded, .toolFailure, .policyDenied, .inferenceError, .other]
    TaskErrorKind.value (by intro a; cases a <;> decide)
    (by intro a b; cases a <;> cases b <;> decide)

def encoding : Format ℚ Encoding :=
  .enum [.utf8, .base64] Encoding.value (by intro a; cases a <;> decide)
    (by intro a b; cases a <;> cases b <;> decide)

def operationType : Format ℚ OperationType :=
  .enum [.read, .write] OperationType.value (by intro a; cases a <;> decide)
    (by intro a b; cases a <;> cases b <;> decide)

def string : Format ℚ String := .string

def bool : Format ℚ Bool := .bool

def int : Format ℚ ℤ := .int

def float : Format ℚ ℚ := .float fun n => n

/-- `NonNegativeInt` -/
def nat : Format ℚ ℕ := .nat

def nonEmptyString : Format ℚ NonEmptyString := string.satisfying (· ≠ "")

def positiveInt : Format ℚ PositiveInt := nat.satisfying (0 < ·)

/-! ### The records -/

open FieldFormat Record

/-- `newId` is what `default_factory` makes for a frame without an id. -/
def message (newId : String) : Record ℚ (NMBMessage JsonFields) :=
  .via (cons (required "op" op) <| cons (withDefault "id" string newId) <|
      cons (optional "from_sandbox" string) <| cons (optional "to_sandbox" string) <|
      cons (optional "type" string) <| cons (optional "reply_to" string) <|
      cons (optional "channel" string) <| cons (optional "stream_id" string) <|
      cons (optional "seq" int) <| cons (optional "done" bool) <|
      cons (optional "timeout" float) <| cons (optional "timestamp" float) <|
      cons (optional "payload" Format.object) <| cons (optional "code" string) <|
      cons (optional "message" string) nil)
    (fun m => (m.op, m.id, m.fromSandbox, m.toSandbox, m.type, m.replyTo, m.channel, m.streamId,
      m.seq, m.done, m.timeout, m.timestamp, m.payload, m.code, m.message, ()))
    (fun (op, id, fromSandbox, toSandbox, type, replyTo, channel, streamId, seq, done, timeout,
        timestamp, payload, code, message, ()) =>
      { op, id, fromSandbox, toSandbox, type, replyTo, channel, streamId, seq, done, timeout,
        timestamp, payload, code, message })
    fun _ => rfl

def workspaceBaseline : Record ℚ WorkspaceBaseline :=
  .via (cons (required "repo_url" nonEmptyString) <| cons (required "branch" nonEmptyString) <|
      cons (required "base_sha" nonEmptyString) <| cons (withDefault "is_shallow" bool true) nil)
    (fun p => (p.repoUrl, p.branch, p.baseSha, p.isShallow, ()))
    (fun (repoUrl, branch, baseSha, isShallow, ()) => { repoUrl, branch, baseSha, isShallow })
    fun _ => rfl

def contextFile : Record ℚ ContextFile :=
  .via (cons (required "path" nonEmptyString) <| cons (required "content" string) <|
      cons (withDefault "encoding" encoding .utf8) nil)
    (fun p => (p.path, p.content, p.encoding, ()))
    (fun (path, content, encoding, ()) => { path, content, encoding })
    fun _ => rfl

def taskAssign : Record ℚ TaskAssignPayload :=
  .via (cons (required "prompt" nonEmptyString) <| cons (required "workflow_id" nonEmptyString) <|
      cons (required "parent_sandbox_id" nonEmptyString) <|
      cons (required "agent_id" nonEmptyString) <|
      cons (required "workspace_root" nonEmptyString) <|
      cons (optional "max_turns" positiveInt) <| cons (optional "model" string) <|
      cons (optional "tool_surface" string.list) <|
      cons (withDefault "context_files" contextFile.forbidding.list []) <|
      cons (optional "workspace_baseline" workspaceBaseline.forbidding) <|
      cons (withDefault "is_iteration" bool false) <|
      cons (withDefault "iteration_number" nat 0) nil)
    (fun p => (p.prompt, p.workflowId, p.parentSandboxId, p.agentId, p.workspaceRoot, p.maxTurns,
      p.model, p.toolSurface, p.contextFiles, p.workspaceBaseline, p.isIteration,
      p.iterationNumber, ()))
    (fun (prompt, workflowId, parentSandboxId, agentId, workspaceRoot, maxTurns, model,
        toolSurface, contextFiles, workspaceBaseline, isIteration, iterationNumber, ()) =>
      { prompt, workflowId, parentSandboxId, agentId, workspaceRoot, maxTurns, model, toolSurface,
        contextFiles, workspaceBaseline, isIteration, iterationNumber })
    fun _ => rfl

def taskProgress : Record ℚ TaskProgressPayload :=
  .via (cons (required "workflow_id" nonEmptyString) <| cons (required "status" status) <|
      cons (optional "pct" (nat.satisfying (· ≤ 100))) <| cons (optional "current_round" nat) <|
      cons (optional "tokens_used" nat) <| cons (optional "note" string) nil)
    (fun p => (p.workflowId, p.status, p.pct, p.currentRound, p.tokensUsed, p.note, ()))
    (fun (workflowId, status, pct, currentRound, tokensUsed, note, ()) =>
      { workflowId, status, pct, currentRound, tokensUsed, note })
    fun _ => rfl

def taskComplete : Record ℚ TaskCompletePayload :=
  .via (cons (required "workflow_id" nonEmptyString) <| cons (required "summary" nonEmptyString) <|
      cons (withDefault "diff" string "") <|
      cons (optional "workspace_baseline" workspaceBaseline.forbidding) <|
      cons (withDefault "files_changed" string.list []) <| cons (optional "notes_path" string) <|
      cons (optional "git_commit_sha" string) <| cons (withDefault "tool_calls_made" nat 0) <|
      cons (withDefault "rounds_used" nat 0) <| cons (optional "model_used" string) <|
      cons (optional "suggested_next_step" string) nil)
    (fun p => (p.workflowId, p.summary, p.diff, p.workspaceBaseline, p.filesChanged, p.notesPath,
      p.gitCommitSha, p.toolCallsMade, p.roundsUsed, p.modelUsed, p.suggestedNextStep, ()))
    (fun (workflowId, summary, diff, workspaceBaseline, filesChanged, notesPath, gitCommitSha,
        toolCallsMade, roundsUsed, modelUsed, suggestedNextStep, ()) =>
      { workflowId, summary, diff, workspaceBaseline, filesChanged, notesPath, gitCommitSha,
        toolCallsMade, roundsUsed, modelUsed, suggestedNextStep })
    fun _ => rfl

def taskError : Record ℚ TaskErrorPayload :=
  .via (cons (required "workflow_id" nonEmptyString) <| cons (required "error" nonEmptyString) <|
      cons (required "error_kind" errorKind) <| cons (withDefault "recoverable" bool false) <|
      cons (optional "notes_path" string) <| cons (optional "traceback" string) nil)
    (fun p => (p.workflowId, p.error, p.errorKind, p.recoverable, p.notesPath, p.traceback, ()))
    (fun (workflowId, error, errorKind, recoverable, notesPath, traceback, ()) =>
      { workflowId, error, errorKind, recoverable, notesPath, traceback })
    fun _ => rfl

def auditToolCall : Record ℚ AuditToolCallPayload :=
  .via (cons (required "id" nonEmptyString) <| cons (withDefault "service" string "") <|
      cons (required "command" nonEmptyString) <| cons (withDefault "args" string "") <|
      cons (required "operation_type" operationType) <|
      cons (optional "approval_status" string) <| cons (optional "approved_by" string) <|
      cons (optional "approval_time_ms" float) <| cons (optional "exit_code" int) <|
      cons (required "duration_ms" (float.satisfying (0 ≤ ·))) <| cons (required "success" bool) <|
      cons (optional "error_code" string) <| cons (optional "error_message" string) <|
      cons (withDefault "response_payload" string "") nil)
    (fun p => (p.id, p.service, p.command, p.args, p.operationType, p.approvalStatus, p.approvedBy,
      p.approvalTimeMs, p.exitCode, p.durationMs, p.success, p.errorCode, p.errorMessage,
      p.responsePayload, ()))
    (fun (id, service, command, args, operationType, approvalStatus, approvedBy, approvalTimeMs,
        exitCode, durationMs, success, errorCode, errorMessage, responsePayload, ()) =>
      { id, service, command, args, operationType, approvalStatus, approvedBy, approvalTimeMs,
        exitCode, durationMs, success, errorCode, errorMessage, responsePayload })
    fun _ => rfl

def auditFlush : Record ℚ AuditFlushPayload :=
  .via (cons (required "workflow_id" nonEmptyString) <|
      cons (required "parent_sandbox_id" nonEmptyString) <|
      cons (required "agent_id" nonEmptyString) <|
      cons (withDefault "agent_role" string "coding") <|
      cons (withDefault "tool_calls" auditToolCall.forbidding.list []) nil)
    (fun p => (p.workflowId, p.parentSandboxId, p.agentId, p.agentRole, p.toolCalls, ()))
    (fun (workflowId, parentSandboxId, agentId, agentRole, toolCalls, ()) =>
      { workflowId, parentSandboxId, agentId, agentRole, toolCalls })
    fun _ => rfl

/-- `model_validate` -/
def validate {α : Type} (R : Record ℚ α) (model : String) (raw : JsonFields) : Except String α :=
  match R.readForbidding raw with
  | some a => .ok a
  | none => .error ("validation error for " ++ model)

def codec : Codec JsonFields where
  dumpAssign := taskAssign.write
  dumpProgress := taskProgress.write
  dumpComplete := taskComplete.write
  dumpError := taskError.write
  dumpAuditFlush := auditFlush.write
  validateAssign := validate taskAssign "TaskAssignPayload"
  validateProgress := validate taskProgress "TaskProgressPayload"
  validateComplete := validate taskComplete "TaskCompletePayload"
  validateError := validate taskError "TaskErrorPayload"
  validateAuditFlush := validate auditFlush "AuditFlushPayload"

end WireFormat

/-! ### Frames -/

/-- How floats are written and read, and the text of a `ValidationError`. -/
structure WireText where
  float : FloatText ℚ
  explain : String → String

namespace WireText

variable (T : WireText)

def toJson (m : NMBMessage JsonFields) : String :=
  -- an id is never missing, so that of `default_factory` is not used
  String.ofList ((compactWriter T.float.write).write ((WireFormat.message "").ignoring.write m))

/-- `newId` is what `default_factory` makes for a frame without an id. -/
def fromJson (newId raw : String) : Except FrameValidationError (NMBMessage JsonFields) :=
  match (JsonReader.readJson T.float raw.toList).bind (WireFormat.message newId).ignoring.read with
  | some m => .ok m
  | none => .error ⟨.invalidFrame, T.explain raw⟩

variable {T}

theorem fromJson_toJson (T : WireText) (newId : String) (m : NMBMessage JsonFields) :
    T.fromJson newId (T.toJson m) = .ok m := by
  have hread := (WireFormat.message newId).ignoring.read_write m
  have hwrite : (WireFormat.message newId).ignoring.write m =
      (WireFormat.message "").ignoring.write m := rfl
  rw [hwrite] at hread
  rw [fromJson, toJson, String.toList_ofList, JsonReader.readJson_write, Option.bind_some, hread]

theorem load_write {α : Type} (R : Record ℚ α) (model : String) (t : MessageType) (a : α) :
    load (WireFormat.validate R model) t (some (R.write a)) = .ok a := by
  rw [load_eq_ok]
  refine ⟨_, rfl, ?_⟩
  rw [WireFormat.validate, R.readForbidding_write]

end WireText

/-- What the recipient of a message has of it. -/
structure Arrived (m delivered : NMBMessage JsonFields) : Prop where
  op : delivered.op = .deliver
  id : delivered.id = m.id
  type : delivered.type = m.type
  replyTo : delivered.replyTo = m.replyTo
  channel : delivered.channel = m.channel
  streamId : delivered.streamId = m.streamId
  seq : delivered.seq = m.seq
  done : delivered.done = m.done
  payload : delivered.payload = m.payload
  assign : ∀ p, m.payload = some (WireFormat.codec.dumpAssign p) →
    load WireFormat.codec.validateAssign .taskAssign delivered.payload = .ok p
  progress : ∀ p, m.payload = some (WireFormat.codec.dumpProgress p) →
    load WireFormat.codec.validateProgress .taskProgress delivered.payload = .ok p
  complete : ∀ p, m.payload = some (WireFormat.codec.dumpComplete p) →
    load WireFormat.codec.validateComplete .taskComplete delivered.payload = .ok p
  error : ∀ p, m.payload = some (WireFormat.codec.dumpError p) →
    load WireFormat.codec.validateError .taskError delivered.payload = .ok p
  auditFlush : ∀ p, m.payload = some (WireFormat.codec.dumpAuditFlush p) →
    load WireFormat.codec.validateAuditFlush .auditFlush delivered.payload = .ok p

/-- A delivered frame that was made of a message with the same id and contents. -/
theorem arrived_makeDeliver (m : NMBMessage JsonFields) : Arrived m m.makeDeliver where
  op := rfl
  id := rfl
  type := rfl
  replyTo := rfl
  channel := rfl
  streamId := rfl
  seq := rfl
  done := rfl
  payload := rfl
  assign p hp := by
    rw [NMBMessage.makeDeliver, hp]
    exact WireText.load_write _ _ _ p
  progress p hp := by
    rw [NMBMessage.makeDeliver, hp]
    exact WireText.load_write _ _ _ p
  complete p hp := by
    rw [NMBMessage.makeDeliver, hp]
    exact WireText.load_write _ _ _ p
  error p hp := by
    rw [NMBMessage.makeDeliver, hp]
    exact WireText.load_write _ _ _ p
  auditFlush p hp := by
    rw [NMBMessage.makeDeliver, hp]
    exact WireText.load_write _ _ _ p

/-- What the broker writes into a message is none of what arrives of it. -/
theorem arrived_stamp (m : NMBMessage JsonFields) (senderId : String) (now : ℚ) :
    Arrived m (Broker.stamp m senderId now).makeDeliver :=
  { arrived_makeDeliver m with }

/-- A text for every fraction; a whole one is written as Python writes it. -/
def fractionText : FloatText ℚ where
  write q := (toString q.num).toList ++ '.' :: (toString (if q.den = 1 then 0 else q.den)).toList
  read token :=
    (JsonReader.readInt (Cuts.before '.' token)).bind fun n =>
      (JsonReader.readNat (Cuts.after '.' token)).map fun d : ℕ => n / (if d = 0 then 1 else d : ℕ)
  read_write q := by
    have hpoint : '.' ∉ (toString q.num).toList := fun h =>
      absurd (sign_or_digit_of_mem h) (by decide)
    have hden : (if (if q.den = 1 then 0 else q.den) = 0 then 1
        else if q.den = 1 then 0 else q.den) = q.den := by
      have hne := q.den_ne_zero
      split_ifs <;> omega
    rw [Cuts.before_append hpoint, Cuts.after_append hpoint, JsonReader.readInt_toString,
      JsonReader.readNat_toString, Option.bind_some, Option.map_some, hden, Rat.num_div_den]
  number q c hc := by
    have hnumber : c = '-' ∨ c.isDigit = true → isNumberChar c = true := by
      rintro (rfl | hdigit)
      · decide
      · simp [isNumberChar, hdigit]
    rcases List.mem_append.1 hc with hc | hc
    · exact hnumber (sign_or_digit_of_mem hc)
    · rcases List.mem_cons.1 hc with rfl | hc
      · decide
      · exact hnumber (sign_or_digit_of_mem (n := Int.ofNat _) hc)
  start q := by
    obtain ⟨c, hhead, hc⟩ := exists_head_toString q.num
    exact ⟨c, by rw [List.head?_append, hhead, Option.some_or], hc⟩
  point q := Or.inl (by simp)

namespace WireText

/-- Every message survives the wire, with the identity and the clock that the broker writes into it
or without them. -/
theorem message_survives (T : WireText) (newId newId' : String) (m : NMBMessage JsonFields) :
    ∃ received, T.fromJson newId (T.toJson m) = .ok received ∧
      (∃ delivered, T.fromJson newId' (T.toJson received.makeDeliver) = .ok delivered ∧
        Arrived m delivered) ∧
      ∀ senderId now, ∃ delivered,
        T.fromJson newId' (T.toJson (Broker.stamp received senderId now).makeDeliver) =
          .ok delivered ∧ Arrived m delivered :=
  ⟨m, T.fromJson_toJson newId m,
    ⟨_, T.fromJson_toJson newId' _, arrived_makeDeliver m⟩,
    fun senderId now => ⟨_, T.fromJson_toJson newId' _, arrived_stamp m senderId now⟩⟩

example : (WireText.mk fractionText id).toJson
    { op := .send
      id := "m-1"
      type := some "task.progress"
      payload := some (WireFormat.codec.dumpProgress
        { workflowId := fixBugWorkflowId, status := .writingCode, currentRound := some 2 }) } =
    "\x7b\"op\":\"send\",\"id\":\"m-1\",\"type\":\"task.progress\",\"payload\":\x7b" ++
      "\"workflow_id\":\"wf-1\",\"status\":\"writing_code\",\"current_round\":2\x7d\x7d" := by
  decide +kernel

end WireText

end NemoClaw
