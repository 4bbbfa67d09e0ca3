import Mathlib.Data.Rat.Defs

/-! Wire protocol types of the message bus (`nmb/models.py`). The payload type `π` is left
open: the broker only measures a payload and copies it. -/

namespace NemoClaw

inductive Op
  | send | request | reply | subscribe | unsubscribe | publish | stream
  | deliver | ack | error | timeout
  deriving DecidableEq, Repr

def Op.value : Op → String
  | .send => "send"
  | .request => "request"
  | .reply => "reply"
  | .subscribe => "subscribe"
  | .unsubscribe => "unsubscribe"
  | .publish => "publish"
  | .stream => "stream"
  | .deliver => "deliver"
  | .ack => "ack"
  | .error => "error"
  | .timeout => "timeout"

inductive ErrorCode
  | targetOffline | targetUnknown | requestTimeout | payloadTooLarge
  | rateLimited | channelFull | invalidFrame | policyDenied
  deriving DecidableEq, Repr

def ErrorCode.value : ErrorCode → String
  | .targetOffline => "TARGET_OFFLINE"
  | .targetUnknown => "TARGET_UNKNOWN"
  | .requestTimeout => "REQUEST_TIMEOUT"
  | .payloadTooLarge => "PAYLOAD_TOO_LARGE"
  | .rateLimited => "RATE_LIMITED"
  | .channelFull => "CHANNEL_FULL"
  | .invalidFrame => "INVALID_FRAME"
  | .policyDenied => "POLICY_DENIED"

inductive DeliveryStatus
  | delivered | error | timeout
  deriving DecidableEq, Repr

/-- The fields that `_REQUIRED_FIELDS` names. -/
inductive Field
  | id | fromSandbox | toSandbox | type | replyTo | channel | streamId | seq | payload
  | code | message
  deriving DecidableEq, Repr

def Field.name : Field → String
  | .id => "id"
  | .fromSandbox => "from_sandbox"
  | .toSandbox => "to_sandbox"
  | .type => "type"
  | .replyTo => "reply_to"
  | .channel => "channel"
  | .streamId => "stream_id"
  | .seq => "seq"
  | .payload => "payload"
  | .code => "code"
  | .message => "message"

def requiredFields : Op → List Field
  | .send => [.id, .toSandbox, .type, .payload]
  | .request => [.id, .toSandbox, .type, .payload]
  | .reply => [.id, .replyTo, .type, .payload]
  | .subscribe => [.channel]
  | .unsubscribe => [.channel]
  | .publish => [.channel, .type, .payload]
  | .stream => [.toSandbox, .streamId, .seq, .payload]
  | .deliver => [.id, .fromSandbox, .type, .payload]
  | .ack => [.id]
  | .error => [.id, .code, .message]
  | .timeout => [.id]

structure NMBMessage (π : Type) where
  op : Op
  id : String
  fromSandbox : Option String := none
  toSandbox : Option String := none
  type : Option String := none
  replyTo : Option String := none
  channel : Option String := none
  streamId : Option String := none
  seq : Option ℤ := none
  done : Option Bool := none
  timeout : Option ℚ := none
  timestamp : Option ℚ := none
  payload : Option π := none
  code : Option String := none
  message : Option String := none
  deriving DecidableEq, Repr

structure FrameValidationError where
  code : ErrorCode
  message : String
  deriving DecidableEq, Repr

/-- `DEFAULT_NMB_MAX_PAYLOAD_BYTES` -/
def maxPayloadBytes : ℕ := 10 * 1024 * 1024

/-- Python's truth test on an optional string: neither `None` nor empty. -/
def truthy (o : Option String) : Option String := o.filter fun s => decide (s ≠ "")

theorem truthy_eq_some {o : Option String} {s : String} :
    truthy o = some s ↔ o = some s ∧ s ≠ "" := by
  simp [truthy, Option.filter_eq_some_iff]

namespace NMBMessage

variable {π : Type}

/-- `getattr(self, field_name, None) is None` -/
def isNone (m : NMBMessage π) : Field → Bool
  | .id => false
  | .fromSandbox => m.fromSandbox.isNone
  | .toSandbox => m.toSandbox.isNone
  | .type => m.type.isNone
  | .replyTo => m.replyTo.isNone
  | .channel => m.channel.isNone
  | .streamId => m.streamId.isNone
  | .seq => m.seq.isNone
  | .payload => m.payload.isNone
  | .code => m.code.isNone
  | .message => m.message.isNone

/-- `payloadBytes` is `len(json.dumps(payload).encode())`. -/
def validateFrame (payloadBytes : π → ℕ) (m : NMBMessage π) : Except FrameValidationError Unit :=
  -- the source walks a set, so which missing field is named first is not fixed there
  match (requiredFields m.op).find? m.isNone with
  | some f =>
    .error ⟨.invalidFrame, "Missing required field '" ++ f.name ++ "' for op=" ++ m.op.value⟩
  | none =>
    match m.payload with
    | none => .ok ()
    | some p =>
      if maxPayloadBytes < payloadBytes p then
        .error ⟨.payloadTooLarge, "Payload size " ++ toString (payloadBytes p) ++ " exceeds " ++
          toString maxPayloadBytes ++ " byte limit"⟩
      else .ok ()

/-- A frame is valid exactly if no field its op requires is missing and its payload fits. -/
theorem validateFrame_ok_iff (payloadBytes : π → ℕ) (m : NMBMessage π) :
    m.validateFrame payloadBytes = .ok () ↔
      (∀ f ∈ requiredFields m.op, m.isNone f = false) ∧
        ∀ p, m.payload = some p → payloadBytes p ≤ maxPayloadBytes := by
  unfold validateFrame
  cases hf : (requiredFields m.op).find? m.isNone with
  | some f =>
    have hmem := List.mem_of_find?_eq_some hf
    have hnone := List.find?_some hf
    simp only [reduceCtorEq, false_iff, not_and]
    intro hall
    simp [hall f hmem] at hnone
  | none =>
    have hall : ∀ f ∈ requiredFields m.op, m.isNone f = false := by
      simpa using List.find?_eq_none.1 hf
    cases hp : m.payload with
    | none => simpa using hall
    | some p =>
      by_cases hsize : maxPayloadBytes < payloadBytes p
      · simp [hsize]
      · simpa [hsize] using ⟨hall, Nat.le_of_not_lt hsize⟩

/-- `_make_deliver`: what the recipient of a client's message gets. -/
def makeDeliver (m : NMBMessage π) : NMBMessage π where
  op := .deliver
  id := m.id
  fromSandbox := m.fromSandbox
  type := m.type
  replyTo := m.replyTo
  channel := m.channel
  streamId := m.streamId
  seq := m.seq
  done := m.done
  timestamp := m.timestamp
  payload := m.payload

end NMBMessage

/-- `PendingRequest`, without the creation time, which nothing reads. -/
structure PendingRequest where
  requestId : String
  fromSandbox : String
  timeout : ℚ
  deriving DecidableEq, Repr

end NemoClaw
