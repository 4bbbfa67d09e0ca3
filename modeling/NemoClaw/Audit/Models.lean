import NemoClaw.Lib.Batch
import NemoClaw.Nmb.Models

/-! The `messages` table of the audit database (`audit/models.py`) and the transaction that writes
a batch of queued items to it (`_write_message_batch` of `audit/db.py`). -/

namespace NemoClaw

open Lib

/-- What the audit database needs of payloads and of the clock: `json.dumps` and `time.time()`. -/
structure AuditEnv (π : Type) where
  persistPayloads : Bool := true
  dumps : π → String
  now : ℚ

/-- The columns of `messages`. Of those that are `NOT NULL`, a message may lack two. -/
structure MessageRow where
  id : String
  timestamp : ℚ
  op : Op
  fromSandbox : Option String
  toSandbox : Option String
  type : Option String
  replyTo : Option String
  channel : Option String
  payload : String
  payloadSize : ℕ
  deliveryStatus : DeliveryStatus
  deriving DecidableEq, Repr

def MessageRow.notNull (r : MessageRow) : Bool := r.fromSandbox.isSome && r.type.isSome

/-- The constraints of `messages`, and its status column. -/
def messagesSchema : Schema String MessageRow DeliveryStatus where
  key r := r.id
  valid := MessageRow.notNull
  status r := r.deliveryStatus
  set v r := { r with deliveryStatus := v }
  key_set _ _ := rfl
  status_set _ _ := rfl
  set_status _ := rfl
  set_set _ _ _ := rfl

/-- An item of the write queue. -/
inductive AuditItem (π : Type)
  | insert (msg : NMBMessage π) (status : DeliveryStatus)
  | update (msgId : String) (status : DeliveryStatus)
  deriving DecidableEq, Repr

variable {π : Type}

def messageRow (E : AuditEnv π) (msg : NMBMessage π) (status : DeliveryStatus) : MessageRow :=
  let payloadJson := (msg.payload.map E.dumps).getD ""
  { id := msg.id
    timestamp := (msg.timestamp.filter fun t => decide (t ≠ 0)).getD E.now
    op := msg.op
    fromSandbox := msg.fromSandbox
    toSandbox := msg.toSandbox
    type := msg.type
    replyTo := msg.replyTo
    channel := msg.channel
    payload := if E.persistPayloads then payloadJson else ""
    payloadSize := payloadJson.utf8ByteSize
    deliveryStatus := status }

def AuditItem.statement (E : AuditEnv π) :
    AuditItem π → TableOp String MessageRow DeliveryStatus
  | .insert msg status => .insert (messageRow E msg status)
  | .update msgId status => .update msgId status

/-- The transaction of `_write_message_batch`, unless a constraint refuses it. -/
def writeMessageBatch (E : AuditEnv π) (table : List MessageRow) (batch : List (AuditItem π)) :
    Option (List MessageRow) :=
  messagesSchema.transact table (batch.map (AuditItem.statement E))

/-- The table after a batch; a batch that is refused is logged and dropped. -/
def flushBatch (E : AuditEnv π) (table : List MessageRow) (batch : List (AuditItem π)) :
    List MessageRow :=
  (writeMessageBatch E table batch).getD table

/-- The table after the items, each applied alone. -/
def applyItems (E : AuditEnv π) (table : List MessageRow) (items : List (AuditItem π)) :
    List MessageRow :=
  messagesSchema.applyEach table (items.map (AuditItem.statement E))

theorem applyItems_append (E : AuditEnv π) (table : List MessageRow)
    (items batch : List (AuditItem π)) :
    applyItems E table (items ++ batch) = applyItems E (applyItems E table items) batch := by
  simp [applyItems, Schema.applyEach]

end NemoClaw
