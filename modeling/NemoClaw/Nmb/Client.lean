import NemoClaw.Lib.Dict
import NemoClaw.Nmb.Models

/-! The client (`nmb/client.py`): the correlation tables and the queues of a `MessageBus`, and what
its receive loop does with a frame of the broker. -/

namespace NemoClaw

open Lib

/-- An `NMBConnectionError` or a `TimeoutError`. -/
inductive BusError
  | connection (text : String)
  | timeout (text : String)
  deriving DecidableEq, Repr

inductive FutureState (α : Type)
  | pending
  | result (value : α)
  | exception (error : BusError)
  /-- by the task that waits for it -/
  | cancelled
  deriving DecidableEq, Repr

/-- `DEFAULT_NMB_LISTEN_QUEUE_SIZE` -/
def listenQueueSize : ℕ := 1000

/-- `DEFAULT_NMB_CHANNEL_QUEUE_SIZE` -/
def channelQueueSize : ℕ := 1000

/-- A client. A future is named by the id of the message it was created for. -/
structure MessageBus (π : Type) where
  futures : Dict String (FutureState (NMBMessage π)) := ∅
  acks : Dict String (FutureState Unit) := ∅
  pendingFutures : List String := []
  pendingAcks : List String := []
  listenQueue : List (NMBMessage π) := []
  channelQueues : Dict String (List (List (NMBMessage π))) := ∅
  /-- bookkeeping: the messages ever put on the listen queue -/
  listened : List (NMBMessage π) := []

/-- What `MessageBus.send` writes. -/
def sendMessage {π : Type} (id target type : String) (payload : π) : NMBMessage π where
  op := .send
  id := id
  toSandbox := some target
  type := some type
  payload := some payload

/-- What `MessageBus.reply` writes. -/
def replyMessage {π : Type} (id : String) (original : NMBMessage π) (type : String) (payload : π) :
    NMBMessage π where
  op := .reply
  id := id
  replyTo := some original.id
  type := some type
  payload := some payload

/-- What `MessageBus.subscribe` writes when it starts. -/
def subscribeMessage {π : Type} (id channel : String) : NMBMessage π where
  op := .subscribe
  id := id
  channel := some channel

/-- What `MessageBus.subscribe` writes when the last iterator of a channel is left. -/
def unsubscribeMessage {π : Type} (id channel : String) : NMBMessage π where
  op := .unsubscribe
  id := id
  channel := some channel

def putOrDropOldest {α : Type} (maxsize : ℕ) (queue : List α) (msg : α) : List α :=
  (if maxsize ≤ queue.length then queue.tail else queue) ++ [msg]

namespace MessageBus

variable {π : Type}

/-- `_send_and_await_ack` up to its await. -/
def awaitAck (bus : MessageBus π) (id : String) : MessageBus π :=
  { bus with acks := bus.acks.insert id .pending, pendingAcks := bus.pendingAcks.insert id }

/-- `if not fut.done(): fut.set_result(...)`, or `set_exception` -/
def setUnlessDone {α : Type} (futures : Dict String (FutureState α)) (id : String)
    (state : FutureState α) : Dict String (FutureState α) :=
  match futures.lookup id with
  | some .pending => futures.insert id state
  | _ => futures

/-- Pop a request future and settle it. -/
def settleFuture (bus : MessageBus π) (id : String) (state : FutureState (NMBMessage π)) :
    MessageBus π :=
  { bus with
    pendingFutures := bus.pendingFutures.erase id
    futures := setUnlessDone bus.futures id state }

/-- Pop an ACK future and settle it. -/
def settleAck (bus : MessageBus π) (id : String) (state : FutureState Unit) : MessageBus π :=
  { bus with
    pendingAcks := bus.pendingAcks.erase id
    acks := setUnlessDone bus.acks id state }

def putListen (bus : MessageBus π) (msg : NMBMessage π) : MessageBus π :=
  { bus with
    listenQueue := putOrDropOldest listenQueueSize bus.listenQueue msg
    listened := bus.listened ++ [msg] }

def putChannel (bus : MessageBus π) (channel : String) (queues : List (List (NMBMessage π)))
    (msg : NMBMessage π) : MessageBus π :=
  { bus with
    channelQueues := bus.channelQueues.insert channel
      (queues.map fun queue => putOrDropOldest channelQueueSize queue msg) }

/-- The local queues of a channel, one for each of its iterators. -/
def queues (bus : MessageBus π) (channel : String) : List (List (NMBMessage π)) :=
  (bus.channelQueues.lookup channel).getD []

/-- `subscribe` registers a queue before it writes its SUBSCRIBE frame. -/
def addQueue (bus : MessageBus π) (channel : String) : MessageBus π :=
  { bus with channelQueues := bus.channelQueues.insert channel (bus.queues channel ++ [[]]) }

/-- The cleanup of `subscribe` for the `i`-th queue of the channel. -/
def removeQueue (bus : MessageBus π) (channel : String) (i : ℕ) : MessageBus π :=
  let queues := (bus.queues channel).eraseIdx i
  { bus with channelQueues :=
      if queues.isEmpty then bus.channelQueues.erase channel
      else bus.channelQueues.insert channel queues }

/-- A call other than `subscribe` up to its await: `send` and `publish` wait for an ACK, `request`
for a reply. -/
def call (bus : MessageBus π) (msg : NMBMessage π) : MessageBus π :=
  match msg.op with
  | .send | .publish => bus.awaitAck msg.id
  | .request =>
    { bus with
      futures := bus.futures.insert msg.id .pending
      pendingFutures := bus.pendingFutures.insert msg.id }
  | _ => bus

def dispatchDeliver (bus : MessageBus π) (msg : NMBMessage π) : MessageBus π :=
  match (truthy msg.replyTo).filter fun id => decide (id ∈ bus.pendingFutures) with
  | some id => bus.settleFuture id (.result msg)
  | none =>
    match (truthy msg.channel).bind fun c => (bus.channelQueues.lookup c).map fun q => (c, q) with
    | some (channel, queues) => bus.putChannel channel queues msg
    | none => bus.putListen msg

def dispatchAck (bus : MessageBus π) (msg : NMBMessage π) : MessageBus π :=
  if msg.id ∈ bus.pendingAcks then bus.settleAck msg.id (.result ()) else bus

def brokerError (msg : NMBMessage π) : String :=
  "Broker error " ++ msg.code.getD "None" ++ ": " ++ msg.message.getD "None"

def dispatchError (bus : MessageBus π) (msg : NMBMessage π) : MessageBus π :=
  if msg.id ∈ bus.pendingFutures then
    bus.settleFuture msg.id (.exception (.connection (brokerError msg)))
  else if msg.id ∈ bus.pendingAcks then
    bus.settleAck msg.id (.exception (.connection (brokerError msg)))
  else bus

def dispatchTimeout (bus : MessageBus π) (msg : NMBMessage π) : MessageBus π :=
  if msg.id ∈ bus.pendingFutures then
    bus.settleFuture msg.id
      (.exception (.timeout ("Request " ++ msg.id ++ " timed out: " ++ msg.message.getD "None")))
  else bus

/-- `_dispatch` -/
def dispatch (bus : MessageBus π) (msg : NMBMessage π) : MessageBus π :=
  match msg.op with
  | .deliver => bus.dispatchDeliver msg
  | .ack => bus.dispatchAck msg
  | .error => bus.dispatchError msg
  | .timeout => bus.dispatchTimeout msg
  | _ => bus

/-- Only a delivered message gets on the listen queue, and only once. -/
theorem listened_dispatch (bus : MessageBus π) (msg : NMBMessage π) :
    (bus.dispatch msg).listened = bus.listened ∨
      msg.op = .deliver ∧ (bus.dispatch msg).listened = bus.listened ++ [msg] := by
  unfold dispatch
  split
  · next hop =>
    unfold dispatchDeliver
    split
    · exact Or.inl rfl
    · split
      · exact Or.inl rfl
      · exact Or.inr ⟨hop, rfl⟩
  · unfold dispatchAck
    split <;> exact Or.inl rfl
  · unfold dispatchError
    split
    · exact Or.inl rfl
    · split <;> exact Or.inl rfl
  · unfold dispatchTimeout
    split <;> exact Or.inl rfl
  · exact Or.inl rfl

/-- Only an ACK settles an ACK future with a result. -/
theorem acks_dispatch (bus : MessageBus π) (msg : NMBMessage π) {id : String}
    (h : (bus.dispatch msg).acks.lookup id = some (.result ())) :
    bus.acks.lookup id = some (.result ()) ∨ msg.op = .ack ∧ msg.id = id := by
  have hset : ∀ {k state}, (setUnlessDone bus.acks k state).lookup id = some (.result ()) →
      bus.acks.lookup id = some (.result ()) ∨ state = .result () ∧ k = id := by
    intro k state h
    unfold setUnlessDone at h
    split at h
    · rcases Dict.lookup_insert_eq_some.1 h with ⟨rfl, hs⟩ | ⟨-, h⟩
      · exact Or.inr ⟨hs, rfl⟩
      · exact Or.inl h
    · exact Or.inl h
  unfold dispatch at h
  split at h
  · unfold dispatchDeliver at h
    split at h
    · exact Or.inl h
    · split at h
      · exact Or.inl h
      · exact Or.inl h
  · next hop =>
    unfold dispatchAck at h
    split at h
    · rcases hset h with h | ⟨-, hid⟩
      · exact Or.inl h
      · exact Or.inr ⟨hop, hid⟩
    · exact Or.inl h
  · unfold dispatchError at h
    split at h
    · exact Or.inl h
    · split at h
      · rcases hset h with h | ⟨hs, -⟩
        · exact Or.inl h
        · contradiction
      · exact Or.inl h
  · unfold dispatchTimeout at h
    split at h
    · exact Or.inl h
    · exact Or.inl h
  · exact Or.inl h

end MessageBus

end NemoClaw
