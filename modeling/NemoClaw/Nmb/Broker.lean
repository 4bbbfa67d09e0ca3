import NemoClaw.Lib.Machine
import NemoClaw.Lib.Dict
import NemoClaw.Nmb.Models

/-! The broker (`nmb/broker.py`) as an event machine. One step is what a coroutine does between
two awaits: a handler that received a frame, one whose `ws.send` returned or raised, a timeout
task whose sleep ended, a connection that opened or closed. The event loop may take these in any
order. `sent` and `audit` record the calls made on websockets and on the audit DB, in order. -/

namespace NemoClaw

open Lib

/-- A websocket object. -/
abbrev Ws := ℕ

/-- An asyncio task running `_timeout_request`. -/
abbrev TaskId := ℕ

structure BrokerConfig where
  maxPendingPerSandbox : ℕ := 100
  defaultRequestTimeout : ℚ := 300
  maxChannelsPerSandbox : ℕ := 50

/-- The configuration, with what the broker needs of payloads and floats: the JSON size of a
payload, the payload of a shutdown notice, the formatting of a float. -/
structure BrokerEnv (π : Type) where
  config : BrokerConfig := {}
  payloadBytes : π → ℕ
  shutdownPayload : String → π
  formatSeconds : ℚ → String

structure TrackedPending where
  pending : PendingRequest
  timeoutTask : TaskId
  deriving DecidableEq, Repr

/-- The owner of a pending request: the sandbox that its reply goes to. -/
def TrackedPending.owner (t : TrackedPending) : String := t.pending.fromSandbox

/-- The arguments of a `_timeout_request` task, and whether it is past its sleep, in `ws.send`. -/
structure TimeoutTask where
  requestId : String
  requesterId : String
  timeout : ℚ
  sending : Bool := false
  deriving DecidableEq, Repr

inductive AuditOp (π : Type)
  | message (msg : NMBMessage π) (status : DeliveryStatus)
  | statusUpdate (msgId : String) (status : DeliveryStatus)
  | connection (sandboxId : String)
  | disconnection (sandboxId reason : String)
  deriving DecidableEq, Repr

/-- A frame handed to `ws.send`. `settles` is bookkeeping: the admitted request, named by its
timeout task, that the frame ends for its requester. -/
structure SentFrame (π : Type) where
  ws : Ws
  frame : NMBMessage π
  settles : Option TaskId := none
  deriving DecidableEq, Repr

/-- What the handler coroutine of a connection is suspended on. -/
inductive Phase (π : Type)
  | recv
  | sendDeliver (msg : NMBMessage π)
  | requestDeliver (msg : NMBMessage π) (task : TaskId)
  | replyDeliver (msg : NMBMessage π)
  | streamDeliver (msg : NMBMessage π)
  | publishFanout (msg : NMBMessage π) (left : List Ws)
  | ack (auditMsg : Option (NMBMessage π))
  | error (auditMsg : Option (NMBMessage π))
  | shutdownFanout (frame : NMBMessage π) (left : List Ws)
  | logDisconnection
  | closed
  deriving DecidableEq, Repr

structure Handler (π : Type) where
  sandboxId : String
  phase : Phase π
  deriving DecidableEq, Repr

structure Broker (π : Type) where
  connections : Dict String Ws := ∅
  wsToSandbox : Dict Ws String := ∅
  channels : Dict String (List String) := ∅
  sandboxChannels : Dict String (List String) := ∅
  pending : Dict String TrackedPending := ∅
  pendingCounts : Dict String ℕ := ∅
  handlers : Dict Ws (Handler π) := ∅
  timers : Dict TaskId TimeoutTask := ∅
  nextTask : TaskId := 0
  /-- connections with a `_reject` task -/
  rejecting : List Ws := []
  sent : List (SentFrame π) := []
  audit : List (AuditOp π) := []

inductive SendResult
  | ok | connectionClosed
  deriving DecidableEq, Repr

inductive BrokerEvent (π : Type)
  /-- a handshake with `X-Sandbox-ID` completed and `_handler` starts -/
  | connect (ws : Ws) (sandboxId : String)
  /-- the receive loop of `ws` got a frame; `raw` is what `from_json` makes of it -/
  | frame (ws : Ws) (raw : Except String (NMBMessage π)) (now : ℚ)
  /-- what the handler of `ws` awaits is over -/
  | resume (ws : Ws) (result : SendResult)
  /-- one `_safe_send` of a gather starts -/
  | safeSend (ws target : Ws)
  /-- the receive loop of `ws` ended; `msgId` is the fresh id of the shutdown notice -/
  | disconnect (ws : Ws) (msgId : String) (now : ℚ)
  | timer (task : TaskId)
  | timerSent (task : TaskId)

namespace Broker

variable {π : Type}

def send (b : Broker π) (ws : Ws) (frame : NMBMessage π) (settles : Option TaskId := none) :
    Broker π :=
  { b with sent := b.sent ++ [⟨ws, frame, settles⟩] }

def auditOp (b : Broker π) (op : AuditOp π) : Broker π := { b with audit := b.audit ++ [op] }

/-- `_audit_msg`, for the callers that pass `audit_msg=None` too. -/
def auditMsg (b : Broker π) (msg : Option (NMBMessage π)) (status : DeliveryStatus) : Broker π :=
  match msg with
  | none => b
  | some m => b.auditOp (.message m status)

/-- The handler of `ws`, serving `senderId`, suspends in `phase`. -/
def await (b : Broker π) (senderId : String) (ws : Ws) (phase : Phase π) : Broker π :=
  { b with handlers := b.handlers.insert ws ⟨senderId, phase⟩ }

def sendAck (b : Broker π) (senderId : String) (ws : Ws) (msgId : String)
    (auditMsg : Option (NMBMessage π)) : Broker π :=
  (b.send ws { op := .ack, id := msgId }).await senderId ws (.ack auditMsg)

def errorFrame (msgId : String) (code : ErrorCode) (message : String) : NMBMessage π :=
  { op := .error, id := msgId, code := some code.value, message := some message }

def sendError (b : Broker π) (senderId : String) (ws : Ws) (msgId : String) (code : ErrorCode)
    (message : String) (auditMsg : Option (NMBMessage π)) (settles : Option TaskId := none) :
    Broker π :=
  (b.send ws (errorFrame msgId code message) settles).await senderId ws (.error auditMsg)

/-! ### Pending requests -/

/-- Register a request before it is delivered. `count` was read at the start of the handler. -/
def track (b : Broker π) (senderId : String) (msgId : String) (timeout : ℚ) (count : ℕ) :
    Broker π :=
  { b with
    nextTask := b.nextTask + 1
    timers := b.timers.insert b.nextTask
      { requestId := msgId, requesterId := senderId, timeout := timeout }
    pending := b.pending.insert msgId ⟨⟨msgId, senderId, timeout⟩, b.nextTask⟩
    pendingCounts := b.pendingCounts.insert senderId (count + 1) }

def popPending (b : Broker π) (requestId : String) : Broker π :=
  { b with pending := b.pending.erase requestId }

def cancelTimer (b : Broker π) (task : TaskId) : Broker π :=
  { b with timers := b.timers.erase task }

/-- `_pending_counts[s] = max(0, _pending_counts.get(s, 1) - 1)` -/
def freeSlot (b : Broker π) (sandboxId : String) : Broker π :=
  { b with pendingCounts :=
      b.pendingCounts.insert sandboxId ((b.pendingCounts.lookup sandboxId).getD 1 - 1) }

/-! ### Op handlers, each up to its first await -/

/-- The common body of `_handle_send` and `_handle_stream`, which differ in the phase that the
handler suspends in. -/
def forwardTo (b : Broker π) (senderId : String) (ws : Ws) (msg : NMBMessage π)
    (phase : Phase π) : Broker π :=
  match truthy msg.toSandbox with
  | none => b.sendError senderId ws msg.id .invalidFrame "Missing to_sandbox" none
  | some target =>
    match b.connections.lookup target with
    | none =>
      b.sendError senderId ws msg.id .targetOffline (target ++ " not connected") (some msg)
    | some targetWs => (b.send targetWs msg.makeDeliver).await senderId ws phase

def handleSend (b : Broker π) (senderId : String) (ws : Ws) (msg : NMBMessage π) : Broker π :=
  b.forwardTo senderId ws msg (.sendDeliver msg)

/-- `msg.timeout or self.config.default_request_timeout`: a timeout of 0 counts as absent. -/
def requestTimeout (E : BrokerEnv π) (msg : NMBMessage π) : ℚ :=
  (msg.timeout.filter fun t => decide (t ≠ 0)).getD E.config.defaultRequestTimeout

def handleRequest (E : BrokerEnv π) (b : Broker π) (senderId : String) (ws : Ws)
    (msg : NMBMessage π) : Broker π :=
  match truthy msg.toSandbox with
  | none => b.sendError senderId ws msg.id .invalidFrame "Missing to_sandbox" none
  | some target =>
    let count := (b.pendingCounts.lookup senderId).getD 0
    if E.config.maxPendingPerSandbox ≤ count then
      b.sendError senderId ws msg.id .rateLimited "Too many pending requests" none
    else
      match b.connections.lookup target with
      | none =>
        b.sendError senderId ws msg.id .targetOffline (target ++ " not connected") (some msg)
      | some targetWs =>
        ((b.track senderId msg.id (requestTimeout E msg) count).send targetWs
          msg.makeDeliver).await senderId ws (.requestDeliver msg b.nextTask)

def handleReply (b : Broker π) (senderId : String) (ws : Ws) (msg : NMBMessage π) : Broker π :=
  match truthy msg.replyTo with
  | none => b.sendError senderId ws msg.id .invalidFrame "Missing reply_to" none
  | some requestId =>
    match b.pending.lookup requestId with
    | none =>
      b.sendError senderId ws msg.id .invalidFrame ("No pending request with id=" ++ requestId) none
    | some tracked =>
      let b := ((b.popPending requestId).cancelTimer tracked.timeoutTask).freeSlot tracked.owner
      match b.connections.lookup tracked.owner with
      | none => (b.auditMsg (some msg) .error).await senderId ws .recv
      | some targetWs =>
        (b.send targetWs msg.makeDeliver (some tracked.timeoutTask)).await senderId ws
          (.replyDeliver msg)

def handleSubscribe (E : BrokerEnv π) (b : Broker π) (senderId : String) (ws : Ws)
    (msg : NMBMessage π) : Broker π :=
  match truthy msg.channel with
  | none => b.sendError senderId ws msg.id .invalidFrame "Missing channel" none
  | some channel =>
    -- `setdefault` leaves an empty set behind even when the subscription is refused
    let b := { b with sandboxChannels := Dict.setDefault b.sandboxChannels senderId [] }
    let chans := (b.sandboxChannels.lookup senderId).getD []
    if E.config.maxChannelsPerSandbox ≤ chans.length then
      b.sendError senderId ws msg.id .channelFull "Too many channel subscriptions" none
    else
      let subs := (b.channels.lookup channel).getD []
      sendAck { b with
        channels := b.channels.insert channel (subs.insert senderId)
        sandboxChannels := b.sandboxChannels.insert senderId (chans.insert channel) }
        senderId ws msg.id none

/-- Drop one subscriber of a channel, and the channel with its last one. -/
def leaveChannel (channels : Dict String (List String)) (sandboxId channel : String) :
    Dict String (List String) :=
  match channels.lookup channel with
  | none | some [] => channels
  | some subs =>
    if subs.erase sandboxId = [] then channels.erase channel
    else channels.insert channel (subs.erase sandboxId)

def handleUnsubscribe (b : Broker π) (senderId : String) (ws : Ws) (msg : NMBMessage π) :
    Broker π :=
  match truthy msg.channel with
  | none => b.sendError senderId ws msg.id .invalidFrame "Missing channel" none
  | some channel =>
    let sandboxChannels := match b.sandboxChannels.lookup senderId with
      | none => b.sandboxChannels
      | some chans => b.sandboxChannels.insert senderId (chans.erase channel)
    sendAck { b with
      channels := leaveChannel b.channels senderId channel
      sandboxChannels := sandboxChannels }
      senderId ws msg.id none

/-- The connected subscribers of a channel, `skip` excepted. -/
def subscriberSockets (b : Broker π) (channel : String) (skip : Option String) : List Ws :=
  (((b.channels.lookup channel).getD []).filter fun s => decide (some s ≠ skip)).filterMap
    fun s => b.connections.lookup s

def handlePublish (b : Broker π) (senderId : String) (ws : Ws) (msg : NMBMessage π) : Broker π :=
  match truthy msg.channel with
  | none => b.sendError senderId ws msg.id .invalidFrame "Missing channel" none
  | some channel =>
    match b.subscriberSockets channel (some senderId) with
    | [] => b.sendAck senderId ws msg.id (some msg)
    | left => b.await senderId ws (.publishFanout msg left)

def handleStream (b : Broker π) (senderId : String) (ws : Ws) (msg : NMBMessage π) : Broker π :=
  b.forwardTo senderId ws msg (.streamDeliver msg)

/-- The identity and the clock that `_dispatch` writes into a client's message. -/
def stamp (m : NMBMessage π) (senderId : String) (now : ℚ) : NMBMessage π :=
  { m with fromSandbox := some senderId, timestamp := some now }

def dispatch (E : BrokerEnv π) (b : Broker π) (senderId : String) (ws : Ws)
    (raw : Except String (NMBMessage π)) (now : ℚ) : Broker π :=
  match raw with
  | .error why => b.sendError senderId ws "" .invalidFrame why none
  | .ok m =>
    let msg := stamp m senderId now
    match msg.validateFrame E.payloadBytes with
    | .error exc => b.sendError senderId ws msg.id exc.code exc.message none
    | .ok () =>
      match msg.op with
      | .send => b.handleSend senderId ws msg
      | .request => b.handleRequest E senderId ws msg
      | .reply => b.handleReply senderId ws msg
      | .subscribe => b.handleSubscribe E senderId ws msg
      | .unsubscribe => b.handleUnsubscribe senderId ws msg
      | .publish => b.handlePublish senderId ws msg
      | .stream => b.handleStream senderId ws msg
      | op =>
        b.sendError senderId ws msg.id .invalidFrame ("Client cannot send op=" ++ op.value) none

/-! ### Handlers after an await -/

/-- `_handle_request` after its delivery raised `ConnectionClosed`: roll the pending state back. -/
def rollbackRequest (b : Broker π) (senderId : String) (ws : Ws) (msg : NMBMessage π)
    (task : TaskId) : Broker π :=
  (((b.popPending msg.id).cancelTimer task).freeSlot senderId).sendError senderId ws msg.id
    .targetOffline (msg.toSandbox.getD "" ++ " disconnected") (some msg) (some task)

def resume (b : Broker π) (senderId : String) (ws : Ws) (result : SendResult) :
    Phase π → Option (Broker π)
  | .sendDeliver msg => some <| match result with
    | .ok => b.sendAck senderId ws msg.id (some msg)
    | .connectionClosed => b.sendError senderId ws msg.id .targetOffline
        (msg.toSandbox.getD "" ++ " disconnected") (some msg)
  | .requestDeliver msg task => some <| match result with
    | .ok => b.sendAck senderId ws msg.id (some msg)
    | .connectionClosed => b.rollbackRequest senderId ws msg task
  | .replyDeliver msg => some <| match result with
    | .ok => (b.auditMsg (some msg) .delivered).await senderId ws .recv
    | .connectionClosed => (b.auditMsg (some msg) .error).await senderId ws .recv
  | .streamDeliver msg => some <| match result with
    | .ok => b.await senderId ws .recv
    | .connectionClosed => b.sendError senderId ws msg.id .targetOffline
        (msg.toSandbox.getD "" ++ " disconnected") (some msg)
  | .publishFanout msg [] => some (b.sendAck senderId ws msg.id (some msg))
  | .ack auditMsg => some ((b.auditMsg auditMsg .delivered).await senderId ws .recv)
  | .error auditMsg => some ((b.auditMsg auditMsg .error).await senderId ws .recv)
  | .shutdownFanout _ [] => some
      ((b.auditOp (.disconnection senderId "disconnected")).await senderId ws .logDisconnection)
  | .logDisconnection => some (b.await senderId ws .closed)
  | .recv | .publishFanout _ (_ :: _) | .shutdownFanout _ (_ :: _) | .closed => none

/-- One `_safe_send` of the gather that the handler of `ws` waits for. -/
def safeSend (b : Broker π) (senderId : String) (ws target : Ws) : Phase π → Option (Broker π)
  | .publishFanout msg left =>
    if target ∈ left then
      some ((b.send target msg.makeDeliver).await senderId ws
        (.publishFanout msg (left.erase target)))
    else none
  | .shutdownFanout frame left =>
    if target ∈ left then
      some ((b.send target frame).await senderId ws (.shutdownFanout frame (left.erase target)))
    else none
  | _ => none

/-! ### Connections -/

/-- `_register`, after which `_handler` enters its receive loop in either case. -/
def register (b : Broker π) (sandboxId : String) (ws : Ws) : Broker π :=
  if (b.connections.lookup sandboxId).isSome then
    { b with rejecting := ws :: b.rejecting }.await sandboxId ws .recv
  else
    ({ b with
      connections := b.connections.insert sandboxId ws
      wsToSandbox := b.wsToSandbox.insert ws sandboxId }.auditOp
        (.connection sandboxId)).await sandboxId ws .recv

def shutdownFrame (E : BrokerEnv π) (sandboxId msgId : String) (now : ℚ) : NMBMessage π :=
  { op := .deliver, id := msgId, fromSandbox := some "system", type := some "sandbox.shutdown",
    timestamp := some now, payload := some (E.shutdownPayload sandboxId) }

/-- `_unregister` up to its broadcast. -/
def unregister (E : BrokerEnv π) (b : Broker π) (sandboxId : String) (ws : Ws) (msgId : String)
    (now : ℚ) : Broker π :=
  if b.connections.lookup sandboxId ≠ some ws then
    { b with wsToSandbox := b.wsToSandbox.erase ws }.await sandboxId ws .closed
  else
    let chans := (b.sandboxChannels.lookup sandboxId).getD []
    let expired := (b.pending.entries.map Sigma.snd).filter fun t => decide (t.owner = sandboxId)
    let b := expired.foldl (fun b t => b.cancelTimer t.timeoutTask) b
    let b := { b with
      connections := b.connections.erase sandboxId
      wsToSandbox := b.wsToSandbox.erase ws
      channels := chans.foldl (fun channels ch => leaveChannel channels sandboxId ch) b.channels
      sandboxChannels := b.sandboxChannels.erase sandboxId
      pending := Dict.drop (fun t => decide (t.owner = sandboxId)) b.pending
      pendingCounts := b.pendingCounts.erase sandboxId }
    match b.subscriberSockets "system" none with
    | [] =>
      (b.auditOp (.disconnection sandboxId "disconnected")).await sandboxId ws .logDisconnection
    | left => b.await sandboxId ws (.shutdownFanout (shutdownFrame E sandboxId msgId now) left)

/-! ### Timeouts -/

def timeoutFrame (E : BrokerEnv π) (t : TimeoutTask) : NMBMessage π :=
  { op := .timeout, id := t.requestId,
    message := some ("No reply within " ++ E.formatSeconds t.timeout ++ "s") }

/-- `_timeout_request` after its sleep. -/
def timeoutRequest (E : BrokerEnv π) (b : Broker π) (task : TaskId) (t : TimeoutTask) :
    Broker π :=
  match b.pending.lookup t.requestId with
  | none => b.cancelTimer task
  | some _ =>
    let b := (b.popPending t.requestId).freeSlot t.requesterId
    match b.connections.lookup t.requesterId with
    | none => (b.cancelTimer task).auditOp (.statusUpdate t.requestId .timeout)
    | some ws =>
      { b with timers := b.timers.insert task { t with sending := true } }.send ws
        (timeoutFrame E t) (some task)

def step (E : BrokerEnv π) (b : Broker π) : BrokerEvent π → Option (Broker π)
  | .connect ws sandboxId =>
    -- `_process_request` refuses an empty id; a websocket object is never reused
    if sandboxId = "" ∨ (b.handlers.lookup ws).isSome then none else some (b.register sandboxId ws)
  | .frame ws raw now =>
    match b.handlers.lookup ws with
    | some ⟨senderId, .recv⟩ => some (b.dispatch E senderId ws raw now)
    | _ => none
  | .resume ws result => (b.handlers.lookup ws).bind fun h => b.resume h.sandboxId ws result h.phase
  | .safeSend ws target =>
    (b.handlers.lookup ws).bind fun h => b.safeSend h.sandboxId ws target h.phase
  | .disconnect ws msgId now =>
    match b.handlers.lookup ws with
    | some ⟨sandboxId, .recv⟩ => some (b.unregister E sandboxId ws msgId now)
    | _ => none
  | .timer task =>
    match b.timers.lookup task with
    | some t => if t.sending then none else some (b.timeoutRequest E task t)
    | none => none
  | .timerSent task =>
    match b.timers.lookup task with
    | some t =>
      if t.sending then
        some ((b.cancelTimer task).auditOp (.statusUpdate t.requestId .timeout))
      else none
    | none => none

end Broker

def brokerMachine {π : Type} (E : BrokerEnv π) : Machine (Broker π) (BrokerEvent π) where
  init := {}
  step := Broker.step E

/-- An environment whose payloads are JSON texts and whose timeouts are whole seconds. -/
def jsonText : BrokerEnv String where
  payloadBytes := String.utf8ByteSize
  shutdownPayload sandboxId :=
    "\x7b\"sandbox_id\": \"" ++ sandboxId ++ "\", \"reason\": \"disconnected\"\x7d"
  formatSeconds t := toString t.num ++ ".0"

end NemoClaw
