import Mathlib.Data.List.Infix
import NemoClaw.Nmb.Broker
import NemoClaw.Nmb.Client
import NemoClaw.Orchestrator.Delegation

/-! The deployment: the broker, the orchestrator with its delegation manager, and the sub-agents
that the manager spawns (`agent/__main__.py`), each behind a websocket of its own. Frames written
by a client wait in its outbox until the broker reads them, in order; frames sent by the broker wait
until the client's receive loop takes them, in order. Any party may go on at any time. -/

namespace NemoClaw

open Lib

structure DeploymentEnv (π : Type) where
  broker : BrokerEnv π
  delegation : DelegationConfig := {}
  codec : Codec π
  orchestratorId : String

/-- The client end of a websocket. -/
structure Peer (π : Type) where
  ws : Ws
  bus : MessageBus π := {}
  /-- the frames written that the broker has not read yet -/
  outbox : List (NMBMessage π) := []
  /-- the number of frames of the broker that the receive loop has taken -/
  received : ℕ := 0

namespace Peer

variable {π : Type}

/-- `MessageBus.send` up to the ACK. -/
def send (p : Peer π) (id target type : String) (payload : π) : Peer π :=
  { p with
    bus := p.bus.awaitAck id
    outbox := p.outbox ++ [sendMessage id target type payload] }

/-- `MessageBus.reply` -/
def reply (p : Peer π) (msg : NMBMessage π) : Peer π := { p with outbox := p.outbox ++ [msg] }

def inbound (b : Broker π) (p : Peer π) : List (NMBMessage π) :=
  (b.sent.filter fun f => decide (f.ws = p.ws)).map SentFrame.frame

/-- The receive loop takes the next frame. -/
def receive (b : Broker π) (p : Peer π) : Option (Peer π) :=
  (p.inbound b)[p.received]?.map fun msg =>
    { p with bus := p.bus.dispatch msg, received := p.received + 1 }

end Peer

/-! ### Sub-agents -/

/-- The terminal message of a sub-agent. -/
inductive Answer
  | complete (payload : TaskCompletePayload)
  | error (payload : TaskErrorPayload)

def Answer.type : Answer → MessageType
  | .complete _ => .taskComplete
  | .error _ => .taskError

def Answer.workflowId : Answer → String
  | .complete payload => payload.workflowId
  | .error payload => payload.workflowId

def Answer.dump {π : Type} (C : Codec π) : Answer → π
  | .complete payload => C.dumpComplete payload
  | .error payload => C.dumpError payload

/-- What `_await_and_handle_one_task` awaits. -/
inductive AgentPhase (π : Type)
  | waitingForAssign
  | running (assign : NMBMessage π) (task : TaskAssignPayload)
  /-- the ACK of an `audit.flush`, before the answer -/
  | flushing (assign : NMBMessage π) (answer : Answer)
  | exited

structure Agent (π : Type) where
  peer : Peer π
  phase : AgentPhase π := .waitingForAssign
  /-- bookkeeping: the terminal messages it emitted -/
  answers : List (NMBMessage π) := []

namespace Agent

variable {π : Type}

/-- The answer goes out as a reply to the assignment, and the process is done. -/
def reply (C : Codec π) (a : Agent π) (id : String) (assign : NMBMessage π) (answer : Answer) :
    Agent π :=
  let msg := replyMessage id assign answer.type.value (answer.dump C)
  { peer := a.peer.reply msg, phase := .exited, answers := a.answers ++ [msg] }

/-- `_reply_validation_error`, or the exception it raises when the payload has no workflow id. -/
def replyValidationError (C : Codec π) (a : Agent π) (id : String) (assign : NMBMessage π)
    (exc : PayloadValidationError) : Agent π :=
  if h : assign.id ≠ "" then
    a.reply C id assign (.error
      { workflowId := ⟨assign.id, h⟩
        error := ⟨"task.assign payload validation failed: " ++ exc.message, by simp⟩
        errorKind := .other })
  else { a with phase := .exited }

/-- `_first_assign` takes a message off the listen queue. -/
def listen (C : Codec π) (a : Agent π) (id : String) : Option (Agent π) :=
  match a.phase, a.peer.bus.listenQueue with
  | .waitingForAssign, msg :: rest =>
    let a := { a with peer := { a.peer with bus := { a.peer.bus with listenQueue := rest } } }
    if msg.type = some MessageType.taskAssign.value then
      match load C.validateAssign .taskAssign msg.payload with
      | .error exc => some (a.replyValidationError C id msg exc)
      | .ok task => some { a with phase := .running msg task }
    else some a
  | _, _ => none

/-- The task is over. Audit rows, if there are any, are sent before the answer. -/
def finish (C : Codec π) (a : Agent π) (id : String) (answer : Answer)
    (flush : Option AuditFlushPayload) : Option (Agent π) :=
  match a.phase with
  | .running assign task =>
    if answer.workflowId ≠ task.workflowId.val then none
    else match flush with
      | none => some (a.reply C id assign answer)
      | some payload =>
        some { a with
          peer := a.peer.send id task.parentSandboxId MessageType.auditFlush.value
            (C.dumpAuditFlush payload)
          phase := .flushing assign answer }
  | _ => none

/-- The send of the audit rows returned or raised. -/
def flushed (C : Codec π) (a : Agent π) (id : String) : Option (Agent π) :=
  match a.phase with
  | .flushing assign answer => some (a.reply C id assign answer)
  | _ => none

end Agent

/-! ### The system -/

structure Deployment (π : Type) where
  broker : Broker π
  orchestrator : Peer π
  manager : DelegationManager
  /-- the message a call awaits the ACK of -/
  attempts : Dict CallId String := ∅
  /-- the sub-agent that the process of a call runs, once connected -/
  agents : Dict CallId (Agent π) := ∅
  /-- bookkeeping: the ids of the orchestrator's messages -/
  ids : List String := []
  /-- bookkeeping: the message that a call returned upon -/
  accepted : Dict CallId String := ∅
  /-- bookkeeping: the websockets that messages of the orchestrator were delivered to -/
  deliveries : List (String × Ws) := []

inductive Party
  | orchestrator
  | agent (call : CallId)
  deriving DecidableEq

inductive DeploymentEvent (π : Type)
  /-- the manager steps, other than by a send that succeeds -/
  | manager (event : DelegationEvent)
  /-- `_send_assign_with_readiness_retry` writes `task.assign` -/
  | attempt (call : CallId) (id : String)
  /-- the broker answered `TARGET_OFFLINE` and the readiness window is open -/
  | retry (call : CallId)
  /-- the ACK has arrived -/
  | accept (call : CallId)
  /-- the process that the call spawned connects -/
  | connect (call : CallId) (ws : Ws)
  | listen (call : CallId) (id : String)
  | finish (call : CallId) (id : String) (answer : Answer) (flush : Option AuditFlushPayload)
  | flushed (call : CallId) (id : String)
  | exit (call : CallId)
  /-- the broker reads the next frame of a client -/
  | read (party : Party) (now : ℚ)
  /-- a client takes the next frame of the broker -/
  | receive (party : Party)
  /-- the broker steps on its own, or a sub-agent's connection ends -/
  | broker (event : BrokerEvent π)

/-- `_is_target_offline` -/
def isTargetOffline : BusError → Bool
  | .connection text => decide ("TARGET_OFFLINE".toList <:+: text.toList)
  | .timeout _ => false

/-- The orchestrator's websocket. -/
def orchestratorWs : Ws := 0

namespace Deployment

variable {π : Type}

/-- The call is in `_send_assign_with_readiness_retry`. -/
def sending (d : Deployment π) (c : CallId) : Option (TaskAssignPayload × SpawnedAgent) :=
  match d.manager.calls.lookup c with
  | some ⟨task, .sending agent⟩ => some (task, agent)
  | _ => none

/-- The manager steps. A send succeeds by `accept` only. -/
def manage (E : DeploymentEnv π) (d : Deployment π) (e : DelegationEvent) :
    Option (Deployment π) :=
  match e with
  | .call c .resumed =>
    if (d.sending c).isSome then none
    else (d.manager.step E.delegation e).map fun m => { d with manager := m }
  | _ => (d.manager.step E.delegation e).map fun m => { d with manager := m }

def attempt (E : DeploymentEnv π) (d : Deployment π) (c : CallId) (id : String) :
    Option (Deployment π) :=
  (d.sending c).bind fun (task, agent) =>
    if d.attempts.lookup c = none ∧ id ∉ d.ids then
      some { d with
        orchestrator := d.orchestrator.send id agent.sandboxId MessageType.taskAssign.value
          (E.codec.dumpAssign task)
        attempts := d.attempts.insert c id
        ids := id :: d.ids }
    else none

def retry (d : Deployment π) (c : CallId) : Option (Deployment π) :=
  (d.sending c).bind fun _ =>
    (d.attempts.lookup c).bind fun id =>
      match d.orchestrator.bus.acks.lookup id with
      | some (.exception e) =>
        if isTargetOffline e then some { d with attempts := d.attempts.erase c } else none
      | _ => none

def accept (E : DeploymentEnv π) (d : Deployment π) (c : CallId) : Option (Deployment π) :=
  (d.sending c).bind fun _ =>
    (d.attempts.lookup c).bind fun id =>
      match d.orchestrator.bus.acks.lookup id with
      | some (.result ()) =>
        (d.manager.step E.delegation (.call c .resumed)).map fun m => { d with
          manager := m
          attempts := d.attempts.erase c
          accepted := d.accepted.insert c id }
      | _ => none

/-- The process of a call connects once, under the agent id of its task. -/
def connect (E : DeploymentEnv π) (d : Deployment π) (c : CallId) (ws : Ws) :
    Option (Deployment π) :=
  match d.manager.calls.lookup c, d.agents.lookup c with
  | some ⟨_, .acquiring⟩, _ | none, _ | _, some _ => none
  | some ⟨task, _⟩, none =>
    (d.broker.step E.broker (.connect ws task.agentId.val)).map fun b =>
      { d with broker := b, agents := d.agents.insert c { peer := { ws := ws } } }

def updateAgent (d : Deployment π) (c : CallId) (f : Agent π → Option (Agent π)) :
    Option (Deployment π) :=
  (d.agents.lookup c).bind fun a => (f a).map fun a' => { d with agents := d.agents.insert c a' }

def peer (d : Deployment π) : Party → Option (Peer π)
  | .orchestrator => some d.orchestrator
  | .agent c => (d.agents.lookup c).map Agent.peer

def setPeer (d : Deployment π) (party : Party) (p : Peer π) : Deployment π :=
  match party with
  | .orchestrator => { d with orchestrator := p }
  | .agent c =>
    match d.agents.lookup c with
    | none => d
    | some a => { d with agents := d.agents.insert c { a with peer := p } }

/-- The deliveries that the broker makes of a message that it reads. -/
def newDeliveries (b b' : Broker π) (id : String) : List (String × Ws) :=
  ((b'.sent.drop b.sent.length).filter fun f => decide (f.frame.op = .deliver)).map fun f =>
    (id, f.ws)

def read (E : DeploymentEnv π) (d : Deployment π) (party : Party) (now : ℚ) :
    Option (Deployment π) :=
  (d.peer party).bind fun p =>
    match p.outbox with
    | [] => none
    | msg :: rest =>
      (d.broker.step E.broker (.frame p.ws (.ok msg) now)).map fun b =>
        let delivered := if party = Party.orchestrator then newDeliveries d.broker b msg.id else []
        { d with broker := b, deliveries := d.deliveries ++ delivered }.setPeer party
          { p with outbox := rest }

/-- The broker steps that no client takes part in. -/
def ofBroker : BrokerEvent π → Bool
  | .connect _ _ | .frame _ _ _ => false
  | .disconnect ws _ _ => ws ≠ orchestratorWs
  | .resume _ _ | .safeSend _ _ | .timer _ | .timerSent _ => true

def step (E : DeploymentEnv π) (d : Deployment π) : DeploymentEvent π → Option (Deployment π)
  | .manager e => d.manage E e
  | .attempt c id => d.attempt E c id
  | .retry c => d.retry c
  | .accept c => d.accept E c
  | .connect c ws => d.connect E c ws
  | .listen c id => d.updateAgent c fun a => a.listen E.codec id
  | .finish c id answer flush => d.updateAgent c fun a => a.finish E.codec id answer flush
  | .flushed c id => d.updateAgent c fun a => a.flushed E.codec id
  | .exit c => d.updateAgent c fun a => some { a with phase := .exited }
  | .read party now => d.read E party now
  | .receive party =>
    (d.peer party).bind fun p => (p.receive d.broker).map fun p' => d.setPeer party p'
  | .broker e =>
    if ofBroker e then (d.broker.step E.broker e).map fun b => { d with broker := b } else none

end Deployment

/-- The orchestrator is connected before anything is delegated. -/
def deploymentMachine {π : Type} (E : DeploymentEnv π) :
    Machine (Deployment π) (DeploymentEvent π) where
  init :=
    { broker := Broker.register {} E.orchestratorId orchestratorWs
      orchestrator := { ws := orchestratorWs }
      manager := { semaphore := ⟨E.delegation.maxConcurrent, []⟩ } }
  step := Deployment.step E

/-- A deployment on unencoded payloads, none of them near the size limit. -/
def wireDeployment : DeploymentEnv WirePayload where
  broker :=
    { payloadBytes := fun _ => 512
      shutdownPayload := WirePayload.shutdown
      formatSeconds := fun t => toString t.num ++ ".0" }
  codec := wireCodec
  orchestratorId := "orchestrator"

end NemoClaw
