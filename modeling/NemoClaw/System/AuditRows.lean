import NemoClaw.Agent.AuditBuffer
import NemoClaw.Nmb.Ordering
import NemoClaw.Nmb.Traffic
import NemoClaw.Orchestrator.Calls
import NemoClaw.System.Redelegation

/-! The way of the sub-agents' audit rows in the production wiring (`main.py`,
`build_full_tool_registry`). The orchestrator's bus appends a random suffix to its name, and the
assignments name the parent without it, so that no `audit.flush` is for the orchestrator. Nothing
reads the fallback files. -/

namespace NemoClaw

open Lib

/-- `MessageBus.__init__`: the name on the bus; `suffix` is `uuid.uuid4().hex[:8]`. -/
def busSandboxId (sandboxId suffix : String) (appendRandomSuffix : Bool) : String :=
  if appendRandomSuffix then sandboxId ++ "-" ++ suffix else sandboxId

structure WiringEnv (π : Type) where
  broker : BrokerEnv π
  delegation : DelegationConfig := {}
  codec : Codec π
  /-- `config.nmb.sandbox_id` -/
  sandboxId : String := ""
  suffix : String

theorem orchestrator_ne : "orchestrator" ≠ "" := by decide

namespace WiringEnv

variable {π : Type} (W : WiringEnv π)

/-- `config.nmb.sandbox_id or "orchestrator"`, which `build_full_tool_registry` gives to
`delegate_task` and `main` to the bus. -/
def parentSandboxId : NonEmptyString :=
  if h : W.sandboxId ≠ "" then ⟨W.sandboxId, h⟩ else ⟨"orchestrator", orchestrator_ne⟩

def deployment : DeploymentEnv π where
  broker := W.broker
  delegation := W.delegation
  codec := W.codec
  orchestratorId := busSandboxId W.parentSandboxId W.suffix true

end WiringEnv

/-- The deployment with its audit trail. -/
structure AuditedDeployment (π : Type) where
  deployment : Deployment π
  buffers : Dict CallId AuditBuffer := ∅
  /-- the fallback files by their paths -/
  fallbacks : Dict String (List FallbackRow) := ∅
  toolCalls : ToolCalls := .empty
  /-- bookkeeping: the rows that were recorded -/
  recorded : List AuditToolCallPayload := []
  /-- bookkeeping: the payloads that were passed to `ingest_audit_flush` -/
  ingested : List AuditFlushPayload := []

inductive AuditedEvent (π : Type)
  | run (e : DeploymentEvent π)
  /-- the agent loop of a task logs a tool call -/
  | record (call : CallId) (uuid : NonEmptyString) (args : ToolCallArgs)
  /-- the task is over and `_flush_audit_buffer` begins -/
  | finish (call : CallId) (id : String) (answer : Answer) (fallbackWritten : Bool)
  /-- the orchestrator's dispatcher takes a message off its listen queue -/
  | dispatch (E : ℕ → LogEnv)

/-- `delegate_task` names the parent; tasks finish with their own audit rows. -/
def DeploymentEvent.wired {π : Type} (parent : String) : DeploymentEvent π → Bool
  | .manager (.delegate _ task) => decide (task.parentSandboxId.val = parent)
  | .finish _ _ _ _ => false
  | _ => true

/-- `Path(task.workspace_root) / ".nemoclaw" / f"audit-\x7btask.workflow_id\x7d.jsonl"` -/
def fallbackPath (task : TaskAssignPayload) : String :=
  task.workspaceRoot ++ "/.nemoclaw/audit-" ++ task.workflowId ++ ".jsonl"

namespace AuditedDeployment

variable {π : Type}

/-- The task that the process of a call works on. -/
def task? (s : AuditedDeployment π) (c : CallId) : Option TaskAssignPayload :=
  (s.deployment.agents.lookup c).bind fun a =>
    match a.phase with
    | .running _ task => some task
    | _ => none

def buffer (s : AuditedDeployment π) (c : CallId) (task : TaskAssignPayload) : AuditBuffer :=
  (s.buffers.lookup c).getD (.ofTask task)

/-- `AuditBuffer.log_tool_call`; the agent loop swallows what it raises. -/
def record (s : AuditedDeployment π) (c : CallId) (task : TaskAssignPayload)
    (uuid : NonEmptyString) (args : ToolCallArgs) : AuditedDeployment π :=
  match AuditBuffer.row uuid args with
  | none => s
  | some item =>
    let buffer := s.buffer c task
    { s with
      buffers := s.buffers.insert c { buffer with toolCalls := buffer.toolCalls ++ [item] }
      recorded := s.recorded ++ [item] }

theorem buffers_record (s : AuditedDeployment π) (c : CallId) (task : TaskAssignPayload)
    (uuid : NonEmptyString) (args : ToolCallArgs) :
    (s.record c task uuid args).buffers =
      match (s.buffer c task).logToolCall uuid args with
      | none => s.buffers
      | some (buffer, _) => s.buffers.insert c buffer := by
  unfold record AuditBuffer.logToolCall
  cases AuditBuffer.row uuid args <;> rfl

/-- `_flush_audit_buffer` up to its await: the fallback file, and the send of the rows. -/
def finish (E : DeploymentEnv π) (s : AuditedDeployment π) (c : CallId) (task : TaskAssignPayload)
    (id : String) (answer : Answer) (fallbackWritten : Bool) : Option (AuditedDeployment π) :=
  let buffer := s.buffer c task
  let flush := if buffer.isEmpty then none else some buffer.toPayload
  (s.deployment.step E (.finish c id answer flush)).map fun d =>
    { s with
      deployment := d
      fallbacks :=
        match buffer.jsonlFallback with
        | some rows =>
          if fallbackWritten then s.fallbacks.insert (fallbackPath task) rows else s.fallbacks
        | none => s.fallbacks }

def handleAuditFlush (C : Codec π) (E : ℕ → LogEnv) (s : AuditedDeployment π)
    (msg : NMBMessage π) : AuditedDeployment π :=
  match load C.validateAuditFlush .auditFlush msg.payload with
  | .error _ => s
  | .ok payload =>
    { s with
      toolCalls := (ingestAuditFlush E s.toolCalls payload).1
      ingested := s.ingested ++ [payload] }

/-- `_dispatch`, of which the handlers of the other types leave `tool_calls` alone. -/
def dispatch (C : Codec π) (E : ℕ → LogEnv) (s : AuditedDeployment π) :
    Option (AuditedDeployment π) :=
  match s.deployment.orchestrator.bus.listenQueue with
  | [] => none
  | msg :: rest =>
    let o := s.deployment.orchestrator
    let s := { s with deployment := { s.deployment with
      orchestrator := { o with bus := { o.bus with listenQueue := rest } } } }
    some (if msg.type = some MessageType.auditFlush.value then s.handleAuditFlush C E msg else s)

def step (W : WiringEnv π) (s : AuditedDeployment π) :
    AuditedEvent π → Option (AuditedDeployment π)
  | .run e =>
    if e.wired W.parentSandboxId then
      (s.deployment.step W.deployment e).map fun d => { s with deployment := d }
    else none
  | .record c uuid args => (s.task? c).map fun task => s.record c task uuid args
  | .finish c id answer written =>
    (s.task? c).bind fun task => s.finish W.deployment c task id answer written
  | .dispatch E => s.dispatch W.codec E

/-- The rows that were passed to `ingest_audit_flush`. -/
def ingestedRows (s : AuditedDeployment π) : List AuditToolCallPayload :=
  s.ingested.flatMap AuditFlushPayload.toolCalls

end AuditedDeployment

def auditedMachine {π : Type} (W : WiringEnv π) :
    Machine (AuditedDeployment π) (AuditedEvent π) where
  init := { deployment := (deploymentMachine W.deployment).init }
  step := AuditedDeployment.step W

/-- The orchestrator is on the bus under another name than the one it gives out. -/
theorem busSandboxId_ne (sandboxId suffix : String) :
    busSandboxId sandboxId suffix true ≠ sandboxId := by
  intro h
  have hdash : "-".length = 1 := rfl
  have hlength := congrArg String.length h
  simp only [busSandboxId, if_true, String.length_append, hdash] at hlength
  omega

/-- Only a delivered message gets on the listen queue. -/
theorem MessageBus.mem_listenQueue_dispatch {π : Type} (bus : MessageBus π) (msg : NMBMessage π)
    {m : NMBMessage π} (hm : m ∈ (bus.dispatch msg).listenQueue) :
    m ∈ bus.listenQueue ∨ msg.op = .deliver ∧ msg = m := by
  unfold dispatch at hm
  split at hm
  · rename_i hop
    unfold dispatchDeliver at hm
    split at hm
    · exact Or.inl hm
    · split at hm
      · exact Or.inl hm
      · rcases List.mem_append.1 hm with hm | hm
        · refine Or.inl ?_
          split at hm
          · exact List.mem_of_mem_tail hm
          · exact hm
        · exact Or.inr ⟨hop, (List.mem_singleton.1 hm).symm⟩
  · unfold dispatchAck at hm
    split at hm <;> exact Or.inl hm
  · unfold dispatchError at hm
    split at hm
    · exact Or.inl hm
    · split at hm <;> exact Or.inl hm
  · unfold dispatchTimeout at hm
    split at hm <;> exact Or.inl hm
  · exact Or.inl hm

/-! ### What is written, and what is heard -/

section

variable {π : Type} {C : Codec π} {parent : String}

theorem type_ne {s t : MessageType} (h : s ≠ t) : some s.value ≠ some t.value :=
  fun heq => h (MessageType.value_injective (Option.some.inj heq))

/-- What the parties write: audit rows are for the parent, and assignments name it. -/
structure Wrote (C : Codec π) (parent : String) (m : NMBMessage π) : Prop where
  flush : m.type = some MessageType.auditFlush.value → m.op = .send ∧ m.toSandbox = some parent
  assign : m.type = some MessageType.taskAssign.value →
    ∃ task, m.payload = some (C.dumpAssign task) ∧ task.parentSandboxId.val = parent

theorem wrote_other {m : NMBMessage π} (hf : m.type ≠ some MessageType.auditFlush.value)
    (ha : m.type ≠ some MessageType.taskAssign.value) : Wrote C parent m :=
  ⟨fun h => absurd h hf, fun h => absurd h ha⟩

theorem wrote_assign {task : TaskAssignPayload} (h : task.parentSandboxId.val = parent)
    (id target : String) :
    Wrote C parent (sendMessage id target MessageType.taskAssign.value (C.dumpAssign task)) :=
  ⟨fun hf => absurd hf (type_ne (by decide)), fun _ => ⟨task, rfl, h⟩⟩

theorem wrote_flush (id : String) (payload : π) :
    Wrote C parent (sendMessage id parent MessageType.auditFlush.value payload) :=
  ⟨fun _ => ⟨rfl, rfl⟩, fun ha => absurd ha (type_ne (by decide))⟩

theorem wrote_reply (id : String) (assign : NMBMessage π) (answer : Answer) :
    Wrote C parent (replyMessage id assign answer.type.value (answer.dump C)) := by
  cases answer with
  | complete | error =>
    exact wrote_other (type_ne (by simp [Answer.type])) (type_ne (by simp [Answer.type]))

/-- The broker has delivered the message to this websocket. -/
def Heard (b : Broker π) (ws : Ws) (m : NMBMessage π) : Prop :=
  m.op = .deliver ∧ ∃ f ∈ b.sent, f.ws = ws ∧ f.frame = m

theorem heard_step {E : BrokerEnv π} {b b' : Broker π} {e : BrokerEvent π} {ws : Ws}
    {m : NMBMessage π} (hm : Heard b ws m) (h : b.step E e = some b') : Heard b' ws m := by
  obtain ⟨hop, f, hf, hws, hframe⟩ := hm
  obtain ⟨new, hsent⟩ := Broker.sent_grows h
  exact ⟨hop, f, hsent ▸ List.mem_append_left _ hf, hws, hframe⟩

/-- A message of this type that is heard was written by someone. -/
theorem wrote_of_heard {b : Broker π} (hb : b.Traffic (Wrote C parent)) {ws : Ws}
    {m : NMBMessage π} (hm : Heard b ws m) {type : MessageType} (ht : m.type = some type.value) :
    ∃ m₀ s now, Wrote C parent m₀ ∧ m = (Broker.stamp m₀ s now).makeDeliver ∧
      (m₀.op = .send → ∃ t, m₀.toSandbox = some t ∧ b.Behind ws t) := by
  obtain ⟨hop, f, hf, rfl, rfl⟩ := hm
  rcases hb.sent f hf hop with hnotice | hforwarded
  · have heq := ht.symm.trans hnotice
    cases type <;> exact absurd heq (by decide)
  · exact hforwarded

end

/-! ### Sub-agents -/

namespace Agent

variable {π : Type} {C : Codec π} {parent : String} {b : Broker π} {a a' : Agent π}

/-- A sub-agent has written and heard nothing but what it may, and its task names the parent. -/
structure Attributes (C : Codec π) (parent : String) (b : Broker π) (a : Agent π) : Prop where
  outbox : ∀ m ∈ a.peer.outbox, Wrote C parent m
  heard : ∀ m ∈ a.peer.bus.listenQueue, Heard b a.peer.ws m
  running : ∀ assign task, a.phase = .running assign task → task.parentSandboxId.val = parent

theorem attributes_reply (h : a.Attributes C parent b) (id : String) (assign : NMBMessage π)
    (answer : Answer) : (a.reply C id assign answer).Attributes C parent b := by
  refine ⟨?_, h.heard, fun _ _ hphase => by contradiction⟩
  intro m hm
  rcases List.mem_append.1 hm with hm | hm
  · exact h.outbox m hm
  · obtain rfl := List.mem_singleton.1 hm
    exact wrote_reply id assign answer

theorem attributes_replyValidationError (h : a.Attributes C parent b) (id : String)
    (assign : NMBMessage π) (exc : PayloadValidationError) :
    (a.replyValidationError C id assign exc).Attributes C parent b := by
  unfold replyValidationError
  split
  · exact attributes_reply h id assign _
  · exact ⟨h.outbox, h.heard, fun _ _ hphase => by contradiction⟩

theorem attributes_listen (hcodec : ∀ task, C.validateAssign (C.dumpAssign task) = .ok task)
    (hb : b.Traffic (Wrote C parent)) (h : a.Attributes C parent b) {id : String}
    (hs : a.listen C id = some a') : a'.Attributes C parent b := by
  unfold listen at hs
  split at hs
  · rename_i msg rest hphase hqueue
    have hpopped : Attributes C parent b
        { a with peer := { a.peer with bus := { a.peer.bus with listenQueue := rest } } } := by
      refine ⟨h.outbox, ?_, h.running⟩
      intro m hm
      exact h.heard m (hqueue ▸ List.mem_cons_of_mem _ hm)
    dsimp only at hs
    split at hs
    · rename_i htype
      split at hs
      · obtain rfl := Option.some.inj hs
        exact attributes_replyValidationError hpopped id msg _
      · rename_i task hload
        obtain rfl := Option.some.inj hs
        refine ⟨hpopped.outbox, hpopped.heard, ?_⟩
        intro assign task' hrunning
        obtain ⟨-, rfl⟩ := AgentPhase.running.inj hrunning
        -- the assignment is the dump of a task that names the parent
        have hheard := h.heard msg (hqueue ▸ List.mem_cons_self)
        obtain ⟨m₀, s, now, hwrote, rfl, -⟩ := wrote_of_heard hb hheard htype
        obtain ⟨task₀, hpayload, hparent⟩ := hwrote.assign htype
        obtain ⟨p, hp, hvalid⟩ := load_eq_ok.1 hload
        obtain rfl := Option.some.inj (hpayload.symm.trans hp)
        obtain rfl := Except.ok.inj ((hcodec task₀).symm.trans hvalid)
        exact hparent
    · obtain rfl := Option.some.inj hs
      exact hpopped
  · contradiction

theorem attributes_finish (h : a.Attributes C parent b) {id : String} {answer : Answer}
    {flush : Option AuditFlushPayload} (hs : a.finish C id answer flush = some a') :
    a'.Attributes C parent b := by
  unfold finish at hs
  split at hs
  · rename_i assign task hphase
    split_ifs at hs
    cases flush with
    | none =>
      obtain rfl := Option.some.inj hs
      exact attributes_reply h id assign answer
    | some payload =>
      obtain rfl := Option.some.inj hs
      refine ⟨?_, h.heard, fun _ _ hflushing => by contradiction⟩
      intro m hm
      rcases List.mem_append.1 hm with hm | hm
      · exact h.outbox m hm
      · obtain rfl := List.mem_singleton.1 hm
        rw [h.running assign task hphase]
        exact wrote_flush id _
  · contradiction

theorem attributes_flushed (h : a.Attributes C parent b) {id : String}
    (hs : a.flushed C id = some a') : a'.Attributes C parent b := by
  unfold flushed at hs
  split at hs
  · obtain rfl := Option.some.inj hs
    exact attributes_reply h id _ _
  · contradiction

end Agent

/-! ### The deployment -/

namespace Deployment

variable {π : Type} {E : DeploymentEnv π} {parent : String} {d d' : Deployment π}

/-- What holds in every run of the wiring: who writes what, who hears what, and that the tasks name
the parent. -/
structure Attributed (E : DeploymentEnv π) (parent : String) (d : Deployment π) : Prop where
  broker : d.broker.Traffic (Wrote E.codec parent)
  named : d.broker.Behind orchestratorWs E.orchestratorId
  ws : d.orchestrator.ws = orchestratorWs
  outbox : ∀ party p, d.peer party = some p → ∀ m ∈ p.outbox, Wrote E.codec parent m
  heard : ∀ party p, d.peer party = some p → ∀ m ∈ p.bus.listenQueue, Heard d.broker p.ws m
  calls : ∀ c call, d.manager.calls.lookup c = some call → call.task.parentSandboxId.val = parent
  running : ∀ c a assign task, d.agents.lookup c = some a → a.phase = .running assign task →
    task.parentSandboxId.val = parent

/-- The manager goes on with tasks that name the parent. -/
theorem attributed_manager (h : Attributed E parent d) {m : DelegationManager}
    {e : DelegationEvent} (hs : d.manager.step E.delegation e = some m)
    (he : ∀ c task, e = .delegate c task → task.parentSandboxId.val = parent)
    {attempts accepted : Dict CallId String} :
    Attributed E parent
      { d with manager := m, attempts := attempts, accepted := accepted } := by
  refine ⟨h.broker, h.named, h.ws, h.outbox, h.heard, ?_, h.running⟩
  intro c call hc
  cases DelegationManager.calls_step hs with
  | same hcalls => exact h.calls c call (hcalls ▸ hc)
  | @began c₁ task new hnew hcalls =>
    rw [hcalls] at hc
    rcases Dict.lookup_insert_eq_some.1 hc with ⟨-, rfl⟩ | ⟨-, hc⟩
    · exact he c₁ task rfl
    · exact h.calls c call hc
  | @moved c₁ r task old new hold hcalls =>
    rw [hcalls] at hc
    rcases Dict.lookup_insert_eq_some.1 hc with ⟨-, rfl⟩ | ⟨-, hc⟩
    · have hparent := h.calls c₁ ⟨task, old⟩ hold
      exact hparent
    · exact h.calls c call hc

/-- The broker goes on by frames that a party wrote. -/
theorem attributed_broker (h : Attributed E parent d) {b : Broker π} {e : BrokerEvent π}
    (hs : d.broker.step E.broker e = some b)
    (he : ∀ ws m now, e = .frame ws (.ok m) now → Wrote E.codec parent m)
    (deliveries : List (String × Ws)) :
    Attributed E parent { d with broker := b, deliveries := deliveries } :=
  ⟨Broker.traffic_step h.broker he hs, Broker.behind_step h.named hs, h.ws, h.outbox,
    fun party p hp m hm => heard_step (h.heard party p hp m hm) hs, h.calls, h.running⟩

/-- A sub-agent that writes and hears no more than it may is put back. -/
theorem attributed_agent (h : Attributed E parent d) {c : CallId} {a : Agent π}
    (ha : a.Attributes E.codec parent d.broker) :
    Attributed E parent { d with agents := d.agents.insert c a } := by
  have hpeer : ∀ party p, peer { d with agents := d.agents.insert c a } party = some p →
      p = a.peer ∨ d.peer party = some p := by
    intro party p hp
    cases party with
    | orchestrator => exact Or.inr hp
    | agent c' =>
      obtain ⟨a₁, ha₁, rfl⟩ := Option.map_eq_some_iff.1 hp
      rcases Dict.lookup_insert_eq_some.1 ha₁ with ⟨-, rfl⟩ | ⟨-, ha₁⟩
      · exact Or.inl rfl
      · exact Or.inr (by simp [peer, ha₁])
  refine ⟨h.broker, h.named, h.ws, ?_, ?_, h.calls, ?_⟩
  · intro party p hp
    rcases hpeer party p hp with rfl | hp
    · exact ha.outbox
    · exact h.outbox party p hp
  · intro party p hp
    rcases hpeer party p hp with rfl | hp
    · exact ha.heard
    · exact h.heard party p hp
  · intro c' a₁ assign task ha₁
    rcases Dict.lookup_insert_eq_some.1 ha₁ with ⟨-, rfl⟩ | ⟨-, ha₁⟩
    · exact ha.running assign task
    · exact h.running c' a₁ assign task ha₁

theorem attributed_orchestrator (h : Attributed E parent d) {p : Peer π}
    (hws : p.ws = orchestratorWs) (hout : ∀ m ∈ p.outbox, Wrote E.codec parent m)
    (hheard : ∀ m ∈ p.bus.listenQueue, Heard d.broker p.ws m) :
    Attributed E parent { d with orchestrator := p } := by
  refine ⟨h.broker, h.named, hws, ?_, ?_, h.calls, h.running⟩
  · intro party p' hp
    cases party with
    | orchestrator =>
      obtain rfl := Option.some.inj hp
      exact hout
    | agent c => exact h.outbox (.agent c) p' hp
  · intro party p' hp
    cases party with
    | orchestrator =>
      obtain rfl := Option.some.inj hp
      exact hheard
    | agent c => exact h.heard (.agent c) p' hp

theorem attributed_setPeer (h : Attributed E parent d) {party : Party} {p p' : Peer π}
    (hp : d.peer party = some p) (hws : p'.ws = p.ws)
    (hout : ∀ m ∈ p'.outbox, m ∈ p.outbox)
    (hheard : ∀ m ∈ p'.bus.listenQueue, Heard d.broker p'.ws m) :
    Attributed E parent (d.setPeer party p') := by
  have hwrote : ∀ m ∈ p'.outbox, Wrote E.codec parent m :=
    fun m hm => h.outbox party p hp m (hout m hm)
  cases party with
  | orchestrator =>
    obtain rfl := Option.some.inj hp
    exact attributed_orchestrator h (hws.trans h.ws) hwrote hheard
  | agent c =>
    obtain ⟨a, ha, rfl⟩ := Option.map_eq_some_iff.1 hp
    simp only [setPeer, ha]
    exact attributed_agent h ⟨hwrote, hheard, fun assign task => h.running c a assign task ha⟩

theorem attributed_manage (h : Attributed E parent d) {e : DelegationEvent}
    (he : DeploymentEvent.wired parent (.manager e : DeploymentEvent π) = true)
    (hs : d.manage E e = some d') : Attributed E parent d' := by
  have hnames : ∀ c task, e = .delegate c task → task.parentSandboxId.val = parent := by
    rintro c task rfl
    exact of_decide_eq_true he
  unfold manage at hs
  split at hs
  · simp only [Option.ite_none_left_eq_some] at hs
    obtain ⟨m, hm, rfl⟩ := Option.map_eq_some_iff.1 hs.2
    exact attributed_manager h hm hnames
  · obtain ⟨m, hm, rfl⟩ := Option.map_eq_some_iff.1 hs
    exact attributed_manager h hm hnames

theorem attributed_attempt (h : Attributed E parent d) {c : CallId} {id : String}
    (hs : d.attempt E c id = some d') : Attributed E parent d' := by
  obtain ⟨⟨task, agent⟩, hc, hs⟩ := Option.bind_eq_some_iff.1 hs
  simp only [Option.ite_none_right_eq_some] at hs
  obtain rfl := Option.some.inj hs.2
  have hparent := h.calls c _ (sending_eq_some.1 hc)
  have hpeer := attributed_orchestrator h
    (p := d.orchestrator.send id agent.sandboxId MessageType.taskAssign.value
      (E.codec.dumpAssign task)) h.ws ?_ (h.heard .orchestrator d.orchestrator rfl)
  · exact ⟨hpeer.broker, hpeer.named, hpeer.ws, hpeer.outbox, hpeer.heard, hpeer.calls,
      hpeer.running⟩
  · intro m hm
    rcases List.mem_append.1 hm with hm | hm
    · exact h.outbox .orchestrator _ rfl m hm
    · obtain rfl := List.mem_singleton.1 hm
      exact wrote_assign hparent id agent.sandboxId

theorem attributed_connect (h : Attributed E parent d) {c : CallId} {ws : Ws}
    (hs : d.connect E c ws = some d') : Attributed E parent d' := by
  unfold connect at hs
  split at hs
  · contradiction
  · contradiction
  · contradiction
  · obtain ⟨b, hb, rfl⟩ := Option.map_eq_some_iff.1 hs
    have hbroker := attributed_broker h hb (fun _ _ _ he => by contradiction) d.deliveries
    exact attributed_agent hbroker ⟨fun m hm => by contradiction, fun m hm => by contradiction,
      fun assign task hphase => by contradiction⟩

theorem attributed_read (h : Attributed E parent d) {party : Party} {now : ℚ}
    (hs : d.read E party now = some d') : Attributed E parent d' := by
  obtain ⟨p, hp, hs⟩ := Option.bind_eq_some_iff.1 hs
  split at hs
  · contradiction
  · rename_i msg rest hout
    obtain ⟨b, hb, rfl⟩ := Option.map_eq_some_iff.1 hs
    have hwrote : Wrote E.codec parent msg := h.outbox party p hp msg (by simp [hout])
    have hbroker := attributed_broker h hb ?_ (d.deliveries ++
      if party = Party.orchestrator then newDeliveries d.broker b msg.id else [])
    · refine attributed_setPeer hbroker (p := p) ?_ rfl ?_ (hbroker.heard party p ?_)
      · cases party <;> exact hp
      · intro m hm
        rw [hout]
        exact List.mem_cons_of_mem _ hm
      · cases party <;> exact hp
    · intro ws m now' he
      obtain ⟨-, hm, -⟩ := BrokerEvent.frame.inj he
      obtain rfl := Except.ok.inj hm
      exact hwrote

theorem attributed_receive (h : Attributed E parent d) {party : Party} {p p' : Peer π}
    (hp : d.peer party = some p) (hr : p.receive d.broker = some p') :
    Attributed E parent (d.setPeer party p') := by
  obtain ⟨msg, hmsg, rfl⟩ := Option.map_eq_some_iff.1 hr
  obtain ⟨f, hf, hws, rfl⟩ := mem_inbound (List.mem_of_getElem? hmsg)
  refine attributed_setPeer h hp rfl (fun m hm => hm) fun m hm => ?_
  rcases p.bus.mem_listenQueue_dispatch f.frame hm with hm | ⟨hop, rfl⟩
  · exact h.heard party p hp m hm
  · exact ⟨hop, f, hf, hws, rfl⟩

/-- A step of a sub-agent. -/
theorem attributed_updateAgent (h : Attributed E parent d) {c : CallId}
    {f : Agent π → Option (Agent π)} (hf : ∀ a a', a.Attributes E.codec parent d.broker →
      f a = some a' → a'.Attributes E.codec parent d.broker)
    (hs : d.updateAgent c f = some d') : Attributed E parent d' := by
  obtain ⟨a, ha, hs⟩ := Option.bind_eq_some_iff.1 hs
  obtain ⟨a', ha', rfl⟩ := Option.map_eq_some_iff.1 hs
  have hpeer : d.peer (.agent c) = some a.peer := by simp [peer, ha]
  exact attributed_agent h (hf a a' ⟨h.outbox _ _ hpeer, h.heard _ _ hpeer,
    fun assign task => h.running c a assign task ha⟩ ha')

theorem attributed_step (hcodec : ∀ task, E.codec.validateAssign (E.codec.dumpAssign task) =
      .ok task) (h : Attributed E parent d) {e : DeploymentEvent π}
    (he : (∃ c id answer flush, e = .finish c id answer flush) ∨ e.wired parent = true)
    (hs : d.step E e = some d') : Attributed E parent d' := by
  cases e with
  | manager e =>
    refine attributed_manage h (he.resolve_left ?_) hs
    rintro ⟨c, id, answer, flush, heq⟩
    contradiction
  | attempt c id => exact attributed_attempt h hs
  | retry c =>
    obtain ⟨-, -, hs⟩ := Option.bind_eq_some_iff.1 hs
    obtain ⟨id, -, hs⟩ := Option.bind_eq_some_iff.1 hs
    split at hs
    · split_ifs at hs
      obtain rfl := Option.some.inj hs
      exact ⟨h.broker, h.named, h.ws, h.outbox, h.heard, h.calls, h.running⟩
    · contradiction
  | accept c =>
    obtain ⟨-, -, hs⟩ := Option.bind_eq_some_iff.1 hs
    obtain ⟨id, -, hs⟩ := Option.bind_eq_some_iff.1 hs
    split at hs
    · obtain ⟨m, hm, rfl⟩ := Option.map_eq_some_iff.1 hs
      exact attributed_manager h hm fun c task heq => by contradiction
    · contradiction
  | connect c ws => exact attributed_connect h hs
  | listen c id =>
    refine attributed_updateAgent h ?_ hs
    exact fun a a' ha => Agent.attributes_listen hcodec h.broker ha
  | finish c id answer flush =>
    exact attributed_updateAgent h (fun a a' ha => Agent.attributes_finish ha) hs
  | flushed c id =>
    exact attributed_updateAgent h (fun a a' ha => Agent.attributes_flushed ha) hs
  | exit c =>
    refine attributed_updateAgent h ?_ hs
    intro a a' ha heq
    obtain rfl := Option.some.inj heq
    exact ⟨ha.outbox, ha.heard, fun _ _ hphase => by contradiction⟩
  | read party now => exact attributed_read h hs
  | receive party =>
    obtain ⟨p, hp, hs⟩ := Option.bind_eq_some_iff.1 hs
    obtain ⟨p', hr, rfl⟩ := Option.map_eq_some_iff.1 hs
    exact attributed_receive h hp hr
  | broker e =>
    simp only [step, Option.ite_none_right_eq_some] at hs
    obtain ⟨hown, hs⟩ := hs
    obtain ⟨b, hb, rfl⟩ := Option.map_eq_some_iff.1 hs
    refine attributed_broker h hb ?_ d.deliveries
    rintro ws m now rfl
    contradiction

/-- No `audit.flush` is on the orchestrator's listen queue. -/
theorem not_flush_of_heard (h : Attributed E parent d) (hname : E.orchestratorId ≠ parent)
    {m : NMBMessage π} (hm : m ∈ d.orchestrator.bus.listenQueue) :
    m.type ≠ some MessageType.auditFlush.value := by
  intro htype
  have hheard := h.heard .orchestrator d.orchestrator rfl m hm
  rw [h.ws] at hheard
  obtain ⟨m₀, s, now, hwrote, rfl, hto⟩ := wrote_of_heard h.broker hheard htype
  obtain ⟨hop, hparent⟩ := hwrote.flush htype
  obtain ⟨t, ht, phase, hh⟩ := hto hop
  obtain rfl := Option.some.inj (hparent.symm.trans ht)
  obtain ⟨phase', hh'⟩ := h.named
  obtain ⟨heq, -⟩ := Handler.mk.inj (Option.some.inj (hh'.symm.trans hh))
  exact hname heq

theorem attributed_initial (E : DeploymentEnv π) (parent : String) :
    Attributed E parent (deploymentMachine E).init := by
  refine ⟨Broker.traffic_register, ⟨.recv, ?_⟩, rfl, ?_, ?_, fun c call hc => by contradiction,
    fun c a assign task ha => by contradiction⟩
  · simp only [deploymentMachine, Broker.handlers_register]
    exact AList.lookup_insert _
  · intro party p hp m hm
    cases party with
    | orchestrator =>
      obtain rfl := Option.some.inj hp
      contradiction
    | agent c => contradiction
  · intro party p hp m hm
    cases party with
    | orchestrator =>
      obtain rfl := Option.some.inj hp
      contradiction
    | agent c => contradiction

end Deployment

namespace AuditedDeployment

variable {π : Type} {W : WiringEnv π} {s s' : AuditedDeployment π}

/-- Nothing was ingested, and nothing that is on its way will be. -/
structure Unaudited (W : WiringEnv π) (s : AuditedDeployment π) : Prop where
  deployment : s.deployment.Attributed W.deployment W.parentSandboxId
  ingested : s.ingested = []

theorem unaudited_step (hcodec : ∀ task, W.codec.validateAssign (W.codec.dumpAssign task) =
      .ok task) (h : Unaudited W s) {e : AuditedEvent π} (hs : s.step W e = some s') :
    Unaudited W s' := by
  cases e with
  | run e =>
    simp only [step, Option.ite_none_right_eq_some] at hs
    obtain ⟨he, hs⟩ := hs
    obtain ⟨d, hd, rfl⟩ := Option.map_eq_some_iff.1 hs
    exact ⟨Deployment.attributed_step hcodec h.deployment (Or.inr he) hd, h.ingested⟩
  | record c uuid args =>
    obtain ⟨task, -, rfl⟩ := Option.map_eq_some_iff.1 hs
    unfold record
    split <;> exact ⟨h.deployment, h.ingested⟩
  | finish c id answer written =>
    obtain ⟨task, -, hs⟩ := Option.bind_eq_some_iff.1 hs
    obtain ⟨d, hd, rfl⟩ := Option.map_eq_some_iff.1 hs
    exact ⟨Deployment.attributed_step hcodec h.deployment (Or.inl ⟨_, _, _, _, rfl⟩) hd,
      h.ingested⟩
  | dispatch L =>
    simp only [step, dispatch] at hs
    split at hs
    · contradiction
    · rename_i msg rest hqueue
      have hnot : msg.type ≠ some MessageType.auditFlush.value :=
        Deployment.not_flush_of_heard h.deployment (busSandboxId_ne _ _)
          (hqueue ▸ List.mem_cons_self)
      rw [if_neg hnot] at hs
      obtain rfl := Option.some.inj hs
      have hd := h.deployment
      refine ⟨Deployment.attributed_orchestrator hd hd.ws
        (hd.outbox .orchestrator s.deployment.orchestrator rfl) ?_, h.ingested⟩
      intro m hm
      exact hd.heard .orchestrator s.deployment.orchestrator rfl m
        (hqueue ▸ List.mem_cons_of_mem _ hm)

theorem unaudited_run (hcodec : ∀ task, W.codec.validateAssign (W.codec.dumpAssign task) =
      .ok task) {tr : List (AuditedDeployment π × AuditedEvent π)}
    (h : (auditedMachine W).Trace tr s) : Unaudited W s :=
  h.invariant ⟨Deployment.attributed_initial W.deployment W.parentSandboxId, rfl⟩
    fun _ _ _ hu hs => unaudited_step hcodec hu hs

end AuditedDeployment

open AuditedDeployment

/-- No row that a sub-agent records is ever ingested, whatever happens next: the rows of a run get
to the database exactly if there are none. -/
theorem audit_rows_ingested_iff {π : Type} {W : WiringEnv π}
    (hcodec : ∀ task, W.codec.validateAssign (W.codec.dumpAssign task) = .ok task)
    {tr : List (AuditedDeployment π × AuditedEvent π)} {s : AuditedDeployment π}
    (h : (auditedMachine W).Trace tr s) :
    s.ingestedRows = [] ∧
    ((∀ item ∈ s.recorded, ∃ tr' s', (auditedMachine W).Trace (tr ++ tr') s' ∧
      item ∈ s'.ingestedRows) ↔ s.recorded = []) := by
  have hnone : ∀ {tr s}, (auditedMachine W).Trace tr s → s.ingestedRows = [] := by
    intro tr s h
    rw [ingestedRows, (unaudited_run hcodec h).ingested]
    rfl
  refine ⟨hnone h, ?_, ?_⟩
  · intro hall
    rw [List.eq_nil_iff_forall_not_mem]
    intro item hitem
    obtain ⟨tr', s', h', hrow⟩ := hall item hitem
    rw [hnone h'] at hrow
    contradiction
  · intro hempty item hitem
    rw [hempty] at hitem
    contradiction

/-- The wiring without a configured `nmb.sandbox_id`. -/
def plainWiring : WiringEnv WirePayload where
  broker := wireDeployment.broker
  codec := wireCodec
  suffix := "1a2b3c4d"

def editLogged : ToolCallArgs where
  service := "coding"
  command := "edit_file"
  args := "\x7b\x7d"
  operationType := .write
  durationMs := 12
  success := true

/-- A task with one tool call, whose `audit.flush` the broker refuses. -/
def bugFixLogged : List (AuditedEvent WirePayload) :=
  [.run (.manager (.delegate 0 fixBugTask)), .run (.manager (.call 0 .resumed)),
    .run (.connect 0 1), .run (.attempt 0 "m-1"), .run (.read .orchestrator 0),
    .run (.broker (.resume 0 .ok)), .run (.broker (.resume 0 .ok)), .run (.receive .orchestrator),
    .run (.accept 0), .run (.receive (.agent 0)), .run (.listen 0 "m-2"),
    .record 0 editCall.id editLogged, .finish 0 "m-3" (.complete fixBugResult) true,
    .run (.read (.agent 0) 1), .run (.broker (.resume 1 .ok)), .run (.receive (.agent 0)),
    .run (.flushed 0 "m-4"), .run (.read (.agent 0) 2)]

theorem audit_rows_ingested_iff_bugFixLogged : ∃ tr s, (auditedMachine plainWiring).Trace tr s ∧
    s.recorded.length = 1 ∧ s.ingestedRows = [] := by
  obtain ⟨tr, s, h, -, hrecorded⟩ := Machine.Trace.of_check (M := auditedMachine plainWiring)
    bugFixLogged (p := fun _ s => decide (s.recorded.length = 1)) (by decide)
  exact ⟨tr, s, h, of_decide_eq_true hrecorded, (audit_rows_ingested_iff (fun _ => rfl) h).1⟩

/-- The row of the task is lost. -/
theorem audit_rows_lost : ¬ ∀ tr s, (auditedMachine plainWiring).Trace tr s →
    ∀ item ∈ s.recorded, ∃ tr' s', (auditedMachine plainWiring).Trace (tr ++ tr') s' ∧
      item ∈ s'.ingestedRows := by
  intro hall
  obtain ⟨tr, s, h, -, hrecorded⟩ := Machine.Trace.of_check (M := auditedMachine plainWiring)
    bugFixLogged (p := fun _ s => decide (s.recorded.length = 1)) (by decide)
  obtain ⟨item, hitem⟩ := List.length_pos_iff_exists_mem.1
    (Nat.lt_of_lt_of_eq Nat.zero_lt_one (of_decide_eq_true hrecorded).symm)
  obtain ⟨tr', s', h', hrow⟩ := hall tr s h item hitem
  rw [ingestedRows, (unaudited_run (fun _ => rfl) h').ingested] at hrow
  contradiction

end NemoClaw
