import NemoClaw.Nmb.Deliveries
import NemoClaw.Orchestrator.Calls
import NemoClaw.System.Deployment

/-! The way of an assignment: the part of a deployment that decides which websocket it is delivered
to and what the manager takes for its ACK, and what each kind of step does to that part. -/

namespace NemoClaw

open Lib

/-- What decides where assignments go: the broker, the orchestrator's connection, the calls and the
websockets of their processes. -/
structure Wires (π : Type) where
  broker : Broker π
  ws : Ws
  outbox : List (NMBMessage π)
  acks : Dict String (FutureState Unit)
  calls : Dict CallId DelegateCall
  attempts : Dict CallId String
  ids : List String
  accepted : Dict CallId String
  deliveries : List (String × Ws)
  socket : CallId → Option Ws

namespace Wires

variable {π : Type} {E : BrokerEnv π} {x : Wires π}

/-- The broker has delivered the message to someone. -/
def Delivered (x : Wires π) (id : String) : Prop := ∃ ws, (id, ws) ∈ x.deliveries

/-- The websocket is that of the process of the call, and no rejected duplicate. -/
def Reaches (x : Wires π) (c : CallId) (ws : Ws) : Prop :=
  x.socket c = some ws ∧ ws ∉ x.broker.rejecting

/-- The call, for an agent id, waits for the ACK of a message. -/
def Awaits (x : Wires π) (c : CallId) (agentId id : String) : Prop :=
  ∃ task agent, x.calls.lookup c = some ⟨task, .sending agent⟩ ∧ task.agentId.val = agentId ∧
    x.attempts.lookup c = some id

/-- What holds in every run: an ACK to the orchestrator is for a message that was delivered, and no
message is read twice. -/
structure Wired (x : Wires π) : Prop where
  ws : x.ws = orchestratorWs
  sockets : ∀ c ws, x.socket c = some ws →
    ws ≠ orchestratorWs ∧ x.broker.handlers.lookup ws ≠ none
  registry : x.broker.Registry
  notices : x.broker.NoticesDeliver
  handler : ∃ s phase, x.broker.handlers.lookup orchestratorWs = some ⟨s, phase⟩ ∧
    Broker.Sends x.Delivered phase
  acked : ∀ f ∈ x.broker.sent, f.ws = orchestratorWs → f.frame.op = .ack → x.Delivered f.frame.id
  result : ∀ id, x.acks.lookup id = some (.result ()) → x.Delivered id
  outbox : ∀ m ∈ x.outbox, m.op = .send ∧ m.id ∈ x.ids ∧ ¬ x.Delivered m.id
  nodup : (x.outbox.map NMBMessage.id).Nodup
  known : ∀ id, x.Delivered id → id ∈ x.ids
  holds : ∀ c call, x.calls.lookup c = some call → call.phase.Holds call.task.agentId.val
  begun : ∀ c id, x.attempts.lookup c = some id → id ∈ x.ids ∧
    ∃ call, x.calls.lookup c = some call ∧ call.phase.preparing = false
  addressed : ∀ c agentId id, x.Awaits c agentId id →
    ∀ m ∈ x.outbox, m.id = id → m.toSandbox = some agentId

/-- What holds as long as an agent id belongs to the process of the call that sends to it. -/
structure Owned (x : Wires π) : Prop where
  own : ∀ c agentId id, x.Awaits c agentId id →
    ∀ ws, x.broker.connections.lookup agentId = some ws → x.socket c = some ws
  reaches : ∀ c agentId id, x.Awaits c agentId id →
    ∀ ws, (id, ws) ∈ x.deliveries → x.Reaches c ws
  accepted : ∀ c id, x.accepted.lookup c = some id →
    x.Delivered id ∧ ∀ ws, (id, ws) ∈ x.deliveries → x.Reaches c ws
  returned : ∀ c task, x.calls.lookup c = some ⟨task, .returned⟩ → x.accepted.lookup c ≠ none

/-! ### Steps of the calls -/

/-- The calls go on, and none begins to await an ACK. -/
structure GoesOn (x : Wires π) (calls : Dict CallId DelegateCall)
    (attempts : Dict CallId String) : Prop where
  holds : ∀ c call, calls.lookup c = some call → call.phase.Holds call.task.agentId.val
  kept : ∀ c id, attempts.lookup c = some id → x.attempts.lookup c = some id
  begun : ∀ c call, x.calls.lookup c = some call → call.phase.preparing = false →
    ∃ call', calls.lookup c = some call' ∧ call'.phase.preparing = false
  sending : ∀ c task agent, calls.lookup c = some ⟨task, .sending agent⟩ →
    attempts.lookup c ≠ none → x.calls.lookup c = some ⟨task, .sending agent⟩

variable {calls : Dict CallId DelegateCall} {attempts accepted : Dict CallId String}

theorem goesOn_refl (hw : Wired x) : GoesOn x x.calls x.attempts :=
  ⟨hw.holds, fun _ _ => id, fun _ call hc hp => ⟨call, hc, hp⟩, fun _ _ _ h _ => h⟩

theorem goesOn_calls (hw : Wired x) {m m' : DelegationManager} {e : DelegationEvent}
    (h : m.CallsStep m' e) (hm : m.calls = x.calls) : GoesOn x m'.calls x.attempts := by
  cases h with
  | same hcalls =>
    rw [hcalls, hm]
    exact goesOn_refl hw
  | @began c task new hc hcalls hholds hsending hreturned =>
    rw [hm] at hc hcalls
    rw [hcalls]
    refine ⟨?_, fun _ _ => id, ?_, ?_⟩
    · intro c' call h
      rcases Dict.lookup_insert_eq_some.1 h with ⟨-, rfl⟩ | ⟨-, h⟩
      · exact hholds
      · exact hw.holds c' call h
    · intro c' call h hp
      have hne : c' ≠ c := by
        intro heq
        subst heq
        cases hc.symm.trans h
      exact ⟨call, (AList.lookup_insert_ne hne).trans h, hp⟩
    · intro c' task' agent h _
      rcases Dict.lookup_insert_eq_some.1 h with ⟨-, he⟩ | ⟨-, h⟩
      · exact absurd (DelegateCall.mk.inj he).2 (hsending agent)
      · exact h
  | @moved c r task old new hc hcalls hphase =>
    rw [hm] at hc hcalls
    rw [hcalls]
    refine ⟨?_, fun _ _ => id, ?_, ?_⟩
    · intro c' call h
      rcases Dict.lookup_insert_eq_some.1 h with ⟨-, rfl⟩ | ⟨-, h⟩
      · exact hphase.holds (hw.holds c _ hc)
      · exact hw.holds c' call h
    · intro c' call h hp
      by_cases he : c' = c
      · subst he
        obtain rfl := Option.some.inj (hc.symm.trans h)
        refine ⟨_, AList.lookup_insert x.calls, ?_⟩
        by_contra hnew
        cases hp.symm.trans (hphase.preparing (Bool.not_eq_false _ ▸ hnew))
      · exact ⟨call, (AList.lookup_insert_ne he).trans h, hp⟩
    · intro c' task' agent h hid
      rcases Dict.lookup_insert_eq_some.1 h with ⟨rfl, he⟩ | ⟨-, h⟩
      · -- a call that begins to send awaits no ACK yet
        obtain ⟨id, hid⟩ := Option.ne_none_iff_exists'.1 hid
        obtain ⟨-, call, hcall, hp⟩ := hw.begun c' id hid
        obtain rfl := Option.some.inj (hc.symm.trans hcall)
        cases hp.symm.trans (hphase.sending agent (DelegateCall.mk.inj he).2)
      · exact h

theorem GoesOn.erase (h : GoesOn x calls attempts) (c : CallId) :
    GoesOn x calls (attempts.erase c) := by
  have hkept : ∀ c' id, (attempts.erase c).lookup c' = some id → attempts.lookup c' = some id :=
    fun c' id hid => (Dict.lookup_erase_eq_some.1 hid).2
  refine { h with
    kept := fun c' id hid => h.kept c' id (hkept c' id hid)
    sending := ?_ }
  intro c' task agent hc hid
  obtain ⟨id, hid⟩ := Option.ne_none_iff_exists'.1 hid
  refine h.sending c' task agent hc ?_
  rw [hkept c' id hid]
  exact Option.some_ne_none id

theorem GoesOn.awaits (h : GoesOn x calls attempts) {c : CallId} {agentId id : String}
    (ha : Awaits { x with
      calls := calls, attempts := attempts, accepted := accepted } c agentId id) :
    x.Awaits c agentId id := by
  obtain ⟨task, agent, hc, hagent, hid⟩ := ha
  refine ⟨task, agent, h.sending c task agent hc ?_, hagent, h.kept c id hid⟩
  rw [hid]
  exact Option.some_ne_none id

theorem wired_goesOn (hw : Wired x) (h : GoesOn x calls attempts) :
    Wired { x with calls := calls, attempts := attempts, accepted := accepted } := by
  refine { hw with
    holds := h.holds
    begun := ?_
    addressed := fun c agentId id ha => hw.addressed c agentId id (h.awaits ha) }
  intro c id hid
  obtain ⟨hmem, call, hc, hp⟩ := hw.begun c id (h.kept c id hid)
  exact ⟨hmem, h.begun c call hc hp⟩

/-- A call may return upon a message that it awaited and that was delivered. -/
theorem owned_goesOn (ho : Owned x) (h : GoesOn x calls attempts)
    (haccepted : ∀ c id, accepted.lookup c = some id → x.accepted.lookup c = some id ∨
      ∃ agentId, x.Awaits c agentId id ∧ x.Delivered id)
    (hreturned : ∀ c task, calls.lookup c = some ⟨task, .returned⟩ → accepted.lookup c ≠ none) :
    Owned { x with calls := calls, attempts := attempts, accepted := accepted } := by
  refine ⟨fun c agentId id ha => ho.own c agentId id (h.awaits ha),
    fun c agentId id ha => ho.reaches c agentId id (h.awaits ha), ?_, hreturned⟩
  intro c id hid
  rcases haccepted c id hid with hold | ⟨agentId, ha, hdelivered⟩
  · exact ho.accepted c id hold
  · exact ⟨hdelivered, ho.reaches c agentId id ha⟩

/-! ### Messages -/

/-- The orchestrator writes an assignment. -/
def assign (x : Wires π) (c : CallId) (id target : String) (payload : π) : Wires π :=
  { x with
    outbox := x.outbox ++ [sendMessage id target MessageType.taskAssign.value payload]
    acks := x.acks.insert id .pending
    attempts := x.attempts.insert c id
    ids := id :: x.ids }

variable {c : CallId} {task : TaskAssignPayload} {agent : SpawnedAgent} {id : String} {payload : π}

theorem awaits_assign (hc : x.calls.lookup c = some ⟨task, .sending agent⟩) {target : String}
    {c' : CallId} {agentId id' : String}
    (ha : (x.assign c id target payload).Awaits c' agentId id') :
    c' = c ∧ agentId = task.agentId.val ∧ id' = id ∨ x.Awaits c' agentId id' := by
  obtain ⟨task', agent', hc', hagent, hid⟩ := ha
  rcases Dict.lookup_insert_eq_some.1 hid with ⟨rfl, rfl⟩ | ⟨-, hid⟩
  · obtain ⟨rfl, -⟩ := DelegateCall.mk.inj (Option.some.inj (hc'.symm.trans hc))
    exact Or.inl ⟨rfl, hagent.symm, rfl⟩
  · exact Or.inr ⟨task', agent', hc', hagent, hid⟩

theorem wired_assign (hw : Wired x) (hc : x.calls.lookup c = some ⟨task, .sending agent⟩)
    (hid : id ∉ x.ids) : Wired (x.assign c id agent.sandboxId payload) := by
  have hfresh : ¬ x.Delivered id := fun hd => hid (hw.known id hd)
  have hother : ∀ m ∈ x.outbox, m.id ≠ id := by
    intro m hm heq
    subst heq
    exact hid (hw.outbox m hm).2.1
  refine { hw with
    result := ?_
    outbox := ?_
    nodup := ?_
    known := fun id' hd => List.mem_cons_of_mem _ (hw.known id' hd)
    begun := ?_
    addressed := ?_ }
  · intro id' hr
    rcases Dict.lookup_insert_eq_some.1 hr with ⟨-, hp⟩ | ⟨-, hr⟩
    · contradiction
    · exact hw.result id' hr
  · intro m hm
    rcases List.mem_append.1 hm with hm | hm
    · obtain ⟨hop, hmem, hd⟩ := hw.outbox m hm
      exact ⟨hop, List.mem_cons_of_mem _ hmem, hd⟩
    · obtain rfl := List.mem_singleton.1 hm
      exact ⟨rfl, List.mem_cons_self, hfresh⟩
  · simp only [assign, List.map_append, List.map_cons, List.map_nil]
    refine List.nodup_append.2 ⟨hw.nodup, List.nodup_singleton _, ?_⟩
    intro a ha b hb
    obtain ⟨m, hm, rfl⟩ := List.mem_map.1 ha
    obtain rfl := List.mem_singleton.1 hb
    exact hother m hm
  · intro c' id' h
    rcases Dict.lookup_insert_eq_some.1 h with ⟨rfl, rfl⟩ | ⟨-, h⟩
    · exact ⟨List.mem_cons_self, _, hc, rfl⟩
    · obtain ⟨hmem, hcall⟩ := hw.begun c' id' h
      exact ⟨List.mem_cons_of_mem _ hmem, hcall⟩
  · intro c' agentId id' ha m hm hmid
    rcases awaits_assign hc ha with ⟨-, rfl, rfl⟩ | ha
    · rcases List.mem_append.1 hm with hm | hm
      · exact absurd hmid (hother m hm)
      · obtain rfl := List.mem_singleton.1 hm
        exact congrArg some (hw.holds c _ hc)
    · rcases List.mem_append.1 hm with hm | hm
      · exact hw.addressed c' agentId id' ha m hm hmid
      · obtain rfl := List.mem_singleton.1 hm
        obtain ⟨-, -, -, -, hatt⟩ := ha
        obtain rfl : id = id' := hmid
        exact absurd (hw.begun c' id hatt).1 hid

theorem owned_assign (hw : Wired x) (ho : Owned x)
    (hc : x.calls.lookup c = some ⟨task, .sending agent⟩) (hid : id ∉ x.ids)
    (hown : ∀ ws, x.broker.connections.lookup task.agentId.val = some ws → x.socket c = some ws) :
    Owned (x.assign c id agent.sandboxId payload) := by
  refine ⟨?_, ?_, ho.accepted,
    ho.returned⟩
  · intro c' agentId id' ha ws hws
    rcases awaits_assign hc ha with ⟨rfl, rfl, -⟩ | ha
    · exact hown ws hws
    · exact ho.own c' agentId id' ha ws hws
  · intro c' agentId id' ha ws hws
    rcases awaits_assign hc ha with ⟨-, -, rfl⟩ | ha
    · exact absurd (hw.known id' ⟨ws, hws⟩) hid
    · exact ho.reaches c' agentId id' ha ws hws

/-- The orchestrator's receive loop settles an ACK. -/
theorem wired_settle (hw : Wired x) {acks : Dict String (FutureState Unit)}
    (hacks : ∀ id, acks.lookup id = some (.result ()) → x.Delivered id) :
    Wired { x with acks := acks } :=
  { hw with result := hacks }

/-! ### Steps of the broker -/

section

variable {b : Broker π} {e : BrokerEvent π} {socket : CallId → Option Ws}

theorem wired_broker (hw : Wired x) (h : x.broker.step E e = some b)
    (hsockets : ∀ c ws, socket c = some ws → x.socket c = some ws ∨
      ws ≠ orchestratorWs ∧ b.handlers.lookup ws ≠ none)
    (hhandler : ∃ s phase, b.handlers.lookup orchestratorWs = some ⟨s, phase⟩ ∧
      Broker.Sends x.Delivered phase)
    (hsent : ∃ new, b.sent = x.broker.sent ++ new ∧ ∀ f ∈ new, f.ws = orchestratorWs →
      f.frame.op = .ack → x.Delivered f.frame.id) :
    Wired { x with broker := b, socket := socket } := by
  obtain ⟨new, hsent, hnew⟩ := hsent
  refine { hw with
    sockets := ?_
    registry := Broker.registry_step hw.registry h
    notices := Broker.noticesDeliver_step hw.notices h
    handler := hhandler
    acked := ?_ }
  · intro c ws hs
    rcases hsockets c ws hs with hs | hs
    · exact ⟨(hw.sockets c ws hs).1, Broker.handlers_step h (hw.sockets c ws hs).2⟩
    · exact hs
  · intro f hf
    rcases List.mem_append.1 (hsent ▸ hf) with hf | hf
    · exact hw.acked f hf
    · exact hnew f hf

/-- A step of the broker in which the orchestrator's connection takes no part. -/
theorem wired_others (hw : Wired x) (h : x.broker.step E e = some b)
    (he : e.socket ≠ some orchestratorWs) (hsockets : ∀ c ws, socket c = some ws →
      x.socket c = some ws ∨ ws ≠ orchestratorWs ∧ b.handlers.lookup ws ≠ none) :
    Wired { x with broker := b, socket := socket } := by
  obtain ⟨s, phase, hh, hphase⟩ := hw.handler
  obtain ⟨hh', new, hsent, hnew⟩ := Broker.others_step hw.notices h hh he
  exact wired_broker hw h hsockets ⟨s, phase, hh', hphase⟩
    ⟨new, hsent, fun f hf hws hop => absurd hop (hnew f hf hws)⟩

/-- The orchestrator's handler goes on. -/
theorem wired_resume (hw : Wired x) {r : SendResult}
    (h : x.broker.step E (.resume orchestratorWs r) = some b) :
    Wired { x with broker := b } := by
  obtain ⟨s, phase, hh, hphase⟩ := hw.handler
  obtain ⟨⟨phase', hh', hphase'⟩, new, hsent, hnew⟩ := Broker.resume_sends hh hphase h
  exact wired_broker hw h (fun _ _ hs => Or.inl hs) ⟨s, phase', hh', hphase'⟩
    ⟨new, hsent, fun f hf _ hop => hnew f hf hop⟩

theorem owned_broker (ho : Owned x) (h : x.broker.step E e = some b)
    (he : ∀ ws s, e ≠ .connect ws s) : Owned { x with broker := b } := by
  obtain ⟨hconn, hrej⟩ := Broker.connections_step h he
  have hreaches : ∀ c ws, x.Reaches c ws → Reaches { x with broker := b } c ws :=
    fun c ws hr => ⟨hr.1, hrej ▸ hr.2⟩
  refine ⟨fun c agentId id ha ws hws => ho.own c agentId id ha ws (hconn agentId ws hws),
    fun c agentId id ha ws hws => hreaches c ws (ho.reaches c agentId id ha ws hws),
    ?_, ho.returned⟩
  intro c id hid
  obtain ⟨hd, hr⟩ := ho.accepted c id hid
  exact ⟨hd, fun ws hws => hreaches c ws (hr ws hws)⟩

/-- A process connects under an agent id that no other call sends to. -/
theorem owned_connect (hw : Wired x) (ho : Owned x) {s : String} {ws : Ws} {c : CallId}
    (h : x.broker.step E (.connect ws s) = some b) (hc : x.socket c = none)
    (hfree : x.broker.connections.lookup s = none → ∀ c' id, x.Awaits c' s id → c' = c)
    (hsocket : socket c = some ws) (hothers : ∀ c', c' ≠ c → socket c' = x.socket c') :
    Owned { x with broker := b, socket := socket } := by
  obtain ⟨hnew, rfl⟩ := Broker.connect_step h
  have hkept : ∀ c' ws', x.socket c' = some ws' → socket c' = some ws' := by
    intro c' ws' hs
    rw [hothers c' ?_]
    · exact hs
    · intro heq
      subst heq
      cases hc.symm.trans hs
  have hreaches : ∀ c' ws', x.Reaches c' ws' →
      Reaches { x with broker := x.broker.register s ws, socket := socket } c' ws' := by
    rintro c' ws' ⟨hs, hr⟩
    refine ⟨hkept c' ws' hs, ?_⟩
    cases hfree' : x.broker.connections.lookup s with
    | none => exact (Broker.register_of_free hfree').2.2 ▸ hr
    | some ws₀ =>
      rw [Broker.register_of_taken (by simp [hfree'])]
      intro hmem
      rcases List.mem_cons.1 hmem with rfl | hmem
      · exact (hw.sockets c' ws' hs).2 hnew
      · exact hr hmem
  refine ⟨?_,
    fun c' agentId id ha ws' hws => hreaches c' ws' (ho.reaches c' agentId id ha ws' hws),
    ?_, ho.returned⟩
  · intro c' agentId id ha ws' hws
    cases hfree' : x.broker.connections.lookup s with
    | none =>
      have hws : (x.broker.register s ws).connections.lookup agentId = some ws' := hws
      rw [(Broker.register_of_free hfree').1] at hws
      rcases Dict.lookup_insert_eq_some.1 hws with ⟨rfl, rfl⟩ | ⟨-, hws⟩
      · obtain rfl := hfree hfree' c' id ha
        exact hsocket
      · exact hkept c' ws' (ho.own c' agentId id ha ws' hws)
    | some ws₀ =>
      have hws : (x.broker.register s ws).connections.lookup agentId = some ws' := hws
      rw [Broker.register_of_taken (by simp [hfree'])] at hws
      exact hkept c' ws' (ho.own c' agentId id ha ws' hws)
  · intro c' id hid
    obtain ⟨hd, hr⟩ := ho.accepted c' id hid
    exact ⟨hd, fun ws' hws => hreaches c' ws' (hr ws' hws)⟩

end

/-! ### Deliveries -/

/-- The broker reads the first message of the orchestrator, and delivers it to these websockets. -/
def delivered (x : Wires π) (b : Broker π) (m : NMBMessage π) (rest : List (NMBMessage π))
    (targets : List Ws) : Wires π :=
  { x with
    broker := b
    outbox := rest
    deliveries := x.deliveries ++ targets.map fun ws => (m.id, ws) }

section

variable {b : Broker π} {m : NMBMessage π} {rest : List (NMBMessage π)} {targets : List Ws}
  {now : ℚ}

theorem mem_deliveries {id : String} {ws : Ws} :
    (id, ws) ∈ (x.delivered b m rest targets).deliveries ↔
      (id, ws) ∈ x.deliveries ∨ id = m.id ∧ ws ∈ targets := by
  simp only [delivered, List.mem_append, List.mem_map, Prod.mk.injEq]
  refine or_congr_right ⟨?_, ?_⟩
  · intro hex
    obtain ⟨ws', hws, rfl, rfl⟩ := hex
    exact ⟨rfl, hws⟩
  · intro hex
    obtain ⟨rfl, hws⟩ := hex
    exact ⟨ws, hws, rfl, rfl⟩

theorem delivered_mono {id : String} (hd : x.Delivered id) :
    (x.delivered b m rest targets).Delivered id := by
  obtain ⟨ws, hws⟩ := hd
  exact ⟨ws, mem_deliveries.2 (Or.inl hws)⟩

theorem delivered_cases {id : String} (hd : (x.delivered b m rest targets).Delivered id) :
    x.Delivered id ∨ id = m.id := by
  obtain ⟨ws, hws⟩ := hd
  rcases mem_deliveries.1 hws with hws | ⟨rfl, -⟩
  · exact Or.inl ⟨ws, hws⟩
  · exact Or.inr rfl

theorem wired_delivered (hw : Wired x) (hout : x.outbox = m :: rest) {e : BrokerEvent π}
    (h : x.broker.step E e = some b)
    (hhandler : ∃ s phase, b.handlers.lookup orchestratorWs = some ⟨s, phase⟩ ∧
      Broker.Sends (x.delivered b m rest targets).Delivered phase)
    (hsent : ∃ new, b.sent = x.broker.sent ++ new ∧ ∀ f ∈ new, f.frame.op ≠ .ack) :
    Wired (x.delivered b m rest targets) := by
  obtain ⟨new, hsent, hnew⟩ := hsent
  have hnodup := hw.nodup
  rw [hout, List.map_cons, List.nodup_cons] at hnodup
  have hmem : ∀ m' ∈ rest, m' ∈ x.outbox := by
    intro m' hm'
    rw [hout]
    exact List.mem_cons_of_mem _ hm'
  refine { hw with
    sockets := fun c ws hs =>
      ⟨(hw.sockets c ws hs).1, Broker.handlers_step h (hw.sockets c ws hs).2⟩
    registry := Broker.registry_step hw.registry h
    notices := Broker.noticesDeliver_step hw.notices h
    handler := hhandler
    acked := ?_
    result := fun id hr => delivered_mono (hw.result id hr)
    outbox := ?_
    nodup := hnodup.2
    known := ?_
    addressed := fun c agentId id ha m' hm' => hw.addressed c agentId id ha m' (hmem m' hm') }
  · intro f hf hws hop
    rcases List.mem_append.1 (hsent ▸ hf) with hf | hf
    · exact delivered_mono (hw.acked f hf hws hop)
    · exact absurd hop (hnew f hf)
  · intro m' hm'
    obtain ⟨hop, hid, hd⟩ := hw.outbox m' (hmem m' hm')
    refine ⟨hop, hid, ?_⟩
    intro hd'
    rcases delivered_cases hd' with hd' | hsame
    · exact hd hd'
    · exact hnodup.1 (hsame ▸ List.mem_map_of_mem hm')
  · intro id hd
    rcases delivered_cases hd with hd | rfl
    · exact hw.known id hd
    · exact (hw.outbox m (hout ▸ List.mem_cons_self)).2.1

theorem owned_delivered (hw : Wired x) (ho : Owned x) (hout : x.outbox = m :: rest)
    {raw : Except String (NMBMessage π)} {ws₀ : Ws}
    (h : x.broker.step E (.frame ws₀ raw now) = some b)
    (htargets : ∀ ws ∈ targets, ∃ target, m.toSandbox = some target ∧
      x.broker.connections.lookup target = some ws) :
    Owned (x.delivered b m rest targets) := by
  obtain ⟨hconn, hrej⟩ := Broker.connections_step h (fun _ _ he => by contradiction)
  have hm : m ∈ x.outbox := hout ▸ List.mem_cons_self
  have hreaches : ∀ c ws, x.Reaches c ws → (x.delivered b m rest targets).Reaches c ws :=
    fun c ws hr => ⟨hr.1, hrej ▸ hr.2⟩
  refine ⟨fun c agentId id ha ws hws => ho.own c agentId id ha ws (hconn agentId ws hws),
    fun c agentId id ha ws hws => hreaches c ws ?_, ?_, ho.returned⟩
  · rcases mem_deliveries.1 hws with hws | ⟨rfl, htarget⟩
    · exact ho.reaches c agentId id ha ws hws
    · obtain ⟨target, ht, hc⟩ := htargets ws htarget
      obtain rfl := Option.some.inj (ht.symm.trans (hw.addressed c agentId m.id ha m hm rfl))
      exact ⟨ho.own c target m.id ha ws hc, (hw.registry.known target ws hc).1⟩
  · intro c id hid
    obtain ⟨hd, hr⟩ := ho.accepted c id hid
    refine ⟨delivered_mono hd, fun ws hws => hreaches c ws ?_⟩
    rcases mem_deliveries.1 hws with hws | ⟨rfl, -⟩
    · exact hr ws hws
    · exact absurd hd (hw.outbox m hm).2.2

end

end Wires

end NemoClaw
