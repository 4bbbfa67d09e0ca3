import NemoClaw.Lib.Observers
import NemoClaw.Nmb.Confinement
import NemoClaw.Nmb.DeliveryQueues
import NemoClaw.Nmb.Ordering

/-! The way of a message from the client that writes it to the client that listens: the pipe of the
writer, the broker, the websocket of the listener, its receive loop and its queues. The network goes
on as it likes, and so do the writer and the listener. -/

namespace NemoClaw

open Lib Broker

/-- A client at its end of a websocket. -/
structure Mailbox (π : Type) (listenSize channelSize : ℕ+) where
  bus : DeliveryBus π listenSize channelSize := (deliveryMachine π listenSize channelSize).init
  /-- the number of frames of the broker that the receive loop has taken -/
  received : ℕ := 0

inductive MailboxEvent (π : Type)
  /-- the receive loop takes the next frame -/
  | receive
  /-- the client goes on -/
  | client (e : DeliveryEvent π)

/-- The frames that the broker put on a websocket. -/
def Broker.inbox {π : Type} (b : Broker π) (ws : Ws) : List (NMBMessage π) :=
  (b.sent.filter fun f => decide (f.ws = ws)).map SentFrame.frame

namespace Mailbox

variable {π : Type} {listenSize channelSize : ℕ+}

/-- `_dispatch`, as far as the queues and the requests go. -/
def dispatch (bus : DeliveryBus π listenSize channelSize) (msg : NMBMessage π) :
    Option (DeliveryBus π listenSize channelSize) :=
  match msg.op with
  | .deliver => bus.step (.deliver msg)
  | .error | .timeout => bus.step (.failed msg.id)
  | _ => some bus

def step (ws : Ws) (network : Piped (Broker π) Ws (Except String (NMBMessage π)))
    (box : Mailbox π listenSize channelSize) :
    MailboxEvent π → Option (Mailbox π listenSize channelSize)
  | .receive => (network.state.inbox ws)[box.received]?.bind fun msg =>
      (dispatch box.bus msg).map fun bus => ⟨bus, box.received + 1⟩
  | .client (.deliver _) => none
  | .client e => (box.bus.step e).map fun bus => { box with bus := bus }

end Mailbox

/-- The network and the client behind one of its websockets. -/
def mailboxMachine {π : Type} (E : BrokerEnv π) (ws : Ws) (listenSize channelSize : ℕ+) :
    Machine (Piped (Broker π) Ws (Except String (NMBMessage π)) ×
        Mailbox π listenSize channelSize)
      (PipedEvent Ws (Except String (NMBMessage π)) ℚ (BrokerEvent π) ⊕ MailboxEvent π) :=
  (networkMachine E).beside {} (Mailbox.step ws)

/-- A message of `s` that is delivered to its target, neither published nor a reply. -/
def directFrom {π : Type} (s : String) (m : NMBMessage π) : Bool :=
  decide (m.op = .deliver ∧ m.fromSandbox = some s ∧ m.replyTo = none ∧ m.channel = none)

namespace Broker

variable {π : Type} {E : BrokerEnv π} {b b' : Broker π} {e : BrokerEvent π}

/-! ### The frames of a websocket -/

/-- A fan-out is of a published message, or a notice of the broker. -/
structure Fanouts (b : Broker π) : Prop where
  published : ∀ ws s m left, b.handlers.lookup ws = some ⟨s, .publishFanout m left⟩ →
    m.channel ≠ none
  notice : ∀ ws s f left, b.handlers.lookup ws = some ⟨s, .shutdownFanout f left⟩ →
    f.fromSandbox = some "system"

theorem fanouts_step (hb : Fanouts b) (h : b.step E e = some b') : Fanouts b' := by
  constructor
  · intro ws s m left hh
    cases phase_step h hh with
    | before hold => exact hb.published ws s m left hold
    | opened hp => contradiction
    | ended hp => simp at hp
    | served hold ho =>
      cases ho with
      | forward _ _ _ hp => simp at hp
      | publish hop hc =>
        have hchannel := (truthy_eq_some.1 hc).1
        intro hnone
        cases hnone.symm.trans hchannel
      | fanout ht => exact hb.published _ _ _ _ hold
      | quiet hp => simp at hp
  · intro ws s f left hh
    cases phase_step h hh with
    | before hold => exact hb.notice ws s f left hold
    | opened hp => contradiction
    | ended hp =>
      rcases hp with hp | hp | ⟨msgId, now, left', hp⟩
      · contradiction
      · contradiction
      · obtain ⟨rfl, -⟩ := Phase.shutdownFanout.inj hp
        rfl
    | served hold ho =>
      cases ho with
      | forward _ _ _ hp => simp at hp
      | notice ht => exact hb.notice _ _ _ _ hold
      | quiet hp => simp at hp

/-- No fan-out and no reply is a direct message. -/
theorem indirect_step {s : String} (hs : s ≠ "system") (hb : Fanouts b)
    (h : b.step E e = some b') (hi : e.indirect = true) :
    ∀ f ∈ writes E (b, e), directFrom s f.frame = false := by
  have hnot : ∀ {f : NMBMessage π}, (f.op = .deliver → f.fromSandbox = some s →
      f.replyTo = none → f.channel = none → False) → directFrom s f = false := fun hf =>
    decide_eq_false fun hd => hf hd.1 hd.2.1 hd.2.2.1 hd.2.2.2
  cases route_step h with
  | connected | disconnected => contradiction
  | fired he hc hw hr hh hsent hf =>
    rw [writes_eq h hsent]
    intro f hmem
    exact hnot fun hop _ _ _ => by cases (hf f hmem).symm.trans hop
  | served he hh hserved ho =>
    rw [writes_eq h hserved.sent]
    intro f hmem
    cases ho with
    | acked ho hf | refused ho hf =>
      obtain rfl := List.mem_singleton.1 hmem
      exact hnot fun hop _ _ _ => by cases hf.symm.trans hop
    | forward hop =>
      have hreply := of_decide_eq_true hi
      rcases hop with hop | hop | hop <;> cases hop.symm.trans hreply
    | reply hop hrid =>
      obtain rfl := List.mem_singleton.1 hmem
      exact hnot fun _ _ hreply _ => by cases hrid.symm.trans hreply
    | publish => contradiction
    | fanout ht =>
      obtain rfl := List.mem_singleton.1 hmem
      exact hnot fun _ _ _ hchannel => hb.published _ _ _ _ hh hchannel
    | notice ht =>
      obtain rfl := List.mem_singleton.1 hmem
      exact hnot fun _ hfrom _ _ =>
        hs (Option.some.inj (hfrom.symm.trans (hb.notice _ _ _ _ hh)))
    | quiet => contradiction

theorem fanouts_run {tr : List (Broker π × BrokerEvent π)} (h : (brokerMachine E).Trace tr b) :
    Machine.Always Fanouts tr b := by
  refine h.always_of_invariant ⟨?_, ?_⟩ fun _ _ _ hb hs => fanouts_step hb hs
  · intro ws s m left hh
    contradiction
  · intro ws s f left hh
    contradiction

/-- The direct messages on a websocket are those that the broker delivered to it. -/
theorem inbox_direct {s : String} (ws : Ws) (hs : s ≠ "system")
    {tr : List (Broker π × BrokerEvent π)} (h : (brokerMachine E).Trace tr b) :
    (b.inbox ws).filter (directFrom s) = (deliveries E s ws tr).filter (directFrom s) := by
  have hfan := (fanouts_run h).1
  rw [inbox, sent_eq_writes h, deliveries, List.filter_flatMap, List.map_flatMap,
    List.filter_flatMap, List.filter_flatMap]
  refine List.flatMap_congr ?_
  intro p hp
  obtain ⟨pre, -, -, b', hstep⟩ := h.prefix_of_mem hp
  by_cases hi : p.2.indirect = true
  · rw [if_pos hi, List.filter_nil, List.filter_eq_nil_iff]
    intro m hm
    obtain ⟨f, hf, rfl⟩ := List.mem_map.1 hm
    rw [indirect_step hs (hfan p hp) hstep hi f (List.mem_of_mem_filter hf)]
    exact Bool.false_ne_true
  · rw [if_neg hi, List.filter_map, List.filter_map, List.filter_filter, List.filter_filter]
    congr 1
    refine List.filter_congr ?_
    intro f _
    simp only [Function.comp_apply, directFrom, ← Bool.decide_and]
    refine decide_eq_decide.2 ?_
    tauto

theorem inbox_grows {ws : Ws} (h : b.step E e = some b') :
    ∃ new, b'.inbox ws = b.inbox ws ++ new := by
  obtain ⟨new, hsent⟩ := sent_grows h
  exact ⟨_, by rw [inbox, hsent, List.filter_append, List.map_append]; rfl⟩

end Broker

namespace Mailbox

variable {π : Type} {listenSize channelSize : ℕ+}
  {bus bus' : DeliveryBus π listenSize channelSize} {s : String}

/-! ### The receive loop -/

/-- What the client does itself puts nothing on the listen queue. -/
theorem arrived_client {e : DeliveryEvent π} (he : ∀ msg, e ≠ .deliver msg)
    (h : bus.step e = some bus') : bus'.listenQueue.arrived = bus.listenQueue.arrived := by
  cases e with
  | deliver msg => exact absurd rfl (he msg)
  | request id | failed id | subscribe channel =>
    obtain rfl := Option.some.inj h
    rfl
  | listen =>
    obtain ⟨q, hq, rfl⟩ := Option.map_eq_some_iff.1 h
    obtain ⟨p, harrived, -, -⟩ := DeliveryQueue.consume_eq_some hq
    exact harrived
  | next channel i =>
    obtain ⟨queues, -, h⟩ := Option.bind_eq_some_iff.1 h
    obtain ⟨q, -, rfl⟩ := Option.map_eq_some_iff.1 h
    rfl
  | unsubscribe channel i =>
    obtain rfl := Option.some.inj h
    rfl

/-- A direct message goes to the listen queue. -/
theorem arrived_dispatchDeliver {msg : NMBMessage π} (h : bus.dispatchDeliver msg = some bus') :
    bus'.listenQueue.arrived = bus.listenQueue.arrived ++ [msg] ∨
      bus'.listenQueue.arrived = bus.listenQueue.arrived ∧ directFrom s msg = false := by
  unfold DeliveryBus.dispatchDeliver at h
  split at h
  · next id hid =>
    obtain rfl := Option.some.inj h
    refine Or.inr ⟨rfl, decide_eq_false fun hd => ?_⟩
    rw [hd.2.2.1] at hid
    contradiction
  · split at h
    · next channel queues hfound =>
      obtain ⟨queues', -, rfl⟩ := Option.map_eq_some_iff.1 h
      refine Or.inr ⟨rfl, decide_eq_false fun hd => ?_⟩
      rw [hd.2.2.2] at hfound
      contradiction
    · obtain ⟨q, hq, rfl⟩ := Option.map_eq_some_iff.1 h
      obtain ⟨q', hq', harrived, -, -⟩ := bus.listenQueue.exists_arrive msg
      obtain rfl := Option.some.inj (hq.symm.trans hq')
      exact Or.inl harrived

theorem arrived_dispatch {msg : NMBMessage π} (hopen : bus.queueFull = false)
    (hkept : bus.Each DeliveryQueue.Kept) (h : dispatch bus msg = some bus') :
    bus'.listenQueue.arrived = bus.listenQueue.arrived ++ [msg] ∨
      bus'.listenQueue.arrived = bus.listenQueue.arrived ∧ directFrom s msg = false := by
  have hother : msg.op ≠ .deliver → directFrom s msg = false := fun hop =>
    decide_eq_false fun hd => hop hd.1
  unfold dispatch at h
  split at h
  · obtain ⟨bus₁, hbus₁, -, -⟩ := DeliveryBus.exists_dispatchDeliver hkept msg
    rw [DeliveryBus.step, hopen, hbus₁] at h
    obtain rfl := Option.some.inj h
    exact arrived_dispatchDeliver hbus₁
  · next hop => exact Or.inr ⟨arrived_client (by simp) h, hother (by simp [hop])⟩
  · next hop => exact Or.inr ⟨arrived_client (by simp) h, hother (by simp [hop])⟩
  · next hdeliver _ _ =>
    obtain rfl := Option.some.inj h
    exact Or.inr ⟨rfl, hother hdeliver⟩

theorem kept_dispatch {msg : NMBMessage π}
    (hkept : bus.queueFull = false ∧ bus.Each DeliveryQueue.Kept)
    (h : dispatch bus msg = some bus') :
    bus'.queueFull = false ∧ bus'.Each DeliveryQueue.Kept := by
  unfold dispatch at h
  split at h
  · exact DeliveryBus.kept_step hkept h
  · exact DeliveryBus.kept_step hkept h
  · exact DeliveryBus.kept_step hkept h
  · obtain rfl := Option.some.inj h
    exact hkept

/-- The receive loop has put the direct messages that it has taken on the listen queue. -/
structure Received (ws : Ws) (network : Piped (Broker π) Ws (Except String (NMBMessage π)))
    (box : Mailbox π listenSize channelSize) : Prop where
  kept : box.bus.queueFull = false ∧ box.bus.Each DeliveryQueue.Kept
  received_le : box.received ≤ (network.state.inbox ws).length
  arrived : ∀ s, box.bus.listenQueue.arrived.filter (directFrom s) =
    ((network.state.inbox ws).take box.received).filter (directFrom s)

theorem received_network {E : BrokerEnv π} {ws : Ws}
    {network network' : Piped (Broker π) Ws (Except String (NMBMessage π))}
    {box : Mailbox π listenSize channelSize} {e} (hr : Received ws network box)
    (h : (networkMachine E).step network e = some network') : Received ws network' box := by
  have hgrows : ∃ new, network'.state.inbox ws = network.state.inbox ws ++ new := by
    cases Machine.piped_step h with
    | put => exact ⟨[], (List.append_nil _).symm⟩
    | @take k i a rest b' hp hs =>
      have hs : network.state.step E (.frame k a i) = some b' := hs
      exact inbox_grows hs
    | act hi hs => exact inbox_grows (b := network.state) hs
  obtain ⟨new, hnew⟩ := hgrows
  refine ⟨hr.kept, ?_, ?_⟩
  · rw [hnew, List.length_append]
    exact Nat.le_add_right_of_le hr.received_le
  · intro s
    rw [hnew, List.take_append_of_le_length hr.received_le]
    exact hr.arrived s

theorem received_step {ws : Ws}
    {network : Piped (Broker π) Ws (Except String (NMBMessage π))}
    {box box' : Mailbox π listenSize channelSize} {e : MailboxEvent π}
    (hr : Received ws network box) (h : step ws network box e = some box') :
    Received ws network box' := by
  cases e with
  | receive =>
    obtain ⟨msg, hmsg, h⟩ := Option.bind_eq_some_iff.1 h
    obtain ⟨bus, hbus, rfl⟩ := Option.map_eq_some_iff.1 h
    obtain ⟨hlt, -⟩ := List.getElem?_eq_some_iff.1 hmsg
    refine ⟨kept_dispatch hr.kept hbus, hlt, ?_⟩
    intro s
    rw [List.take_add_one, hmsg, List.filter_append, ← hr.arrived s]
    rcases arrived_dispatch (s := s) hr.kept.1 hr.kept.2 hbus with harrived | ⟨harrived, hother⟩
    · rw [harrived, List.filter_append]
      rfl
    · rw [harrived]
      simp [hother]
  | client e =>
    have hstep : (∀ msg, e ≠ .deliver msg) ∧ ∃ bus, box.bus.step e = some bus ∧
        { box with bus := bus } = box' := by
      cases e with
      | deliver => contradiction
      | _ => exact ⟨by simp, Option.map_eq_some_iff.1 h⟩
    obtain ⟨hnot, bus, hbus, rfl⟩ := hstep
    refine ⟨DeliveryBus.kept_step hr.kept hbus, hr.received_le, ?_⟩
    intro s
    rw [arrived_client hnot hbus]
    exact hr.arrived s

end Mailbox

variable {π : Type} {E : BrokerEnv π} {listenSize channelSize : ℕ+}

theorem received_of_trace {ws : Ws} {tr}
    {x : Piped (Broker π) Ws (Except String (NMBMessage π)) × Mailbox π listenSize channelSize}
    (h : (mailboxMachine E ws listenSize channelSize).Trace tr x) :
    Mailbox.Received ws x.1 x.2 := by
  refine Machine.beside_invariant (I := fun network box => Mailbox.Received ws network box) h ?_
    (fun _ _ _ _ hr hs => Mailbox.received_network hr hs)
    fun _ _ _ _ hr hs => Mailbox.received_step hr hs
  refine ⟨⟨rfl, DeliveryQueue.kept_empty, ?_⟩, Nat.zero_le _, fun s => rfl⟩
  intro c queues hqueues
  contradiction

/-- The steps of the broker. -/
abbrev Mailbox.brokerRun (tr : List ((Piped (Broker π) Ws (Except String (NMBMessage π)) ×
      Mailbox π listenSize channelSize) ×
    (PipedEvent Ws (Except String (NMBMessage π)) ℚ (BrokerEvent π) ⊕ MailboxEvent π))) :
    List (Broker π × BrokerEvent π) :=
  (brokerFeed π).inner (Machine.own tr)

/-- What `listen` yields of another client is what that client wrote, in that order and each message
once. A message that the broker accepted is on the websocket, on the queue or was yielded, unless
a whole queue of newer messages arrived before it could be. -/
theorem listened_in_order {tr} {ws wS : Ws} {s t : String}
    {x : Piped (Broker π) Ws (Except String (NMBMessage π)) × Mailbox π listenSize channelSize}
    (h : (mailboxMachine E ws listenSize channelSize).Trace tr x) (hsystem : s ≠ "system")
    (hs : Machine.Guarded (fun _ e => SoleSocket s wS e) (Mailbox.brokerRun tr))
    (ht : Machine.Guarded (fun _ e => SoleSocket t ws e) (Mailbox.brokerRun tr)) :
    (∃ taken : List (NMBMessage π × ℚ),
      (x.2.bus.listenQueue.consumed.map Prod.fst).filter (directFrom s) =
        taken.map (fun a => (stamp a.1 s a.2).makeDeliver) ∧
      taken.Sublist (accepted E s t (Mailbox.brokerRun tr)) ∧
      (taken.map fun a => Except.ok a.1).Sublist (Feed.puts wS (Machine.own tr))) ∧
    ((accepted E s t (Mailbox.brokerRun tr)).map
        fun a => (stamp a.1 s a.2).makeDeliver).filter (directFrom s) =
      x.2.bus.listenQueue.arrived.filter (directFrom s) ++
        ((x.1.state.inbox ws).drop x.2.received).filter (directFrom s) ∧
    ∀ p ∈ numbered x.2.bus.listenQueue.arrived, p ∈ x.2.bus.listenQueue.queue.items ∨
      p ∈ x.2.bus.listenQueue.consumed ∨
        p.2 + listenSize ≤ x.2.bus.listenQueue.arrived.length := by
  have hnetwork := Machine.trace_own h
  have hrun := Machine.trace_inner hnetwork
  have hreceived := received_of_trace h
  have hkept := hreceived.kept.2.listen
  have hdelivered := inbox_direct ws hsystem hrun
  rw [deliveries_eq_accepted hrun ht] at hdelivered
  have hflow : ((accepted E s t (Mailbox.brokerRun tr)).map
        fun a => (stamp a.1 s a.2).makeDeliver).filter (directFrom s) =
      x.2.bus.listenQueue.arrived.filter (directFrom s) ++
        ((x.1.state.inbox ws).drop x.2.received).filter (directFrom s) := by
    rw [← hdelivered, hreceived.arrived, ← List.filter_append, List.take_append_drop]
  refine ⟨?_, hflow, ?_⟩
  · have hconsumed : (x.2.bus.listenQueue.consumed.map Prod.fst).Sublist
        x.2.bus.listenQueue.arrived := by
      have hnumbered := (sublist_numbered hkept.genuine hkept.in_order).map Prod.fst
      rwa [map_fst_numbered] at hnumbered
    have hsub := (hconsumed.filter (directFrom s)).trans (List.sublist_append_left _
      (((x.1.state.inbox ws).drop x.2.received).filter (directFrom s)))
    rw [← hflow] at hsub
    obtain ⟨taken, htaken, heq⟩ := List.sublist_map_iff.1 (hsub.trans List.filter_sublist)
    refine ⟨taken, heq, htaken, ?_⟩
    rw [← Machine.takes_append_pipe hnetwork wS]
    exact (htaken.map _).trans ((accepted_sublist (sole_run hrun hs).1).trans
      (List.sublist_append_left _ _))
  · intro p hp
    by_cases hitem : p ∈ x.2.bus.listenQueue.queue.items
    · exact Or.inl hitem
    · by_cases hconsumed : p ∈ x.2.bus.listenQueue.consumed
      · exact Or.inr (Or.inl hconsumed)
      · exact Or.inr (Or.inr (hkept.keepsNewest.dropped p hp hitem hconsumed))

/-- Three messages for a listener with room for two; it takes the last two. -/
def threeMessages :
    List (PipedEvent Ws (Except String (NMBMessage String)) ℚ (BrokerEvent String) ⊕
      MailboxEvent String) :=
  let send (id : String) : NMBMessage String := sendMessage id "review" "note" "\x7b\x7d"
  [.inl (.act (.connect 1 "code")), .inl (.act (.connect 2 "review")),
    .inl (.put 1 (.ok (send "m-1"))), .inl (.put 1 (.ok (send "m-2"))), .inl (.take 1 0),
    .inr .receive, .inl (.act (.resume 1 .ok)), .inl (.act (.resume 1 .ok)), .inl (.take 1 1),
    .inl (.put 1 (.ok (send "m-3"))), .inr .receive, .inl (.act (.resume 1 .ok)),
    .inl (.act (.resume 1 .ok)), .inl (.take 1 2), .inr .receive, .inr (.client .listen),
    .inr (.client .listen)]

theorem listened_in_order_threeMessages : ∃ tr x,
    (mailboxMachine jsonText 2 2 2).Trace tr x ∧
    x.2.bus.listenQueue.consumed.map (fun p => p.1.id) = ["m-2", "m-3"] ∧
    ∃ taken : List (NMBMessage String × ℚ),
      (x.2.bus.listenQueue.consumed.map Prod.fst).filter (directFrom "code") =
        taken.map (fun a => (stamp a.1 "code" a.2).makeDeliver) ∧
      taken.Sublist (accepted jsonText "code" "review" (Mailbox.brokerRun tr)) ∧
      (taken.map fun a => Except.ok a.1).Sublist (Feed.puts 1 (Machine.own tr)) := by
  obtain ⟨tr, x, h, -, hcheck⟩ := Machine.Trace.of_check (M := mailboxMachine jsonText 2 2 2)
    threeMessages (p := fun tr x => decide (
      x.2.bus.listenQueue.consumed.map (fun p => p.1.id) = ["m-2", "m-3"] ∧
      (∀ p ∈ Mailbox.brokerRun tr, SoleSocket "code" 1 p.2) ∧
      (∀ p ∈ Mailbox.brokerRun tr, SoleSocket "review" 2 p.2))) (by decide +kernel)
  obtain ⟨hyields, hs, ht⟩ := of_decide_eq_true hcheck
  exact ⟨tr, x, h, hyields, (listened_in_order h (by decide) hs ht).1⟩

end NemoClaw
