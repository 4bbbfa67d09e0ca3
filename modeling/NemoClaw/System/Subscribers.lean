import NemoClaw.Nmb.Channels
import NemoClaw.Nmb.Ordering
import NemoClaw.System.Deployment

/-! One client that subscribes: the iterators of `MessageBus.subscribe` come and go, their SUBSCRIBE
and UNSUBSCRIBE frames and the ACKs of the broker are on the way, and other clients do what they
like. Client and broker update their own tables at different times; they agree whenever nothing is
on the way. -/

namespace NemoClaw

open Lib Dict

/-- A client with its broker. An iterator is named by the id of its SUBSCRIBE frame. -/
structure Subscribers (π : Type) where
  broker : Broker π
  peer : Peer π
  /-- the live iterators of each channel, in the order of their queues -/
  iterators : Dict String (List String) := ∅
  /-- bookkeeping: the ids of the messages written -/
  ids : List String := []

inductive SubscribersEvent (π : Type)
  /-- an iterator starts -/
  | subscribe (channel id : String)
  /-- an iterator is left, whether it waits for its ACK or not; `unsubscribeId` is the id of its
  UNSUBSCRIBE frame, if it writes one -/
  | exit (channel id : String) (timedOut : Bool) (unsubscribeId : String)
  /-- the client calls `send`, `publish`, `request`, `reply` or `stream` -/
  | call (msg : NMBMessage π)
  /-- a call no longer waits -/
  | giveUp (id : String)
  /-- the broker reads the next frame of the client -/
  | read (now : ℚ)
  /-- the client takes the next frame of the broker -/
  | receive
  /-- the broker goes on, with the client or with others -/
  | broker (e : BrokerEvent π)

/-- The events of the client's connection that are not the broker's to choose: a frame, its end, and
another connection under its name. -/
def BrokerEvent.ofClient {π : Type} (name : String) (ws : Ws) : BrokerEvent π → Bool
  | .connect _ s => decide (s = name)
  | .frame ws' _ _ | .disconnect ws' _ _ => decide (ws' = ws)
  | _ => false

def SubscribersEvent.requests {π : Type} : SubscribersEvent π → Bool
  | .call msg => decide (msg.op = .request)
  | _ => false

/-- The ops of the calls that do not subscribe. -/
def Op.ofCall : Op → Bool
  | .send | .request | .reply | .publish | .stream => true
  | _ => false

namespace Subscribers

variable {π : Type}

/-- The client writes a frame. -/
def write (x : Subscribers π) (bus : MessageBus π) (msg : NMBMessage π) : Subscribers π :=
  { x with
    peer := { x.peer with bus := bus, outbox := x.peer.outbox ++ [msg] }
    ids := msg.id :: x.ids }

def subscribe (x : Subscribers π) (channel id : String) : Subscribers π :=
  { x.write ((x.peer.bus.addQueue channel).awaitAck id) (subscribeMessage id channel) with
    iterators := x.iterators.insert channel (members x.iterators channel ++ [id]) }

/-- The cleanup of an iterator. Its ACK is given up when the wait for it timed out. -/
def exit (x : Subscribers π) (channel id : String) (timedOut : Bool) (unsubscribeId : String) :
    Subscribers π :=
  let bus := x.peer.bus.removeQueue channel ((members x.iterators channel).idxOf id)
  let bus := if timedOut then { bus with pendingAcks := bus.pendingAcks.erase id } else bus
  let x := { x with iterators := leave id x.iterators channel }
  if (bus.queues channel).isEmpty then x.write bus (unsubscribeMessage unsubscribeId channel)
  else { x with peer := { x.peer with bus := bus } }

def giveUp (x : Subscribers π) (id : String) : Subscribers π :=
  { x with
    peer := { x.peer with
      bus := { x.peer.bus with
        pendingFutures := x.peer.bus.pendingFutures.erase id
        pendingAcks := x.peer.bus.pendingAcks.erase id } } }

def step (E : BrokerEnv π) (name : String) (x : Subscribers π) :
    SubscribersEvent π → Option (Subscribers π)
  | .subscribe channel id => if id ∈ x.ids then none else some (x.subscribe channel id)
  | .exit channel id timedOut unsubscribeId =>
    if id ∈ members x.iterators channel ∧ unsubscribeId ∉ x.ids then
      some (x.exit channel id timedOut unsubscribeId)
    else none
  | .call msg =>
    if msg.op.ofCall ∧ msg.id ∉ x.ids then some (x.write (x.peer.bus.call msg) msg) else none
  | .giveUp id => some (x.giveUp id)
  | .read now =>
    match x.peer.outbox with
    | [] => none
    | msg :: rest =>
      (x.broker.step E (.frame x.peer.ws (.ok msg) now)).map fun b =>
        { x with broker := b, peer := { x.peer with outbox := rest } }
  | .receive => (x.peer.receive x.broker).map fun p => { x with peer := p }
  | .broker e =>
    if e.ofClient name x.peer.ws then none
    else (x.broker.step E e).map fun b => { x with broker := b }

end Subscribers

/-- The client is connected from the start. -/
def subscribersMachine {π : Type} (E : BrokerEnv π) (name : String) (ws : Ws) :
    Machine (Subscribers π) (SubscribersEvent π) where
  init := { broker := ({} : Broker π).register name ws, peer := { ws := ws } }
  step := Subscribers.step E name

namespace Broker

variable {π : Type} {E : BrokerEnv π} {b b' : Broker π} {ws : Ws} {s : String}

/-! ### What the broker acknowledges -/

/-- A handler in this phase may still acknowledge these messages. -/
def Acks (known : String → Prop) : Phase π → Prop
  | .sendDeliver m | .requestDeliver m _ | .publishFanout m _ => known m.id
  | _ => True

/-- The handler of `ws` goes on, and acknowledges no other messages than these. -/
def GoesOn (b b' : Broker π) (ws : Ws) (s : String) (known : String → Prop) : Prop :=
  (∃ phase, b'.handlers.lookup ws = some ⟨s, phase⟩ ∧ Acks known phase) ∧
    ∃ new, b'.sent = b.sent ++ new ∧
      ∀ f ∈ new, f.ws = ws → f.frame.op = .ack → known f.frame.id

variable {known : String → Prop}

theorem goesOn_await {phase : Phase π} (h : Acks known phase) :
    GoesOn b (b.await s ws phase) ws s known :=
  ⟨⟨phase, AList.lookup_insert b.handlers, h⟩, [], (List.append_nil _).symm, by simp⟩

variable {b₀ : Broker π}

theorem goesOn_send (hs : b₀.sent = b.sent) {target : Ws} {f : NMBMessage π} {k : Option TaskId}
    {phase : Phase π} (h : Acks known phase) (hf : f.op = .ack → known f.id) :
    GoesOn b ((b₀.send target f k).await s ws phase) ws s known := by
  refine ⟨⟨phase, AList.lookup_insert b₀.handlers, h⟩, [⟨target, f, k⟩], by rw [← hs]; rfl, ?_⟩
  intro g hg _ hop
  obtain rfl := List.mem_singleton.1 hg
  exact hf hop

theorem goesOn_auditMsg (hs : b₀.sent = b.sent) {phase : Phase π} (m : Option (NMBMessage π))
    (st : DeliveryStatus) (h : Acks known phase) :
    GoesOn b ((b₀.auditMsg m st).await s ws phase) ws s known := by
  have hserved := served_auditMsg b₀ m st s ws phase
  refine ⟨⟨phase, ?_, h⟩, [], hs ▸ hserved.sent, by simp⟩
  rw [hserved.handlers]
  exact AList.lookup_insert b₀.handlers

theorem goesOn_sendError (hs : b₀.sent = b.sent) (i : String) (c : ErrorCode) (t : String)
    (a : Option (NMBMessage π)) (k : Option TaskId) :
    GoesOn b (b₀.sendError s ws i c t a k) ws s known :=
  goesOn_send hs trivial fun hop => by contradiction

theorem goesOn_sendAck (hs : b₀.sent = b.sent) {i : String} (a : Option (NMBMessage π))
    (hi : known i) : GoesOn b (b₀.sendAck s ws i a) ws s known :=
  goesOn_send hs trivial fun _ => hi

/-- A frame is acknowledged under its own id. -/
theorem goesOn_dispatched {m : NMBMessage π} {now : ℚ} {b' : Broker π}
    (hd : Dispatched E b s ws (.ok m) now b') : GoesOn b b' ws s (· = m.id) := by
  cases hd with
  | refused | offline => exact goesOn_sendError rfl _ _ _ _ _
  | full => exact goesOn_sendError (rfl : (b.listed s).sent = b.sent) _ _ _ _ _
  | forwarded hr hop =>
    rcases hop with ⟨-, rfl⟩ | ⟨-, rfl⟩
    · exact goesOn_send rfl rfl fun hop => by contradiction
    · exact goesOn_send rfl trivial fun hop => by contradiction
  | admitted =>
    exact goesOn_send (rfl : (b.tracked E s m).sent = b.sent) rfl fun hop => by contradiction
  | replied =>
    exact goesOn_send (rfl : (b.answered _ _).sent = b.sent) trivial fun hop => by contradiction
  | unheard => exact goesOn_auditMsg (rfl : (b.answered _ _).sent = b.sent) _ _ trivial
  | subscribed => exact goesOn_sendAck (rfl : (b.joined s _).sent = b.sent) none rfl
  | unsubscribed => exact goesOn_sendAck (rfl : (b.parted s _).sent = b.sent) none rfl
  | unread => exact goesOn_sendAck rfl _ rfl
  | published => exact goesOn_await rfl

theorem goesOn_resume {phase : Phase π} (hp : Acks known phase) {r : SendResult}
    (h : b.resume s ws r phase = some b') : GoesOn b b' ws s known := by
  cases phase with
  | sendDeliver m | requestDeliver m task =>
    obtain rfl := Option.some.inj h
    cases r with
    | ok => exact goesOn_sendAck rfl _ hp
    | connectionClosed => exact goesOn_sendError rfl _ _ _ _ _
  | replyDeliver m =>
    obtain rfl := Option.some.inj h
    cases r <;> exact goesOn_auditMsg rfl _ _ trivial
  | streamDeliver m =>
    obtain rfl := Option.some.inj h
    cases r with
    | ok => exact goesOn_await trivial
    | connectionClosed => exact goesOn_sendError rfl _ _ _ _ _
  | publishFanout m left =>
    cases left with
    | nil =>
      obtain rfl := Option.some.inj h
      exact goesOn_sendAck rfl _ hp
    | cons => contradiction
  | ack a | error a =>
    obtain rfl := Option.some.inj h
    exact goesOn_auditMsg rfl _ _ trivial
  | shutdownFanout f left =>
    cases left with
    | nil =>
      obtain rfl := Option.some.inj h
      exact ⟨⟨_, AList.lookup_insert b.handlers, trivial⟩, [], (List.append_nil _).symm, by simp⟩
    | cons => contradiction
  | logDisconnection =>
    obtain rfl := Option.some.inj h
    exact goesOn_await trivial
  | recv | closed => contradiction

theorem goesOn_safeSend (hn : b.NoticesDeliver) {phase : Phase π}
    (hh : b.handlers.lookup ws = some ⟨s, phase⟩) (hp : Acks known phase) {target : Ws}
    (h : b.safeSend s ws target phase = some b') : GoesOn b b' ws s known := by
  cases phase with
  | publishFanout m left =>
    simp only [safeSend, Option.ite_none_right_eq_some] at h
    obtain rfl := Option.some.inj h.2
    exact goesOn_send rfl hp fun hop => by contradiction
  | shutdownFanout f left =>
    simp only [safeSend, Option.ite_none_right_eq_some] at h
    obtain rfl := Option.some.inj h.2
    refine goesOn_send rfl trivial fun hop => ?_
    cases (hn ws s f left hh).1.symm.trans hop
  | _ => contradiction

/-- A step that is not a frame of the client acknowledges to it what its handler has left. -/
theorem goesOn_step (hn : b.NoticesDeliver) {phase : Phase π}
    (hh : b.handlers.lookup ws = some ⟨s, phase⟩) (hp : Acks known phase) {e : BrokerEvent π}
    (he : e.ofClient s ws = false) (h : b.step E e = some b') : GoesOn b b' ws s known := by
  by_cases hs : e.socket = some ws
  · cases e with
    | connect ws' s' =>
      obtain rfl := Option.some.inj hs
      cases (connect_step h).1.symm.trans hh
    | frame ws' | disconnect ws' =>
      obtain rfl := Option.some.inj hs
      simp [BrokerEvent.ofClient] at he
    | resume ws' r =>
      obtain rfl := Option.some.inj hs
      obtain ⟨h₁, hh₁, h⟩ := Option.bind_eq_some_iff.1 h
      obtain rfl := Option.some.inj (hh.symm.trans hh₁)
      exact goesOn_resume hp h
    | safeSend ws' target =>
      obtain rfl := Option.some.inj hs
      obtain ⟨h₁, hh₁, h⟩ := Option.bind_eq_some_iff.1 h
      obtain rfl := Option.some.inj (hh.symm.trans hh₁)
      exact goesOn_safeSend hn hh hp h
    | timer | timerSent => contradiction
  · obtain ⟨hh', new, hsent, hnew⟩ := others_step hn h hh hs
    exact ⟨⟨phase, hh', hp⟩, new, hsent, fun f hf hws hop => absurd hop (hnew f hf hws)⟩

/-! ### The client's own frames -/

/-- A SUBSCRIBE is acknowledged exactly if the broker lists the client from then on. -/
theorem subscribe_frame (hh : b.handlers.lookup ws = some ⟨s, .recv⟩) {id c : String} {now : ℚ}
    (h : b.step E (.frame ws (.ok (subscribeMessage id c)) now) = some b') :
    (∃ phase, b'.handlers.lookup ws = some ⟨s, phase⟩ ∧ ∀ known, Acks known phase) ∧
    ((∃ f, b'.sent = b.sent ++ [f] ∧ f.frame.op = .error ∧ b'.channels = b.channels) ∨
      b'.sent = b.sent ++ [⟨ws, { op := .ack, id := id }, none⟩] ∧ s ∈ members b'.channels c) := by
  have hvalid : (stamp (subscribeMessage id c) s now).validateFrame E.payloadBytes = .ok () := rfl
  have hop : (stamp (subscribeMessage id c : NMBMessage π) s now).op = .subscribe := rfl
  simp only [step, hh, dispatch, hvalid, hop] at h
  obtain rfl := Option.some.inj h
  unfold handleSubscribe
  split
  · exact ⟨⟨_, AList.lookup_insert _, fun _ => trivial⟩, Or.inl ⟨_, rfl, rfl, rfl⟩⟩
  · rename_i c' hc
    obtain rfl : c = c' := Option.some.inj (truthy_eq_some.1 hc).1
    dsimp only
    split
    · exact ⟨⟨_, AList.lookup_insert _, fun _ => trivial⟩, Or.inl ⟨_, rfl, rfl, rfl⟩⟩
    · refine ⟨⟨_, AList.lookup_insert _, fun _ => trivial⟩, Or.inr ⟨rfl, ?_⟩⟩
      have hchannels : ∀ b₀ : Broker π, (b₀.sendAck s ws id none).channels = b₀.channels :=
        fun _ => rfl
      simp only [stamp, subscribeMessage]
      rw [hchannels, members_insert, if_pos rfl]
      exact List.mem_insert_self

/-- After an UNSUBSCRIBE the broker does not list the client. -/
theorem unsubscribe_frame (hl : Linked b.channels b.sandboxChannels)
    (hu : members b.channels "" = []) (hh : b.handlers.lookup ws = some ⟨s, .recv⟩)
    {id c : String} {now : ℚ}
    (h : b.step E (.frame ws (.ok (unsubscribeMessage id c)) now) = some b') :
    s ∉ members b'.channels c := by
  have hvalid : (stamp (unsubscribeMessage id c) s now).validateFrame E.payloadBytes = .ok () := rfl
  have hop : (stamp (unsubscribeMessage id c : NMBMessage π) s now).op = .unsubscribe := rfl
  simp only [step, hh, dispatch, hvalid, hop] at h
  obtain rfl := Option.some.inj h
  unfold handleUnsubscribe
  split
  · rename_i hnone
    have hempty : c = "" := by
      by_contra hne
      have hsome : truthy (some c) = some c := truthy_eq_some.2 ⟨rfl, hne⟩
      cases hnone.symm.trans hsome
    subst hempty
    intro hmem
    have hmem : s ∈ members b.channels "" := hmem
    rw [hu] at hmem
    contradiction
  · rename_i c' hc
    obtain rfl : c = c' := Option.some.inj (truthy_eq_some.1 hc).1
    intro hmem
    have hmem : s ∈ members (leaveChannel b.channels s c) c := hmem
    rw [leaveChannel_eq, members_leave, if_pos rfl, (hl.nodup c).mem_erase_iff] at hmem
    exact hmem.1 rfl

/-- What holds of a broker whose sandbox `name` is behind `ws` alone. -/
structure Hosts (name : String) (ws : Ws) (b : Broker π) : Prop where
  sole : Sole name ws b
  notices : b.NoticesDeliver
  linked : Linked b.channels b.sandboxChannels
  unnamed : members b.channels "" = []

theorem hosts_step (hb : Hosts s ws b) {e : BrokerEvent π} (he : SoleSocket s ws e)
    (h : b.step E e = some b') : Hosts s ws b' :=
  ⟨sole_step hb.sole he h, noticesDeliver_step hb.notices h, (subscription_step h).linked hb.linked,
    (subscription_step h).unnamed hb.unnamed⟩

/-- Only its own frames move a sandbox that stays connected. -/
theorem stays_of_not_ofClient (hb : Hosts s ws b) {e : BrokerEvent π}
    (he : e.ofClient s ws = false) (h : b.step E e = some b') (c : String) :
    s ∈ members b'.channels c ↔ s ∈ members b.channels c := by
  refine (subscription_step h).stays ?_
  have hown : ∀ {ws'}, b.handlers.lookup ws' = some ⟨s, .recv⟩ → ws' = ws :=
    fun hh => (hb.sole.handler _ _ hh).1 rfl
  rintro (ha | ha | ⟨ws', msgId, now, rfl, hh⟩)
  · obtain ⟨ws', m, now, rfl, hh⟩ := asksFor_frame ha
    simp [BrokerEvent.ofClient, hown hh] at he
  · obtain ⟨ws', m, now, rfl, hh⟩ := asksFor_frame ha
    simp [BrokerEvent.ofClient, hown hh] at he
  · simp [BrokerEvent.ofClient, hown hh] at he

/-- A frame about one channel moves its sandbox in no other. -/
theorem stays_of_frame {m : NMBMessage π} {now : ℚ}
    (h : b.step E (.frame ws (.ok m) now) = some b') {c : String}
    (hm : ¬ ((m.op = .subscribe ∨ m.op = .unsubscribe) ∧ m.channel = some c)) :
    s ∈ members b'.channels c ↔ s ∈ members b.channels c := by
  refine (subscription_step h).stays ?_
  rintro (⟨-, hop, -, hc⟩ | ⟨-, hop, -, hc⟩ | ⟨ws', msgId, now', heq, -⟩)
  · exact hm ⟨Or.inl hop, (truthy_eq_some.1 hc).1⟩
  · exact hm ⟨Or.inr hop, (truthy_eq_some.1 hc).1⟩
  · contradiction

end Broker

/-! ### The client's queues -/

namespace MessageBus

variable {π : Type} (bus : MessageBus π)

theorem queues_eq (c : String) : bus.queues c = members bus.channelQueues c := rfl

theorem queues_addQueue (c c' : String) :
    (bus.addQueue c).queues c' = if c' = c then bus.queues c ++ [[]] else bus.queues c' := by
  rw [queues_eq, addQueue, members_insert]
  rfl

theorem noEmpty_addQueue (h : NoEmpty bus.channelQueues) (c : String) :
    NoEmpty (bus.addQueue c).channelQueues :=
  noEmpty_insert h c (by simp)

theorem queues_removeQueue (c c' : String) (i : ℕ) :
    (bus.removeQueue c i).queues c' =
      if c' = c then (bus.queues c).eraseIdx i else bus.queues c' := by
  rw [queues_eq, removeQueue]
  dsimp only
  split
  · rename_i hempty
    rw [members_erase, List.isEmpty_iff.1 hempty]
    rfl
  · rw [members_insert]
    rfl

theorem noEmpty_removeQueue (h : NoEmpty bus.channelQueues) (c : String) (i : ℕ) :
    NoEmpty (bus.removeQueue c i).channelQueues := by
  unfold removeQueue
  dsimp only
  split
  · intro c' hc
    exact h c' (lookup_erase_eq_some.1 hc).2
  · rename_i hne
    exact noEmpty_insert h c (by simpa using hne)

theorem channelQueues_call (m : NMBMessage π) : (bus.call m).channelQueues = bus.channelQueues := by
  unfold call
  split <;> rfl

/-- A call waits for nothing that is there. -/
theorem acks_call {m : NMBMessage π} {id : String}
    (h : (bus.call m).acks.lookup id = some (.result ())) :
    bus.acks.lookup id = some (.result ()) := by
  unfold call at h
  split at h
  · rcases lookup_insert_eq_some.1 h with ⟨-, hp⟩ | ⟨-, h⟩
    · contradiction
    · exact h
  · rcases lookup_insert_eq_some.1 h with ⟨-, hp⟩ | ⟨-, h⟩
    · contradiction
    · exact h
  · exact h
  · exact h

/-- A frame of the broker is put on all queues of a channel, or on none. -/
theorem channelQueues_dispatch (m : NMBMessage π) :
    (bus.dispatch m).channelQueues = bus.channelQueues ∨
      ∃ c qs, bus.channelQueues.lookup c = some qs ∧ (bus.dispatch m).channelQueues =
        bus.channelQueues.insert c
          (qs.map fun queue => putOrDropOldest channelQueueSize queue m) := by
  unfold dispatch
  split
  · unfold dispatchDeliver
    split
    · exact Or.inl rfl
    · split
      · rename_i channel queues hq
        obtain ⟨c, -, hq⟩ := Option.bind_eq_some_iff.1 hq
        obtain ⟨qs, hqs, heq⟩ := Option.map_eq_some_iff.1 hq
        obtain ⟨rfl, rfl⟩ := Prod.mk.inj heq
        exact Or.inr ⟨c, qs, hqs, rfl⟩
      · exact Or.inl rfl
  · unfold dispatchAck
    split <;> exact Or.inl rfl
  · unfold dispatchError
    split
    · exact Or.inl rfl
    · split <;> exact Or.inl rfl
  · unfold dispatchTimeout
    split <;> exact Or.inl rfl
  · exact Or.inl rfl

theorem length_queues_dispatch (m : NMBMessage π) (c : String) :
    ((bus.dispatch m).queues c).length = (bus.queues c).length := by
  rw [queues_eq, queues_eq]
  rcases bus.channelQueues_dispatch m with h | ⟨c', qs, hqs, h⟩
  · rw [h]
  · rw [h, members_insert]
    split
    · subst c
      rw [List.length_map, members_of_lookup hqs]
    · rfl

/-- A frame of the broker makes the client wait for nothing. -/
theorem pendingFutures_dispatch (m : NMBMessage π) :
    (bus.dispatch m).pendingFutures ⊆ bus.pendingFutures := by
  unfold dispatch
  split
  · unfold dispatchDeliver
    split
    · exact List.erase_subset
    · split <;> exact List.Subset.refl _
  · unfold dispatchAck
    split <;> exact List.Subset.refl _
  · unfold dispatchError
    split
    · exact List.erase_subset
    · split <;> exact List.Subset.refl _
  · unfold dispatchTimeout
    split
    · exact List.erase_subset
    · exact List.Subset.refl _
  · exact List.Subset.refl _

theorem noEmpty_dispatch (h : NoEmpty bus.channelQueues) (m : NMBMessage π) :
    NoEmpty (bus.dispatch m).channelQueues := by
  rcases bus.channelQueues_dispatch m with heq | ⟨c, qs, hqs, heq⟩
  · rw [heq]
    exact h
  · rw [heq]
    refine noEmpty_insert h c ?_
    intro hnil
    rw [List.map_eq_nil_iff] at hnil
    exact h c (hnil ▸ hqs)

end MessageBus

/-! ### Agreement -/

/-- The frame asks for this about the channel. -/
def NMBMessage.about {π : Type} (op : Op) (c : String) (m : NMBMessage π) : Bool :=
  decide (m.op = op ∧ m.channel = some c)

/-- Whether the broker may list the client after a frame, if it may before. -/
def mayAfter {π : Type} (c : String) (may : Prop) (m : NMBMessage π) : Prop :=
  if m.about .subscribe c then True else if m.about .unsubscribe c then False else may

namespace Subscribers

variable {π : Type} {E : BrokerEnv π} {name : String} {x x' : Subscribers π}

/-- The broker has written an ACK for the message. -/
def Acked (x : Subscribers π) (id : String) : Prop :=
  ∃ f ∈ x.broker.sent, f.ws = x.peer.ws ∧ f.frame.op = .ack ∧ f.frame.id = id

def Listed (x : Subscribers π) (name c : String) : Prop := name ∈ members x.broker.channels c

/-- The broker may list the client when it has read all its frames. -/
def MayList (x : Subscribers π) (name c : String) : Prop :=
  x.peer.outbox.foldl (mayAfter c) (x.Listed name c)

/-- The iterator is live. -/
def Live (x : Subscribers π) (c id : String) : Prop := id ∈ members x.iterators c

/-- The frames of a client. -/
inductive Writes : NMBMessage π → Prop
  | subscribe (id c) : Writes (subscribeMessage id c)
  | unsubscribe (id c) : Writes (unsubscribeMessage id c)
  | call {m} (h : m.op.ofCall = true) : Writes m

/-- What holds in every run: the broker may list a channel only as long as the client has an
iterator on it or an UNSUBSCRIBE is on the way, and lists it as soon as the SUBSCRIBE of a live
iterator is acknowledged. -/
structure Agreed (name : String) (x : Subscribers π) : Prop where
  hosts : Broker.Hosts name x.peer.ws x.broker
  handler : ∃ phase, x.broker.handlers.lookup x.peer.ws = some ⟨name, phase⟩ ∧
    Broker.Acks (fun id => id ∈ x.ids ∧ ∀ c, ¬ x.Live c id) phase
  queues : ∀ c, (x.peer.bus.queues c).length = (members x.iterators c).length
  noEmpty : NoEmpty x.peer.bus.channelQueues
  nodup : ∀ c, (members x.iterators c).Nodup
  known : ∀ c id, x.Live c id → id ∈ x.ids
  outbox : ∀ m ∈ x.peer.outbox, Writes m ∧ m.id ∈ x.ids ∧
    ∀ c, x.Live c m.id → m = subscribeMessage m.id c
  acked : ∀ id, x.Acked id → id ∈ x.ids
  results : ∀ id, x.peer.bus.acks.lookup id = some (.result ()) → x.Acked id
  left : ∀ c, members x.iterators c = [] → ¬ x.MayList name c
  joined : ∀ c id, x.Live c id → x.Acked id →
    x.Listed name c ∧ ∀ m ∈ x.peer.outbox, m.about .unsubscribe c = false
  waiting : x.peer.outbox.Pairwise fun m m' =>
    ∀ c, x.Live c m.id → m'.about .unsubscribe c = false

theorem mayList_mono {c : String} {p q : Prop} (h : p → q) (l : List (NMBMessage π)) :
    l.foldl (mayAfter c) p → l.foldl (mayAfter c) q := by
  induction l generalizing p q with
  | nil => exact h
  | cons m l ih =>
    refine ih ?_
    unfold mayAfter
    split
    · exact id
    · split
      · exact id
      · exact h

theorem acks_mono {known known' : String → Prop} {phase : Phase π}
    (h : Broker.Acks known phase) (hk : ∀ id, known id → known' id) : Broker.Acks known' phase := by
  cases phase with
  | sendDeliver m | requestDeliver m task | publishFanout m left => exact hk m.id h
  | _ => trivial

theorem about_eq_true {m : NMBMessage π} {op : Op} {c : String} :
    m.about op c = true ↔ m.op = op ∧ m.channel = some c := decide_eq_true_iff

@[simp] theorem about_subscribeMessage (id c c' : String) (op : Op) :
    (subscribeMessage id c : NMBMessage π).about op c' = decide (.subscribe = op ∧ c = c') := by
  simp [NMBMessage.about, subscribeMessage]

@[simp] theorem about_unsubscribeMessage (id c c' : String) (op : Op) :
    (unsubscribeMessage id c : NMBMessage π).about op c' = decide (.unsubscribe = op ∧ c = c') := by
  simp [NMBMessage.about, unsubscribeMessage]

/-- A message that neither subscribes to the channel nor unsubscribes from it. -/
def Apart (c : String) (m : NMBMessage π) : Prop :=
  ¬ ((m.op = .subscribe ∨ m.op = .unsubscribe) ∧ m.channel = some c)

theorem Apart.about {c : String} {m : NMBMessage π} (h : Apart c m) :
    m.about .subscribe c = false ∧ m.about .unsubscribe c = false := by
  constructor
  · refine Bool.eq_false_iff.2 fun habout => ?_
    obtain ⟨hop, hc⟩ := about_eq_true.1 habout
    exact h ⟨Or.inl hop, hc⟩
  · refine Bool.eq_false_iff.2 fun habout => ?_
    obtain ⟨hop, hc⟩ := about_eq_true.1 habout
    exact h ⟨Or.inr hop, hc⟩

theorem apart_of_ofCall {m : NMBMessage π} (h : m.op.ofCall = true) (c : String) : Apart c m := by
  rintro ⟨heq | heq, -⟩ <;> rw [heq] at h <;> contradiction

/-- Only a subscribe makes the broker list a client that it may not have listed. -/
theorem not_mayAfter {c : String} {may : Prop} {m : NMBMessage π}
    (hs : m.about .subscribe c = false) (hmay : m.about .unsubscribe c = true ∨ ¬ may) :
    ¬ mayAfter c may m := by
  unfold mayAfter
  rw [hs, if_neg Bool.false_ne_true]
  split_ifs with hu
  · exact id
  · exact hmay.resolve_left hu

/-- The client writes a message with a new id. -/
theorem agreed_write (hx : Agreed name x) {iterators : Dict String (List String)}
    {bus : MessageBus π} {msg : NMBMessage π} (hwrites : Writes msg) (hid : msg.id ∉ x.ids)
    (hlive : ∀ c id, id ∈ members iterators c →
      x.Live c id ∨ id = msg.id ∧ msg = subscribeMessage msg.id c)
    (hqueues : ∀ c, (bus.queues c).length = (members iterators c).length)
    (hempty : NoEmpty bus.channelQueues) (hnodup : ∀ c, (members iterators c).Nodup)
    (hresults : ∀ id, bus.acks.lookup id = some (.result ()) →
      x.peer.bus.acks.lookup id = some (.result ()))
    (hunsubscribes : ∀ c, msg.about .unsubscribe c = true → members iterators c = [])
    (hleft : ∀ c, members iterators c = [] → msg.about .unsubscribe c = true ∨
      msg.about .subscribe c = false ∧ members x.iterators c = []) :
    Agreed name { x.write bus msg with iterators := iterators } := by
  have hold : ∀ c id, id ∈ x.ids → id ∈ members iterators c → x.Live c id := by
    intro c id hmem hl
    rcases hlive c id hl with hl | ⟨rfl, -⟩
    · exact hl
    · exact absurd hmem hid
  have hacked : ∀ c id, id ∈ members iterators c → x.Acked id → x.Live c id :=
    fun c id hl ha => hold c id (hx.acked id ha) hl
  have hnot : ∀ c id, id ∈ members iterators c → msg.about .unsubscribe c = false := by
    intro c id hl
    by_contra hu
    rw [hunsubscribes c (Bool.not_eq_false _ ▸ hu)] at hl
    contradiction
  refine ⟨hx.hosts, ?_, hqueues, hempty, hnodup, ?_, ?_, ?_, ?_, ?_, ?_, ?_⟩
  · obtain ⟨phase, hh, hphase⟩ := hx.handler
    refine ⟨phase, hh, acks_mono hphase ?_⟩
    rintro id ⟨hmem, hnot⟩
    exact ⟨List.mem_cons_of_mem _ hmem, fun c hl => hnot c (hold c id hmem hl)⟩
  · intro c id hl
    rcases hlive c id hl with hl | ⟨rfl, -⟩
    · exact List.mem_cons_of_mem _ (hx.known c id hl)
    · exact List.mem_cons_self
  · intro m hm
    rcases List.mem_append.1 hm with hm | hm
    · obtain ⟨hw, hmem, hown⟩ := hx.outbox m hm
      exact ⟨hw, List.mem_cons_of_mem _ hmem, fun c hl => hown c (hold c m.id hmem hl)⟩
    · obtain rfl := List.mem_singleton.1 hm
      refine ⟨hwrites, List.mem_cons_self, ?_⟩
      intro c hl
      rcases hlive c m.id hl with hl | ⟨-, hm⟩
      · exact absurd (hx.known c m.id hl) hid
      · exact hm
  · exact fun id ha => List.mem_cons_of_mem _ (hx.acked id ha)
  · exact fun id hr => hx.results id (hresults id hr)
  · intro c hnone
    simp only [MayList, write, List.foldl_append, List.foldl_cons, List.foldl_nil]
    refine not_mayAfter ?_ ((hleft c hnone).imp_right fun h => hx.left c h.2)
    rcases hleft c hnone with hu | ⟨hs, -⟩
    · refine Bool.eq_false_iff.2 fun hs => ?_
      have heq := (about_eq_true.1 hs).1.symm.trans (about_eq_true.1 hu).1
      contradiction
    · exact hs
  · intro c id hl ha
    obtain ⟨hlisted, hout⟩ := hx.joined c id (hacked c id hl ha) ha
    refine ⟨hlisted, ?_⟩
    intro m hm
    rcases List.mem_append.1 hm with hm | hm
    · exact hout m hm
    · obtain rfl := List.mem_singleton.1 hm
      exact hnot c id hl
  · refine List.pairwise_append.2 ⟨?_, List.pairwise_singleton _ _, ?_⟩
    · refine hx.waiting.imp_of_mem ?_
      intro m m' hm _ hold' c hl
      exact hold' c (hold c m.id (hx.outbox m hm).2.1 hl)
    · intro m hm m' hm' c hl
      obtain rfl := List.mem_singleton.1 hm'
      exact hnot c m.id hl

theorem agreed_subscribe (hx : Agreed name x) {c id : String} (hid : id ∉ x.ids) :
    Agreed name (x.subscribe c id) := by
  have hmembers := members_insert x.iterators c
  refine agreed_write hx (.subscribe id c) hid ?_ ?_ ?_ ?_ ?_ ?_ ?_
  · intro c' id' hl
    rw [hmembers] at hl
    split at hl
    · subst c'
      rcases List.mem_append.1 hl with hl | hl
      · exact Or.inl hl
      · obtain rfl := List.mem_singleton.1 hl
        exact Or.inr ⟨rfl, rfl⟩
    · exact Or.inl hl
  · intro c'
    rw [hmembers]
    have hq : ((x.peer.bus.addQueue c).awaitAck id).queues c' =
        if c' = c then x.peer.bus.queues c ++ [[]] else x.peer.bus.queues c' :=
      x.peer.bus.queues_addQueue c c'
    rw [hq]
    split
    · simp [hx.queues c]
    · exact hx.queues c'
  · exact x.peer.bus.noEmpty_addQueue hx.noEmpty c
  · intro c'
    rw [hmembers]
    split
    · refine List.nodup_append.2 ⟨hx.nodup c, List.nodup_singleton _, ?_⟩
      intro a ha b hb
      obtain rfl := List.mem_singleton.1 hb
      rintro rfl
      exact hid (hx.known c a ha)
    · exact hx.nodup c'
  · intro id' hr
    rcases lookup_insert_eq_some.1 hr with ⟨-, hp⟩ | ⟨-, hr⟩
    · contradiction
    · exact hr
  · intro c' hu
    simp at hu
  · intro c' hnone
    rw [hmembers] at hnone
    split at hnone
    · simp at hnone
    · rename_i hne
      exact Or.inr ⟨by simp [Ne.symm hne], hnone⟩

theorem agreed_call (hx : Agreed name x) {msg : NMBMessage π} (hop : msg.op.ofCall = true)
    (hid : msg.id ∉ x.ids) : Agreed name (x.write (x.peer.bus.call msg) msg) := by
  have hchannels := x.peer.bus.channelQueues_call msg
  have hother := fun c => (apart_of_ofCall hop c).about
  have hsame : x.write (x.peer.bus.call msg) msg =
      { x.write (x.peer.bus.call msg) msg with iterators := x.iterators } := rfl
  rw [hsame]
  refine agreed_write hx (.call hop) hid (fun c id hl => Or.inl hl) ?_ ?_ hx.nodup
    (fun id hr => x.peer.bus.acks_call hr) ?_ ?_
  · intro c
    rw [MessageBus.queues_eq, hchannels]
    exact hx.queues c
  · rw [hchannels]
    exact hx.noEmpty
  · intro c hu
    rw [(hother c).2] at hu
    contradiction
  · exact fun c hnone => Or.inr ⟨(hother c).1, hnone⟩

/-- The client changes nothing but its own tables. -/
theorem agreed_local (hx : Agreed name x) {iterators : Dict String (List String)}
    {bus : MessageBus π} {received : ℕ}
    (hlive : ∀ c id, id ∈ members iterators c → x.Live c id)
    (hqueues : ∀ c, (bus.queues c).length = (members iterators c).length)
    (hempty : NoEmpty bus.channelQueues) (hnodup : ∀ c, (members iterators c).Nodup)
    (hresults : ∀ id, bus.acks.lookup id = some (.result ()) → x.Acked id)
    (hleft : ∀ c, members iterators c = [] → members x.iterators c = []) :
    Agreed name { x with
      iterators := iterators
      peer := { x.peer with bus := bus, received := received } } := by
  refine ⟨hx.hosts, ?_, hqueues, hempty, hnodup, fun c id hl => hx.known c id (hlive c id hl), ?_,
    hx.acked, hresults, fun c hnone => hx.left c (hleft c hnone),
    fun c id hl ha => hx.joined c id (hlive c id hl) ha, ?_⟩
  · obtain ⟨phase, hh, hphase⟩ := hx.handler
    exact ⟨phase, hh, acks_mono hphase fun id hid =>
      ⟨hid.1, fun c hl => hid.2 c (hlive c id hl)⟩⟩
  · intro m hm
    obtain ⟨hw, hid, hown⟩ := hx.outbox m hm
    exact ⟨hw, hid, fun c hl => hown c (hlive c m.id hl)⟩
  · exact hx.waiting.imp fun hold c hl => hold c (hlive c _ hl)

/-- An iterator that leaves takes no other one with it. -/
theorem live_of_leave {c id c' id' : String}
    (hl : id' ∈ members (leave id x.iterators c) c') : x.Live c' id' := by
  rw [members_leave] at hl
  split at hl
  · subst c'
    exact List.mem_of_mem_erase hl
  · exact hl

theorem nodup_leave (hx : Agreed name x) (c id c' : String) :
    (members (leave id x.iterators c) c').Nodup := by
  rw [members_leave]
  split
  · exact (hx.nodup c).erase id
  · exact hx.nodup c'

/-- Its queue goes with it. -/
theorem length_queues_leave (hx : Agreed name x) {c id : String} (hl : x.Live c id) (c' : String) :
    ((x.peer.bus.removeQueue c ((members x.iterators c).idxOf id)).queues c').length =
      (members (leave id x.iterators c) c').length := by
  rw [MessageBus.queues_removeQueue, members_leave]
  split
  · have hlt : (members x.iterators c).idxOf id < (x.peer.bus.queues c).length := by
      rw [hx.queues]
      exact List.idxOf_lt_length_of_mem hl
    rw [List.length_eraseIdx_of_lt hlt, List.length_erase_of_mem hl, hx.queues]
  · exact hx.queues c'

theorem agreed_exit (hx : Agreed name x) {c id uid : String} (hl : x.Live c id)
    (hu : uid ∉ x.ids) (timedOut : Bool) : Agreed name (x.exit c id timedOut uid) := by
  have hmembers := members_leave id x.iterators c
  have hnodup := nodup_leave hx c id
  have hqueues := length_queues_leave hx hl
  unfold exit
  dsimp only
  generalize hbus : x.peer.bus.removeQueue c ((members x.iterators c).idxOf id) = bus
  rw [hbus] at hqueues
  have hempty : NoEmpty bus.channelQueues := by
    rw [← hbus]
    exact x.peer.bus.noEmpty_removeQueue hx.noEmpty _ _
  have hacks : bus.acks = x.peer.bus.acks := by
    rw [← hbus]
    rfl
  generalize hbus' : (if timedOut then { bus with pendingAcks := bus.pendingAcks.erase id }
    else bus) = bus'
  have hsame : bus'.channelQueues = bus.channelQueues ∧ bus'.acks = bus.acks := by
    rw [← hbus']
    split <;> exact ⟨rfl, rfl⟩
  have hqueues' : ∀ c', (bus'.queues c').length = (members (leave id x.iterators c) c').length := by
    intro c'
    rw [MessageBus.queues_eq, hsame.1]
    exact hqueues c'
  split
  · rename_i hlast
    have hnone : members (leave id x.iterators c) c = [] := by
      rw [List.isEmpty_iff] at hlast
      rw [← List.length_eq_zero_iff, ← hqueues', hlast]
      rfl
    have hwrite : { x with iterators := leave id x.iterators c }.write bus'
        (unsubscribeMessage uid c) =
      { x.write bus' (unsubscribeMessage uid c) with iterators := leave id x.iterators c } := rfl
    rw [hwrite]
    refine agreed_write hx (.unsubscribe uid c) hu (fun c' id' hl' => Or.inl (live_of_leave hl'))
      hqueues' (hsame.1 ▸ hempty) hnodup (fun id' hr => hacks ▸ hsame.2 ▸ hr) ?_ ?_
    · intro c' habout
      simp only [about_unsubscribeMessage, true_and, decide_eq_true_eq] at habout
      exact habout ▸ hnone
    · intro c' hnone'
      by_cases he : c' = c
      · subst he
        exact Or.inl (by simp)
      · rw [hmembers, if_neg he] at hnone'
        exact Or.inr ⟨by simp, hnone'⟩
  · rename_i hmore
    refine agreed_local hx (fun c' id' => live_of_leave) hqueues' (hsame.1 ▸ hempty) hnodup
      (fun id' hr => hx.results id' (hacks ▸ hsame.2 ▸ hr)) ?_
    intro c' hnone'
    by_cases he : c' = c
    · subst he
      have hzero := hqueues' c'
      rw [hnone'] at hzero
      exact absurd (by simpa using hzero) hmore
    · rw [hmembers, if_neg he] at hnone'
      exact hnone'

theorem agreed_receive (hx : Agreed name x) {p : Peer π} (h : x.peer.receive x.broker = some p) :
    Agreed name { x with peer := p } := by
  obtain ⟨msg, hmsg, rfl⟩ := Option.map_eq_some_iff.1 h
  refine agreed_local hx (fun _ _ hl => hl) ?_ (x.peer.bus.noEmpty_dispatch hx.noEmpty msg) hx.nodup
    ?_ (fun _ hnone => hnone)
  · intro c
    rw [MessageBus.length_queues_dispatch]
    exact hx.queues c
  · intro id hr
    rcases x.peer.bus.acks_dispatch msg hr with hr | ⟨hop, hid⟩
    · exact hx.results id hr
    · obtain ⟨f, hf, rfl⟩ := List.mem_map.1 (List.mem_of_getElem? hmsg)
      obtain ⟨hf, hws⟩ := List.mem_filter.1 hf
      exact ⟨f, hf, of_decide_eq_true hws, hop, hid⟩

/-- The broker goes on, having read part of what the client wrote. -/
theorem agreed_broker (hx : Agreed name x) {b : Broker π} {outbox : List (NMBMessage π)}
    (hout : outbox <:+ x.peer.outbox) (hhosts : Broker.Hosts name x.peer.ws b)
    (hhandler : ∃ phase, b.handlers.lookup x.peer.ws = some ⟨name, phase⟩ ∧
      Broker.Acks (fun id => id ∈ x.ids ∧ ∀ c, ¬ x.Live c id) phase)
    (hsent : ∃ new, b.sent = x.broker.sent ++ new ∧ ∀ f ∈ new, f.ws = x.peer.ws →
      f.frame.op = .ack → f.frame.id ∈ x.ids ∧ ∀ c, x.Live c f.frame.id →
        name ∈ members b.channels c ∧ ∀ m ∈ outbox, m.about .unsubscribe c = false)
    (hleft : ∀ c, members x.iterators c = [] →
      ¬ outbox.foldl (mayAfter c) (name ∈ members b.channels c))
    (hjoined : ∀ c id, x.Live c id → x.Acked id → name ∈ members b.channels c) :
    Agreed name { x with broker := b, peer := { x.peer with outbox := outbox } } := by
  obtain ⟨new, hsent, hnew⟩ := hsent
  have hacked : ∀ id, (∃ f ∈ b.sent, f.ws = x.peer.ws ∧ f.frame.op = .ack ∧ f.frame.id = id) →
      x.Acked id ∨ id ∈ x.ids ∧ ∀ c, x.Live c id →
        name ∈ members b.channels c ∧ ∀ m ∈ outbox, m.about .unsubscribe c = false := by
    rintro id ⟨f, hf, hws, hop, rfl⟩
    rcases List.mem_append.1 (hsent ▸ hf) with hf | hf
    · exact Or.inl ⟨f, hf, hws, hop, rfl⟩
    · exact Or.inr (hnew f hf hws hop)
  have hkept : ∀ id, x.Acked id →
      ∃ f ∈ b.sent, f.ws = x.peer.ws ∧ f.frame.op = .ack ∧ f.frame.id = id := by
    rintro id ⟨f, hf, hws, hop, hid⟩
    exact ⟨f, hsent ▸ List.mem_append_left _ hf, hws, hop, hid⟩
  refine ⟨hhosts, hhandler, hx.queues, hx.noEmpty, hx.nodup, hx.known,
    fun m hm => hx.outbox m (hout.subset hm), ?_, fun id hr => hkept id (hx.results id hr), hleft,
    ?_, hx.waiting.sublist hout.sublist⟩
  · intro id ha
    rcases hacked id ha with ha | ha
    · exact hx.acked id ha
    · exact ha.1
  · intro c id hl ha
    rcases hacked id ha with ha | ha
    · obtain ⟨-, hno⟩ := hx.joined c id hl ha
      exact ⟨hjoined c id hl ha, fun m hm => hno m (hout.subset hm)⟩
    · exact ha.2 c hl

theorem agreed_others (hx : Agreed name x) {b : Broker π} {e : BrokerEvent π}
    (he : e.ofClient name x.peer.ws = false) (h : x.broker.step E e = some b) :
    Agreed name { x with broker := b } := by
  obtain ⟨phase, hh, hphase⟩ := hx.handler
  have hstays := Broker.stays_of_not_ofClient hx.hosts he h
  have hsole : SoleSocket name x.peer.ws e := by
    cases e with
    | connect ws s =>
      have hs : s ≠ name := by simpa [BrokerEvent.ofClient] using he
      refine iff_of_false hs ?_
      rintro rfl
      cases (Broker.connect_step h).1.symm.trans hh
    | _ => trivial
  obtain ⟨hhandler, new, hsent, hnew⟩ := Broker.goesOn_step hx.hosts.notices hh hphase he h
  refine agreed_broker hx (List.suffix_refl _) (Broker.hosts_step hx.hosts hsole h) hhandler
    ⟨new, hsent, ?_⟩ ?_ ?_
  · intro f hf hws hop
    obtain ⟨hid, hdead⟩ := hnew f hf hws hop
    exact ⟨hid, fun c hl => absurd hl (hdead c)⟩
  · intro c hnone hmay
    exact hx.left c hnone (mayList_mono (hstays c).1 _ hmay)
  · exact fun c id hl ha => (hstays c).2 (hx.joined c id hl ha).1

/-- What a frame of the client does to its subscriptions. -/
theorem listed_read {b b' : Broker π} {ws : Ws} (hb : Broker.Hosts name ws b)
    (hh : b.handlers.lookup ws = some ⟨name, .recv⟩) {m : NMBMessage π} (hm : Writes m) {now : ℚ}
    (h : b.step E (.frame ws (.ok m) now) = some b') (c : String) :
    (name ∈ members b'.channels c → mayAfter c (name ∈ members b.channels c) m) ∧
      (name ∈ members b.channels c → m.about .unsubscribe c = false →
        name ∈ members b'.channels c) := by
  have hapart : Apart c m → (name ∈ members b'.channels c →
      mayAfter c (name ∈ members b.channels c) m) ∧ (name ∈ members b.channels c →
        m.about .unsubscribe c = false → name ∈ members b'.channels c) := by
    intro hm
    obtain ⟨hsubscribe, hunsubscribe⟩ := hm.about
    have hstays := Broker.stays_of_frame (s := name) h hm
    simp only [mayAfter, hsubscribe, hunsubscribe]
    exact ⟨hstays.1, fun hl _ => hstays.2 hl⟩
  cases hm with
  | subscribe id c' =>
    by_cases hc : c = c'
    · subst hc
      refine ⟨fun _ => ?_, fun hl _ => ?_⟩
      · rw [mayAfter, if_pos (by simp)]
        trivial
      · obtain ⟨-, ⟨f, -, -, hsame⟩ | ⟨-, hlisted⟩⟩ := Broker.subscribe_frame hh h
        · exact hsame ▸ hl
        · exact hlisted
    · exact hapart fun hm => hc (Option.some.inj hm.2).symm
  | unsubscribe id c' =>
    by_cases hc : c = c'
    · subst hc
      refine ⟨fun hl => ?_, fun _ habout => ?_⟩
      · exact absurd hl (Broker.unsubscribe_frame hb.linked hb.unnamed hh h)
      · simp at habout
    · exact hapart fun hm => hc (Option.some.inj hm.2).symm
  | call hop => exact hapart (apart_of_ofCall hop c)

theorem agreed_read (hx : Agreed name x) {m : NMBMessage π} {rest : List (NMBMessage π)}
    (hout : x.peer.outbox = m :: rest) {b : Broker π} {now : ℚ}
    (h : x.broker.step E (.frame x.peer.ws (.ok m) now) = some b) :
    Agreed name { x with broker := b, peer := { x.peer with outbox := rest } } := by
  have hmem : m ∈ x.peer.outbox := hout ▸ List.mem_cons_self
  obtain ⟨hwrites, hid, hown⟩ := hx.outbox m hmem
  have hh : x.broker.handlers.lookup x.peer.ws = some ⟨name, .recv⟩ := by
    obtain ⟨s, hh, -⟩ := Broker.step_frame h
    obtain rfl : s = name := (hx.hosts.sole.handler _ _ hh).2 rfl
    exact hh
  have hlisted := listed_read hx.hosts hh hwrites h
  have hsuffix : rest <:+ x.peer.outbox := hout ▸ List.suffix_cons m rest
  have hhosts := Broker.hosts_step hx.hosts (e := .frame x.peer.ws (.ok m) now) trivial h
  have hleft : ∀ c, members x.iterators c = [] →
      ¬ rest.foldl (mayAfter c) (name ∈ members b.channels c) := by
    intro c hnone hmay
    refine hx.left c hnone ?_
    rw [MayList, hout]
    exact mayList_mono (hlisted c).1 _ hmay
  have hjoined : ∀ c id, x.Live c id → x.Acked id → name ∈ members b.channels c := by
    intro c id hl ha
    obtain ⟨hold, hno⟩ := hx.joined c id hl ha
    exact (hlisted c).2 hold (hno m hmem)
  by_cases hlive : ∃ c, x.Live c m.id
  · obtain ⟨c, hl⟩ := hlive
    have hm := hown c hl
    rw [hm] at h
    obtain ⟨⟨phase, hphase, hacks⟩, hanswer⟩ := Broker.subscribe_frame hh h
    refine agreed_broker hx hsuffix hhosts ⟨phase, hphase, hacks _⟩ ?_ hleft hjoined
    rcases hanswer with ⟨f, hsent, hop, -⟩ | ⟨hsent, hin⟩
    · refine ⟨[f], hsent, ?_⟩
      intro g hg _ hack
      obtain rfl := List.mem_singleton.1 hg
      cases hop.symm.trans hack
    · refine ⟨_, hsent, ?_⟩
      intro g hg _ _
      obtain rfl := List.mem_singleton.1 hg
      refine ⟨hid, ?_⟩
      intro c' hl'
      have hc : subscribeMessage m.id c = (subscribeMessage m.id c' : NMBMessage π) :=
        hm.symm.trans (hown c' hl')
      obtain rfl : c = c' := Option.some.inj (congrArg NMBMessage.channel hc)
      have hwaiting := hx.waiting
      rw [hout, List.pairwise_cons] at hwaiting
      exact ⟨hin, fun m' hm' => hwaiting.1 m' hm' c hl⟩
  · have hdead : ∀ c, ¬ x.Live c m.id := fun c hl => hlive ⟨c, hl⟩
    obtain ⟨⟨phase, hphase, hacks⟩, new, hsent, hnew⟩ :=
      Broker.goesOn_dispatched (Broker.dispatched_of_frame hh h)
    refine agreed_broker hx hsuffix hhosts ⟨phase, hphase, acks_mono hacks ?_⟩
      ⟨new, hsent, ?_⟩ hleft hjoined
    · rintro id rfl
      exact ⟨hid, hdead⟩
    · intro f hf hws hop
      rw [hnew f hf hws hop]
      exact ⟨hid, fun c hl => absurd hl (hdead c)⟩

theorem agreed_initial (name : String) (ws : Ws) :
    Agreed name ({ broker := ({} : Broker π).register name ws, peer := { ws := ws } }) := by
  have hfree : ({} : Broker π).connections.lookup name = none := rfl
  have hconn : (({} : Broker π).register name ws).connections =
      ({} : Broker π).connections.insert name ws := (Broker.register_of_free hfree).1
  have hhandlers : (({} : Broker π).register name ws).handlers =
      ({} : Broker π).handlers.insert ws ⟨name, .recv⟩ := Broker.handlers_register
  have hsubs : (({} : Broker π).register name ws).channels = ∅ ∧
      (({} : Broker π).register name ws).sandboxChannels = ∅ := ⟨rfl, rfl⟩
  have hsent : (({} : Broker π).register name ws).sent = [] := Broker.sent_register
  have hnone : ∀ c : String, members (∅ : Dict String (List String)) c = [] := fun _ => rfl
  refine ⟨⟨⟨?_, ?_⟩, ?_, ?_, ?_⟩, ?_, fun _ => rfl, ?_, fun _ => List.nodup_nil, ?_, ?_, ?_, ?_, ?_,
    ?_, List.Pairwise.nil⟩
  · intro ws' h hh
    rw [hhandlers] at hh
    rcases lookup_insert_eq_some.1 hh with ⟨rfl, rfl⟩ | ⟨-, hh⟩
    · exact iff_of_true rfl rfl
    · contradiction
  · intro s' ws' hc
    rw [hconn] at hc
    rcases lookup_insert_eq_some.1 hc with ⟨rfl, rfl⟩ | ⟨-, hc⟩
    · exact iff_of_true rfl rfl
    · contradiction
  · intro ws' s' f left hh
    rw [hhandlers] at hh
    rcases lookup_insert_eq_some.1 hh with ⟨-, heq⟩ | ⟨-, hh⟩
    · obtain ⟨-, hphase⟩ := Handler.mk.inj heq
      contradiction
    · contradiction
  · rw [hsubs.1, hsubs.2]
    exact Linked.empty
  · rw [hsubs.1]
    rfl
  · exact ⟨.recv, by rw [hhandlers]; exact AList.lookup_insert _, trivial⟩
  · intro c hc
    contradiction
  · intro c id hl
    contradiction
  · intro m hm
    contradiction
  · rintro id ⟨f, hf, -⟩
    rw [hsent] at hf
    contradiction
  · intro id hr
    contradiction
  · intro c _ hmay
    have hmay : name ∈ members (({} : Broker π).register name ws).channels c := hmay
    rw [hsubs.1, hnone] at hmay
    contradiction
  · intro c id hl
    contradiction

theorem agreed_step (hx : Agreed name x) {e : SubscribersEvent π} (h : x.step E name e = some x') :
    Agreed name x' := by
  cases e with
  | subscribe c id =>
    simp only [step, Option.ite_none_left_eq_some] at h
    obtain ⟨hid, h⟩ := h
    obtain rfl := Option.some.inj h
    exact agreed_subscribe hx hid
  | exit c id timedOut uid =>
    simp only [step, Option.ite_none_right_eq_some] at h
    obtain ⟨⟨hl, hu⟩, h⟩ := h
    obtain rfl := Option.some.inj h
    exact agreed_exit hx hl hu timedOut
  | call msg =>
    simp only [step, Option.ite_none_right_eq_some] at h
    obtain ⟨⟨hop, hid⟩, h⟩ := h
    obtain rfl := Option.some.inj h
    exact agreed_call hx hop hid
  | giveUp id =>
    obtain rfl := Option.some.inj h
    exact agreed_local hx (fun _ _ hl => hl) hx.queues hx.noEmpty hx.nodup hx.results
      fun _ hnone => hnone
  | read now =>
    simp only [step] at h
    split at h
    · contradiction
    · rename_i m rest hout
      obtain ⟨b, hb, rfl⟩ := Option.map_eq_some_iff.1 h
      exact agreed_read hx hout hb
  | receive =>
    obtain ⟨p, hp, rfl⟩ := Option.map_eq_some_iff.1 h
    exact agreed_receive hx hp
  | broker e =>
    simp only [step, Option.ite_none_left_eq_some, Bool.not_eq_true] at h
    obtain ⟨he, h⟩ := h
    obtain ⟨b, hb, rfl⟩ := Option.map_eq_some_iff.1 h
    exact agreed_others hx he hb

/-- The iterator is live and its SUBSCRIBE acknowledged. -/
def Acknowledged (x : Subscribers π) (c id : String) : Prop :=
  x.Live c id ∧ x.peer.bus.acks.lookup id = some (.result ())

/-- No frame is on the way, and every live iterator has its ACK. -/
structure Quiet (x : Subscribers π) : Prop where
  outbox : x.peer.outbox = []
  inbound : (x.peer.inbound x.broker).length ≤ x.peer.received
  acknowledged : ∀ c id, x.Live c id → x.Acknowledged c id

/-- The queue of an iterator. -/
def queue (x : Subscribers π) (c id : String) : Option (List (NMBMessage π)) :=
  (x.peer.bus.queues c)[(members x.iterators c).idxOf id]?

/-- The message is the reply to a pending request of the client. -/
def Answers (x : Subscribers π) (m : NMBMessage π) : Prop :=
  ∃ id, truthy m.replyTo = some id ∧ id ∈ x.peer.bus.pendingFutures

theorem quiet_iff (hx : Agreed name x) (hq : x.Quiet) (c : String) :
    (x.peer.bus.channelQueues.lookup c).isSome ↔ x.Listed name c := by
  constructor
  · intro hsome
    obtain ⟨qs, hqs⟩ := Option.isSome_iff_exists.1 hsome
    have hlength := hx.queues c
    rw [MessageBus.queues_eq, members_of_lookup hqs] at hlength
    have hne : members x.iterators c ≠ [] := by
      intro hnone
      rw [hnone, List.length_nil, List.length_eq_zero_iff] at hlength
      exact hx.noEmpty c (hlength ▸ hqs)
    obtain ⟨id, hl⟩ := List.exists_mem_of_ne_nil _ hne
    exact (hx.joined c id hl (hx.results id (hq.acknowledged c id hl).2)).1
  · intro hlisted
    by_contra hnone
    have hqueues : x.peer.bus.queues c = [] :=
      members_of_none (Option.not_isSome_iff_eq_none.1 hnone)
    have hlength := hx.queues c
    rw [hqueues, List.length_nil] at hlength
    refine hx.left c (List.length_eq_zero_iff.1 hlength.symm) ?_
    rw [MayList, hq.outbox]
    exact hlisted

/-- What is published to a channel goes to its acknowledged iterators. -/
theorem deliver_queue (hx : Agreed name x) {c id : String} (ha : x.Acknowledged c id)
    {m : NMBMessage π} (hop : m.op = .deliver) (hc : m.channel = some c) (hr : ¬ x.Answers m) :
    ∃ q, x.queue c id = some q ∧
      ((x.peer.bus.dispatch m).queues c)[(members x.iterators c).idxOf id]? =
        some (putOrDropOldest channelQueueSize q m) ∧
      (x.peer.bus.dispatch m).listenQueue = x.peer.bus.listenQueue := by
  obtain ⟨hl, hack⟩ := ha
  have hlisted := (hx.joined c id hl (hx.results id hack)).1
  have hne : c ≠ "" := by
    rintro rfl
    rw [Listed, hx.hosts.unnamed] at hlisted
    contradiction
  have hlt : (members x.iterators c).idxOf id < (x.peer.bus.queues c).length := by
    rw [hx.queues]
    exact List.idxOf_lt_length_of_mem hl
  obtain ⟨qs, hqs⟩ : ∃ qs, x.peer.bus.channelQueues.lookup c = some qs := by
    by_contra hnone
    have hqueues : x.peer.bus.queues c = [] :=
      members_of_none (Option.eq_none_iff_forall_not_mem.2 fun qs hqs => hnone ⟨qs, hqs⟩)
    rw [hqueues] at hlt
    contradiction
  have hfuture : (truthy m.replyTo).filter (fun id => decide (id ∈ x.peer.bus.pendingFutures)) =
      none := by
    rw [Option.filter_eq_none_iff]
    exact fun i hi => by simpa using fun hmem => hr ⟨i, hi, hmem⟩
  have hchannel : truthy m.channel = some c := truthy_eq_some.2 ⟨hc, hne⟩
  have hdispatch : x.peer.bus.dispatch m = x.peer.bus.putChannel c qs m := by
    simp only [MessageBus.dispatch, hop, MessageBus.dispatchDeliver, hfuture, hchannel,
      Option.bind_some, hqs, Option.map_some]
  have hqueues : x.peer.bus.queues c = qs := members_of_lookup hqs
  refine ⟨(x.peer.bus.queues c)[(members x.iterators c).idxOf id],
    List.getElem?_eq_getElem hlt, ?_, hdispatch ▸ rfl⟩
  rw [hdispatch, MessageBus.queues_eq, MessageBus.putChannel, members_insert, if_pos rfl,
    List.getElem?_map, ← hqueues, List.getElem?_eq_getElem hlt]
  rfl

/-- A client that calls no `request` waits for no reply. -/
theorem pendingFutures_step (hx : x.peer.bus.pendingFutures = []) {e : SubscribersEvent π}
    (he : e.requests = false) (h : x.step E name e = some x') :
    x'.peer.bus.pendingFutures = [] := by
  cases e with
  | subscribe c id =>
    simp only [step, Option.ite_none_left_eq_some] at h
    obtain rfl := Option.some.inj h.2
    exact hx
  | exit c id timedOut uid =>
    simp only [step, Option.ite_none_right_eq_some] at h
    obtain rfl := Option.some.inj h.2
    unfold exit
    dsimp only
    generalize hbus : (if timedOut = true then _ else _ : MessageBus π) = bus
    have hnone : bus.pendingFutures = [] := by
      rw [← hbus]
      split <;> exact hx
    split <;> exact hnone
  | call msg =>
    simp only [step, Option.ite_none_right_eq_some] at h
    obtain rfl := Option.some.inj h.2
    have hop : msg.op ≠ .request := of_decide_eq_false he
    simp only [write, MessageBus.call]
    split
    · exact hx
    · exact hx
    · contradiction
    · exact hx
  | giveUp id =>
    obtain rfl := Option.some.inj h
    simp [giveUp, hx]
  | read now =>
    simp only [step] at h
    split at h
    · contradiction
    · obtain ⟨b, -, rfl⟩ := Option.map_eq_some_iff.1 h
      exact hx
  | receive =>
    obtain ⟨p, hp, rfl⟩ := Option.map_eq_some_iff.1 h
    obtain ⟨m, -, rfl⟩ := Option.map_eq_some_iff.1 hp
    exact List.subset_nil.1 (hx ▸ x.peer.bus.pendingFutures_dispatch m)
  | broker e =>
    simp only [step, Option.ite_none_left_eq_some] at h
    obtain ⟨b, -, rfl⟩ := Option.map_eq_some_iff.1 h.2
    exact hx

end Subscribers

open Subscribers Broker

/-- Client and broker agree on the channels whenever nothing is on the way, and what is delivered
for a channel with an acknowledged iterator gets into its queue. Only the reply to a request of the
client goes elsewhere, and a client without requests gets none. -/
theorem subscriptions_agree {π : Type} {E : BrokerEnv π} {name : String} {ws : Ws}
    {tr : List (Subscribers π × SubscribersEvent π)} {x : Subscribers π}
    (h : (subscribersMachine E name ws).Trace tr x) :
    (x.Quiet → ∀ c, (x.peer.bus.channelQueues.lookup c).isSome ↔
      name ∈ members x.broker.channels c) ∧
    (∀ x' m c id, x.step E name .receive = some x' →
      (x.peer.inbound x.broker)[x.peer.received]? = some m → m.op = .deliver →
      m.channel = some c → ¬ x.Answers m → x.Acknowledged c id →
      ∃ q, x.queue c id = some q ∧
        x'.queue c id = some (putOrDropOldest channelQueueSize q m) ∧
        x'.peer.bus.listenQueue = x.peer.bus.listenQueue) ∧
    ((∀ p ∈ tr, p.2.requests = false) → ∀ m, ¬ x.Answers m) := by
  have hx : Agreed name x :=
    h.invariant (agreed_initial name ws) fun _ _ _ hx hs => agreed_step hx hs
  refine ⟨fun hq c => quiet_iff hx hq c, ?_, ?_⟩
  · intro x' m c id hs hm hop hc hr ha
    obtain ⟨p, hp, rfl⟩ := Option.map_eq_some_iff.1 hs
    obtain ⟨m', hm', rfl⟩ := Option.map_eq_some_iff.1 hp
    obtain rfl := Option.some.inj (hm.symm.trans hm')
    exact deliver_queue hx ha hop hc hr
  · rintro hrequests m ⟨id, -, hid⟩
    have hnone : x.peer.bus.pendingFutures = [] :=
      h.guarded_invariant (G := fun _ (e : SubscribersEvent π) => e.requests = false)
        (I := fun x => x.peer.bus.pendingFutures = []) hrequests rfl
        fun _ _ _ hx he hs => pendingFutures_step hx he hs
    rw [hnone] at hid
    contradiction

/-- The iterator of `review` waits for its ACK, and then for what `code` publishes. -/
def newsSubscribed : List (SubscribersEvent String) :=
  [.subscribe "news" "s-1", .read 0, .broker (.resume 1 .ok), .receive]

def newsStory : NMBMessage String :=
  { op := .publish, id := "p-1", type := some "story", channel := some "news",
    payload := some "\x7b\x7d" }

def newsPublished : List (SubscribersEvent String) :=
  newsSubscribed ++
    [.broker (.connect 2 "code"), .broker (.frame 2 (.ok newsStory) 1), .broker (.safeSend 2 1)]

theorem subscriptions_agree_news :
    (∃ tr x, (subscribersMachine jsonText "review" 1).Trace tr x ∧
      ∀ c, (x.peer.bus.channelQueues.lookup c).isSome ↔ "review" ∈ members x.broker.channels c) ∧
    ∃ tr x x', (subscribersMachine jsonText "review" 1).Trace tr x ∧
      x.step jsonText "review" .receive = some x' ∧ x.queue "news" "s-1" = some [] ∧
      x'.queue "news" "s-1" = some [(stamp newsStory "code" 1).makeDeliver] := by
  constructor
  · obtain ⟨tr, x, h, -, hcheck⟩ :=
      Machine.Trace.of_check (M := subscribersMachine jsonText "review" 1) newsSubscribed
        (p := fun _ x => decide (x.peer.outbox = [] ∧
          (x.peer.inbound x.broker).length ≤ x.peer.received ∧
          x.iterators.entries = [⟨"news", ["s-1"]⟩] ∧
          x.peer.bus.acks.lookup "s-1" = some (.result ()))) (by decide)
    obtain ⟨hout, hin, hiterators, hack⟩ := of_decide_eq_true hcheck
    refine ⟨tr, x, h, (subscriptions_agree h).1 ⟨hout, hin, ?_⟩⟩
    intro c id hl
    have hlookup : x.iterators.lookup c = some (members x.iterators c) := by
      cases hc : x.iterators.lookup c with
      | none =>
        rw [Live, members_of_none hc] at hl
        contradiction
      | some ids => rw [members_of_lookup hc]
    have hmem := AList.mem_lookup_iff.1 hlookup
    rw [hiterators] at hmem
    obtain ⟨rfl, hids⟩ := Sigma.mk.inj (List.mem_singleton.1 hmem)
    rw [Live, eq_of_heq hids] at hl
    obtain rfl := List.mem_singleton.1 hl
    refine ⟨?_, hack⟩
    rw [Live, eq_of_heq hids]
    exact List.mem_singleton_self _
  · obtain ⟨tr, x, h, -, hcheck⟩ :=
      Machine.Trace.of_check (M := subscribersMachine jsonText "review" 1) newsPublished
        (p := fun tr x => decide (
          (∀ p ∈ tr, p.2.requests = false) ∧
          (x.peer.inbound x.broker)[x.peer.received]? =
            some (stamp newsStory "code" 1).makeDeliver ∧
          (x.step jsonText "review" .receive).isSome = true ∧
          x.queue "news" "s-1" = some [] ∧ "s-1" ∈ members x.iterators "news" ∧
          x.peer.bus.acks.lookup "s-1" = some (.result ()))) (by decide)
    obtain ⟨hrequests, hm, hstep, hqueue, hlive, hack⟩ := of_decide_eq_true hcheck
    obtain ⟨x', hs⟩ := Option.isSome_iff_exists.1 hstep
    obtain ⟨-, hdeliver, hanswers⟩ := subscriptions_agree h
    obtain ⟨q, hq, hq', -⟩ :=
      hdeliver x' _ "news" "s-1" hs hm rfl rfl (hanswers hrequests _) ⟨hlive, hack⟩
    obtain rfl := Option.some.inj (hqueue.symm.trans hq)
    exact ⟨tr, x, x', h, hs, hqueue, hq'⟩

end NemoClaw
