import Mathlib.Data.PNat.Basic
import NemoClaw.Lib.Machine
import NemoClaw.Lib.Newest
import NemoClaw.Nmb.Client

/-! The delivery queues of a client (`nmb/client.py`) as queue objects with their history: what
`_put_or_drop_oldest` puts on a queue, and what `listen` and `subscribe` take off it. -/

namespace NemoClaw

open Lib

/-! ### Bounded queues -/

/-- An `asyncio.Queue` with a `maxsize`. -/
structure AsyncQueue (α : Type) (maxsize : ℕ+) where
  items : List α := []
  length_le : items.length ≤ maxsize := by simp

namespace AsyncQueue

variable {α : Type} {maxsize : ℕ+}

def full (q : AsyncQueue α maxsize) : Bool := maxsize ≤ q.items.length

/-- Nothing when it raises `QueueEmpty`. -/
def getNowait (q : AsyncQueue α maxsize) : Option (α × AsyncQueue α maxsize) :=
  match h : q.items with
  | [] => none
  | x :: rest => some (x, ⟨rest, by
      have hle := q.length_le
      rw [h, List.length_cons] at hle
      omega⟩)

/-- Nothing when it raises `QueueFull`. -/
def putNowait (q : AsyncQueue α maxsize) (x : α) : Option (AsyncQueue α maxsize) :=
  if h : q.items.length < maxsize then
    some ⟨q.items ++ [x], by rw [List.length_append]; exact h⟩
  else none

/-- `_put_or_drop_oldest` -/
def putOrDropOldest (q : AsyncQueue α maxsize) (x : α) : Option (AsyncQueue α maxsize) :=
  let q := if q.full then (q.getNowait.map Prod.snd).getD q else q
  q.putNowait x

theorem getNowait_eq_some {q q' : AsyncQueue α maxsize} {x : α}
    (h : q.getNowait = some (x, q')) : q.items = x :: q'.items := by
  unfold getNowait at h
  split at h
  · cases h
  · next hitems =>
    obtain ⟨rfl, rfl⟩ := Prod.mk.inj (Option.some.inj h)
    exact hitems

theorem putNowait_of_lt {q : AsyncQueue α maxsize} (h : q.items.length < maxsize) (x : α) :
    ∃ q', q.putNowait x = some q' ∧ q'.items = q.items ++ [x] :=
  ⟨_, dif_pos h, rfl⟩

/-- It never raises `QueueFull`: when there is no room, the first item goes. -/
theorem exists_putOrDropOldest (q : AsyncQueue α maxsize) (x : α) :
    ∃ q', q.putOrDropOldest x = some q' ∧
      q'.items = (if maxsize ≤ q.items.length then q.items.tail else q.items) ++ [x] := by
  have hpos := maxsize.pos
  unfold putOrDropOldest full
  by_cases hfull : (maxsize : ℕ) ≤ q.items.length
  · simp only [hfull, decide_true, if_true]
    cases hget : q.getNowait with
    | none =>
      unfold getNowait at hget
      split at hget
      · next hitems =>
        rw [hitems, List.length_nil] at hfull
        omega
      · cases hget
    | some p =>
      obtain ⟨y, rest⟩ := p
      have hitems := getNowait_eq_some hget
      have hroom : rest.items.length < maxsize := by
        have hle := q.length_le
        rw [hitems, List.length_cons] at hle
        omega
      rw [hitems, List.tail_cons]
      exact putNowait_of_lt hroom x
  · simp only [hfull, decide_false, if_false, Bool.false_eq_true]
    exact putNowait_of_lt (not_le.1 hfull) x

end AsyncQueue

/-! ### Queues with their history -/

/-- A queue of deliveries. What arrived on it, the number with which each item arrived and what was
consumed are bookkeeping. -/
structure DeliveryQueue (α : Type) (maxsize : ℕ+) where
  queue : AsyncQueue (α × ℕ) maxsize := {}
  arrived : List α := []
  consumed : List (α × ℕ) := []

namespace DeliveryQueue

variable {α : Type} {maxsize : ℕ+} (q : DeliveryQueue α maxsize)

def arrive (msg : α) : Option (DeliveryQueue α maxsize) :=
  (q.queue.putOrDropOldest (msg, q.arrived.length + 1)).map fun queue =>
    { q with queue := queue, arrived := q.arrived ++ [msg] }

def consume : Option (DeliveryQueue α maxsize) :=
  q.queue.getNowait.map fun p => { q with queue := p.2, consumed := q.consumed ++ [p.1] }

/-- The number of the last message that was consumed. -/
def last : ℕ := (q.consumed.getLast?.map Prod.snd).getD 0

/-- The queue holds the newest of what is not consumed, and what is missing has fallen behind. -/
structure KeepsNewest : Prop where
  content : q.queue.items = (numbered q.arrived).drop (max q.last (q.arrived.length - maxsize))
  never_full : ∀ msg, (q.arrive msg).isSome
  newest : ∀ msg, q.arrived.getLast? = some msg →
    (msg, q.arrived.length) ∈ q.queue.items ∨ (msg, q.arrived.length) ∈ q.consumed
  dropped : ∀ p ∈ numbered q.arrived, p ∉ q.queue.items → p ∉ q.consumed →
    p.2 + maxsize ≤ q.arrived.length
  genuine : ∀ p ∈ q.consumed, p ∈ numbered q.arrived
  in_order : (q.consumed.map Prod.snd).Pairwise (· < ·)

/-- What one arrival and one consumption keep. -/
structure Kept : Prop where
  content : q.queue.items = unread maxsize q.last q.arrived
  gaps : ∀ p ∈ numbered q.arrived, p.2 ≤ q.last → p ∉ q.consumed →
    p.2 + maxsize ≤ q.arrived.length
  genuine : ∀ p ∈ q.consumed, p ∈ numbered q.arrived
  le_last : ∀ p ∈ q.consumed, p.2 ≤ q.last
  in_order : (q.consumed.map Prod.snd).Pairwise (· < ·)

variable {q}

theorem exists_arrive (q : DeliveryQueue α maxsize) (msg : α) : ∃ q', q.arrive msg = some q' ∧
    q'.arrived = q.arrived ++ [msg] ∧ q'.consumed = q.consumed ∧
      q'.queue.items = (if maxsize ≤ q.queue.items.length then q.queue.items.tail
        else q.queue.items) ++ [(msg, q.arrived.length + 1)] := by
  obtain ⟨queue, hput, hitems⟩ := q.queue.exists_putOrDropOldest (msg, q.arrived.length + 1)
  rw [arrive, hput]
  exact ⟨_, rfl, rfl, rfl, hitems⟩

theorem consume_eq_some {q' : DeliveryQueue α maxsize} (h : q.consume = some q') : ∃ p,
    q'.arrived = q.arrived ∧ q'.consumed = q.consumed ++ [p] ∧
      q.queue.items = p :: q'.queue.items := by
  obtain ⟨⟨p, queue⟩, hget, rfl⟩ := Option.map_eq_some_iff.1 h
  exact ⟨p, rfl, rfl, AsyncQueue.getNowait_eq_some hget⟩

theorem kept_empty : Kept ({} : DeliveryQueue α maxsize) where
  content := by simp [unread, numbered]
  gaps := by simp [numbered]
  genuine := by simp
  le_last := by simp
  in_order := List.Pairwise.nil

theorem Kept.last_le (h : q.Kept) : q.last ≤ q.arrived.length := by
  unfold last
  cases hlast : q.consumed.getLast? with
  | none => exact Nat.zero_le _
  | some p =>
    exact (bounds_of_mem_numbered (h.genuine p (List.mem_of_getLast? hlast))).2

theorem Kept.arrive {q' : DeliveryQueue α maxsize} {msg : α} (h : q.Kept)
    (ha : q.arrive msg = some q') : q'.Kept := by
  obtain ⟨q₁, hq₁, harrived, hconsumed, hitems⟩ := q.exists_arrive msg
  obtain rfl := Option.some.inj (ha.symm.trans hq₁)
  have hlast : q'.last = q.last := by rw [last, hconsumed, last]
  have hlength : q'.arrived.length = q.arrived.length + 1 := by simp [harrived]
  refine ⟨?_, ?_, ?_, ?_, ?_⟩
  · rw [hitems, hlast, harrived, unread_append_singleton maxsize.pos h.last_le, h.content]
  · intro p hp hle hnot
    rw [hlast] at hle
    rw [hconsumed] at hnot
    rw [harrived, numbered_append_singleton, List.mem_append, List.mem_singleton] at hp
    rcases hp with hp | rfl
    · have hgap := h.gaps p hp hle hnot
      omega
    · have hlt := h.last_le
      dsimp only at hle
      omega
  · intro p hp
    rw [hconsumed] at hp
    rw [harrived, numbered_append_singleton]
    exact List.mem_append_left _ (h.genuine p hp)
  · rw [hconsumed, hlast]
    exact h.le_last
  · rw [hconsumed]
    exact h.in_order

theorem Kept.consume {q' : DeliveryQueue α maxsize} (h : q.Kept) (hc : q.consume = some q') :
    q'.Kept := by
  obtain ⟨p, harrived, hconsumed, hitems⟩ := consume_eq_some hc
  rw [h.content] at hitems
  obtain ⟨hmem, hnumber, hrest⟩ := unread_eq_cons hitems
  have hlast : q'.last = p.2 := by simp [last, hconsumed]
  have hlt : q.last < p.2 := by omega
  refine ⟨?_, ?_, ?_, ?_, ?_⟩
  · rw [hrest, hlast, harrived]
  · intro r hr hle hnot
    rw [hlast] at hle
    rw [harrived] at hr ⊢
    rw [hconsumed, List.mem_append, List.mem_singleton, not_or] at hnot
    have hne : r.2 ≠ p.2 := by
      intro heq
      refine hnot.2 (Prod.ext ?_ heq)
      obtain ⟨-, hr⟩ := mem_numbered.1 hr
      obtain ⟨-, hp⟩ := mem_numbered.1 hmem
      rw [heq, hp] at hr
      exact (Option.some.inj hr).symm
    rcases Nat.lt_or_ge q.last r.2 with hbehind | hbefore
    · have hbounds := bounds_of_mem_numbered hr
      omega
    · exact h.gaps r hr hbefore hnot.1
  · intro r hr
    rw [hconsumed, List.mem_append, List.mem_singleton] at hr
    rw [harrived]
    rcases hr with hr | rfl
    · exact h.genuine r hr
    · exact hmem
  · intro r hr
    rw [hconsumed, List.mem_append, List.mem_singleton] at hr
    rw [hlast]
    rcases hr with hr | rfl
    · exact (h.le_last r hr).trans hlt.le
    · exact le_rfl
  · rw [hconsumed, List.map_append, List.map_singleton, List.pairwise_append]
    refine ⟨h.in_order, List.pairwise_singleton _ _, ?_⟩
    intro k hk r hr
    obtain ⟨s, hs, rfl⟩ := List.mem_map.1 hk
    rw [List.mem_singleton.1 hr]
    exact (h.le_last s hs).trans_lt hlt

theorem Kept.keepsNewest (h : q.Kept) : q.KeepsNewest := by
  have hmissing : ∀ p ∈ numbered q.arrived, p ∉ q.queue.items →
      p.2 ≤ max q.last (q.arrived.length - maxsize) := by
    intro p hp hnot
    rw [h.content, mem_unread] at hnot
    exact not_lt.1 fun hlt => hnot ⟨hp, hlt⟩
  have hdropped : ∀ p ∈ numbered q.arrived, p ∉ q.queue.items → p ∉ q.consumed →
      p.2 + maxsize ≤ q.arrived.length := by
    intro p hp hitem hnot
    rcases le_max_iff.1 (hmissing p hp hitem) with hle | hle
    · exact h.gaps p hp hle hnot
    · have hbounds := bounds_of_mem_numbered hp
      omega
  refine ⟨h.content, ?_, ?_, hdropped, h.genuine, h.in_order⟩
  · intro msg
    obtain ⟨q', hq', -⟩ := q.exists_arrive msg
    rw [hq', Option.isSome_some]
  · intro msg hmsg
    have hmem : (msg, q.arrived.length) ∈ numbered q.arrived := by
      rw [List.getLast?_eq_getElem?] at hmsg
      obtain ⟨hlt, -⟩ := List.getElem?_eq_some_iff.1 hmsg
      exact mem_numbered.2 ⟨by omega, hmsg⟩
    by_contra hnot
    rw [not_or] at hnot
    have hle := hdropped _ hmem hnot.1 hnot.2
    have hpos := maxsize.pos
    dsimp only at hle
    omega

/-- The messages on the queue. -/
def messages (q : DeliveryQueue α maxsize) : List α := q.queue.items.map Prod.fst

theorem messages_arrive {q' : DeliveryQueue α maxsize} {msg : α} (h : q.arrive msg = some q') :
    q'.messages = putOrDropOldest maxsize q.messages msg := by
  obtain ⟨q₁, hq₁, -, -, hitems⟩ := q.exists_arrive msg
  obtain rfl := Option.some.inj (h.symm.trans hq₁)
  unfold messages putOrDropOldest
  rw [hitems, List.map_append, List.map_singleton, List.length_map]
  split_ifs
  · rw [List.map_tail]
  · rfl

theorem exists_mapM_arrive (msg : α) (queues : List (DeliveryQueue α maxsize)) :
    ∃ queues', queues.mapM (arrive · msg) = some queues' ∧
      List.Forall₂ (fun q q' => q.arrive msg = some q') queues queues' := by
  induction queues with
  | nil => exact ⟨[], rfl, List.Forall₂.nil⟩
  | cons q queues ih =>
    obtain ⟨q', hq', -⟩ := q.exists_arrive msg
    obtain ⟨queues', hmap, hall⟩ := ih
    refine ⟨q' :: queues', ?_, List.Forall₂.cons hq' hall⟩
    rw [List.mapM_cons, hq', hmap]
    rfl

end DeliveryQueue

/-! ### The queues of a client -/

/-- What of a `MessageBus` decides where a delivery goes. -/
structure DeliveryBus (π : Type) (listenSize channelSize : ℕ+) where
  pendingFutures : List String := []
  listenQueue : DeliveryQueue (NMBMessage π) listenSize := {}
  channelQueues : Dict String (List (DeliveryQueue (NMBMessage π) channelSize)) := ∅
  /-- `put_nowait` has raised `QueueFull`, and the receive loop is over -/
  queueFull : Bool := false

inductive DeliveryEvent (π : Type)
  | request (id : String)
  /-- an error or a timeout of a request -/
  | failed (id : String)
  | deliver (msg : NMBMessage π)
  /-- `listen` yields a message -/
  | listen
  | subscribe (channel : String)
  /-- the `i`-th iterator of the channel yields a message -/
  | next (channel : String) (i : ℕ)
  /-- the `i`-th iterator of the channel is left -/
  | unsubscribe (channel : String) (i : ℕ)

namespace DeliveryBus

variable {π : Type} {listenSize channelSize : ℕ+} (bus : DeliveryBus π listenSize channelSize)

/-- `_dispatch_deliver`, or nothing when it raises. -/
def dispatchDeliver (msg : NMBMessage π) : Option (DeliveryBus π listenSize channelSize) :=
  match (truthy msg.replyTo).filter fun id => decide (id ∈ bus.pendingFutures) with
  | some id => some { bus with pendingFutures := bus.pendingFutures.erase id }
  | none =>
    match (truthy msg.channel).bind fun c => (bus.channelQueues.lookup c).map fun q => (c, q) with
    | some (channel, queues) =>
      (queues.mapM (DeliveryQueue.arrive · msg)).map fun queues =>
        { bus with channelQueues := bus.channelQueues.insert channel queues }
    | none => (bus.listenQueue.arrive msg).map fun q => { bus with listenQueue := q }

def step : DeliveryEvent π → Option (DeliveryBus π listenSize channelSize)
  | .request id => some { bus with pendingFutures := bus.pendingFutures.insert id }
  | .failed id => some { bus with pendingFutures := bus.pendingFutures.erase id }
  | .deliver msg =>
    if bus.queueFull then none
    else some ((bus.dispatchDeliver msg).getD { bus with queueFull := true })
  | .listen => bus.listenQueue.consume.map fun q => { bus with listenQueue := q }
  | .subscribe channel =>
    some { bus with channelQueues :=
      bus.channelQueues.insert channel ((bus.channelQueues.lookup channel).getD [] ++ [{}]) }
  | .next channel i =>
    (bus.channelQueues.lookup channel).bind fun queues =>
      (queues[i]?.bind DeliveryQueue.consume).map fun q =>
        { bus with channelQueues := bus.channelQueues.insert channel (queues.set i q) }
  | .unsubscribe channel i =>
    let queues := ((bus.channelQueues.lookup channel).getD []).eraseIdx i
    some { bus with channelQueues :=
      if queues.isEmpty then bus.channelQueues.erase channel
      else bus.channelQueues.insert channel queues }

/-- What holds of every queue of the client. -/
structure Each (P : ∀ {n : ℕ+}, DeliveryQueue (NMBMessage π) n → Prop) : Prop where
  listen : P bus.listenQueue
  channel : ∀ c queues, bus.channelQueues.lookup c = some queues → ∀ q ∈ queues, P q

variable {bus}

theorem Each.insert {P : ∀ {n : ℕ+}, DeliveryQueue (NMBMessage π) n → Prop} (h : bus.Each P)
    (channel : String) {queues : List (DeliveryQueue (NMBMessage π) channelSize)}
    (hqueues : ∀ q ∈ queues, P q) :
    Each { bus with channelQueues := bus.channelQueues.insert channel queues } P := by
  refine ⟨h.listen, ?_⟩
  intro c qs hqs
  rcases Dict.lookup_insert_eq_some.1 hqs with ⟨-, rfl⟩ | ⟨-, hqs⟩
  · exact hqueues
  · exact h.channel c qs hqs

theorem Each.of_getD {P : ∀ {n : ℕ+}, DeliveryQueue (NMBMessage π) n → Prop} (h : bus.Each P)
    (channel : String) : ∀ q ∈ (bus.channelQueues.lookup channel).getD [], P q := by
  cases hqueues : bus.channelQueues.lookup channel with
  | none => simp
  | some queues => exact h.channel channel queues hqueues

/-- A delivery goes to its future, to every queue of its channel, or to the listen queue, and it is
never refused. -/
theorem exists_dispatchDeliver (h : bus.Each DeliveryQueue.Kept) (msg : NMBMessage π) :
    ∃ bus', bus.dispatchDeliver msg = some bus' ∧ bus'.queueFull = bus.queueFull ∧
      bus'.Each DeliveryQueue.Kept := by
  unfold dispatchDeliver
  split
  · exact ⟨_, rfl, rfl, h.listen, h.channel⟩
  · split
    · next channel queues hfound =>
      obtain ⟨c, -, hc⟩ := Option.bind_eq_some_iff.1 hfound
      obtain ⟨qs, hqs, heq⟩ := Option.map_eq_some_iff.1 hc
      obtain ⟨rfl, rfl⟩ := Prod.mk.inj heq
      obtain ⟨queues', hmap, hall⟩ := DeliveryQueue.exists_mapM_arrive msg qs
      rw [hmap]
      refine ⟨_, rfl, rfl, h.insert c ?_⟩
      intro q' hq'
      obtain ⟨i, hi, rfl⟩ := List.getElem_of_mem hq'
      have hlt : i < qs.length := hall.length_eq ▸ hi
      exact (h.channel c qs hqs _ (List.getElem_mem hlt)).arrive (hall.get hlt hi)
    · obtain ⟨q, hq, -⟩ := bus.listenQueue.exists_arrive msg
      rw [hq]
      exact ⟨_, rfl, rfl, h.listen.arrive hq, h.channel⟩

theorem kept_step {bus' : DeliveryBus π listenSize channelSize} {e : DeliveryEvent π}
    (h : bus.queueFull = false ∧ bus.Each DeliveryQueue.Kept) (hs : bus.step e = some bus') :
    bus'.queueFull = false ∧ bus'.Each DeliveryQueue.Kept := by
  obtain ⟨hfull, hkept⟩ := h
  cases e with
  | request id | failed id =>
    obtain rfl := Option.some.inj hs
    exact ⟨hfull, hkept.listen, hkept.channel⟩
  | deliver msg =>
    obtain ⟨bus₁, hbus₁, hfull₁, hkept₁⟩ := exists_dispatchDeliver hkept msg
    rw [step, hfull, hbus₁] at hs
    obtain rfl := Option.some.inj hs
    exact ⟨hfull₁.trans hfull, hkept₁⟩
  | listen =>
    obtain ⟨q, hq, rfl⟩ := Option.map_eq_some_iff.1 hs
    exact ⟨hfull, hkept.listen.consume hq, hkept.channel⟩
  | subscribe channel =>
    obtain rfl := Option.some.inj hs
    refine ⟨hfull, hkept.insert channel ?_⟩
    intro q hq
    rcases List.mem_append.1 hq with hq | hq
    · exact hkept.of_getD channel q hq
    · rw [List.mem_singleton.1 hq]
      exact DeliveryQueue.kept_empty
  | next channel i =>
    obtain ⟨queues, hqueues, hs⟩ := Option.bind_eq_some_iff.1 hs
    obtain ⟨q, hq, rfl⟩ := Option.map_eq_some_iff.1 hs
    obtain ⟨q₀, hq₀, hconsume⟩ := Option.bind_eq_some_iff.1 hq
    refine ⟨hfull, hkept.insert channel ?_⟩
    intro r hr
    rcases List.mem_or_eq_of_mem_set hr with hr | rfl
    · exact hkept.channel channel queues hqueues r hr
    · exact (hkept.channel channel queues hqueues q₀ (List.mem_of_getElem? hq₀)).consume hconsume
  | unsubscribe channel i =>
    obtain rfl := Option.some.inj hs
    refine ⟨hfull, ?_⟩
    split_ifs with hempty
    · refine ⟨hkept.listen, ?_⟩
      intro c qs hqs
      exact hkept.channel c qs (Dict.lookup_erase_eq_some.1 hqs).2
    · refine hkept.insert channel ?_
      intro q hq
      exact hkept.of_getD channel q (List.mem_of_mem_eraseIdx hq)

/-! ### Without the history -/

/-- The client that `bus` is when the numbers and the history are left out. -/
structure Shows (bus : DeliveryBus π 1000 1000) (client : MessageBus π) : Prop where
  pending : client.pendingFutures = bus.pendingFutures
  listen : client.listenQueue = bus.listenQueue.messages
  channels : ∀ c, client.channelQueues.lookup c =
    (bus.channelQueues.lookup c).map (List.map DeliveryQueue.messages)

theorem Shows.dispatchDeliver {bus bus' : DeliveryBus π 1000 1000} {client : MessageBus π}
    (h : bus.Shows client) {msg : NMBMessage π} (hd : bus.dispatchDeliver msg = some bus') :
    bus'.Shows (client.dispatchDeliver msg) := by
  have hfound : ((truthy msg.channel).bind fun c =>
      (client.channelQueues.lookup c).map fun q => (c, q)) =
        ((truthy msg.channel).bind fun c => (bus.channelQueues.lookup c).map fun q => (c, q)).map
          fun p => (p.1, p.2.map DeliveryQueue.messages) := by
    cases truthy msg.channel with
    | none => rfl
    | some c =>
      rw [Option.bind_some, Option.bind_some, h.channels c, Option.map_map, Option.map_map]
      rfl
  unfold DeliveryBus.dispatchDeliver at hd
  unfold MessageBus.dispatchDeliver
  rw [h.pending, hfound]
  -- both buses ask the same two questions about the message
  cases hreply : (truthy msg.replyTo).filter fun id => decide (id ∈ bus.pendingFutures) with
  | some id =>
    rw [hreply] at hd
    obtain rfl := Option.some.inj hd
    exact ⟨congrArg (List.erase · id) h.pending, h.listen, h.channels⟩
  | none =>
    rw [hreply] at hd
    cases hentry : (truthy msg.channel).bind fun c =>
      (bus.channelQueues.lookup c).map fun q => (c, q) with
    | some entry =>
      obtain ⟨channel, queues⟩ := entry
      rw [hentry] at hd
      obtain ⟨queues', hmap, rfl⟩ := Option.map_eq_some_iff.1 hd
      obtain ⟨queues₁, hmap₁, hall⟩ := DeliveryQueue.exists_mapM_arrive msg queues
      obtain rfl := Option.some.inj (hmap.symm.trans hmap₁)
      refine ⟨h.pending, h.listen, ?_⟩
      have hmessages : (queues.map DeliveryQueue.messages).map
          (putOrDropOldest channelQueueSize · msg) = queues'.map DeliveryQueue.messages := by
        clear hmap hmap₁ hd hfound hentry
        induction hall with
        | nil => rfl
        | cons harrive _ ih =>
          rw [List.map_cons, List.map_cons, List.map_cons, ih,
            DeliveryQueue.messages_arrive harrive]
          rfl
      intro c
      dsimp only [Option.map_some, MessageBus.putChannel]
      rw [hmessages]
      by_cases hc : c = channel
      · subst hc
        rw [AList.lookup_insert, AList.lookup_insert, Option.map_some]
      · rw [AList.lookup_insert_ne hc, AList.lookup_insert_ne hc]
        exact h.channels c
    | none =>
      rw [hentry] at hd
      obtain ⟨q, hq, rfl⟩ := Option.map_eq_some_iff.1 hd
      refine ⟨h.pending, ?_, h.channels⟩
      dsimp only [Option.map_none, MessageBus.putListen]
      rw [h.listen, DeliveryQueue.messages_arrive hq]
      rfl

end DeliveryBus

def deliveryMachine (π : Type) (listenSize channelSize : ℕ+) :
    Machine (DeliveryBus π listenSize channelSize) (DeliveryEvent π) where
  init := {}
  step := DeliveryBus.step

/-- Whatever arrives and is consumed in between, no `put_nowait` raises and every queue of a client
holds the newest messages that are not consumed. -/
theorem queues_keep_newest {π : Type} {listenSize channelSize : ℕ+}
    {tr : List (DeliveryBus π listenSize channelSize × DeliveryEvent π)}
    {bus : DeliveryBus π listenSize channelSize}
    (h : (deliveryMachine π listenSize channelSize).Trace tr bus) :
    bus.queueFull = false ∧ bus.Each DeliveryQueue.KeepsNewest := by
  have hempty : DeliveryBus.Each ({} : DeliveryBus π listenSize channelSize)
      DeliveryQueue.Kept := by
    refine ⟨DeliveryQueue.kept_empty, ?_⟩
    intro c queues hqueues
    cases hqueues
  obtain ⟨hfull, hkept⟩ := h.invariant ⟨rfl, hempty⟩ fun _ _ _ hi he => DeliveryBus.kept_step hi he
  exact ⟨hfull, hkept.listen.keepsNewest, fun c queues hqueues q hq =>
    (hkept.channel c queues hqueues q hq).keepsNewest⟩

def announcement (id : String) (channel : Option String) : NMBMessage Unit where
  op := .deliver
  id := id
  channel := channel

/-- Three messages for a listen queue of two, then one is consumed and two more arrive; the second
iterator of a channel is behind. -/
def lateListener : List (DeliveryEvent Unit) :=
  [.deliver (announcement "m-1" none), .subscribe "news", .deliver (announcement "m-2" none),
    .subscribe "news", .deliver (announcement "m-3" none), .listen,
    .deliver (announcement "n-1" (some "news")), .next "news" 0,
    .deliver (announcement "n-2" (some "news")), .deliver (announcement "m-4" none),
    .deliver (announcement "m-5" none)]

theorem queues_keep_newest_late : ∃ tr bus, (deliveryMachine Unit 2 1).Trace tr bus ∧
    tr.map Prod.snd = lateListener ∧ bus.listenQueue.queue.items.map Prod.snd = [4, 5] ∧
      bus.queueFull = false ∧ bus.Each DeliveryQueue.KeepsNewest := by
  obtain ⟨tr, bus, htr, hevents, hitems⟩ :=
    Machine.Trace.of_check (M := deliveryMachine Unit 2 1) lateListener
      (p := fun _ bus => decide (bus.listenQueue.queue.items.map Prod.snd = [4, 5]))
      (by decide +kernel)
  exact ⟨tr, bus, htr, hevents, of_decide_eq_true hitems, queues_keep_newest htr⟩

end NemoClaw
