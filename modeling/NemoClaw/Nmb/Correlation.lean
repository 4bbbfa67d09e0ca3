import NemoClaw.Lib.Machine
import NemoClaw.Nmb.Client

/-! The correlation tables of a client over all its calls: `request` and `_send_and_await_ack` enter
a future before they write their frame, and take it out of the table again only when their wait
times out. What else ends a call leaves the entry to the receive loop. -/

namespace NemoClaw

open Lib

variable {π α : Type}

/-- A table of the client, with the states of its futures. -/
structure FutureTable (α : Type) where
  pending : List String
  futures : Dict String (FutureState α)

def FutureState.isPending : FutureState α → Bool
  | .pending => true
  | _ => false

def FutureState.completed : FutureState α → Bool
  | .result _ | .exception _ => true
  | .pending | .cancelled => false

namespace MessageBus

/-- `fut.cancel()`, when the wait for the future is given up. -/
def cancelFuture (bus : MessageBus π) (id : String) : MessageBus π :=
  { bus with futures := setUnlessDone bus.futures id .cancelled }

def cancelAck (bus : MessageBus π) (id : String) : MessageBus π :=
  { bus with acks := setUnlessDone bus.acks id .cancelled }

def connectionClosed {α : Type} : FutureState α := .exception (.connection "Connection closed")

/-- `_fail_pending_futures` -/
def failPendingFutures (bus : MessageBus π) : MessageBus π :=
  { bus with
    futures := bus.pendingFutures.foldl (fun futures id =>
      setUnlessDone futures id connectionClosed) bus.futures
    pendingFutures := []
    acks := bus.pendingAcks.foldl (fun acks id => setUnlessDone acks id connectionClosed) bus.acks
    pendingAcks := [] }

def requestTable (bus : MessageBus π) : FutureTable (NMBMessage π) :=
  ⟨bus.pendingFutures, bus.futures⟩

def ackTable (bus : MessageBus π) : FutureTable Unit := ⟨bus.pendingAcks, bus.acks⟩

end MessageBus

/-- `request`, or `_send_and_await_ack`. -/
inductive CallKind
  | request | ack
  deriving DecidableEq, Repr

/-- What a call awaits. -/
inductive CallPhase
  | sending | awaiting | ended
  deriving DecidableEq, Repr

structure ClientCall where
  kind : CallKind
  phase : CallPhase
  deriving DecidableEq, Repr

/-- A client with all its calls, by the ids of their messages. -/
structure CallingClient (π : Type) where
  bus : MessageBus π := {}
  /-- `_ws is not None` -/
  connected : Bool := false
  calls : Dict String ClientCall := ∅

inductive ClientEvent (π : Type)
  | connected
  /-- a call starts, with a fresh message id -/
  | start (kind : CallKind) (id : String)
  /-- the frame of the call is written -/
  | sent (id : String)
  /-- writing the frame raises -/
  | sendFailed (id : String)
  /-- the call gets what its future has -/
  | resumed (id : String)
  | timedOut (id : String)
  /-- the task of the call is cancelled -/
  | cancelled (id : String)
  /-- the receive loop takes a frame of the broker -/
  | frame (msg : NMBMessage π)
  /-- the receive loop ends -/
  | lost
  /-- the last part of `close` -/
  | closed

namespace CallingClient

/-- The entry of a call. -/
def register (bus : MessageBus π) (id : String) : CallKind → MessageBus π
  | .request =>
    { bus with
      futures := bus.futures.insert id .pending
      pendingFutures := bus.pendingFutures.insert id }
  | .ack => bus.awaitAck id

/-- The future of the call is not done. -/
def waiting (bus : MessageBus π) (id : String) : CallKind → Bool
  | .request => (bus.futures.lookup id).any FutureState.isPending
  | .ack => (bus.acks.lookup id).any FutureState.isPending

def cancel (bus : MessageBus π) (id : String) : CallKind → MessageBus π
  | .request => bus.cancelFuture id
  | .ack => bus.cancelAck id

/-- `except TimeoutError` -/
def forget (bus : MessageBus π) (id : String) : CallKind → MessageBus π
  | .request => { bus with pendingFutures := bus.pendingFutures.erase id }
  | .ack => { bus with pendingAcks := bus.pendingAcks.erase id }

/-- The call is in this phase from now on. -/
def enter (x : CallingClient π) (bus : MessageBus π) (id : String) (kind : CallKind)
    (phase : CallPhase) : CallingClient π :=
  { x with bus := bus, calls := x.calls.insert id ⟨kind, phase⟩ }

def step (x : CallingClient π) : ClientEvent π → Option (CallingClient π)
  | .connected => some { x with connected := true }
  | .start kind id =>
    if (x.calls.lookup id).isSome then none
    else
      -- without a connection `self._conn` raises, and the entry is made already
      some (x.enter (register x.bus id kind) id kind (if x.connected then .sending else .ended))
  | .sent id =>
    match x.calls.lookup id with
    | some ⟨kind, .sending⟩ => some (x.enter x.bus id kind .awaiting)
    | _ => none
  | .sendFailed id =>
    match x.calls.lookup id with
    | some ⟨kind, .sending⟩ => some (x.enter x.bus id kind .ended)
    | _ => none
  | .resumed id =>
    match x.calls.lookup id with
    | some ⟨kind, .awaiting⟩ =>
      if waiting x.bus id kind then none else some (x.enter x.bus id kind .ended)
    | _ => none
  | .timedOut id =>
    match x.calls.lookup id with
    | some ⟨kind, .awaiting⟩ =>
      if waiting x.bus id kind then
        some (x.enter (forget (cancel x.bus id kind) id kind) id kind .ended)
      else none
    | _ => none
  | .cancelled id =>
    match x.calls.lookup id with
    | some ⟨kind, .sending⟩ => some (x.enter x.bus id kind .ended)
    | some ⟨kind, .awaiting⟩ => some (x.enter (cancel x.bus id kind) id kind .ended)
    | _ => none
  | .frame msg => some { x with bus := x.bus.dispatch msg }
  | .lost => some { x with bus := x.bus.failPendingFutures }
  | .closed => some { x with bus := x.bus.failPendingFutures, connected := false }

/-- The id is in a table. -/
def Listed (x : CallingClient π) (id : String) : Prop :=
  id ∈ x.bus.pendingFutures ∨ id ∈ x.bus.pendingAcks

/-- A call that has ended has no entry. -/
def NoLeak (x : CallingClient π) : Prop :=
  ∀ id kind, x.calls.lookup id = some ⟨kind, .ended⟩ → ¬ x.Listed id

/-- A call is not made without a connection, and neither writing its frame fails nor its task is
cancelled while it has an entry. -/
def EndsUnlisted (x : CallingClient π) : ClientEvent π → Prop
  | .start _ _ => x.connected = true
  | .sendFailed id | .cancelled id => ¬ x.Listed id
  | _ => True

end CallingClient

def clientMachine {π : Type} : Machine (CallingClient π) (ClientEvent π) where
  init := {}
  step := CallingClient.step

/-! ### One table -/

/-- The frame carries the id of the message that it answers. -/
def NMBMessage.Carries (msg : NMBMessage π) (id : String) : Prop :=
  msg.op = .deliver ∧ msg.replyTo = some id ∨
    (msg.op = .ack ∨ msg.op = .error ∨ msg.op = .timeout) ∧ msg.id = id

/-- What may complete a future: a frame that carries its id, or the end of the connection. -/
def ClientEvent.Completes (id : String) : ClientEvent π → Prop
  | .frame msg => msg.Carries id
  | .lost | .closed => True
  | _ => False

namespace FutureTable

variable {t t' : FutureTable α} {id : String}

/-- The entries are different, and their futures pending. -/
structure Sound (t : FutureTable α) : Prop where
  nodup : t.pending.Nodup
  waiting : ∀ id ∈ t.pending, t.futures.lookup id = some .pending

/-- A future that is done stays as it is, and one that completes does so as it may. -/
structure Advances (t t' : FutureTable α) (may : String → Prop) : Prop where
  done : ∀ id state, t.futures.lookup id = some state → state ≠ .pending →
    t'.futures.lookup id = some state
  completed : ∀ id state, t.futures.lookup id = some .pending →
    t'.futures.lookup id = some state → state.completed = true → may id

/-- No future is new. -/
def Within (t t' : FutureTable α) : Prop :=
  ∀ id, t.futures.lookup id = none → t'.futures.lookup id = none

/-- Pop an entry and set its future. -/
def settle (t : FutureTable α) (id : String) (state : FutureState α) : FutureTable α :=
  ⟨t.pending.erase id, MessageBus.setUnlessDone t.futures id state⟩

theorem lookup_setUnlessDone (futures : Dict String (FutureState α)) (id k : String)
    (state : FutureState α) :
    (MessageBus.setUnlessDone futures id state).lookup k = futures.lookup k ∨
      k = id ∧ futures.lookup id = some .pending ∧
        (MessageBus.setUnlessDone futures id state).lookup k = some state := by
  unfold MessageBus.setUnlessDone
  split
  · rename_i hpending
    by_cases he : k = id
    · subst he
      exact Or.inr ⟨rfl, hpending, AList.lookup_insert _⟩
    · exact Or.inl (AList.lookup_insert_ne he)
  · exact Or.inl rfl

theorem within_set (pending : List String) (id : String) (state : FutureState α) :
    Within t ⟨pending, MessageBus.setUnlessDone t.futures id state⟩ := by
  intro k hnone
  rcases lookup_setUnlessDone t.futures id k state with h | ⟨rfl, hpending, -⟩
  · exact h.trans hnone
  · cases hnone.symm.trans hpending

theorem advances_set (pending : List String) (id : String) (state : FutureState α) :
    Advances t ⟨pending, MessageBus.setUnlessDone t.futures id state⟩
      fun k => k = id ∧ state.completed = true := by
  constructor
  · intro k old hold hne
    rcases lookup_setUnlessDone t.futures id k state with h | ⟨rfl, hpending, -⟩
    · exact h.trans hold
    · exact absurd (Option.some.inj (hold.symm.trans hpending)) hne
  · intro k new hpending hnew hcompleted
    rcases lookup_setUnlessDone t.futures id k state with h | ⟨rfl, -, h⟩
    · obtain rfl := Option.some.inj (hpending.symm.trans (h.symm.trans hnew))
      contradiction
    · obtain rfl := Option.some.inj (h.symm.trans hnew)
      exact ⟨rfl, hcompleted⟩

theorem advances_of_eq {may : String → Prop} (h : t'.futures = t.futures) :
    Advances t t' may := by
  refine ⟨fun id state hs _ => by rw [h, hs], fun id state hp hs hc => ?_⟩
  rw [h] at hs
  obtain rfl := Option.some.inj (hp.symm.trans hs)
  contradiction

theorem Advances.mono {may may' : String → Prop} (h : Advances t t' may)
    (hmay : ∀ id, may id → may' id) : Advances t t' may' :=
  ⟨h.done, fun id state hp hs hc => hmay id (h.completed id state hp hs hc)⟩

/-- All entries are failed one after the other. -/
theorem fail_all (ids pending : List String) (state : FutureState α) (t : FutureTable α) :
    let t' : FutureTable α := ⟨pending, ids.foldl (fun futures id =>
      MessageBus.setUnlessDone futures id state) t.futures⟩
    Advances t t' (fun _ => True) ∧ Within t t' := by
  induction ids generalizing t with
  | nil => exact ⟨advances_of_eq rfl, fun _ => id⟩
  | cons id ids ih =>
    obtain ⟨hadvances, hwithin⟩ := ih (t.settle id state)
    have hset : Advances t (t.settle id state) _ := advances_set _ id state
    refine ⟨⟨?_, fun _ _ _ _ _ => trivial⟩, ?_⟩
    · exact fun k old hold hne => hadvances.done k old (hset.done k old hold hne) hne
    · exact fun k hnone => hwithin k (within_set _ id state k hnone)

/-! ### Entries -/

theorem Sound.settle (h : Sound t) (id : String) (state : FutureState α) :
    Sound (t.settle id state) := by
  refine ⟨h.nodup.erase id, fun k hk => ?_⟩
  obtain ⟨hne, hk⟩ := h.nodup.mem_erase_iff.1 hk
  rcases lookup_setUnlessDone t.futures id k state with heq | ⟨rfl, -⟩
  · exact heq.trans (h.waiting k hk)
  · exact absurd rfl hne

theorem Sound.cancel (h : Sound t) {id : String} (hid : id ∉ t.pending) (state : FutureState α) :
    Sound ⟨t.pending, MessageBus.setUnlessDone t.futures id state⟩ := by
  have hsettle := h.settle id state
  rwa [FutureTable.settle, List.erase_of_not_mem hid] at hsettle

theorem Sound.register (h : Sound t) (id : String) :
    Sound ⟨t.pending.insert id, t.futures.insert id .pending⟩ := by
  refine ⟨h.nodup.insert, fun k hk => ?_⟩
  by_cases he : k = id
  · rw [he]
    exact AList.lookup_insert _
  · have hk : k ∈ t.pending := (List.mem_insert_iff.1 hk).resolve_left he
    exact (AList.lookup_insert_ne he).trans (h.waiting k hk)

/-- A future that is done has no entry. -/
theorem Sound.notMem (h : Sound t) {id : String}
    (hdone : (t.futures.lookup id).any FutureState.isPending = false) : id ∉ t.pending := by
  intro hid
  rw [h.waiting id hid] at hdone
  contradiction

end FutureTable

/-! ### The receive loop -/

/-- What a frame does to the tables. -/
inductive FrameEffect (bus bus' : MessageBus π) (msg : NMBMessage π) : Prop
  | none (hr : bus'.requestTable = bus.requestTable) (ha : bus'.ackTable = bus.ackTable)
  | request {id state} (hid : msg.Carries id)
      (hr : bus'.requestTable = bus.requestTable.settle id state)
      (ha : bus'.ackTable = bus.ackTable)
  | ack {id state} (hid : msg.Carries id) (hr : bus'.requestTable = bus.requestTable)
      (ha : bus'.ackTable = bus.ackTable.settle id state)

theorem frame_effect (bus : MessageBus π) (msg : NMBMessage π) :
    FrameEffect bus (bus.dispatch msg) msg := by
  unfold MessageBus.dispatch
  split
  · rename_i hop
    unfold MessageBus.dispatchDeliver
    split
    · rename_i id hid
      have hreply := (truthy_eq_some.1 (Option.filter_eq_some_iff.1 hid).1).1
      exact .request (Or.inl ⟨hop, hreply⟩) rfl rfl
    · split
      · exact .none rfl rfl
      · exact .none rfl rfl
  · rename_i hop
    unfold MessageBus.dispatchAck
    split
    · exact .ack (Or.inr ⟨Or.inl hop, rfl⟩) rfl rfl
    · exact .none rfl rfl
  · rename_i hop
    unfold MessageBus.dispatchError
    split
    · exact .request (Or.inr ⟨Or.inr (Or.inl hop), rfl⟩) rfl rfl
    · split
      · exact .ack (Or.inr ⟨Or.inr (Or.inl hop), rfl⟩) rfl rfl
      · exact .none rfl rfl
  · rename_i hop
    unfold MessageBus.dispatchTimeout
    split
    · exact .request (Or.inr ⟨Or.inr (Or.inr hop), rfl⟩) rfl rfl
    · exact .none rfl rfl
  · exact .none rfl rfl

/-! ### Completions -/

namespace CallingClient

open FutureTable

variable {x x' : CallingClient π} {e : ClientEvent π}

/-- Every future is that of a call. -/
def Known (x : CallingClient π) : Prop :=
  ∀ id, x.calls.lookup id = none → x.bus.futures.lookup id = none ∧ x.bus.acks.lookup id = none

/-- The futures are completed at most once, and only as the event may. -/
structure CompletesOnce (x x' : CallingClient π) (e : ClientEvent π) : Prop where
  requests : x.bus.requestTable.Advances x'.bus.requestTable fun id => e.Completes id
  acks : x.bus.ackTable.Advances x'.bus.ackTable fun id => e.Completes id

theorem completesOnce_same (h : x'.bus = x.bus) : CompletesOnce x x' e :=
  ⟨advances_of_eq (by rw [h]), advances_of_eq (by rw [h])⟩

/-- A new future changes no other. -/
theorem advances_register {α : Type} {t : FutureTable α} {may : String → Prop} {id : String}
    (hfresh : t.futures.lookup id = none) :
    t.Advances ⟨t.pending.insert id, t.futures.insert id .pending⟩ may := by
  have hlookup : ∀ {k state}, t.futures.lookup k = some state →
      (t.futures.insert id .pending).lookup k = some state := by
    intro k state hk
    have hne : k ≠ id := by
      rintro rfl
      cases hfresh.symm.trans hk
    exact (AList.lookup_insert_ne hne).trans hk
  refine ⟨fun k state hk _ => hlookup hk, fun k state hk hnew hc => ?_⟩
  obtain rfl := Option.some.inj ((hlookup hk).symm.trans hnew)
  contradiction

theorem completesOnce_register {id : String} {kind : CallKind} {phase : CallPhase}
    (hk : x.Known) (hfresh : x.calls.lookup id = none) :
    CompletesOnce x (x.enter (register x.bus id kind) id kind phase) (.start kind id) := by
  obtain ⟨hfuture, hack⟩ := hk id hfresh
  cases kind with
  | request => exact ⟨advances_register hfuture, advances_of_eq rfl⟩
  | ack => exact ⟨advances_of_eq rfl, advances_register hack⟩

theorem completesOnce_cancel (x : CallingClient π) (e : ClientEvent π) (id : String)
    (kind : CallKind) (phase : CallPhase) :
    CompletesOnce x (x.enter (cancel x.bus id kind) id kind phase) e := by
  cases kind with
  | request =>
    refine ⟨(advances_set _ id .cancelled).mono ?_, advances_of_eq rfl⟩
    rintro k ⟨-, hc⟩
    contradiction
  | ack =>
    refine ⟨advances_of_eq rfl, (advances_set _ id .cancelled).mono ?_⟩
    rintro k ⟨-, hc⟩
    contradiction

theorem completesOnce_timedOut {id : String} {kind : CallKind} {phase : CallPhase} :
    CompletesOnce x (x.enter (forget (cancel x.bus id kind) id kind) id kind phase) e := by
  have h := completesOnce_cancel x e id kind phase
  cases kind with
  | request => exact ⟨⟨h.requests.done, h.requests.completed⟩, h.acks⟩
  | ack => exact ⟨h.requests, ⟨h.acks.done, h.acks.completed⟩⟩

theorem completesOnce_frame (msg : NMBMessage π) :
    CompletesOnce x { x with bus := x.bus.dispatch msg } (.frame msg) := by
  have hcarries : ∀ {id}, msg.Carries id → ∀ {state : Prop} k, k = id ∧ state →
      ClientEvent.Completes k (.frame msg) := by
    rintro id hid state k ⟨rfl, -⟩
    exact hid
  have heq : ∀ {α : Type} {t t' : FutureTable α}, t' = t →
      t.Advances t' fun id => ClientEvent.Completes id (.frame msg) :=
    fun h => advances_of_eq (by rw [h])
  cases frame_effect x.bus msg with
  | none hr ha => exact ⟨heq hr, heq ha⟩
  | @request id state hid hr ha =>
    refine ⟨?_, heq ha⟩
    change x.bus.requestTable.Advances (x.bus.dispatch msg).requestTable _
    rw [hr]
    exact (advances_set _ id state).mono (hcarries hid)
  | @ack id state hid hr ha =>
    refine ⟨heq hr, ?_⟩
    change x.bus.ackTable.Advances (x.bus.dispatch msg).ackTable _
    rw [ha]
    exact (advances_set _ id state).mono (hcarries hid)

/-- What a step can be. -/
inductive StepEffect (x : CallingClient π) : ClientEvent π → CallingClient π → Prop
  | connected : StepEffect x .connected { x with connected := true }
  | started {kind id} (hfresh : x.calls.lookup id = none) :
      StepEffect x (.start kind id) (x.enter (register x.bus id kind) id kind
        (if x.connected then .sending else .ended))
  | sent {id kind} (hcall : x.calls.lookup id = some ⟨kind, .sending⟩) :
      StepEffect x (.sent id) (x.enter x.bus id kind .awaiting)
  | failed {e id kind} (he : e = .sendFailed id ∨ e = .cancelled id)
      (hcall : x.calls.lookup id = some ⟨kind, .sending⟩) :
      StepEffect x e (x.enter x.bus id kind .ended)
  | resumed {id kind} (hcall : x.calls.lookup id = some ⟨kind, .awaiting⟩)
      (hdone : waiting x.bus id kind = false) :
      StepEffect x (.resumed id) (x.enter x.bus id kind .ended)
  | timedOut {id kind} (hcall : x.calls.lookup id = some ⟨kind, .awaiting⟩) :
      StepEffect x (.timedOut id)
        (x.enter (forget (cancel x.bus id kind) id kind) id kind .ended)
  | cancelled {id kind} (hcall : x.calls.lookup id = some ⟨kind, .awaiting⟩) :
      StepEffect x (.cancelled id) (x.enter (cancel x.bus id kind) id kind .ended)
  | frame (msg) : StepEffect x (.frame msg) { x with bus := x.bus.dispatch msg }
  | failedAll {e connected} (he : e = .lost ∨ e = .closed) :
      StepEffect x e { x with bus := x.bus.failPendingFutures, connected := connected }

theorem step_effect (h : x.step e = some x') : StepEffect x e x' := by
  cases e with
  | connected =>
    obtain rfl := Option.some.inj h
    exact .connected
  | start kind id =>
    simp only [step, Option.ite_none_left_eq_some, Bool.not_eq_true] at h
    obtain ⟨hfresh, h⟩ := h
    obtain rfl := Option.some.inj h
    exact .started (Option.isNone_iff_eq_none.1 (Option.isSome_eq_false_iff.1 hfresh))
  | sent id =>
    simp only [step] at h
    split at h
    · obtain rfl := Option.some.inj h
      exact .sent ‹_›
    · contradiction
  | sendFailed id =>
    simp only [step] at h
    split at h
    · obtain rfl := Option.some.inj h
      exact .failed (Or.inl rfl) ‹_›
    · contradiction
  | resumed id =>
    simp only [step] at h
    split at h
    · simp only [Option.ite_none_left_eq_some, Bool.not_eq_true] at h
      obtain ⟨hdone, h⟩ := h
      obtain rfl := Option.some.inj h
      exact .resumed ‹_› hdone
    · contradiction
  | timedOut id =>
    simp only [step] at h
    split at h
    · simp only [Option.ite_none_right_eq_some] at h
      obtain rfl := Option.some.inj h.2
      exact .timedOut ‹_›
    · contradiction
  | cancelled id =>
    simp only [step] at h
    split at h
    · obtain rfl := Option.some.inj h
      exact .failed (Or.inr rfl) ‹_›
    · obtain rfl := Option.some.inj h
      exact .cancelled ‹_›
    · contradiction
  | frame msg =>
    obtain rfl := Option.some.inj h
    exact .frame msg
  | lost =>
    obtain rfl := Option.some.inj h
    exact .failedAll (Or.inl rfl)
  | closed =>
    obtain rfl := Option.some.inj h
    exact .failedAll (Or.inr rfl)

theorem completesOnce_step (hk : x.Known) (h : x.step e = some x') : CompletesOnce x x' e := by
  cases step_effect h with
  | connected | sent | failed | resumed => exact completesOnce_same rfl
  | started hfresh => exact completesOnce_register hk hfresh
  | timedOut => exact completesOnce_timedOut
  | cancelled => exact completesOnce_cancel _ _ _ _ _
  | frame msg => exact completesOnce_frame msg
  | failedAll he =>
    have hmay : ∀ id, True → e.Completes id := by
      rcases he with rfl | rfl
      · exact fun _ => id
      · exact fun _ => id
    exact ⟨(fail_all _ [] _ x.bus.requestTable).1.mono hmay,
      (fail_all _ [] _ x.bus.ackTable).1.mono hmay⟩

theorem known_step (hk : x.Known) (h : x.step e = some x') : x'.Known := by
  have hcall : ∀ {id kind phase} {bus : MessageBus π},
      x.bus.requestTable.Within bus.requestTable → x.bus.ackTable.Within bus.ackTable →
        (x.enter bus id kind phase).Known := by
    intro id kind phase bus hr ha k hnone
    have hold : x.calls.lookup k = none := by
      by_cases he : k = id
      · rw [he, enter, AList.lookup_insert] at hnone
        contradiction
      · rwa [enter, AList.lookup_insert_ne he] at hnone
    exact ⟨hr k (hk k hold).1, ha k (hk k hold).2⟩
  have hsame : ∀ {α : Type} (t : FutureTable α), t.Within t := fun _ _ h => h
  cases step_effect h with
  | connected => exact hk
  | sent | failed | resumed => exact hcall (hsame _) (hsame _)
  | @started kind id hfresh =>
    intro k hnone
    by_cases he : k = id
    · rw [he, enter, AList.lookup_insert] at hnone
      contradiction
    · rw [enter, AList.lookup_insert_ne he] at hnone
      cases kind with
      | request => exact ⟨(AList.lookup_insert_ne he).trans (hk k hnone).1, (hk k hnone).2⟩
      | ack => exact ⟨(hk k hnone).1, (AList.lookup_insert_ne he).trans (hk k hnone).2⟩
  | @timedOut id kind | @cancelled id kind =>
    cases kind with
    | request => exact hcall (within_set _ id .cancelled) (hsame _)
    | ack => exact hcall (hsame _) (within_set _ id .cancelled)
  | frame msg =>
    intro k hnone
    obtain ⟨hfuture, hack⟩ := hk k hnone
    cases frame_effect x.bus msg with
    | none hr ha => exact ⟨(congrArg (fun t => t.futures.lookup k) hr).trans hfuture,
        (congrArg (fun t => t.futures.lookup k) ha).trans hack⟩
    | request hid hr ha => exact ⟨(congrArg (fun t => t.futures.lookup k) hr).trans
        (within_set _ _ _ k hfuture), (congrArg (fun t => t.futures.lookup k) ha).trans hack⟩
    | ack hid hr ha => exact ⟨(congrArg (fun t => t.futures.lookup k) hr).trans hfuture,
        (congrArg (fun t => t.futures.lookup k) ha).trans (within_set _ _ _ k hack)⟩
  | failedAll =>
    intro k hnone
    obtain ⟨hfuture, hack⟩ := hk k hnone
    exact ⟨(fail_all _ [] _ x.bus.requestTable).2 k hfuture,
      (fail_all _ [] _ x.bus.ackTable).2 k hack⟩

/-! ### Leaks -/

/-- Every entry has a pending future, and is that of a call of its kind that has not ended. -/
structure Entered (x : CallingClient π) : Prop where
  requests : x.bus.requestTable.Sound
  acks : x.bus.ackTable.Sound
  request : ∀ id ∈ x.bus.pendingFutures, ∃ phase,
    x.calls.lookup id = some ⟨.request, phase⟩ ∧ phase ≠ .ended
  ack : ∀ id ∈ x.bus.pendingAcks, ∃ phase,
    x.calls.lookup id = some ⟨.ack, phase⟩ ∧ phase ≠ .ended

theorem Entered.noLeak (h : x.Entered) : x.NoLeak := by
  rintro id kind hcall (hid | hid)
  · obtain ⟨phase, hphase, hne⟩ := h.request id hid
    exact hne (congrArg ClientCall.phase (Option.some.inj (hphase.symm.trans hcall)))
  · obtain ⟨phase, hphase, hne⟩ := h.ack id hid
    exact hne (congrArg ClientCall.phase (Option.some.inj (hphase.symm.trans hcall)))

/-- A call in its next phase. -/
theorem Entered.enter (h : x.Entered) {bus : MessageBus π} {id : String} {kind : CallKind}
    {phase : CallPhase} (hr : bus.requestTable.Sound) (ha : bus.ackTable.Sound)
    (hrequest : ∀ k ∈ bus.pendingFutures, k ≠ id ∧ k ∈ x.bus.pendingFutures ∨
      k = id ∧ kind = .request ∧ phase ≠ .ended)
    (hack : ∀ k ∈ bus.pendingAcks, k ≠ id ∧ k ∈ x.bus.pendingAcks ∨
      k = id ∧ kind = .ack ∧ phase ≠ .ended) : (x.enter bus id kind phase).Entered := by
  refine ⟨hr, ha, fun k hk => ?_, fun k hk => ?_⟩
  · rcases hrequest k hk with ⟨hne, hk⟩ | ⟨rfl, rfl, hphase⟩
    · obtain ⟨old, hold, hended⟩ := h.request k hk
      exact ⟨old, (AList.lookup_insert_ne hne).trans hold, hended⟩
    · exact ⟨phase, AList.lookup_insert _, hphase⟩
  · rcases hack k hk with ⟨hne, hk⟩ | ⟨rfl, rfl, hphase⟩
    · obtain ⟨old, hold, hended⟩ := h.ack k hk
      exact ⟨old, (AList.lookup_insert_ne hne).trans hold, hended⟩
    · exact ⟨phase, AList.lookup_insert _, hphase⟩

/-- A call that is not listed ends. -/
theorem Entered.ended (h : x.Entered) {bus : MessageBus π} {id : String} {kind : CallKind}
    (hr : bus.requestTable.Sound) (ha : bus.ackTable.Sound)
    (hrequest : ∀ k ∈ bus.pendingFutures, k ≠ id ∧ k ∈ x.bus.pendingFutures)
    (hack : ∀ k ∈ bus.pendingAcks, k ≠ id ∧ k ∈ x.bus.pendingAcks) :
    (x.enter bus id kind .ended).Entered :=
  h.enter hr ha (fun k hk => Or.inl (hrequest k hk)) fun k hk => Or.inl (hack k hk)

theorem Entered.unlisted (h : x.Entered) (kind : CallKind) {id : String}
    (hid : ¬ x.Listed id) : (x.enter x.bus id kind .ended).Entered := by
  obtain ⟨hrequest, hack⟩ := not_or.1 hid
  refine h.ended h.requests h.acks (fun k hk => ⟨?_, hk⟩) fun k hk => ⟨?_, hk⟩
  · rintro rfl
    exact hrequest hk
  · rintro rfl
    exact hack hk

/-- The tables list a call under its kind. -/
theorem Entered.kind (h : x.Entered) {id : String} {kind : CallKind} {phase : CallPhase}
    (hcall : x.calls.lookup id = some ⟨kind, phase⟩) :
    (id ∈ x.bus.pendingFutures → kind = .request) ∧ (id ∈ x.bus.pendingAcks → kind = .ack) := by
  constructor
  · intro hid
    obtain ⟨phase', hphase, -⟩ := h.request id hid
    exact congrArg ClientCall.kind (Option.some.inj (hcall.symm.trans hphase))
  · intro hid
    obtain ⟨phase', hphase, -⟩ := h.ack id hid
    exact congrArg ClientCall.kind (Option.some.inj (hcall.symm.trans hphase))

/-- A call whose future is done is not listed. -/
theorem Entered.of_done (h : x.Entered) {id : String} {kind : CallKind} {phase : CallPhase}
    (hcall : x.calls.lookup id = some ⟨kind, phase⟩) (hdone : waiting x.bus id kind = false) :
    ¬ x.Listed id := by
  obtain ⟨hrequest, hack⟩ := h.kind hcall
  rintro (hid | hid)
  · obtain rfl := hrequest hid
    exact h.requests.notMem hdone hid
  · obtain rfl := hack hid
    exact h.acks.notMem hdone hid

theorem Entered.started (h : x.Entered) {id : String} (kind : CallKind)
    (hfresh : x.calls.lookup id = none) :
    (x.enter (register x.bus id kind) id kind .sending).Entered := by
  have hrequest : id ∉ x.bus.pendingFutures := by
    intro hid
    obtain ⟨phase, hphase, -⟩ := h.request id hid
    cases hfresh.symm.trans hphase
  have hack : id ∉ x.bus.pendingAcks := by
    intro hid
    obtain ⟨phase, hphase, -⟩ := h.ack id hid
    cases hfresh.symm.trans hphase
  have hne : ∀ {ids : List String}, id ∉ ids → ∀ k ∈ ids, k ≠ id := by
    rintro ids hnot k hk rfl
    exact hnot hk
  cases kind with
  | request =>
    refine h.enter (h.requests.register id) h.acks (fun k hk => ?_)
      fun k hk => Or.inl ⟨hne hack k hk, hk⟩
    rcases List.mem_insert_iff.1 hk with rfl | hk
    · exact Or.inr ⟨rfl, rfl, nofun⟩
    · exact Or.inl ⟨hne hrequest k hk, hk⟩
  | ack =>
    refine h.enter h.requests (h.acks.register id) (fun k hk => Or.inl ⟨hne hrequest k hk, hk⟩)
      fun k hk => ?_
    rcases List.mem_insert_iff.1 hk with rfl | hk
    · exact Or.inr ⟨rfl, rfl, nofun⟩
    · exact Or.inl ⟨hne hack k hk, hk⟩

theorem Entered.timedOut (h : x.Entered) {id : String} {kind : CallKind} {phase : CallPhase}
    (hcall : x.calls.lookup id = some ⟨kind, phase⟩) :
    (x.enter (forget (cancel x.bus id kind) id kind) id kind .ended).Entered := by
  obtain ⟨hrequest, hack⟩ := h.kind hcall
  cases kind with
  | request =>
    refine h.ended (h.requests.settle id .cancelled) h.acks (fun k hk => ?_) fun k hk => ⟨?_, hk⟩
    · exact h.requests.nodup.mem_erase_iff.1 hk
    · rintro rfl
      exact absurd (hack hk) nofun
  | ack =>
    refine h.ended h.requests (h.acks.settle id .cancelled) (fun k hk => ⟨?_, hk⟩) fun k hk => ?_
    · rintro rfl
      exact absurd (hrequest hk) nofun
    · exact h.acks.nodup.mem_erase_iff.1 hk

theorem Entered.cancelled (h : x.Entered) {id : String} (kind : CallKind)
    (hid : ¬ x.Listed id) : (x.enter (cancel x.bus id kind) id kind .ended).Entered := by
  have hended := h.unlisted kind hid
  obtain ⟨hrequest, hack⟩ := not_or.1 hid
  cases kind with
  | request => exact ⟨h.requests.cancel hrequest .cancelled, h.acks, hended.request, hended.ack⟩
  | ack => exact ⟨h.requests, h.acks.cancel hack .cancelled, hended.request, hended.ack⟩

theorem Entered.frame (h : x.Entered) (msg : NMBMessage π) :
    Entered { x with bus := x.bus.dispatch msg } := by
  cases frame_effect x.bus msg with
  | none hr ha =>
    have hrequest : (x.bus.dispatch msg).pendingFutures = x.bus.pendingFutures :=
      congrArg FutureTable.pending hr
    have hack : (x.bus.dispatch msg).pendingAcks = x.bus.pendingAcks :=
      congrArg FutureTable.pending ha
    refine ⟨hr ▸ h.requests, ha ▸ h.acks, fun k hk => h.request k ?_, fun k hk => h.ack k ?_⟩
    · rwa [← hrequest]
    · rwa [← hack]
  | @request id state hid hr ha =>
    have hrequest : (x.bus.dispatch msg).pendingFutures = x.bus.pendingFutures.erase id :=
      congrArg FutureTable.pending hr
    have hack : (x.bus.dispatch msg).pendingAcks = x.bus.pendingAcks :=
      congrArg FutureTable.pending ha
    refine ⟨hr ▸ h.requests.settle id state, ha ▸ h.acks, fun k hk => h.request k ?_,
      fun k hk => h.ack k ?_⟩
    · exact List.mem_of_mem_erase (by rwa [← hrequest])
    · rwa [← hack]
  | @ack id state hid hr ha =>
    have hrequest : (x.bus.dispatch msg).pendingFutures = x.bus.pendingFutures :=
      congrArg FutureTable.pending hr
    have hack : (x.bus.dispatch msg).pendingAcks = x.bus.pendingAcks.erase id :=
      congrArg FutureTable.pending ha
    refine ⟨hr ▸ h.requests, ha ▸ h.acks.settle id state, fun k hk => h.request k ?_,
      fun k hk => h.ack k ?_⟩
    · rwa [← hrequest]
    · exact List.mem_of_mem_erase (by rwa [← hack])

/-- A call that ends is listed afterwards exactly if it is listed before. -/
theorem not_listed_of_noLeak {id : String} {kind : CallKind} {bus : MessageBus π}
    (hr : bus.pendingFutures = x.bus.pendingFutures) (ha : bus.pendingAcks = x.bus.pendingAcks)
    (h : (x.enter bus id kind .ended).NoLeak) : ¬ x.Listed id := by
  have hlisted := h id kind (AList.lookup_insert _)
  unfold Listed at hlisted ⊢
  rwa [← hr, ← ha]

/-- A step keeps the tables free of leaks exactly if no call ends in it that is listed. -/
theorem entered_step (h : x.Entered) (hs : x.step e = some x') :
    (x'.NoLeak → EndsUnlisted x e) ∧ (EndsUnlisted x e → x'.Entered) := by
  cases step_effect hs with
  | connected => exact ⟨fun _ => trivial, fun _ => ⟨h.requests, h.acks, h.request, h.ack⟩⟩
  | @started kind id hfresh =>
    constructor
    · intro hleak
      by_contra hnot
      have hfalse : x.connected = false := by simpa [EndsUnlisted] using hnot
      rw [hfalse] at hleak
      refine hleak id kind (AList.lookup_insert _) ?_
      cases kind with
      | request => exact Or.inl List.mem_insert_self
      | ack => exact Or.inr List.mem_insert_self
    · intro hconnected
      have hphase : x.connected = true := hconnected
      rw [if_pos hphase]
      exact h.started kind hfresh
  | @sent id kind hcall =>
    refine ⟨fun _ => trivial, fun _ => h.enter h.requests h.acks (fun k hk => ?_) fun k hk => ?_⟩
    · by_cases he : k = id
      · exact Or.inr ⟨he, (h.kind hcall).1 (he ▸ hk), nofun⟩
      · exact Or.inl ⟨he, hk⟩
    · by_cases he : k = id
      · exact Or.inr ⟨he, (h.kind hcall).2 (he ▸ hk), nofun⟩
      · exact Or.inl ⟨he, hk⟩
  | @failed _ id kind he hcall =>
    have hiff : EndsUnlisted x e ↔ ¬ x.Listed id := by
      rcases he with rfl | rfl
      · exact Iff.rfl
      · exact Iff.rfl
    rw [hiff]
    exact ⟨not_listed_of_noLeak rfl rfl, fun hid => h.unlisted _ hid⟩
  | resumed hcall hdone => exact ⟨fun _ => trivial, fun _ => h.unlisted _ (h.of_done hcall hdone)⟩
  | timedOut hcall => exact ⟨fun _ => trivial, fun _ => h.timedOut hcall⟩
  | @cancelled id kind hcall =>
    refine ⟨?_, fun hid => h.cancelled kind hid⟩
    cases kind with
    | request => exact not_listed_of_noLeak rfl rfl
    | ack => exact not_listed_of_noLeak rfl rfl
  | frame msg => exact ⟨fun _ => trivial, fun _ => h.frame msg⟩
  | failedAll he =>
    have hunlisted : EndsUnlisted x e := by
      rcases he with rfl | rfl
      · trivial
      · trivial
    have hsound : ∀ {α : Type} (futures : Dict String (FutureState α)),
        Sound (⟨[], futures⟩ : FutureTable α) :=
      fun futures => ⟨List.nodup_nil, nofun⟩
    exact ⟨fun _ => hunlisted, fun _ => ⟨hsound _, hsound _, nofun, nofun⟩⟩

end CallingClient

open CallingClient

/-- No call that has ended is in a table, in every state of a run, exactly if no call ends for want
of a connection, by a frame that is not written or by its cancellation while it is in one. In every
run a future is completed at most once, by a frame with its id or by the end of the connection. -/
theorem noLeak_iff {π : Type} {tr : List (CallingClient π × ClientEvent π)} {x : CallingClient π}
    (h : clientMachine.Trace tr x) :
    (Machine.Always NoLeak tr x ↔ Machine.Guarded EndsUnlisted tr) ∧
      ∀ e x', x.step e = some x' → x.CompletesOnce x' e := by
  constructor
  · refine h.always_iff_guarded_of_invariant (I := Entered) ?_ (fun _ => Entered.noLeak)
      fun _ _ _ hi hs => entered_step hi hs
    exact ⟨⟨List.nodup_nil, nofun⟩, ⟨List.nodup_nil, nofun⟩, nofun, nofun⟩
  · intro e x' hs
    refine completesOnce_step ?_ hs
    exact h.invariant (I := Known) (fun _ _ => ⟨rfl, rfl⟩) fun _ _ _ hk hs => known_step hk hs

/-- A request whose frame is not written. -/
def unwritten : List (ClientEvent String) :=
  [.connected, .start .request "r-1", .sendFailed "r-1"]

theorem noLeak_iff_unwritten : ∃ tr x, clientMachine.Trace tr x ∧ tr.map Prod.snd = unwritten ∧
    (Machine.Always NoLeak tr x ↔ Machine.Guarded EndsUnlisted tr) ∧
      ∀ e x', x.step e = some x' → x.CompletesOnce x' e := by
  obtain ⟨tr, x, h, hevents, -⟩ := Machine.Trace.of_check (M := clientMachine) unwritten
    (p := fun _ _ => true) (by decide)
  exact ⟨tr, x, h, hevents, noLeak_iff h⟩

/-- The entry of the request stays. -/
theorem request_leaked : ¬ ∀ tr (x : CallingClient String), clientMachine.Trace tr x →
    x.NoLeak := by
  intro hall
  obtain ⟨tr, x, h, -, hcheck⟩ := Machine.Trace.of_check
    (M := (clientMachine : Machine (CallingClient String) (ClientEvent String)))
    unwritten (p := fun _ x => decide (x.calls.lookup "r-1" = some ⟨.request, .ended⟩ ∧
      "r-1" ∈ x.bus.pendingFutures)) (by decide)
  obtain ⟨hended, hlisted⟩ := of_decide_eq_true hcheck
  exact hall tr x h "r-1" .request hended (Or.inl hlisted)

end NemoClaw
