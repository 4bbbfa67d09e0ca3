import NemoClaw.Lib.Pipes
import NemoClaw.Nmb.Client
import NemoClaw.Nmb.Deliveries

/-! Point-to-point messages: what the broker writes to the websocket of a target for one sender, in
the order in which the sender wrote it. Each client writes into the pipe of its websocket, and the
broker reads the pipes in any order; `MessageBus.stream` is one such client. -/

namespace NemoClaw

open Lib

def Op.pointToPoint : Op → Bool
  | .send | .request | .stream => true
  | _ => false

/-- A client writes a frame, and the broker reads it at some time. -/
def brokerFeed (π : Type) : Feed Ws (Except String (NMBMessage π)) ℚ (BrokerEvent π) where
  event := .frame
  input
    | .frame ws raw _ => some (ws, raw)
    | _ => none
  input_event _ _ _ := rfl

/-- The broker with its clients, who may write anything at any time. -/
def networkMachine {π : Type} (E : BrokerEnv π) :
    Machine (Piped (Broker π) Ws (Except String (NMBMessage π)))
      (PipedEvent Ws (Except String (NMBMessage π)) ℚ (BrokerEvent π)) :=
  (brokerMachine E).piped (brokerFeed π)

/-- A call of `MessageBus.stream`: what it is given, the ids it makes up and the payload `{}`. -/
structure StreamCall (π : Type) where
  target : String
  type : String
  chunks : List π
  streamId : String
  ids : ℕ → String
  empty : π

namespace StreamCall

variable {π : Type} (call : StreamCall π)

def message (seq : ℕ) (done : Bool) (payload : π) : NMBMessage π where
  op := .stream
  id := call.ids seq
  toSandbox := some call.target
  type := some call.type
  streamId := some call.streamId
  seq := some seq
  done := some done
  payload := some payload

/-- The frames that the call writes. -/
def messages : List (NMBMessage π) :=
  (call.chunks.zipIdx.map fun chunk => call.message chunk.2 false chunk.1) ++
    [call.message call.chunks.length true call.empty]

/-- What a receiver of the stream goes by: 0, 1, …, n, with `done` on the last. -/
def numbers : List (Option ℤ × Option Bool) :=
  ((List.range call.chunks.length).map fun i : ℕ => (some (i : ℤ), some false)) ++
    [(some (call.chunks.length : ℤ), some true)]

/-- The broker takes frames of up to ten megabytes. -/
def Fits (E : BrokerEnv π) : Prop :=
  ∀ payload ∈ call.empty :: call.chunks, E.payloadBytes payload ≤ maxPayloadBytes

theorem messages_numbers : (call.messages.map fun m => (m.seq, m.done)) = call.numbers := by
  have hindices : call.chunks.zipIdx.map Prod.snd = List.range call.chunks.length := by
    rw [List.range_eq_range']
    exact List.zipIdx_map_snd 0 call.chunks
  rw [numbers, ← hindices, List.map_map]
  simp only [messages, message, List.map_append, List.map_map, List.map_cons, List.map_nil]
  rfl

theorem mem_messages {m : NMBMessage π} (hm : m ∈ call.messages) :
    ∃ seq done, ∃ payload ∈ call.empty :: call.chunks, m = call.message seq done payload := by
  rcases List.mem_append.1 hm with hm | hm
  · obtain ⟨⟨payload, seq⟩, hmem, rfl⟩ := List.mem_map.1 hm
    exact ⟨seq, false, payload, List.mem_cons_of_mem _ (List.fst_mem_of_mem_zipIdx hmem), rfl⟩
  · obtain rfl := List.mem_singleton.1 hm
    exact ⟨_, true, call.empty, List.mem_cons_self, rfl⟩

/-- The frame carries a chunk of this stream. -/
def carries (raw : Except String (NMBMessage π)) : Bool :=
  match raw with
  | .ok m => decide (m.streamId = some call.streamId)
  | .error _ => false

end StreamCall

/-- What is sent at this event is part of a fan-out, or a reply. -/
def BrokerEvent.indirect {π : Type} : BrokerEvent π → Bool
  | .safeSend _ _ => true
  | .frame _ (.ok m) _ => decide (m.op = .reply)
  | _ => false

/-- The name `s` and the websocket `ws` belong together: nobody else connects under the name, and
nobody else is behind the websocket. -/
def SoleSocket {π : Type} (s : String) (ws : Ws) : BrokerEvent π → Prop
  | .connect ws' s' => s' = s ↔ ws' = ws
  | _ => True

instance {π : Type} (s : String) (ws : Ws) : DecidablePred (SoleSocket (π := π) s ws)
  | .connect ws' s' => inferInstanceAs (Decidable (s' = s ↔ ws' = ws))
  | .frame _ _ _ | .resume _ _ | .safeSend _ _ | .disconnect _ _ _ | .timer _ | .timerSent _ =>
    isTrue trivial

namespace Broker

variable {π : Type}

/-- The messages of `s` that these steps write to a websocket, fan-outs and replies apart. -/
def deliveries (E : BrokerEnv π) (s : String) (ws : Ws)
    (tr : List (Broker π × BrokerEvent π)) : List (NMBMessage π) :=
  tr.flatMap fun p => if p.2.indirect then [] else
    ((writes E p).filter fun f => decide (f.ws = ws ∧ f.frame.op = .deliver ∧
      f.frame.fromSandbox = some s)).map SentFrame.frame

/-- The message from `s` to `t` that this step reads and does not refuse, with the time. -/
def accepts (E : BrokerEnv π) (s t : String) (p : Broker π × BrokerEvent π) :
    Option (NMBMessage π × ℚ) :=
  match p.2 with
  | .frame ws (.ok m) now =>
    if (p.1.handlers.lookup ws).map Handler.sandboxId = some s ∧ m.op.pointToPoint = true ∧
        truthy m.toSandbox = some t ∧ (writes E p).all fun f => f.frame.op ≠ .error then
      some (m, now)
    else none
  | _ => none

/-- The messages from `s` to `t` that are accepted in these steps. -/
def accepted (E : BrokerEnv π) (s t : String) (tr : List (Broker π × BrokerEvent π)) :
    List (NMBMessage π × ℚ) :=
  tr.filterMap (accepts E s t)

variable {E : BrokerEnv π} {b b' : Broker π} {e : BrokerEvent π} {s t : String} {ws : Ws}

/-! ### Names and websockets -/

/-- The name stands for the websocket wherever the broker looks one of them up. -/
structure Sole (s : String) (ws : Ws) (b : Broker π) : Prop where
  handler : ∀ ws' h, b.handlers.lookup ws' = some h → (h.sandboxId = s ↔ ws' = ws)
  connection : ∀ s' ws', b.connections.lookup s' = some ws' → (s' = s ↔ ws' = ws)

/-- A handler that goes on stands for its sandbox as before. -/
theorem sole_insert (hb : Sole s ws b) {ws₁ : Ws} {s₁ : String} {phase phase' : Phase π}
    (hh : b.handlers.lookup ws₁ = some ⟨s₁, phase⟩)
    (hins : b'.handlers = b.handlers.insert ws₁ ⟨s₁, phase'⟩)
    (hconn : ∀ s' ws', b'.connections.lookup s' = some ws' →
      b.connections.lookup s' = some ws') : Sole s ws b' := by
  refine ⟨?_, fun s' ws' hc => hb.connection s' ws' (hconn s' ws' hc)⟩
  intro ws' h' hh'
  rw [hins] at hh'
  rcases Dict.lookup_insert_eq_some.1 hh' with ⟨rfl, rfl⟩ | ⟨-, hh'⟩
  · have hold := hb.handler ws' _ hh
    exact hold
  · exact hb.handler ws' h' hh'

theorem sole_step (hb : Sole s ws b) (hg : SoleSocket s ws e) (h : b.step E e = some b') :
    Sole s ws b' := by
  cases route_step h with
  | @connected ws₁ s₁ =>
    have hg : s₁ = s ↔ ws₁ = ws := hg
    refine ⟨?_, ?_⟩
    · intro ws' h' hh
      rw [handlers_register] at hh
      rcases Dict.lookup_insert_eq_some.1 hh with ⟨rfl, rfl⟩ | ⟨-, hh⟩
      · exact hg
      · exact hb.handler ws' h' hh
    · intro s' ws' hc
      cases hfree : b.connections.lookup s₁ with
      | none =>
        rw [(register_of_free hfree).1] at hc
        rcases Dict.lookup_insert_eq_some.1 hc with ⟨rfl, rfl⟩ | ⟨-, hc⟩
        · exact hg
        · exact hb.connection s' ws' hc
      | some ws₀ =>
        rw [register_of_taken (by simp [hfree])] at hc
        exact hb.connection s' ws' hc
  | @disconnected ws₁ s₁ msgId now hh₁ =>
    obtain ⟨phase, hins, -, -⟩ := unregister_handler E b s₁ ws₁ msgId now
    exact sole_insert hb hh₁ hins (connections_step h fun _ _ he => by contradiction).1
  | served he hh₁ hs ho =>
    exact sole_insert hb hh₁ hs.handlers fun s' ws' hc => hs.connections ▸ hc
  | fired he hc hw hr hhand hs hf =>
    refine ⟨?_, ?_⟩
    · intro ws' h' hh
      exact hb.handler ws' h' (hhand ▸ hh)
    · intro s' ws' hc'
      exact hb.connection s' ws' (hc ▸ hc')

/-! ### What one step delivers -/

/-- A point-to-point message is refused, or delivered to the connection of its target. -/
theorem pointToPoint_frame (hh : b.handlers.lookup ws = some ⟨s, .recv⟩) {m : NMBMessage π}
    (hop : m.op.pointToPoint = true) {now : ℚ} (h : b.step E (.frame ws (.ok m) now) = some b') :
    (∃ f, f.op = .error ∧ b'.sent = b.sent ++ [⟨ws, f, none⟩]) ∨
    ∃ target targetWs, truthy m.toSandbox = some target ∧
      b.connections.lookup target = some targetWs ∧
      b'.sent = b.sent ++ [⟨targetWs, (stamp m s now).makeDeliver, none⟩] := by
  cases dispatched_of_frame hh h with
  | refused | offline | full => exact Or.inl ⟨_, rfl, rfl⟩
  | forwarded hr hphase ht hc => exact Or.inr ⟨_, _, ht, hc, rfl⟩
  | admitted hr hm ht hc => exact Or.inr ⟨_, _, ht, hc, rfl⟩
  | replied hr hop' | unheard hr hop' | subscribed hr hop' | unsubscribed hr hop' | unread hr hop'
  | published hr hop' =>
    rw [hop'] at hop
    contradiction

/-- Apart from fan-outs and replies, only the step that reads a point-to-point message delivers. -/
theorem direct_step (h : b.step E e = some b') (hi : e.indirect = false) :
    (∃ ws m now, e = .frame ws (.ok m) now ∧ m.op.pointToPoint = true) ∨
      ∃ new, b'.sent = b.sent ++ new ∧ ∀ f ∈ new, f.frame.op ≠ .deliver := by
  cases route_step h with
  | connected => exact Or.inr ⟨[], by rw [sent_register, List.append_nil], by simp⟩
  | @disconnected ws₁ s₁ msgId now hh₁ =>
    obtain ⟨phase, -, hsent, -⟩ := unregister_handler E b s₁ ws₁ msgId now
    exact Or.inr ⟨[], by rw [hsent, List.append_nil], by simp⟩
  | fired he hc hw hr hh hs hf =>
    refine Or.inr ⟨_, hs, ?_⟩
    intro f hmem hop
    cases (hf f hmem).symm.trans hop
  | served he hh hs ho =>
    cases ho with
    | @forward m now target targetWs phase hop ht hc hphase =>
      refine Or.inl ⟨_, m, now, rfl, ?_⟩
      rcases hop with hop | hop | hop <;> rw [hop] <;> rfl
    | reply hop => simp [BrokerEvent.indirect, hop] at hi
    | fanout | notice => contradiction
    | acked ho hf | refused ho hf =>
      refine Or.inr ⟨_, hs.sent, ?_⟩
      intro f hmem hop
      obtain rfl := List.mem_singleton.1 hmem
      cases hf.symm.trans hop
    | publish | quiet => exact Or.inr ⟨_, hs.sent, by simp⟩

theorem accepts_of_not_pointToPoint
    (hp : ¬ ∃ ws m now, e = .frame ws (.ok m) now ∧ m.op.pointToPoint = true) :
    accepts E s t (b, e) = none := by
  cases e with
  | frame ws' raw now =>
    cases raw with
    | error => rfl
    | ok m =>
      have hop : m.op.pointToPoint = false := Bool.eq_false_iff.2 fun hop =>
        hp ⟨ws', m, now, rfl, hop⟩
      simp [accepts, hop]
  | _ => rfl

/-- The step that reads a point-to-point message delivers it or refuses it. -/
theorem deliveries_pointToPoint (hb : Sole t ws b) {ws' : Ws} {m : NMBMessage π} {now : ℚ}
    (hop : m.op.pointToPoint = true) (h : b.step E (.frame ws' (.ok m) now) = some b') :
    deliveries E s ws [(b, .frame ws' (.ok m) now)] =
      (accepts E s t (b, .frame ws' (.ok m) now)).toList.map fun a =>
        (stamp a.1 s a.2).makeDeliver := by
  have hi : m.op ≠ .reply := by
    intro hreply
    rw [hreply] at hop
    contradiction
  obtain ⟨s', hh, -⟩ := step_frame h
  rcases pointToPoint_frame hh hop h with ⟨f, hf, hsent⟩ | ⟨target, targetWs, ht, hc, hsent⟩
  · simp [deliveries, accepts, writes_eq h hsent, hf]
  · have hpair : target = t ↔ targetWs = ws := hb.connection target targetWs hc
    by_cases hs : s' = s
    · subst hs
      by_cases hws : targetWs = ws
      · have ht' := hpair.2 hws
        subst ht' hws
        simp [deliveries, accepts, writes_eq h hsent, BrokerEvent.indirect, hi, hop, hh, ht,
          NMBMessage.makeDeliver, stamp]
      · have hne : target ≠ t := fun heq => hws (hpair.1 heq)
        simp [deliveries, accepts, writes_eq h hsent, BrokerEvent.indirect, hi, ht, hws, hne]
    · simp [deliveries, accepts, writes_eq h hsent, BrokerEvent.indirect, hi, hh, hs,
        NMBMessage.makeDeliver, stamp]

/-- One step delivers what it accepts. -/
theorem deliveries_step (hb : Sole t ws b) (h : b.step E e = some b') :
    deliveries E s ws [(b, e)] =
      (accepts E s t (b, e)).toList.map fun a => (stamp a.1 s a.2).makeDeliver := by
  by_cases hp : ∃ ws m now, e = .frame ws (.ok m) now ∧ m.op.pointToPoint = true
  · obtain ⟨ws', m, now, rfl, hop⟩ := hp
    exact deliveries_pointToPoint hb hop h
  · rw [accepts_of_not_pointToPoint hp]
    by_cases hi : e.indirect = true
    · simp [deliveries, hi]
    · rcases direct_step h (Bool.eq_false_iff.2 hi) with hex | ⟨new, hsent, hnew⟩
      · exact absurd hex hp
      · simp only [deliveries, List.flatMap_cons, List.flatMap_nil, List.append_nil,
          writes_eq h hsent, hi]
        simp only [Bool.false_eq_true, if_false, Option.toList_none, List.map_nil,
          List.map_eq_nil_iff, List.filter_eq_nil_iff, decide_eq_true_eq]
        rintro f hf ⟨-, hdeliver, -⟩
        exact hnew f hf hdeliver

theorem sole_run {tr : List (Broker π × BrokerEvent π)} (h : (brokerMachine E).Trace tr b)
    (hg : Machine.Guarded (fun _ e => SoleSocket s ws e) tr) : Machine.Always (Sole s ws) tr b := by
  refine h.always_of_guarded hg ⟨?_, ?_⟩ fun b e b' hb hg hs => sole_step hb hg hs
  · intro ws' h' hh
    contradiction
  · intro s' ws' hc
    contradiction

/-- What a run delivers from one sandbox to another is what it accepts. -/
theorem deliveries_eq_accepted {tr : List (Broker π × BrokerEvent π)}
    (h : (brokerMachine E).Trace tr b) (hg : Machine.Guarded (fun _ e => SoleSocket t ws e) tr) :
    deliveries E s ws tr = (accepted E s t tr).map fun a => (stamp a.1 s a.2).makeDeliver := by
  induction h with
  | nil => rfl
  | @snoc tr b e b' h he ih =>
    obtain ⟨hg', hge⟩ := Machine.guarded_snoc.1 hg
    have hone := deliveries_step (s := s) (sole_run h hg').2 he
    rw [accepted, List.filterMap_append, List.map_append, ← accepted, ← ih hg', deliveries,
      List.flatMap_append]
    refine congrArg (deliveries E s ws tr ++ ·) (hone.trans ?_)
    cases hacc : accepts E s t (b, e) <;> simp [hacc]

/-- What is accepted from a sandbox was read from its websocket. -/
theorem input_of_accepts {wS : Ws} (hb : Sole s wS b) {a : NMBMessage π × ℚ}
    (ha : accepts E s t (b, e) = some a) : (brokerFeed π).input e = some (wS, .ok a.1) := by
  cases e with
  | frame ws' raw now =>
    cases raw with
    | error => contradiction
    | ok m =>
      simp only [accepts, Option.ite_none_right_eq_some] at ha
      obtain ⟨⟨hh, -⟩, ha⟩ := ha
      obtain rfl := Option.some.inj ha
      obtain ⟨hd, hlookup, hs⟩ := Option.map_eq_some_iff.1 hh
      obtain rfl := (hb.handler ws' hd hlookup).1 hs
      rfl
  | _ => contradiction

/-- The accepted messages, in the order in which they were read. -/
theorem accepted_sublist {wS : Ws} {tr : List (Broker π × BrokerEvent π)}
    (h : ∀ p ∈ tr, Sole s wS p.1) :
    ((accepted E s t tr).map fun a => Except.ok a.1).Sublist ((brokerFeed π).takes wS tr) := by
  induction tr with
  | nil => exact List.Sublist.refl _
  | cons p tr ih =>
    have hrest := ih fun q hq => h q (List.mem_cons_of_mem _ hq)
    rw [accepted, Feed.takes]
    cases ha : accepts E s t p with
    | none =>
      rw [List.filterMap_cons_none ha]
      exact hrest.trans (List.Sublist.filterMap _ (List.sublist_cons_self _ _))
    | some a =>
      have hinput := input_of_accepts (e := p.2) (h p List.mem_cons_self) ha
      rw [List.filterMap_cons_some ha, List.filterMap_cons_some (b := Except.ok a.1)
        (by simp [hinput])]
      exact hrest.cons_cons _

/-! ### Streams -/

/-- The seq numbers and `done` flags of a stream as they arrive. -/
def arrivals (E : BrokerEnv π) (call : StreamCall π) (s : String) (ws : Ws)
    (tr : List (Broker π × BrokerEvent π)) : List (Option ℤ × Option Bool) :=
  ((deliveries E s ws tr).filter fun m => decide (m.streamId = some call.streamId)).map fun m =>
    (m.seq, m.done)

/-- The number of a frame, and whether it is the last one. -/
def frameNumber : Except String (NMBMessage π) → Option ℤ × Option Bool
  | .ok m => (m.seq, m.done)
  | .error _ => (none, none)

/-- The chunks that arrive are those that are accepted. -/
theorem arrivals_eq {tr : List (Broker π × BrokerEvent π)} {call : StreamCall π}
    (h : deliveries E s ws tr =
      (accepted E s t tr).map fun a => (stamp a.1 s a.2).makeDeliver) :
    arrivals E call s ws tr =
      (((accepted E s t tr).map fun a => Except.ok a.1).filter call.carries).map frameNumber := by
  rw [arrivals, h, List.filter_map, List.map_map, List.filter_map, List.map_map]
  rfl

/-- A chunk that fits is accepted as long as the target is connected. -/
theorem accepts_chunk {call : StreamCall π} (hfits : call.Fits E) {m : NMBMessage π}
    (hm : m ∈ call.messages) (hh : b.handlers.lookup ws = some ⟨s, .recv⟩)
    (hempty : call.target ≠ "") {targetWs : Ws}
    (hc : b.connections.lookup call.target = some targetWs) (now : ℚ) :
    accepts E s call.target (b, .frame ws (.ok m) now) = some (m, now) := by
  obtain ⟨seq, done, payload, hpayload, rfl⟩ := call.mem_messages hm
  have hvalid : (stamp (call.message seq done payload) s now).validateFrame E.payloadBytes =
      .ok () := by
    refine (NMBMessage.validateFrame_ok_iff _ _).2 ⟨?_, ?_⟩
    · intro f hf
      simp only [stamp, StreamCall.message, requiredFields, List.mem_cons, List.not_mem_nil,
        or_false] at hf
      rcases hf with rfl | rfl | rfl | rfl <;> rfl
    · intro p hp
      obtain rfl := Option.some.inj hp
      exact hfits payload hpayload
  have htruthy : truthy (some call.target) = some call.target := truthy_eq_some.2 ⟨rfl, hempty⟩
  have hstep : b.step E (.frame ws (.ok (call.message seq done payload)) now) = some
      ((b.send targetWs (stamp (call.message seq done payload) s now).makeDeliver).await s ws
        (.streamDeliver (stamp (call.message seq done payload) s now))) := by
    simp only [step, hh, dispatch, hvalid]
    simp only [StreamCall.message, stamp, handleStream, forwardTo, htruthy, hc]
  have hwrites := writes_eq hstep rfl
  simp only [accepts, hwrites, hh]
  simp [StreamCall.message, htruthy, Op.pointToPoint, NMBMessage.makeDeliver]

/-- The target is connected whenever a chunk of the stream is read. -/
def StaysConnected (call : StreamCall π) (wS : Ws) (b : Broker π) : BrokerEvent π → Prop
  | .frame ws (.ok m) _ => ws = wS → m.streamId = some call.streamId →
      (b.connections.lookup call.target).isSome
  | _ => True

instance (call : StreamCall π) (wS : Ws) (b : Broker π) :
    DecidablePred (StaysConnected call wS b)
  | .frame ws (.ok m) _ => inferInstanceAs (Decidable (ws = wS → m.streamId = some call.streamId →
      (b.connections.lookup call.target).isSome))
  | .frame _ (.error _) _ | .connect _ _ | .resume _ _ | .safeSend _ _ | .disconnect _ _ _
  | .timer _ | .timerSent _ => isTrue trivial

theorem input_eq_some {wS : Ws} {raw : Except String (NMBMessage π)}
    (h : (brokerFeed π).input e = some (wS, raw)) : ∃ now, e = .frame wS raw now := by
  cases e with
  | frame ws' raw' now =>
    obtain ⟨rfl, rfl⟩ := Prod.mk.inj (Option.some.inj h)
    exact ⟨now, rfl⟩
  | _ => contradiction

/-- Every chunk that is read is accepted. -/
theorem chunks_accepted {call : StreamCall π} (hfits : call.Fits E) {wS : Ws}
    {tr : List (Broker π × BrokerEvent π)} (hsole : ∀ p ∈ tr, Sole s wS p.1)
    (hnames : ∀ p ∈ tr, p.1.connections.lookup "" = none)
    (hstep : ∀ p ∈ tr, ∃ b', p.1.step E p.2 = some b')
    (hconn : ∀ p ∈ tr, StaysConnected call wS p.1 p.2)
    (hchunks : ∀ m, Except.ok m ∈ (brokerFeed π).takes wS tr → m.streamId = some call.streamId →
      m ∈ call.messages) :
    ((accepted E s call.target tr).map fun a => Except.ok a.1).filter call.carries =
      ((brokerFeed π).takes wS tr).filter call.carries := by
  induction tr with
  | nil => rfl
  | cons p tr ih =>
    have htakes : (brokerFeed π).takes wS (p :: tr) =
        (brokerFeed π).takes wS [p] ++ (brokerFeed π).takes wS tr := Feed.takes_append _ _ [p] tr
    have hrest := ih (fun q hq => hsole q (List.mem_cons_of_mem _ hq))
      (fun q hq => hnames q (List.mem_cons_of_mem _ hq))
      (fun q hq => hstep q (List.mem_cons_of_mem _ hq))
      (fun q hq => hconn q (List.mem_cons_of_mem _ hq))
      fun m hm => hchunks m (htakes ▸ List.mem_append_right _ hm)
    rw [htakes, List.filter_append, ← hrest, accepted]
    cases ha : accepts E s call.target p with
    | some a =>
      have hinput := input_of_accepts (e := p.2) (hsole p List.mem_cons_self) ha
      have hone : (brokerFeed π).takes wS [p] = [.ok a.1] := by simp [Feed.takes, hinput]
      rw [List.filterMap_cons_some ha, hone, ← List.filter_append]
      rfl
    | none =>
      rw [List.filterMap_cons_none ha]
      have hone : ((brokerFeed π).takes wS [p]).filter call.carries = [] := by
        rw [List.filter_eq_nil_iff]
        intro raw hraw hcarries
        have hinput : (brokerFeed π).input p.2 = some (wS, raw) := by
          obtain ⟨q, hq, htake⟩ := List.mem_filterMap.1 hraw
          obtain rfl := List.mem_singleton.1 hq
          obtain ⟨⟨ws, raw'⟩, hinput, htake⟩ := Option.bind_eq_some_iff.1 htake
          simp only [Option.ite_none_right_eq_some, Option.some.injEq] at htake
          obtain ⟨rfl, rfl⟩ := htake
          exact hinput
        obtain ⟨now, he⟩ := input_eq_some hinput
        cases raw with
        | error => contradiction
        | ok m =>
          have hid : m.streamId = some call.streamId := of_decide_eq_true hcarries
          obtain ⟨b', hs⟩ := hstep p List.mem_cons_self
          obtain ⟨b, e⟩ := p
          dsimp only at he hs
          subst he
          obtain ⟨s', hh, -⟩ := step_frame hs
          obtain rfl : s' = s := ((hsole _ List.mem_cons_self).handler wS _ hh).2 rfl
          obtain ⟨targetWs, hc⟩ :=
            Option.isSome_iff_exists.1 (hconn _ List.mem_cons_self rfl hid)
          have hempty : call.target ≠ "" := by
            intro hempty
            rw [hempty] at hc
            cases (hnames _ List.mem_cons_self).symm.trans hc
          have hm := hchunks m (htakes ▸ List.mem_append_left _ hraw) hid
          cases ha.symm.trans (accepts_chunk hfits hm hh hempty hc now)
      rw [hone]
      rfl

/-- Nobody connects without a name. -/
theorem unnamed_step (hb : b.connections.lookup "" = none) (h : b.step E e = some b') :
    b'.connections.lookup "" = none := by
  by_cases he : ∃ ws s, e = .connect ws s
  · obtain ⟨ws, s, rfl⟩ := he
    have hs : s ≠ "" := by
      have h := h
      simp only [step, Option.ite_none_left_eq_some, not_or] at h
      exact h.1.1
    obtain ⟨-, rfl⟩ := connect_step h
    cases hfree : b.connections.lookup s with
    | none =>
      rw [(register_of_free hfree).1, AList.lookup_insert_ne hs.symm]
      exact hb
    | some ws₀ =>
      rw [register_of_taken (by simp [hfree])]
      exact hb
  · have hold := (connections_step h fun ws s heq => he ⟨ws, s, heq⟩).1
    exact Option.eq_none_iff_forall_ne_some.2 fun ws hws => by
      cases hb.symm.trans (hold "" ws hws)

theorem unnamed_run {tr : List (Broker π × BrokerEvent π)} (h : (brokerMachine E).Trace tr b) :
    Machine.Always (fun b => b.connections.lookup "" = none) tr b :=
  h.always_of_invariant rfl fun _ _ _ hb hs => unnamed_step hb hs

end Broker

open Broker

variable {π : Type} {E : BrokerEnv π}

/-- The messages of one sandbox to another are delivered as they are accepted: in the order in which
they were written, each once. The chunks of a stream arrive in the order of their numbers, and all
of them once the last is read. -/
theorem pointToPoint_in_order {tr : List (Piped (Broker π) Ws (Except String (NMBMessage π)) ×
      PipedEvent Ws (Except String (NMBMessage π)) ℚ (BrokerEvent π))}
    {x : Piped (Broker π) Ws (Except String (NMBMessage π))} (h : (networkMachine E).Trace tr x)
    {s t : String} {wS wT : Ws}
    (hs : Machine.Guarded (fun _ e => SoleSocket s wS e) ((brokerFeed π).inner tr))
    (ht : Machine.Guarded (fun _ e => SoleSocket t wT e) ((brokerFeed π).inner tr)) :
    deliveries E s wT ((brokerFeed π).inner tr) =
        (accepted E s t ((brokerFeed π).inner tr)).map
          (fun a => (stamp a.1 s a.2).makeDeliver) ∧
      ((accepted E s t ((brokerFeed π).inner tr)).map fun a => Except.ok a.1).Sublist
        (Feed.puts wS tr) ∧
      ∀ call : StreamCall π, call.target = t → call.Fits E →
        (Feed.puts wS tr).filter call.carries <+: call.messages.map Except.ok →
        Machine.Guarded (StaysConnected call wS) ((brokerFeed π).inner tr) →
        arrivals E call s wT ((brokerFeed π).inner tr) <+: call.numbers ∧
          ((Feed.puts wS tr).filter call.carries = call.messages.map Except.ok →
            (x.pipes wS).filter call.carries = [] →
              arrivals E call s wT ((brokerFeed π).inner tr) = call.numbers) := by
  have hrun := Machine.trace_inner h
  have hpipe := Machine.takes_append_pipe h wS
  have hsole : ∀ p ∈ (brokerFeed π).inner tr, Sole s wS p.1 := (sole_run hrun hs).1
  have hdeliveries := deliveries_eq_accepted (s := s) hrun ht
  refine ⟨hdeliveries, ?_, ?_⟩
  · rw [← hpipe]
    exact (accepted_sublist hsole).trans (List.sublist_append_left _ _)
  · intro call htarget hfits hwritten hconn
    subst htarget
    have hchunks : ∀ m, Except.ok m ∈ (brokerFeed π).takes wS ((brokerFeed π).inner tr) →
        m.streamId = some call.streamId → m ∈ call.messages := by
      intro m hm hid
      have hput : Except.ok m ∈ (Feed.puts wS tr).filter call.carries :=
        List.mem_filter.2 ⟨hpipe ▸ List.mem_append_left _ hm, decide_eq_true hid⟩
      obtain ⟨m', hm', heq⟩ := List.mem_map.1 (hwritten.subset hput)
      obtain rfl := Except.ok.inj heq
      exact hm'
    have hread := chunks_accepted hfits hsole (unnamed_run hrun).1
      (fun p hp => (hrun.prefix_of_mem hp).choose_spec.2.2) hconn hchunks
    have hnumbers : (call.messages.map Except.ok).map frameNumber = call.numbers := by
      rw [List.map_map]
      exact call.messages_numbers
    rw [arrivals_eq hdeliveries, hread, ← hnumbers]
    rw [← hpipe, List.filter_append] at hwritten ⊢
    refine ⟨((List.prefix_append _ _).trans hwritten).map _, ?_⟩
    intro hall hpending
    rw [hpending, List.append_nil] at hall
    rw [hall]

/-- Two chunks. -/
def twoChunks : StreamCall String where
  target := "review"
  type := "log"
  chunks := ["\"one\"", "\"two\""]
  streamId := "s-1"
  ids seq := "m-" ++ toString seq
  empty := "\x7b\x7d"

/-- Two sandboxes connect, and one streams to the other; a message of its own goes in between. -/
def streams : List (PipedEvent Ws (Except String (NMBMessage String)) ℚ (BrokerEvent String)) :=
  [.act (.connect 1 "code"), .act (.connect 2 "review")] ++
    (twoChunks.messages.map fun m => .put 1 (.ok m)) ++
    [.put 1 (.ok (sendMessage "m-9" "review" "done" "\x7b\x7d")),
      .take 1 0, .act (.resume 1 .ok), .take 1 1, .act (.resume 1 .ok), .take 1 2,
      .act (.resume 1 .ok), .take 1 3]

theorem pointToPoint_in_order_streams : ∃ tr x, (networkMachine jsonText).Trace tr x ∧
    deliveries jsonText "code" 2 ((brokerFeed String).inner tr) =
        (accepted jsonText "code" "review" ((brokerFeed String).inner tr)).map
          (fun a => (stamp a.1 "code" a.2).makeDeliver) ∧
      ((accepted jsonText "code" "review" ((brokerFeed String).inner tr)).map
        fun a => Except.ok a.1).Sublist (Feed.puts 1 tr) ∧
      arrivals jsonText twoChunks "code" 2 ((brokerFeed String).inner tr) = twoChunks.numbers := by
  obtain ⟨tr, x, h, -, hcheck⟩ := Machine.Trace.of_check (M := networkMachine jsonText) streams
    (p := fun tr x => decide (
      (∀ p ∈ (brokerFeed String).inner tr, SoleSocket "code" 1 p.2) ∧
      (∀ p ∈ (brokerFeed String).inner tr, SoleSocket "review" 2 p.2) ∧
      (Feed.puts 1 tr).filter twoChunks.carries = twoChunks.messages.map Except.ok ∧
      (∀ p ∈ (brokerFeed String).inner tr, StaysConnected twoChunks 1 p.1 p.2) ∧
      (x.pipes 1).filter twoChunks.carries = [])) (by decide)
  obtain ⟨hs, ht, hwritten, hconn, hread⟩ := of_decide_eq_true hcheck
  obtain ⟨hdeliveries, hsublist, hstream⟩ := pointToPoint_in_order h hs ht
  have hfits : twoChunks.Fits jsonText := by
    unfold StreamCall.Fits
    decide
  obtain ⟨-, harrivals⟩ :=
    hstream twoChunks rfl hfits (hwritten ▸ List.prefix_refl _) hconn
  exact ⟨tr, x, h, hdeliveries, hsublist, harrivals hwritten hread⟩

end NemoClaw
