import NemoClaw.Nmb.Client
import NemoClaw.Nmb.Traffic

/-! The frames that end a request for the client that they reach. A client ends it at a DELIVER
whose `reply_to` is its id, whatever was sent with that `reply_to`, and at an ERROR or a TIMEOUT
with its id, whatever failed under that id. `ending_of_write` says why a step writes such a
frame. -/

namespace NemoClaw

open Lib

namespace Broker

variable {π : Type}

/-- The frame tells its receiver that its request is over. -/
def Ends (id : String) (f : NMBMessage π) : Prop :=
  f.op = .deliver ∧ f.replyTo = some id ∨ (f.op = .timeout ∨ f.op = .error) ∧ f.id = id

instance (id : String) (f : NMBMessage π) : Decidable (Ends id f) :=
  inferInstanceAs (Decidable (_ ∨ _))

end Broker

namespace MessageBus

variable {π : Type} {bus : MessageBus π} {id : String}

theorem settles_of_pending {state : FutureState (NMBMessage π)}
    (hpending : bus.futures.lookup id = some .pending) (hstate : state ≠ .pending) (k : String) :
    (bus.settleFuture k state).futures.lookup id ≠ some .pending ↔ k = id := by
  unfold settleFuture setUnlessDone
  dsimp only
  by_cases hk : k = id
  · subst hk
    rw [hpending]
    simpa using hstate
  · refine iff_of_false ?_ hk
    rw [not_not]
    split
    · rw [AList.lookup_insert_ne (Ne.symm hk)]
      exact hpending
    · exact hpending

/-- `request()` waits in this client for the outcome of the request. -/
def Waits (bus : MessageBus π) (id : String) : Prop :=
  id ≠ "" ∧ id ∈ bus.pendingFutures ∧ bus.futures.lookup id = some .pending

/-- A client that waits for the outcome of a request gets it with the first frame that ends it. -/
theorem settles_iff_ends (hw : bus.Waits id) (f : NMBMessage π) :
    (bus.dispatch f).futures.lookup id ≠ some .pending ↔ Broker.Ends id f := by
  obtain ⟨hid, hwaits, hpending⟩ := hw
  have hkeeps : bus.futures.lookup id ≠ some .pending ↔ False := by simp [hpending]
  have hreply : truthy f.replyTo = some id ↔ f.replyTo = some id := by
    rw [truthy_eq_some]
    exact and_iff_left hid
  unfold dispatch
  cases hop : f.op with
  | deliver =>
    simp only [Broker.Ends, hop, true_and, reduceCtorEq, or_self, false_and, or_false]
    unfold dispatchDeliver
    split
    · next k hk =>
      obtain ⟨hk, -⟩ := Option.filter_eq_some_iff.1 hk
      rw [settles_of_pending hpending (by simp), ← hreply, hk, Option.some.injEq]
    · next hnone =>
      have hne : f.replyTo ≠ some id := by
        intro heq
        rw [hreply.2 heq] at hnone
        simp [hwaits] at hnone
      refine iff_of_false (fun hchanged => ?_) hne
      split at hchanged
      · exact hkeeps.1 hchanged
      · exact hkeeps.1 hchanged
  | error =>
    simp only [Broker.Ends, hop, reduceCtorEq, false_and, false_or, or_true, true_and]
    unfold dispatchError
    split
    · exact settles_of_pending hpending (by simp) f.id
    · next hnot =>
      refine iff_of_false (fun hchanged => ?_) ?_
      · split at hchanged
        · exact hkeeps.1 hchanged
        · exact hkeeps.1 hchanged
      · rintro rfl
        exact hnot hwaits
  | timeout =>
    simp only [Broker.Ends, hop, reduceCtorEq, false_and, false_or, true_or, true_and]
    unfold dispatchTimeout
    split
    · exact settles_of_pending hpending (by simp) f.id
    · next hnot =>
      refine iff_of_false hkeeps.1 ?_
      rintro rfl
      exact hnot hwaits
  | ack =>
    simp only [Broker.Ends, hop, reduceCtorEq, false_and, or_self]
    unfold dispatchAck
    split
    · exact hkeeps
    · exact hkeeps
  | _ =>
    simp only [Broker.Ends, hop, reduceCtorEq, false_and, or_self]
    exact hkeeps

end MessageBus

namespace Broker

variable {π : Type}

/-- Why a step writes a frame that ends `id` for its receiver. -/
inductive Ending (E : BrokerEnv π) (b : Broker π) (e : BrokerEvent π) (id : String)
    (f : SentFrame π) : Prop
  | copied {ws s m now target} (he : e = .frame ws (.ok m) now)
      (hh : b.handlers.lookup ws = some ⟨s, .recv⟩)
      (hop : m.op = .send ∨ m.op = .request ∨ m.op = .stream) (hr : ¬ b.Refused E s m now)
      (hrid : m.replyTo = some id) (ht : truthy m.toSandbox = some target)
      (hc : b.connections.lookup target = some f.ws) (hf : f.frame = (stamp m s now).makeDeliver)
  | replied {ws s m now tracked} (he : e = .frame ws (.ok m) now)
      (hh : b.handlers.lookup ws = some ⟨s, .recv⟩) (hop : m.op = .reply)
      (hr : ¬ b.Refused E s m now) (hrid : m.replyTo = some id)
      (hp : b.pending.lookup id = some tracked)
      (hc : b.connections.lookup tracked.owner = some f.ws)
      (hf : f.frame = (stamp m s now).makeDeliver)
  | fanned {ws s m left} (he : e = .safeSend ws f.ws)
      (hh : b.handlers.lookup ws = some ⟨s, .publishFanout m left⟩) (ht : f.ws ∈ left)
      (hrid : m.replyTo = some id) (hf : f.frame = m.makeDeliver)
  | failed {s old} (hh : b.handlers.lookup f.ws = some ⟨s, old⟩) (hop : f.frame.op = .error)
      (hwhy : Fails E b f.ws s e old id)
  | expired {task t tracked} (he : e = .timer task) (ht : b.timers.lookup task = some t)
      (hs : t.sending = false) (hid : t.requestId = id) (hp : b.pending.lookup id = some tracked)
      (hc : b.connections.lookup t.requesterId = some f.ws) (hop : f.frame.op = .timeout)

variable {E : BrokerEnv π} {b b' : Broker π} {e : BrokerEvent π} {id : String} {f : SentFrame π}
  {tr : List (Broker π × BrokerEvent π)}

theorem ends_deliver {m : NMBMessage π} (h : Ends id m.makeDeliver) : m.replyTo = some id := by
  rcases h with ⟨-, hrid⟩ | ⟨hop | hop, -⟩
  · exact hrid
  · contradiction
  · contradiction

theorem ends_error {m : NMBMessage π} (h : Ends id m) (hop : m.op = .error) : m.id = id := by
  rcases h with ⟨hdeliver, -⟩ | ⟨-, hid⟩
  · cases hop.symm.trans hdeliver
  · exact hid

theorem HandlerStep.ending {ws : Ws} {s : String} {old phase : Phase π} {new : List (SentFrame π)}
    (ho : HandlerStep E b ws s e old phase new) (hn : b.NoticesDeliver)
    (hh : b.handlers.lookup ws = some ⟨s, old⟩) (hf : f ∈ new) (hends : Ends id f.frame) :
    Ending E b e id f := by
  cases ho with
  | acked _ hack =>
    obtain rfl := List.mem_singleton.1 hf
    simp [Ends, hack] at hends
  | refused _ herr hwhy =>
    obtain rfl := List.mem_singleton.1 hf
    obtain rfl := ends_error hends herr
    exact .failed hh herr hwhy
  | forward hop ht hc _ hr =>
    obtain rfl := List.mem_singleton.1 hf
    exact .copied rfl hh hop hr (ends_deliver hends) ht hc rfl
  | reply hop hrid hp hc hr =>
    obtain rfl := List.mem_singleton.1 hf
    obtain rfl := Option.some.inj (hrid.symm.trans (ends_deliver hends))
    exact .replied rfl hh hop hr hrid hp hc rfl
  | fanout ht =>
    obtain rfl := List.mem_singleton.1 hf
    exact .fanned rfl hh ht (ends_deliver hends) rfl
  | notice =>
    -- a shutdown notice replies to nothing
    obtain rfl := List.mem_singleton.1 hf
    obtain ⟨hop, hrid⟩ := hn _ _ _ _ hh
    simp [Ends, hop, hrid] at hends
  | publish | quiet => contradiction

/-- A timeout task writes one frame at most, when its request is pending and its requester
connected. -/
theorem writes_of_timer (h : b.step E e = some b') (he : e.socket = none) :
    (writes E (b, e)).length ≤ 1 ∧ ∀ f ∈ writes E (b, e), ∃ task t tracked, e = .timer task ∧
      b.timers.lookup task = some t ∧ t.sending = false ∧
        b.pending.lookup t.requestId = some tracked ∧
          b.connections.lookup t.requesterId = some f.ws ∧ f.frame = timeoutFrame E t := by
  have hstep := h
  cases e with
  | timer task =>
    simp only [step] at hstep
    split at hstep
    · next t ht =>
      obtain ⟨hs, hstep⟩ := Option.ite_none_left_eq_some.1 hstep
      obtain rfl := Option.some.inj hstep
      unfold timeoutRequest at h
      split at h
      · rw [writes_eq_nil h rfl]
        simp
      · next tracked hp =>
        dsimp only at h
        split at h
        · rw [writes_eq_nil h rfl]
          simp
        · next ws hc =>
          rw [writes_eq h rfl]
          refine ⟨Nat.le_refl 1, ?_⟩
          intro f hf
          obtain rfl := List.mem_singleton.1 hf
          exact ⟨task, t, tracked, rfl, ht, by simpa using hs, hp, hc, rfl⟩
    · contradiction
  | timerSent task =>
    simp only [step] at hstep
    split at hstep
    · obtain ⟨-, hstep⟩ := Option.ite_none_right_eq_some.1 hstep
      obtain rfl := Option.some.inj hstep
      rw [writes_eq_nil h rfl]
      simp
    · contradiction
  | _ => contradiction

/-- A step writes one frame at most. -/
theorem length_writes (h : b.step E e = some b') : (writes E (b, e)).length ≤ 1 := by
  cases route_step h with
  | connected =>
    rw [writes_eq_nil h sent_register]
    exact Nat.zero_le 1
  | @disconnected ws s msgId now hh =>
    obtain ⟨phase, -, hsent, -⟩ := unregister_handler E b s ws msgId now
    rw [writes_eq_nil h hsent]
    exact Nat.zero_le 1
  | served he hh hs ho =>
    rw [writes_eq h hs.sent]
    cases ho with
    | publish | quiet => exact Nat.zero_le 1
    | _ => exact Nat.le_refl 1
  | fired he => exact (writes_of_timer h he).1

/-- A step writes a frame that ends `id` for one of the reasons of `Ending`. -/
theorem ending_of_write (h : b.step E e = some b') (hn : b.NoticesDeliver)
    (hf : f ∈ writes E (b, e)) (hends : Ends id f.frame) : Ending E b e id f := by
  cases route_step h with
  | connected =>
    rw [writes_eq_nil h sent_register] at hf
    contradiction
  | @disconnected ws s msgId now hh =>
    obtain ⟨phase, -, hsent, -⟩ := unregister_handler E b s ws msgId now
    rw [writes_eq_nil h hsent] at hf
    contradiction
  | served he hh hs ho =>
    rw [writes_eq h hs.sent] at hf
    exact ho.ending hn hh hf hends
  | fired he =>
    obtain ⟨task, t, tracked, rfl, ht, hs, hp, hc, hframe⟩ := (writes_of_timer h he).2 f hf
    rw [hframe] at hends
    have hid : t.requestId = id := by
      rcases hends with ⟨hop, -⟩ | ⟨-, hid⟩
      · contradiction
      · exact hid
    exact .expired rfl ht hs hid (hid ▸ hp) hc (by rw [hframe]; rfl)

/-- A fan-out under way is of a PUBLISH that its handler read, to subscribers of that moment. -/
theorem publish_read (h : (brokerMachine E).Trace tr b) {ws : Ws} {s : String} {m : NMBMessage π}
    {left : List Ws} (hh : b.handlers.lookup ws = some ⟨s, .publishFanout m left⟩) :
    ∃ p ∈ tr, ∃ m₀ now c, p.2 = .frame ws (.ok m₀) now ∧
      p.1.handlers.lookup ws = some ⟨s, .recv⟩ ∧ m₀.op = .publish ∧ m = stamp m₀ s now ∧
      truthy m₀.channel = some c ∧ ∀ w ∈ left, w ∈ p.1.subscriberSockets c (some s) := by
  induction h generalizing m left with
  | nil => contradiction
  | @snoc tr b e b' _ hs ih =>
    cases phase_step hs hh with
    | before hold =>
      obtain ⟨p, hp, hread⟩ := ih hold
      exact ⟨p, List.mem_append_left _ hp, hread⟩
    | opened hphase => contradiction
    | ended hphase => simp at hphase
    | served hold ho =>
      cases ho with
      | forward _ _ _ hphase => simp at hphase
      | quiet hphase => simp at hphase
      | @publish m₀ now c hop hc =>
        exact ⟨(b, _), List.mem_append_right _ (List.mem_singleton_self _), m₀, now, c, rfl, hold,
          hop, rfl, hc, fun w hw => hw⟩
      | fanout ht =>
        obtain ⟨p, hp, m₀, now, c, he, hrecv, hop, hm, hc, hleft⟩ := ih hold
        exact ⟨p, List.mem_append_left _ hp, m₀, now, c, he, hrecv, hop, hm, hc,
          fun w hw => hleft w (List.mem_of_mem_erase hw)⟩

end Broker

end NemoClaw
