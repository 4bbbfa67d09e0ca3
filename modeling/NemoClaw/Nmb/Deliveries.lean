import NemoClaw.Nmb.Identity

/-! Where a message goes and what is acknowledged. A `send` is delivered to the connection that is
registered under its target when it is read, and the ACK says no more than that. -/

namespace NemoClaw

open Lib

namespace Broker

variable {π : Type} {E : BrokerEnv π} {b b' : Broker π}

/-- A step that is not a connection registers nobody and rejects nobody. -/
theorem connections_step {e : BrokerEvent π} (h : b.step E e = some b')
    (he : ∀ ws s, e ≠ .connect ws s) :
    (∀ s ws, b'.connections.lookup s = some ws → b.connections.lookup s = some ws) ∧
      b'.rejecting = b.rejecting := by
  cases route_step h with
  | connected => exact absurd rfl (he _ _)
  | @disconnected ws s msgId now hh =>
    by_cases hc : b.connections.lookup s = some ws
    · obtain ⟨hconn, -, hrej⟩ := unregister_of_registered E hc msgId now
      rw [hconn, hrej]
      exact ⟨fun s' ws' hs' => (Dict.lookup_erase_eq_some.1 hs').2, rfl⟩
    · rw [unregister_of_stale E hc]
      exact ⟨fun _ _ => id, rfl⟩
  | served he' hh hs ho => exact ⟨fun s ws hws => hs.connections ▸ hws, hs.rejecting⟩
  | fired he' hc hw hr hh hs hf => exact ⟨fun s ws hws => hc ▸ hws, hr⟩

/-- A connection keeps a handler, closed or not. -/
theorem handlers_step {e : BrokerEvent π} (h : b.step E e = some b') {ws : Ws}
    (hh : b.handlers.lookup ws ≠ none) : b'.handlers.lookup ws ≠ none := by
  cases route_step h with
  | connected =>
    rw [handlers_register]
    exact handlers_insert_ne_none _ hh
  | @disconnected ws₁ s₁ msgId now hh₁ =>
    obtain ⟨phase, hins, -, -⟩ := unregister_handler E b s₁ ws₁ msgId now
    rw [hins]
    exact handlers_insert_ne_none _ hh
  | served he hh₁ hs ho =>
    rw [hs.handlers]
    exact handlers_insert_ne_none _ hh
  | fired he hc hw hr hhand hs hf =>
    rw [hhand]
    exact hh

/-- Notices are sent with op `deliver`, as replies to nothing. -/
def NoticesDeliver (b : Broker π) : Prop :=
  ∀ ws s f left, b.handlers.lookup ws = some ⟨s, .shutdownFanout f left⟩ →
    f.op = .deliver ∧ f.replyTo = none

theorem noticesDeliver_step (hb : b.NoticesDeliver) {e : BrokerEvent π}
    (h : b.step E e = some b') : b'.NoticesDeliver := by
  intro ws s f left hh
  cases phase_step h hh with
  | before hold => exact hb ws s f left hold
  | opened hphase => contradiction
  | ended hphase =>
    rcases hphase with hp | hp | ⟨msgId, now, left', hp⟩
    · contradiction
    · contradiction
    · obtain ⟨rfl, -⟩ := Phase.shutdownFanout.inj hp
      exact ⟨rfl, rfl⟩
  | served hh₁ ho =>
    cases ho with
    | forward hop ht hc hphase => simp at hphase
    | notice ht => exact hb _ _ _ _ hh₁
    | quiet hphase => simp at hphase

/-- The step of another connection, or of none, leaves the handler of `ws` alone and acknowledges
nothing to it. -/
theorem others_step (hb : b.NoticesDeliver) {e : BrokerEvent π} (h : b.step E e = some b')
    {ws : Ws} {hd : Handler π} (hh : b.handlers.lookup ws = some hd) (he : e.socket ≠ some ws) :
    b'.handlers.lookup ws = some hd ∧ ∃ new, b'.sent = b.sent ++ new ∧
      ∀ f ∈ new, f.ws = ws → f.frame.op ≠ .ack := by
  cases route_step h with
  | @connected ws₁ s hs hw =>
    have hne : ws ≠ ws₁ := by
      intro heq
      subst heq
      exact he rfl
    refine ⟨?_, [], by rw [sent_register, List.append_nil], fun f hf => by contradiction⟩
    rw [handlers_register]
    exact (AList.lookup_insert_ne hne).trans hh
  | @disconnected ws₁ s₁ msgId now hh₁ =>
    have hne : ws ≠ ws₁ := by
      intro heq
      subst heq
      exact he rfl
    obtain ⟨phase, hins, hsent, -⟩ := unregister_handler E b s₁ ws₁ msgId now
    refine ⟨?_, [], by rw [hsent, List.append_nil], fun f hf => by contradiction⟩
    rw [hins]
    exact (AList.lookup_insert_ne hne).trans hh
  | @served e ws₁ s₁ old phase new b' he₁ hh₁ hs ho =>
    have hne : ws ≠ ws₁ := by
      intro heq
      subst heq
      exact he he₁
    refine ⟨?_, new, hs.sent, ?_⟩
    · rw [hs.handlers]
      exact (AList.lookup_insert_ne hne).trans hh
    · intro f hf hws hop
      cases ho with
      | acked ho' hf' =>
        obtain rfl := List.mem_singleton.1 hf
        exact hne hws.symm
      | refused ho' hf' =>
        obtain rfl := List.mem_singleton.1 hf
        cases hf'.symm.trans hop
      | forward | reply | fanout =>
        obtain rfl := List.mem_singleton.1 hf
        contradiction
      | notice ht =>
        obtain rfl := List.mem_singleton.1 hf
        cases (hb _ _ _ _ hh₁).1.symm.trans hop
      | publish | quiet => contradiction
  | fired he₁ hc hw hr hhand hs hf =>
    refine ⟨by rw [hhand]; exact hh, _, hs, ?_⟩
    intro f hmem _ hop
    cases (hf f hmem).symm.trans hop

/-- What the broker makes of a `send`: an error, or one delivery to the connection registered under
the target. -/
theorem send_frame {ws : Ws} {s : String} (hh : b.handlers.lookup ws = some ⟨s, .recv⟩)
    {m : NMBMessage π} (hop : m.op = .send) {now : ℚ}
    (h : b.step E (.frame ws (.ok m) now) = some b') :
    (∃ a f, f.op = .error ∧ b'.handlers.lookup ws = some ⟨s, .error a⟩ ∧
      b'.sent = b.sent ++ [⟨ws, f, none⟩]) ∨
    ∃ target targetWs, m.toSandbox = some target ∧ b.connections.lookup target = some targetWs ∧
      b'.handlers.lookup ws = some ⟨s, .sendDeliver (stamp m s now)⟩ ∧
      b'.sent = b.sent ++ [⟨targetWs, (stamp m s now).makeDeliver, none⟩] := by
  have hlookup : ∀ (b₀ : Broker π) (h₀ : Handler π),
      (b₀.handlers.insert ws h₀).lookup ws = some h₀ := fun b₀ _ => AList.lookup_insert b₀.handlers
  cases dispatched_of_frame hh h with
  | refused | offline | full => exact Or.inl ⟨_, _, rfl, hlookup _ _, rfl⟩
  | forwarded hr hphase ht hc =>
    rcases hphase with ⟨-, rfl⟩ | ⟨hstream, -⟩
    · exact Or.inr ⟨_, _, (truthy_eq_some.1 ht).1, hc, hlookup _ _, rfl⟩
    · cases hop.symm.trans hstream
  | admitted hr hm => cases hop.symm.trans hm.op
  | replied hr hop' | unheard hr hop' | subscribed hr hop' | unsubscribed hr hop' | unread hr hop'
  | published hr hop' => cases hop.symm.trans hop'

/-- The phases of a connection that only sends point to point, with what it has acknowledged. -/
def Sends (acked : String → Prop) : Phase π → Prop
  | .recv | .ack _ | .error _ => True
  | .sendDeliver m => acked m.id
  | _ => False

/-- The handler of such a connection acknowledges what it has delivered. -/
theorem resume_sends {acked : String → Prop} {ws : Ws} {s : String} {phase : Phase π}
    (hh : b.handlers.lookup ws = some ⟨s, phase⟩) (hp : Sends acked phase) {r : SendResult}
    (h : b.step E (.resume ws r) = some b') :
    (∃ phase', b'.handlers.lookup ws = some ⟨s, phase'⟩ ∧ Sends acked phase') ∧
      ∃ new, b'.sent = b.sent ++ new ∧ ∀ f ∈ new, f.frame.op = .ack → acked f.frame.id := by
  obtain ⟨h₁, hh₁, h⟩ := Option.bind_eq_some_iff.1 h
  obtain rfl := Option.some.inj (hh.symm.trans hh₁)
  have hquiet : ∀ m st, (∃ phase', ((b.auditMsg m st).await s ws .recv).handlers.lookup ws =
      some ⟨s, phase'⟩ ∧ Sends acked phase') ∧ ∃ new,
        ((b.auditMsg m st).await s ws .recv).sent = b.sent ++ new ∧
          ∀ f ∈ new, f.frame.op = .ack → acked f.frame.id := fun m st => by
    have hserved := served_auditMsg b m st s ws .recv
    refine ⟨⟨.recv, ?_, trivial⟩, [], hserved.sent, fun f hf => by contradiction⟩
    rw [hserved.handlers]
    exact AList.lookup_insert b.handlers
  cases phase with
  | recv => contradiction
  | ack a =>
    obtain rfl := Option.some.inj h
    exact hquiet a .delivered
  | error a =>
    obtain rfl := Option.some.inj h
    exact hquiet a .error
  | sendDeliver m =>
    obtain rfl := Option.some.inj h
    cases r with
    | ok =>
      refine ⟨⟨_, AList.lookup_insert b.handlers, trivial⟩, _, rfl, ?_⟩
      intro f hf _
      obtain rfl := List.mem_singleton.1 hf
      exact hp
    | connectionClosed =>
      refine ⟨⟨_, AList.lookup_insert b.handlers, trivial⟩, _, rfl, ?_⟩
      intro f hf hop
      obtain rfl := List.mem_singleton.1 hf
      contradiction
  | _ => contradiction

end Broker

end NemoClaw
