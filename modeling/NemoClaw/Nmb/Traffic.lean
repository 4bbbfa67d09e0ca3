import NemoClaw.Nmb.Deliveries

/-! Where deliveries come from. Whatever the broker delivers is a message that some client wrote, or
a notice that a sandbox shut down, and a `send` is delivered to the connection registered under the
name that it is for. -/

namespace NemoClaw

open Lib

namespace Broker

variable {π : Type} {E : BrokerEnv π} {b b' : Broker π} {e : BrokerEvent π}

/-- The websocket is a connection under this name. A connection keeps its name. -/
def Behind (b : Broker π) (ws : Ws) (s : String) : Prop :=
  ∃ phase, b.handlers.lookup ws = some ⟨s, phase⟩

instance (b : Broker π) (ws : Ws) (s : String) : Decidable (b.Behind ws s) :=
  decidable_of_iff ((b.handlers.lookup ws).map Handler.sandboxId = some s) <| by
    constructor
    · intro h
      obtain ⟨⟨_, phase⟩, hh, rfl⟩ := Option.map_eq_some_iff.1 h
      exact ⟨phase, hh⟩
    · intro h
      obtain ⟨phase, hh⟩ := h
      rw [hh]
      rfl

theorem eq_of_behind {b : Broker π} {ws : Ws} {s s' : String} (h : b.Behind ws s)
    (h' : b.Behind ws s') : s = s' := by
  obtain ⟨phase, hh⟩ := h
  obtain ⟨phase', hh'⟩ := h'
  exact (Handler.mk.inj (Option.some.inj (hh.symm.trans hh'))).1

/-- The type of the notices that `_unregister` broadcasts. -/
def shutdownType : String := "sandbox.shutdown"

/-- A delivery of what a client wrote. -/
def Forwarded (W : NMBMessage π → Prop) (b : Broker π) (f : SentFrame π) : Prop :=
  ∃ m s now, W m ∧ f.frame = (stamp m s now).makeDeliver ∧
    (m.op = .send → ∃ t, m.toSandbox = some t ∧ b.Behind f.ws t)

/-- In the phases of a fan-out: what is fanned out. -/
def FansOut (W : NMBMessage π → Prop) : Phase π → Prop
  | .publishFanout m _ => ∃ m₀ s now, W m₀ ∧ m₀.op = .publish ∧ m = stamp m₀ s now
  | .shutdownFanout f _ => f.type = some shutdownType
  | _ => True

/-- All that is delivered are notices and what clients wrote, and these are in `W`. -/
structure Traffic (W : NMBMessage π → Prop) (b : Broker π) : Prop where
  named : ∀ s ws, b.connections.lookup s = some ws → b.Behind ws s
  phases : ∀ ws s phase, b.handlers.lookup ws = some ⟨s, phase⟩ → FansOut W phase
  sent : ∀ f ∈ b.sent, f.frame.op = .deliver →
    f.frame.type = some shutdownType ∨ Forwarded W b f

theorem behind_step {ws : Ws} {s : String} (hb : b.Behind ws s) (h : b.step E e = some b') :
    b'.Behind ws s := by
  obtain ⟨phase, hh⟩ := hb
  cases route_step h with
  | @connected s₁ ws₁ hs hw =>
    refine ⟨phase, ?_⟩
    rw [handlers_register, AList.lookup_insert_ne]
    · exact hh
    · rintro rfl
      cases hw.symm.trans hh
  | @disconnected ws₁ s₁ msgId now hh₁ =>
    obtain ⟨phase₁, hins, -, -⟩ := unregister_handler E b s₁ ws₁ msgId now
    rw [Behind, hins]
    by_cases he : ws = ws₁
    · subst he
      obtain ⟨rfl, -⟩ := Handler.mk.inj (Option.some.inj (hh₁.symm.trans hh))
      exact ⟨phase₁, AList.lookup_insert _⟩
    · exact ⟨phase, (AList.lookup_insert_ne he).trans hh⟩
  | @served e ws₁ s₁ old phase₁ new b' he hh₁ hs ho =>
    rw [Behind, hs.handlers]
    by_cases he : ws = ws₁
    · subst he
      obtain ⟨rfl, -⟩ := Handler.mk.inj (Option.some.inj (hh₁.symm.trans hh))
      exact ⟨phase₁, AList.lookup_insert _⟩
    · exact ⟨phase, (AList.lookup_insert_ne he).trans hh⟩
  | fired he hc hw hr hhand hs hf => exact ⟨phase, hhand ▸ hh⟩

theorem named_step (hb : ∀ s ws, b.connections.lookup s = some ws → b.Behind ws s)
    (h : b.step E e = some b') {s : String} {ws : Ws} (hc : b'.connections.lookup s = some ws) :
    b'.Behind ws s := by
  by_cases he : ∃ ws₁ s₁, e = .connect ws₁ s₁
  · obtain ⟨ws₁, s₁, rfl⟩ := he
    obtain ⟨-, hreg⟩ := connect_step h
    cases hfree : b.connections.lookup s₁ with
    | some ws₀ =>
      refine behind_step (hb s ws ?_) h
      rw [hreg, register_of_taken (by simp [hfree])] at hc
      exact hc
    | none =>
      rw [hreg, (register_of_free hfree).1] at hc
      rcases Dict.lookup_insert_eq_some.1 hc with ⟨rfl, rfl⟩ | ⟨-, hc⟩
      · refine ⟨.recv, ?_⟩
        rw [hreg, handlers_register]
        exact AList.lookup_insert _
      · exact behind_step (hb s ws hc) h
  · have hold := (connections_step h fun ws₁ s₁ heq => he ⟨ws₁, s₁, heq⟩).1 s ws hc
    exact behind_step (hb s ws hold) h

variable {W : NMBMessage π → Prop}

theorem fansOut_step (hb : Traffic W b) (he : ∀ ws m now, e = .frame ws (.ok m) now → W m)
    (h : b.step E e = some b') {ws : Ws} {s : String} {phase : Phase π}
    (hh : b'.handlers.lookup ws = some ⟨s, phase⟩) : FansOut W phase := by
  cases phase_step h hh with
  | before hold => exact hb.phases ws s phase hold
  | opened hphase =>
    rw [hphase]
    trivial
  | ended hphase =>
    rcases hphase with hp | hp | ⟨msgId, now, left, hp⟩
    · rw [hp]
      trivial
    · rw [hp]
      trivial
    · rw [hp]
      rfl
  | served hold ho =>
    have hold := hb.phases ws s _ hold
    cases ho with
    | acked | refused | reply => trivial
    | forward hop ht hc hphase =>
      rcases hphase with hp | hp | ⟨-, hp⟩
      all_goals
        rw [hp]
        trivial
    | publish hop => exact ⟨_, _, _, he _ _ _ rfl, hop, rfl⟩
    | fanout | notice => exact hold
    | quiet hphase =>
      rcases hphase with ⟨hp, -⟩ | hp | hp
      all_goals
        rw [hp]
        trivial

theorem traffic_step (hb : Traffic W b) (he : ∀ ws m now, e = .frame ws (.ok m) now → W m)
    (h : b.step E e = some b') : Traffic W b' := by
  refine ⟨fun s ws => named_step hb.named h, fun ws s phase => fansOut_step hb he h, ?_⟩
  intro f hf hop
  rcases sent_origin h hf with hf | hto | ⟨ws, s, old, phase, new, hold, ho, hf⟩
  · refine (hb.sent f hf hop).imp_right ?_
    rintro ⟨m, s, now, hm, hframe, hto⟩
    refine ⟨m, s, now, hm, hframe, fun hsend => ?_⟩
    obtain ⟨t, ht, hbehind⟩ := hto hsend
    exact ⟨t, ht, behind_step hbehind h⟩
  · cases hto.symm.trans hop
  · have hphase := hb.phases ws s old hold
    cases ho with
    | acked _ hack =>
      obtain rfl := List.mem_singleton.1 hf
      cases hack.symm.trans hop
    | refused _ herr =>
      obtain rfl := List.mem_singleton.1 hf
      cases herr.symm.trans hop
    | forward _ ht hc _ =>
      obtain rfl := List.mem_singleton.1 hf
      refine Or.inr ⟨_, _, _, he _ _ _ rfl, rfl, fun _ => ⟨_, (truthy_eq_some.1 ht).1, ?_⟩⟩
      exact behind_step (hb.named _ _ hc) h
    | reply hreply _ _ _ =>
      obtain rfl := List.mem_singleton.1 hf
      refine Or.inr ⟨_, _, _, he _ _ _ rfl, rfl, fun hsend => ?_⟩
      cases hreply.symm.trans hsend
    | publish => contradiction
    | fanout ht =>
      obtain rfl := List.mem_singleton.1 hf
      obtain ⟨m₀, s₀, now, hm, hpublish, rfl⟩ := hphase
      refine Or.inr ⟨_, _, _, hm, rfl, fun hsend => ?_⟩
      cases hpublish.symm.trans hsend
    | notice ht =>
      obtain rfl := List.mem_singleton.1 hf
      exact Or.inl hphase
    | quiet => contradiction

theorem traffic_register {s : String} {ws : Ws} :
    Traffic W (({} : Broker π).register s ws) := by
  have hfree : ({} : Broker π).connections.lookup s = none := rfl
  have hconn : (({} : Broker π).register s ws).connections =
      ({} : Broker π).connections.insert s ws := (register_of_free hfree).1
  have hhandlers : (({} : Broker π).register s ws).handlers =
      ({} : Broker π).handlers.insert ws ⟨s, .recv⟩ := handlers_register
  have hsent : (({} : Broker π).register s ws).sent = [] := sent_register
  refine ⟨?_, ?_, ?_⟩
  · intro s' ws' hc
    rw [hconn] at hc
    rcases Dict.lookup_insert_eq_some.1 hc with ⟨rfl, rfl⟩ | ⟨-, hc⟩
    · refine ⟨.recv, ?_⟩
      rw [hhandlers]
      exact AList.lookup_insert _
    · contradiction
  · intro ws' s' phase hh
    rw [hhandlers] at hh
    rcases Dict.lookup_insert_eq_some.1 hh with ⟨-, heq⟩ | ⟨-, hh⟩
    · obtain ⟨-, rfl⟩ := Handler.mk.inj heq
      trivial
    · contradiction
  · intro f hf
    rw [hsent] at hf
    contradiction

end Broker

end NemoClaw
