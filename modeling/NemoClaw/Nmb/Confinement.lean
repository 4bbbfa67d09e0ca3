import NemoClaw.Nmb.Policies

/-! Policies confine traffic. Whoever is connected, listed in a channel or waiting for a reply asked
for it in a step that the policies of that moment permitted, and whatever is delivered was written
in such a step, for the connection that it goes to. -/

namespace NemoClaw

open Lib Dict

namespace Broker

variable {π : Type} {E : BrokerEnv π} {b b' : Broker π} {e : BrokerEvent π}

/-- Who is in a channel was in it before or asks for it. -/
theorem SubscriptionStep.origin {u : Subscriptions} (h : SubscriptionStep E b e u) {s c : String}
    (hs : s ∈ members u.channels c) :
    s ∈ members b.channels c ∨ b.AsksFor E .subscribe s c e := by
  cases h with
  | same | connected | full => exact Or.inl hs
  | @subscribed _ s' c' ha hroom =>
    rw [members_insert] at hs
    split at hs
    · subst c
      rcases List.mem_insert_iff.1 hs with rfl | hs
      · exact Or.inr ha
      · exact Or.inl hs
    · exact Or.inl hs
  | @unsubscribed _ s' c' chans ha hchans | @unknown _ s' c' ha hchans =>
    rw [members_leave] at hs
    split at hs
    · subst c
      exact Or.inl (List.mem_of_mem_erase hs)
    · exact Or.inl hs
  | disconnected hh hc => exact Or.inl (mem_of_mem_foldl_leave hs)

theorem mem_subscriberSockets {c s : String} {w : Ws} :
    w ∈ b.subscriberSockets c (some s) ↔
      ∃ t ∈ members b.channels c, t ≠ s ∧ b.connections.lookup t = some w := by
  simp [subscriberSockets, members, and_assoc]

end Broker

namespace PolicedBroker

variable {ι π : Type}

/-- A run of the broker with its policies. -/
abbrev History (ι π : Type) := List (PolicedBroker ι π × PolicedEvent ι π)

/-- `s` wrote `m` in a step of the run that began in `q`, and no policy of `q` is against it. -/
def Wrote (tr : History ι π) (q : PolicedBroker ι π) (s : String) (m : NMBMessage π) (now : ℚ) :
    Prop :=
  ∃ ws, (q, .broker (.frame ws (.ok m) now)) ∈ tr ∧
    q.routing.handlers.lookup ws = some ⟨s, .recv⟩ ∧ Permits q.policyOf s (Broker.stamp m s now)

/-- The message is for this connection: it is that of its target, of a subscriber of its channel,
or of the sandbox that waits for the reply. -/
inductive Reaches (b : Broker π) (s : String) (m : NMBMessage π) (w : Ws) : Prop
  | target {t} (ht : m.targeted = some t) (hc : b.connections.lookup t = some w)
  | subscriber {c t} (hop : m.op = .publish) (hc : truthy m.channel = some c)
      (ht : t ∈ members b.channels c) (hne : t ≠ s) (hw : b.connections.lookup t = some w)
  | requester {rid tracked} (hop : m.op = .reply) (hrid : m.replyTo = some rid)
      (hp : b.pending.lookup rid = some tracked) (hw : b.connections.lookup tracked.owner = some w)

/-- A notice of `_unregister`. -/
def Announces (f : NMBMessage π) : Prop :=
  f.fromSandbox = some "system" ∧ f.type = some Broker.shutdownType

structure Confined (tr : History ι π) (p : PolicedBroker ι π) : Prop where
  accepted : ∀ ws s, p.identities.lookup ws = some s →
    ∃ q, (q, .handshake ws s) ∈ tr ∧ ∀ policy ∈ q.policyOf s, policy.canConnect = true
  connected : ∀ s ws, p.routing.connections.lookup s = some ws → p.identities.lookup ws = some s
  served : ∀ ws s phase, p.routing.handlers.lookup ws = some ⟨s, phase⟩ →
    p.identities.lookup ws = some s
  subscribed : ∀ c, ∀ s ∈ members p.routing.channels c, ∃ q m now, Wrote tr q s m now ∧
    m.op = .subscribe ∧ truthy m.channel = some c
  waiting : ∀ rid tracked, p.routing.pending.lookup rid = some tracked →
    ∃ q m now t w, Wrote tr q tracked.owner m now ∧ m.op = .request ∧ m.id = rid ∧
      m.targeted = some t ∧ q.routing.connections.lookup t = some w
  publishing : ∀ ws s msg left, p.routing.handlers.lookup ws = some ⟨s, .publishFanout msg left⟩ →
    ∃ q m now, Wrote tr q s m now ∧ msg = Broker.stamp m s now ∧
      ∀ w ∈ left, Reaches q.routing s m w
  announcing : ∀ ws s f left,
    p.routing.handlers.lookup ws = some ⟨s, .shutdownFanout f left⟩ → Announces f
  delivered : ∀ f ∈ p.routing.sent, f.frame.op = .deliver → Announces f.frame ∨
    ∃ q s m now, Wrote tr q s m now ∧ f.frame = (Broker.stamp m s now).makeDeliver ∧
      Reaches q.routing s m f.ws

section

variable {tr : History ι π} {p : PolicedBroker ι π} {E : BrokerEnv π}

theorem Wrote.mono {q : PolicedBroker ι π} {s : String} {m : NMBMessage π} {now : ℚ}
    (h : Wrote tr q s m now) {tr' : History ι π} (hsub : tr ⊆ tr') : Wrote tr' q s m now := by
  obtain ⟨ws, hmem, hrest⟩ := h
  exact ⟨ws, hsub hmem, hrest⟩

theorem Wrote.snoc {q : PolicedBroker ι π} {s : String} {m : NMBMessage π} {now : ℚ}
    (h : Wrote tr q s m now) (x : PolicedBroker ι π × PolicedEvent ι π) :
    Wrote (tr ++ [x]) q s m now :=
  h.mono (List.subset_append_left tr [x])

/-- A longer run confines as well. -/
theorem Confined.snoc (h : Confined tr p) (x : PolicedBroker ι π × PolicedEvent ι π) :
    Confined (tr ++ [x]) p := by
  constructor
  · intro ws s hi
    obtain ⟨q, hmem, hq⟩ := h.accepted ws s hi
    exact ⟨q, List.mem_append_left _ hmem, hq⟩
  · exact h.connected
  · exact h.served
  · intro c s hs
    obtain ⟨q, m, now, hw, hrest⟩ := h.subscribed c s hs
    exact ⟨q, m, now, hw.snoc x, hrest⟩
  · intro rid tracked ht
    obtain ⟨q, m, now, t, w, hw, hrest⟩ := h.waiting rid tracked ht
    exact ⟨q, m, now, t, w, hw.snoc x, hrest⟩
  · intro ws s msg left hh
    obtain ⟨q, m, now, hw, hrest⟩ := h.publishing ws s msg left hh
    exact ⟨q, m, now, hw.snoc x, hrest⟩
  · exact h.announcing
  · intro f hf hop
    refine (h.delivered f hf hop).imp_right ?_
    rintro ⟨q, s, m, now, hw, hrest⟩
    exact ⟨q, s, m, now, hw.snoc x, hrest⟩

/-- The frame of a step that the policies permit was written in it. -/
theorem wrote_of_permitted {ws : Ws} {m : NMBMessage π} {now : ℚ} {s : String}
    (hp : p.Permitted (.frame ws (.ok m) now))
    (hh : p.routing.handlers.lookup ws = some ⟨s, .recv⟩) :
    Wrote (tr ++ [(p, .broker (.frame ws (.ok m) now))]) p s m now := by
  obtain ⟨m', s', hraw, hh', hpermits⟩ := hp
  obtain rfl := Except.ok.inj hraw
  obtain ⟨rfl, -⟩ := Handler.mk.inj (Option.some.inj (hh.symm.trans hh'))
  exact ⟨ws, List.mem_append_right _ (List.mem_singleton.2 rfl), hh, hpermits⟩

section Routed

variable {e : BrokerEvent π} {b : Broker π} (hc : Confined tr p)
  (hs : p.routing.step E e = some b) (hp : p.Permitted e)
include hc hs hp

theorem connected_routed {s : String} {ws : Ws} (hlookup : b.connections.lookup s = some ws) :
    p.identities.lookup ws = some s := by
  by_cases he : ∃ ws₁ s₁, e = .connect ws₁ s₁
  · obtain ⟨ws₁, s₁, rfl⟩ := he
    obtain ⟨-, rfl⟩ := Broker.connect_step hs
    cases hfree : p.routing.connections.lookup s₁ with
    | some ws₀ =>
      rw [Broker.register_of_taken (by simp [hfree])] at hlookup
      exact hc.connected s ws hlookup
    | none =>
      rw [(Broker.register_of_free hfree).1] at hlookup
      rcases Dict.lookup_insert_eq_some.1 hlookup with ⟨rfl, rfl⟩ | ⟨-, hlookup⟩
      · exact hp
      · exact hc.connected s ws hlookup
  · have hold := (Broker.connections_step hs fun ws₁ s₁ heq => he ⟨ws₁, s₁, heq⟩).1 s ws hlookup
    exact hc.connected s ws hold

theorem served_routed {ws : Ws} {s : String} {phase : Phase π}
    (hlookup : b.handlers.lookup ws = some ⟨s, phase⟩) : p.identities.lookup ws = some s := by
  have hinsert : ∀ ws₁ s₁ phase₁, p.identities.lookup ws₁ = some s₁ →
      b.handlers = p.routing.handlers.insert ws₁ ⟨s₁, phase₁⟩ →
        p.identities.lookup ws = some s := by
    intro ws₁ s₁ phase₁ hidentity hhandlers
    rw [hhandlers] at hlookup
    rcases Dict.lookup_insert_eq_some.1 hlookup with ⟨rfl, heq⟩ | ⟨-, hold⟩
    · rw [hidentity, (Handler.mk.inj heq).1]
    · exact hc.served ws s phase hold
  cases Broker.route_step hs with
  | connected => exact hinsert _ _ _ hp Broker.handlers_register
  | disconnected hh =>
    obtain ⟨phase₁, hhandlers, -, -⟩ := Broker.unregister_handler E p.routing _ _ _ _
    exact hinsert _ _ _ (hc.served _ _ _ hh) hhandlers
  | served he hh hserved ho => exact hinsert _ _ _ (hc.served _ _ _ hh) hserved.handlers
  | fired he hconnections hw hr hh hsent hf => exact hc.served ws s phase (hh ▸ hlookup)

theorem subscribed_routed {c s : String} (hmem : s ∈ members b.channels c) :
    ∃ q m now, Wrote (tr ++ [(p, .broker e)]) q s m now ∧ m.op = .subscribe ∧
      truthy m.channel = some c := by
  rcases (Broker.subscription_step hs).origin hmem with hold | hasks
  · exact (hc.snoc (p, .broker e)).subscribed c s hold
  · obtain ⟨ws, m, now, rfl, -⟩ := Broker.asksFor_frame hasks
    obtain ⟨hh, hop, -, hchannel⟩ := hasks
    exact ⟨p, m, now, wrote_of_permitted hp hh, hop, hchannel⟩

theorem waiting_routed {rid : String} {tracked : TrackedPending}
    (hpending : b.pending.lookup rid = some tracked) :
    ∃ q m now t w, Wrote (tr ++ [(p, .broker e)]) q tracked.owner m now ∧ m.op = .request ∧
      m.id = rid ∧ m.targeted = some t ∧ q.routing.connections.lookup t = some w := by
  rcases Broker.pending_origin hs hpending with hold | ⟨ws, m, now, rfl, hh, hm, hid, -⟩
  · exact (hc.snoc (p, .broker e)).waiting rid tracked hold
  · obtain ⟨-, t, w, ht, hconnected⟩ := hm.admissible
    refine ⟨p, m, now, t, w, wrote_of_permitted hp hh, hm.op, hid, ?_, hconnected⟩
    rw [NMBMessage.targeted, if_pos (Or.inr (Or.inl hm.op))]
    exact ht

theorem publishing_routed {ws : Ws} {s : String} {msg : NMBMessage π} {left : List Ws}
    (hphase : b.handlers.lookup ws = some ⟨s, .publishFanout msg left⟩) :
    ∃ q m now, Wrote (tr ++ [(p, .broker e)]) q s m now ∧ msg = Broker.stamp m s now ∧
      ∀ w ∈ left, Reaches q.routing s m w := by
  cases Broker.phase_step hs hphase with
  | before hh => exact (hc.snoc (p, .broker e)).publishing ws s msg left hh
  | opened hp' => contradiction
  | ended hp' => simp at hp'
  | served hh ho =>
    cases ho with
    | forward _ _ _ hp' => simp at hp'
    | @publish m now c hop hchannel =>
      refine ⟨p, m, now, wrote_of_permitted hp hh, rfl, fun w hw => ?_⟩
      obtain ⟨t, ht, hne, hlookup⟩ := Broker.mem_subscriberSockets.1 hw
      exact .subscriber hop hchannel ht hne hlookup
    | fanout ht =>
      obtain ⟨q, m, now, hw, hmsg, hleft⟩ :=
        (hc.snoc (p, .broker (.safeSend ws _))).publishing ws s _ _ hh
      exact ⟨q, m, now, hw, hmsg, fun w hmem => hleft w (List.mem_of_mem_erase hmem)⟩
    | quiet hp' => simp at hp'

omit hp in
theorem announcing_routed {ws : Ws} {s : String} {f : NMBMessage π} {left : List Ws}
    (hphase : b.handlers.lookup ws = some ⟨s, .shutdownFanout f left⟩) : Announces f := by
  cases Broker.phase_step hs hphase with
  | before hh => exact hc.announcing ws s f left hh
  | opened hp' => contradiction
  | ended hp' =>
    rcases hp' with hp' | hp' | ⟨msgId, now, left', hp'⟩
    · contradiction
    · contradiction
    · obtain ⟨rfl, -⟩ := Phase.shutdownFanout.inj hp'
      exact ⟨rfl, rfl⟩
  | served hh ho =>
    cases ho with
    | forward _ _ _ hp' => simp at hp'
    | notice ht => exact hc.announcing _ _ _ _ hh
    | quiet hp' => simp at hp'

theorem delivered_routed {f : SentFrame π} (hf : f ∈ b.sent) (hop : f.frame.op = .deliver) :
    Announces f.frame ∨ ∃ q s m now, Wrote (tr ++ [(p, .broker e)]) q s m now ∧
      f.frame = (Broker.stamp m s now).makeDeliver ∧ Reaches q.routing s m f.ws := by
  rcases Broker.sent_origin hs hf with hold | htimeout | ⟨ws, s, old, phase, new, hh, ho, hmem⟩
  · exact (hc.snoc (p, .broker e)).delivered f hold hop
  · cases htimeout.symm.trans hop
  · cases ho with
    | acked _ hack =>
      obtain rfl := List.mem_singleton.1 hmem
      cases hack.symm.trans hop
    | refused _ herr =>
      obtain rfl := List.mem_singleton.1 hmem
      cases herr.symm.trans hop
    | @forward m now target targetWs phase hforward ht hlookup hphase =>
      obtain rfl := List.mem_singleton.1 hmem
      refine Or.inr ⟨p, s, m, now, wrote_of_permitted hp hh, rfl, .target ?_ hlookup⟩
      rw [NMBMessage.targeted, if_pos hforward]
      exact ht
    | reply hreply hrid hpending hlookup =>
      obtain rfl := List.mem_singleton.1 hmem
      exact Or.inr ⟨p, s, _, _, wrote_of_permitted hp hh, rfl,
        .requester hreply hrid hpending hlookup⟩
    | publish => contradiction
    | fanout ht =>
      obtain rfl := List.mem_singleton.1 hmem
      obtain ⟨q, m, now, hw, rfl, hleft⟩ :=
        (hc.snoc (p, .broker (.safeSend ws _))).publishing ws s _ _ hh
      exact Or.inr ⟨q, s, m, now, hw, rfl, hleft _ ht⟩
    | notice ht =>
      obtain rfl := List.mem_singleton.1 hmem
      exact Or.inl (hc.announcing _ _ _ _ hh)
    | quiet => contradiction

theorem Confined.routed : Confined (tr ++ [(p, .broker e)]) { p with routing := b } :=
  ⟨(hc.snoc _).accepted, fun _ _ => connected_routed hc hs hp,
    fun _ _ _ => served_routed hc hs hp, fun _ _ => subscribed_routed hc hs hp,
    fun _ _ => waiting_routed hc hs hp, fun _ _ _ _ => publishing_routed hc hs hp,
    fun _ _ _ _ => announcing_routed hc hs, fun _ => delivered_routed hc hs hp⟩

end Routed

/-- The refusal of a frame delivers nothing. -/
theorem Confined.refused (hc : Confined tr p) {ws : Ws} {s id text : String} {code : ErrorCode}
    (hh : p.routing.handlers.lookup ws = some ⟨s, .recv⟩) :
    Confined tr { p with routing := p.routing.sendError s ws id code text none } := by
  have hphase : ∀ ws' h,
      (p.routing.sendError s ws id code text none).handlers.lookup ws' = some h →
        p.routing.handlers.lookup ws' = some h ∨ h = ⟨s, .error none⟩ := by
    intro ws' h hlookup
    rcases Dict.lookup_insert_eq_some.1 hlookup with ⟨-, rfl⟩ | ⟨-, hold⟩
    · exact Or.inr rfl
    · exact Or.inl hold
  refine ⟨hc.accepted, hc.connected, ?_, hc.subscribed, hc.waiting, ?_, ?_, ?_⟩
  · intro ws' s' phase hlookup
    rcases Dict.lookup_insert_eq_some.1 hlookup with ⟨rfl, heq⟩ | ⟨-, hold⟩
    · rw [← (Handler.mk.inj heq).1]
      exact hc.served ws' s .recv hh
    · exact hc.served ws' s' phase hold
  · intro ws' s' msg left hlookup
    exact hc.publishing ws' s' msg left ((hphase _ _ hlookup).resolve_right (by simp))
  · intro ws' s' f left hlookup
    exact hc.announcing ws' s' f left ((hphase _ _ hlookup).resolve_right (by simp))
  · intro f hf hop
    rcases List.mem_append.1 hf with hf | hf
    · exact hc.delivered f hf hop
    · obtain rfl := List.mem_singleton.1 hf
      contradiction

/-- A handshake that the policy of the newcomer permits. -/
theorem Confined.handshaken (hc : Confined tr p) {ws : Ws} {s : String}
    (hp : ∀ policy ∈ p.policyOf s, policy.canConnect = true)
    (hnew : p.identities.lookup ws = none) :
    Confined (tr ++ [(p, .handshake ws s)])
      { p with identities := p.identities.insert ws s } := by
  have h := hc.snoc (p, .handshake ws s)
  have hkeep : ∀ ws' s', p.identities.lookup ws' = some s' →
      (p.identities.insert ws s).lookup ws' = some s' := by
    intro ws' s' hold
    refine Dict.lookup_insert_eq_some.2 (Or.inr ⟨?_, hold⟩)
    rintro rfl
    cases hnew.symm.trans hold
  refine ⟨?_, fun s' ws' hl => hkeep ws' s' (hc.connected s' ws' hl),
    fun ws' s' phase hl => hkeep ws' s' (hc.served ws' s' phase hl), h.subscribed, h.waiting,
    h.publishing, h.announcing, h.delivered⟩
  intro ws' s' hlookup
  rcases Dict.lookup_insert_eq_some.1 hlookup with ⟨rfl, rfl⟩ | ⟨-, hold⟩
  · exact ⟨p, List.mem_append_right _ (List.mem_singleton.2 rfl), hp⟩
  · exact h.accepted ws' s' hold

/-- The policies themselves are not asked again. -/
theorem Confined.repoliced (hc : Confined tr p) (policing : PolicyBroker ι) :
    Confined tr { p with policing := policing } :=
  ⟨hc.accepted, hc.connected, hc.served, hc.subscribed, hc.waiting, hc.publishing, hc.announcing,
    hc.delivered⟩

theorem confined_init (policing : PolicyBroker ι) :
    Confined ([] : History ι π) { policing := policing } := by
  refine ⟨?_, ?_, ?_, ?_, ?_, ?_, ?_, ?_⟩
  · intro ws s h
    contradiction
  · intro s ws h
    contradiction
  · intro ws s phase h
    contradiction
  · intro c s h
    contradiction
  · intro rid tracked h
    contradiction
  · intro ws s msg left h
    contradiction
  · intro ws s f left h
    contradiction
  · intro f h
    contradiction

theorem Confined.step [DecidableEq ι] (hc : Confined tr p) {e : PolicedEvent ι π}
    {p' : PolicedBroker ι π} (hs : p.step E e = some p') : Confined (tr ++ [(p, e)]) p' := by
  cases policed_step hs with
  | added i => exact (hc.snoc _).repoliced _
  | rekeyed old new => exact (hc.snoc _).repoliced _
  | accepted ws s hp hnew => exact hc.handshaken hp hnew
  | routed hstep hp => exact hc.routed hstep hp
  | refused hh => exact (hc.snoc _).refused hh

end

/-- In every run, whatever the policies become in it, the traffic is confined to what they permitted
when it was asked for. -/
theorem confined_of_trace [DecidableEq ι] {E : BrokerEnv π} {objects : ι → SandboxPolicy}
    {policies : List ι} {tr : History ι π} {p : PolicedBroker ι π}
    (h : (policedMachine E objects policies).Trace tr p) : Confined tr p := by
  induction h with
  | nil => exact confined_init _
  | snoc _ hs ih => exact ih.step hs

def taskFor (id target : String) : NMBMessage String :=
  { op := .send, id := id, type := some "task.assign", toSandbox := some target,
    payload := some "\x7b\x7d" }

/-- The orchestrator may send to the coding sandbox, and not to the user interface. -/
def pairTraffic : List (PolicedEvent Bool String) :=
  [.handshake 1 "orchestrator", .handshake 2 "coding", .handshake 3 "ui",
    .broker (.connect 1 "orchestrator"), .broker (.connect 2 "coding"), .broker (.connect 3 "ui"),
    .broker (.frame 1 (.ok (taskFor "m-1" "ui")) 1), .broker (.resume 1 .ok),
    .broker (.frame 1 (.ok (taskFor "m-2" "coding")) 2)]

theorem confined_of_trace_pair :
    ∃ tr p, (policedMachine jsonText pairPolicy [false, true]).Trace tr p ∧
    tr.map Prod.snd = pairTraffic ∧
      p.routing.sent.map (fun f => (f.ws, f.frame.op)) = [(1, .error), (2, .deliver)] ∧
        Confined tr p := by
  obtain ⟨tr, p, h, hevents, hsent⟩ :=
    Machine.Trace.of_check (M := policedMachine jsonText pairPolicy [false, true]) pairTraffic
      (p := fun _ p => decide (p.routing.sent.map (fun f => (f.ws, f.frame.op)) =
        [(1, .error), (2, .deliver)])) (by decide +kernel)
  exact ⟨tr, p, h, hevents, of_decide_eq_true hsent, confined_of_trace h⟩

end PolicedBroker

end NemoClaw
