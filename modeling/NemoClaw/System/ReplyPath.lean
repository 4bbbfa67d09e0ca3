import NemoClaw.Nmb.Routing
import NemoClaw.System.Deployment

/-! The way of an answer back. The manager sends an assignment with op `send`, for which the broker
keeps no pending entry, and the sub-agent answers with op `reply`, which the broker routes by
pending entries only. So the broker refuses every answer, and the client drops the refusal. -/

namespace NemoClaw

open Lib

/-- The types of the answers. -/
def Terminal (type : Option String) : Prop :=
  type = some MessageType.taskComplete.value ∨ type = some MessageType.taskError.value

/-- What the orchestrator and the sub-agents write: assignments and audit rows with op `send`, and
replies. -/
def Spoken {π : Type} (m : NMBMessage π) : Prop :=
  m.op = .send ∧ ¬ Terminal m.type ∨ m.op = .reply

theorem not_terminal_assign : ¬ Terminal (some MessageType.taskAssign.value) := by
  intro h
  rcases h with h | h <;> exact absurd h (by decide)

theorem not_terminal_auditFlush : ¬ Terminal (some MessageType.auditFlush.value) := by
  intro h
  rcases h with h | h <;> exact absurd h (by decide)

theorem not_terminal_shutdown : ¬ Terminal (some "sandbox.shutdown") := by
  intro h
  rcases h with h | h <;> exact absurd h (by decide)

theorem terminal_answer (answer : Answer) : Terminal (some answer.type.value) := by
  cases answer with
  | complete payload => exact Or.inl rfl
  | error payload => exact Or.inr rfl

namespace Broker

variable {π : Type} {E : BrokerEnv π} {b b' : Broker π}

/-- Nothing is pending, nothing is published and no answer is delivered. -/
structure Mute (b : Broker π) : Prop where
  pending : ∀ id, b.pending.lookup id = none
  published : ∀ ws s m left, b.handlers.lookup ws ≠ some ⟨s, .publishFanout m left⟩
  notice : ∀ ws s f left, b.handlers.lookup ws = some ⟨s, .shutdownFanout f left⟩ →
    ¬ Terminal f.type
  sent : ∀ f ∈ b.sent, f.frame.op = .deliver → ¬ Terminal f.frame.type

/-- With nothing pending, only a request gets anything into the table. -/
theorem book_step_unasked (hb : ∀ id, b.pending.lookup id = none) {e : BrokerEvent π} {k : Books}
    (hk : BookStep E b e k) (hspoken : ∀ ws m now, e = .frame ws (.ok m) now → Spoken m) :
    ∀ id, k.pending.lookup id = none := by
  have herase : ∀ id id', (b.pending.erase id).lookup id' = none := fun id id' => by
    by_contra hne
    obtain ⟨tracked, htracked⟩ := Option.ne_none_iff_exists'.1 hne
    cases (hb id').symm.trans (Dict.lookup_erase_eq_some.1 htracked).2
  cases hk with
  | same | stale | timedOut => exact hb
  | admitted hh hm =>
    rcases hspoken _ _ _ rfl with ⟨hop, -⟩ | hop
    · cases hop.symm.trans hm.op
    · cases hop.symm.trans hm.op
  | reply | rollback | expire => exact herase _
  | clear hh hc =>
    intro id
    by_contra hne
    obtain ⟨tracked, htracked⟩ := Option.ne_none_iff_exists'.1 hne
    cases (hb id).symm.trans (Dict.lookup_drop_eq_some.1 htracked).1

/-- What a handler sends and where it goes when it reads nothing but `Spoken` frames. -/
theorem mute_handlerStep (hb : Mute b) {e : BrokerEvent π} {ws : Ws} {s : String}
    {old phase : Phase π} {new : List (SentFrame π)} (hh : b.handlers.lookup ws = some ⟨s, old⟩)
    (h : HandlerStep E b ws s e old phase new)
    (hspoken : ∀ ws m now, e = .frame ws (.ok m) now → Spoken m) :
    (∀ m left, phase ≠ .publishFanout m left) ∧
      (∀ f left, phase = .shutdownFanout f left → ¬ Terminal f.type) ∧
      ∀ f ∈ new, f.frame.op = .deliver → ¬ Terminal f.frame.type := by
  cases h with
  | acked ho hf =>
    refine ⟨(fun _ _ hp => by contradiction), (fun _ _ hp => by contradiction), ?_⟩
    intro f hmem hop
    obtain rfl := List.mem_singleton.1 hmem
    cases hf.symm.trans hop
  | refused ho hf =>
    refine ⟨(fun _ _ hp => by contradiction), (fun _ _ hp => by contradiction), ?_⟩
    intro f hmem hop
    obtain rfl := List.mem_singleton.1 hmem
    cases hf.symm.trans hop
  | @forward m now target targetWs phase hop ht hc hphase =>
    refine ⟨?_, ?_, ?_⟩
    · intro _ _ hp
      subst hp
      simp at hphase
    · intro _ _ hp
      subst hp
      simp at hphase
    · intro f hmem _
      obtain rfl := List.mem_singleton.1 hmem
      rcases hspoken _ _ _ rfl with ⟨-, htype⟩ | hreply
      · exact htype
      · rw [hreply] at hop
        simp at hop
  | reply hop hrid hp hc => cases (hb.pending _).symm.trans hp
  | publish hop =>
    rcases hspoken _ _ _ rfl with ⟨hsend, -⟩ | hreply
    · cases hsend.symm.trans hop
    · cases hreply.symm.trans hop
  | fanout ht => exact absurd hh (hb.published _ _ _ _)
  | notice ht =>
    have htype := hb.notice _ _ _ _ hh
    refine ⟨(fun _ _ hp => by contradiction), ?_, ?_⟩
    · intro f left hp
      obtain ⟨rfl, -⟩ := Phase.shutdownFanout.inj hp
      exact htype
    · intro f hmem _
      obtain rfl := List.mem_singleton.1 hmem
      exact htype
  | quiet hphase =>
    refine ⟨?_, ?_, fun f hmem => by contradiction⟩
    · intro _ _ hp
      subst hp
      simp at hphase
    · intro _ _ hp
      subst hp
      simp at hphase

theorem mute_step (hb : Mute b) {e : BrokerEvent π}
    (hspoken : ∀ ws m now, e = .frame ws (.ok m) now → Spoken m) (h : b.step E e = some b') :
    Mute b' := by
  refine ⟨book_step_unasked hb.pending (book_step h) hspoken, ?_, ?_, ?_⟩
  · intro ws s m left hh
    cases phase_step h hh with
    | before hold => exact hb.published ws s m left hold
    | opened hphase => contradiction
    | ended hphase => simp at hphase
    | served hh₁ ho => exact (mute_handlerStep hb hh₁ ho hspoken).1 m left rfl
  · intro ws s f left hh
    cases phase_step h hh with
    | before hold => exact hb.notice ws s f left hold
    | opened hphase => contradiction
    | ended hphase =>
      rcases hphase with hp | hp | ⟨msgId, now, left', hp⟩
      · contradiction
      · contradiction
      · obtain ⟨rfl, -⟩ := Phase.shutdownFanout.inj hp
        exact not_terminal_shutdown
    | served hh₁ ho => exact (mute_handlerStep hb hh₁ ho hspoken).2.1 f left rfl
  · intro f hf hop
    rcases sent_origin h hf with hold | htimeout | ⟨ws, s, old, phase, new, hh, ho, hnew⟩
    · exact hb.sent f hold hop
    · rw [htimeout] at hop
      contradiction
    · exact (mute_handlerStep hb hh ho hspoken).2.2 f hnew hop

end Broker

/-! ### The agents -/

section

variable {π : Type} {C : Codec π} {a a' : Agent π}

/-- What a step of an agent leaves true of the frames it writes and of its answers. -/
structure Agent.Follows (a a' : Agent π) : Prop where
  outbox : ∀ m ∈ a'.peer.outbox, m ∈ a.peer.outbox ∨ Spoken m
  answers : ∀ m ∈ a'.answers, m ∈ a.answers ∨ Terminal m.type

theorem Agent.follows_reply (a : Agent π) (id : String) (assign : NMBMessage π) (answer : Answer) :
    a.Follows (a.reply C id assign answer) := by
  refine ⟨?_, ?_⟩
  · intro m hm
    rcases List.mem_append.1 hm with hm | hm
    · exact Or.inl hm
    · obtain rfl := List.mem_singleton.1 hm
      exact Or.inr (Or.inr rfl)
  · intro m hm
    rcases List.mem_append.1 hm with hm | hm
    · exact Or.inl hm
    · obtain rfl := List.mem_singleton.1 hm
      exact Or.inr (terminal_answer answer)

theorem Agent.follows_listen {id : String} (h : a.listen C id = some a') : a.Follows a' := by
  unfold listen at h
  split at h
  · dsimp only at h
    split at h
    · split at h
      · obtain rfl := Option.some.inj h
        unfold replyValidationError
        split
        · have hreply := Agent.follows_reply (C := C) a id
          exact ⟨(hreply _ _).outbox, (hreply _ _).answers⟩
        · exact ⟨fun m hm => Or.inl hm, fun m hm => Or.inl hm⟩
      · obtain rfl := Option.some.inj h
        exact ⟨fun m hm => Or.inl hm, fun m hm => Or.inl hm⟩
    · obtain rfl := Option.some.inj h
      exact ⟨fun m hm => Or.inl hm, fun m hm => Or.inl hm⟩
  · contradiction

theorem Agent.follows_finish {id : String} {answer : Answer} {flush : Option AuditFlushPayload}
    (h : a.finish C id answer flush = some a') : a.Follows a' := by
  unfold finish at h
  split at h
  · split_ifs at h
    cases flush with
    | none =>
      obtain rfl := Option.some.inj h
      exact Agent.follows_reply a id _ answer
    | some payload =>
      obtain rfl := Option.some.inj h
      refine ⟨?_, fun m hm => Or.inl hm⟩
      intro m hm
      rcases List.mem_append.1 hm with hm | hm
      · exact Or.inl hm
      · obtain rfl := List.mem_singleton.1 hm
        exact Or.inr (Or.inl ⟨rfl, not_terminal_auditFlush⟩)
  · contradiction

theorem Agent.follows_flushed {id : String} (h : a.flushed C id = some a') : a.Follows a' := by
  unfold flushed at h
  split at h
  · obtain rfl := Option.some.inj h
    exact Agent.follows_reply a id _ _
  · contradiction

end

/-! ### The deployment -/

namespace Deployment

variable {π : Type} {E : DeploymentEnv π} {d d' : Deployment π}

/-- No answer gets past the broker. -/
structure Unheard (d : Deployment π) : Prop where
  broker : d.broker.Mute
  outbox : ∀ party p, d.peer party = some p → ∀ m ∈ p.outbox, Spoken m
  answers : ∀ c a, d.agents.lookup c = some a → ∀ m ∈ a.answers, Terminal m.type
  listened : ∀ m ∈ d.orchestrator.bus.listened, ¬ Terminal m.type

theorem unheard_updateAgent (h : Unheard d) {c : CallId} {f : Agent π → Option (Agent π)}
    (hf : ∀ a a', f a = some a' → a.Follows a') (hs : d.updateAgent c f = some d') :
    Unheard d' := by
  obtain ⟨a, ha, hs⟩ := Option.bind_eq_some_iff.1 hs
  obtain ⟨a', ha', rfl⟩ := Option.map_eq_some_iff.1 hs
  have hfollows := hf a a' ha'
  have hagent : d.peer (.agent c) = some a.peer := by simp [peer, ha]
  refine ⟨h.broker, ?_, ?_, h.listened⟩
  · intro party p hp m hm
    cases party with
    | orchestrator => exact h.outbox .orchestrator p hp m hm
    | agent c' =>
      obtain ⟨a₁, ha₁, rfl⟩ := Option.map_eq_some_iff.1 hp
      rcases Dict.lookup_insert_eq_some.1 ha₁ with ⟨-, rfl⟩ | ⟨-, ha₁⟩
      · rcases hfollows.outbox m hm with hm | hm
        · exact h.outbox _ _ hagent m hm
        · exact hm
      · exact h.outbox (.agent c') _ (by simp [peer, ha₁]) m hm
  · intro c' a₁ ha₁ m hm
    rcases Dict.lookup_insert_eq_some.1 ha₁ with ⟨-, rfl⟩ | ⟨-, ha₁⟩
    · rcases hfollows.answers m hm with hm | hm
      · exact h.answers c a ha m hm
      · exact hm
    · exact h.answers c' a₁ ha₁ m hm

/-- A client that wrote nothing new and listened to nothing forbidden may be put back. -/
theorem unheard_setPeer (h : Unheard d) {party : Party} {p p' : Peer π}
    (hp : d.peer party = some p) (hout : ∀ m ∈ p'.outbox, m ∈ p.outbox)
    (hlistened : ∀ m ∈ p'.bus.listened, m ∈ p.bus.listened ∨ ¬ Terminal m.type) :
    Unheard (d.setPeer party p') := by
  cases party with
  | orchestrator =>
    obtain rfl := Option.some.inj hp
    refine ⟨h.broker, ?_, h.answers, ?_⟩
    · intro party p₁ hp₁ m hm
      cases party with
      | orchestrator =>
        obtain rfl := Option.some.inj hp₁
        exact h.outbox .orchestrator _ rfl m (hout m hm)
      | agent c => exact h.outbox (.agent c) p₁ hp₁ m hm
    · intro m hm
      rcases hlistened m hm with hm | hm
      · exact h.listened m hm
      · exact hm
  | agent c =>
    obtain ⟨a, ha, rfl⟩ := Option.map_eq_some_iff.1 hp
    simp only [setPeer, ha]
    refine ⟨h.broker, ?_, ?_, h.listened⟩
    · intro party p₁ hp₁ m hm
      cases party with
      | orchestrator => exact h.outbox .orchestrator p₁ hp₁ m hm
      | agent c' =>
        obtain ⟨a₁, ha₁, rfl⟩ := Option.map_eq_some_iff.1 hp₁
        rcases Dict.lookup_insert_eq_some.1 ha₁ with ⟨-, rfl⟩ | ⟨-, ha₁⟩
        · exact h.outbox (.agent c) _ hp m (hout m hm)
        · exact h.outbox (.agent c') _ (by simp [peer, ha₁]) m hm
    · intro c' a₁ ha₁ m hm
      rcases Dict.lookup_insert_eq_some.1 ha₁ with ⟨-, rfl⟩ | ⟨-, ha₁⟩
      · exact h.answers c a ha m hm
      · exact h.answers c' a₁ ha₁ m hm

theorem unheard_manage (h : Unheard d) {e : DelegationEvent} (hs : d.manage E e = some d') :
    Unheard d' := by
  unfold manage at hs
  split at hs
  · split_ifs at hs
    obtain ⟨m, -, rfl⟩ := Option.map_eq_some_iff.1 hs
    exact ⟨h.broker, h.outbox, h.answers, h.listened⟩
  · obtain ⟨m, -, rfl⟩ := Option.map_eq_some_iff.1 hs
    exact ⟨h.broker, h.outbox, h.answers, h.listened⟩

theorem unheard_attempt (h : Unheard d) {c : CallId} {id : String}
    (hs : d.attempt E c id = some d') : Unheard d' := by
  obtain ⟨⟨task, agent⟩, -, hs⟩ := Option.bind_eq_some_iff.1 hs
  simp only [Option.ite_none_right_eq_some] at hs
  obtain rfl := Option.some.inj hs.2
  refine ⟨h.broker, ?_, h.answers, h.listened⟩
  intro party p hp m hm
  cases party with
  | orchestrator =>
    obtain rfl := Option.some.inj hp
    rcases List.mem_append.1 hm with hm | hm
    · exact h.outbox .orchestrator _ rfl m hm
    · obtain rfl := List.mem_singleton.1 hm
      exact Or.inl ⟨rfl, not_terminal_assign⟩
  | agent c' => exact h.outbox (.agent c') p hp m hm

theorem unheard_connect (h : Unheard d) {c : CallId} {ws : Ws}
    (hs : d.connect E c ws = some d') : Unheard d' := by
  unfold connect at hs
  split at hs
  · contradiction
  · contradiction
  · contradiction
  · obtain ⟨b, hb, rfl⟩ := Option.map_eq_some_iff.1 hs
    have hmute := Broker.mute_step h.broker (fun _ _ _ he => by contradiction) hb
    refine ⟨hmute, ?_, ?_, h.listened⟩
    · intro party p hp m hm
      cases party with
      | orchestrator => exact h.outbox .orchestrator p hp m hm
      | agent c' =>
        obtain ⟨a, ha, rfl⟩ := Option.map_eq_some_iff.1 hp
        rcases Dict.lookup_insert_eq_some.1 ha with ⟨-, rfl⟩ | ⟨-, ha⟩
        · contradiction
        · exact h.outbox (.agent c') _ (by simp [peer, ha]) m hm
    · intro c' a ha m hm
      rcases Dict.lookup_insert_eq_some.1 ha with ⟨-, rfl⟩ | ⟨-, ha⟩
      · contradiction
      · exact h.answers c' a ha m hm

theorem unheard_read (h : Unheard d) {party : Party} {now : ℚ}
    (hs : d.read E party now = some d') : Unheard d' := by
  obtain ⟨p, hp, hs⟩ := Option.bind_eq_some_iff.1 hs
  split at hs
  · contradiction
  · next msg rest hout =>
    obtain ⟨b, hb, rfl⟩ := Option.map_eq_some_iff.1 hs
    have hspoken : Spoken msg := h.outbox party p hp msg (by simp [hout])
    have hmute : b.Mute := by
      refine Broker.mute_step h.broker ?_ hb
      intro ws m now' he
      obtain ⟨-, hm, -⟩ := BrokerEvent.frame.inj he
      obtain rfl := Except.ok.inj hm
      exact hspoken
    have hread : ∀ l, Unheard { d with broker := b, deliveries := l } := fun l =>
      ⟨hmute, h.outbox, h.answers, h.listened⟩
    refine unheard_setPeer (hread _) (p := p) ?_ ?_ (fun m hm => Or.inl hm)
    · cases party <;> exact hp
    · intro m hm
      rw [hout]
      exact List.mem_cons_of_mem _ hm

theorem mem_inbound {b : Broker π} {p : Peer π} {m : NMBMessage π} (hm : m ∈ p.inbound b) :
    ∃ f ∈ b.sent, f.ws = p.ws ∧ f.frame = m := by
  obtain ⟨f, hf, rfl⟩ := List.mem_map.1 hm
  obtain ⟨hmem, hws⟩ := List.mem_filter.1 hf
  exact ⟨f, hmem, of_decide_eq_true hws, rfl⟩

theorem unheard_receive (h : Unheard d) {party : Party} {p p' : Peer π}
    (hp : d.peer party = some p) (hr : p.receive d.broker = some p') :
    Unheard (d.setPeer party p') := by
  obtain ⟨msg, hmsg, rfl⟩ := Option.map_eq_some_iff.1 hr
  obtain ⟨f, hf, -, rfl⟩ := mem_inbound (List.mem_of_getElem? hmsg)
  refine unheard_setPeer h hp (fun m hm => hm) fun m hm => ?_
  rcases MessageBus.listened_dispatch p.bus f.frame with he | ⟨hop, he⟩
  · exact Or.inl (he ▸ hm)
  · rw [he] at hm
    rcases List.mem_append.1 hm with hm | hm
    · exact Or.inl hm
    · obtain rfl := List.mem_singleton.1 hm
      exact Or.inr (h.broker.sent f hf hop)

theorem unheard_step (h : Unheard d) {e : DeploymentEvent π} (hs : d.step E e = some d') :
    Unheard d' := by
  cases e with
  | manager e => exact unheard_manage h hs
  | attempt c id => exact unheard_attempt h hs
  | retry c =>
    obtain ⟨-, -, hs⟩ := Option.bind_eq_some_iff.1 hs
    obtain ⟨id, -, hs⟩ := Option.bind_eq_some_iff.1 hs
    split at hs
    · split_ifs at hs
      obtain rfl := Option.some.inj hs
      exact ⟨h.broker, h.outbox, h.answers, h.listened⟩
    · contradiction
  | accept c =>
    obtain ⟨-, -, hs⟩ := Option.bind_eq_some_iff.1 hs
    obtain ⟨id, -, hs⟩ := Option.bind_eq_some_iff.1 hs
    split at hs
    · obtain ⟨m, -, rfl⟩ := Option.map_eq_some_iff.1 hs
      exact ⟨h.broker, h.outbox, h.answers, h.listened⟩
    · contradiction
  | connect c ws => exact unheard_connect h hs
  | listen c id => exact unheard_updateAgent h (fun _ _ => Agent.follows_listen) hs
  | finish c id answer flush => exact unheard_updateAgent h (fun _ _ => Agent.follows_finish) hs
  | flushed c id => exact unheard_updateAgent h (fun _ _ => Agent.follows_flushed) hs
  | exit c =>
    refine unheard_updateAgent h ?_ hs
    intro a a' ha
    obtain rfl := Option.some.inj ha
    exact ⟨fun m hm => Or.inl hm, fun m hm => Or.inl hm⟩
  | read party now => exact unheard_read h hs
  | receive party =>
    obtain ⟨p, hp, hs⟩ := Option.bind_eq_some_iff.1 hs
    obtain ⟨p', hr, rfl⟩ := Option.map_eq_some_iff.1 hs
    exact unheard_receive h hp hr
  | broker e =>
    simp only [step, Option.ite_none_right_eq_some] at hs
    obtain ⟨hown, hs⟩ := hs
    obtain ⟨b, hb, rfl⟩ := Option.map_eq_some_iff.1 hs
    refine ⟨Broker.mute_step h.broker ?_ hb, h.outbox, h.answers, h.listened⟩
    intro _ _ _ he
    subst he
    contradiction

theorem unheard_initial (E : DeploymentEnv π) : Unheard (deploymentMachine E).init where
  broker :=
    { pending := fun _ => rfl
      published := fun ws s m left hh => by
        simp only [deploymentMachine, Broker.handlers_register] at hh
        rcases Dict.lookup_insert_eq_some.1 hh with ⟨-, hp⟩ | ⟨-, hh⟩
        · cases hp
        · cases hh
      notice := fun ws s f left hh => by
        simp only [deploymentMachine, Broker.handlers_register] at hh
        rcases Dict.lookup_insert_eq_some.1 hh with ⟨-, hp⟩ | ⟨-, hh⟩
        · cases hp
        · cases hh
      sent := fun f hf => by cases hf }
  outbox party p hp m hm := by
    cases party with
    | orchestrator =>
      obtain rfl := Option.some.inj hp
      cases hm
    | agent c => contradiction
  answers _ _ ha := by contradiction
  listened _ hm := by contradiction

/-- How often the message was put on the orchestrator's listen queue. -/
def heard (d : Deployment π) (m : NMBMessage π) : ℕ :=
  d.orchestrator.bus.listened.countP fun m' => decide (m'.id = m.id ∧ m'.type = m.type)

/-- Every answer that a sub-agent emitted was put on the orchestrator's listen queue once. -/
def AnswersHeard (d : Deployment π) : Prop :=
  ∀ c a, d.agents.lookup c = some a → ∀ m ∈ a.answers, d.heard m = 1

/-- In every run no answer gets through, so that the answers are heard once each only if there are
none. -/
theorem answers_heard_iff {tr : List (Deployment π × DeploymentEvent π)}
    (h : (deploymentMachine E).Trace tr d) :
    d.AnswersHeard ↔ ∀ c a, d.agents.lookup c = some a → a.answers = [] := by
  have hunheard : Unheard d := h.invariant (unheard_initial E) fun _ _ _ hd hs =>
    unheard_step hd hs
  refine ⟨?_, ?_⟩
  · intro hheard c a ha
    by_contra hne
    obtain ⟨m, hm⟩ := List.exists_mem_of_ne_nil _ hne
    have hterminal := hunheard.answers c a ha m hm
    have hzero : d.heard m = 0 := by
      refine List.countP_eq_zero.2 fun m' hm' hsame => hunheard.listened m' hm' ?_
      rw [(of_decide_eq_true hsame).2]
      exact hterminal
    have hone := hheard c a ha m hm
    omega
  · intro hnone c a ha m hm
    rw [hnone c a ha] at hm
    contradiction

/-! ### A lost completion -/

/-- Nothing is on its way: every frame was read and every handler waits for the next one. -/
def Settled (d : Deployment π) : Prop :=
  (∀ p ∈ d.orchestrator :: d.agents.entries.map fun a => a.2.peer,
    p.outbox.length = 0 ∧ p.received = (p.inbound d.broker).length) ∧
  ∀ h ∈ d.broker.handlers.entries.map Sigma.snd, (match h.phase with
    | .recv => true
    | _ => false) = true

instance (d : Deployment π) : Decidable d.Settled := by unfold Settled; infer_instance

/-- The event does not end a connection. -/
def staysConnected : DeploymentEvent π → Bool
  | .broker (.disconnect _ _ _) => false
  | _ => true

/-- One assignment and its completion, with every frame read. -/
def bugFixed : List (DeploymentEvent WirePayload) :=
  [.manager (.delegate 0 fixBugTask), .manager (.call 0 .resumed), .connect 0 1, .attempt 0 "m-1",
    .read .orchestrator 0, .broker (.resume 0 .ok), .broker (.resume 0 .ok), .receive .orchestrator,
    .accept 0, .receive (.agent 0), .listen 0 "m-2",
    .finish 0 "m-3" (.complete fixBugResult) none, .read (.agent 0) 1, .broker (.resume 1 .ok),
    .receive (.agent 0)]

theorem answers_heard_iff_bugFixed : ∃ tr d,
    (deploymentMachine wireDeployment).Trace tr d ∧ tr.map Prod.snd = bugFixed ∧
      (d.AnswersHeard ↔ ∀ c a, d.agents.lookup c = some a → a.answers = []) := by
  obtain ⟨tr, d, h, hevents, -⟩ := Machine.Trace.of_check (M := deploymentMachine wireDeployment)
    bugFixed (p := fun _ _ => true) (by decide)
  exact ⟨tr, d, h, hevents, answers_heard_iff h⟩

/-- Nobody disconnects, no queue overflows and nothing is on its way, and the completion was not
heard. -/
theorem answer_unheard : ¬ ∀ tr d, (deploymentMachine wireDeployment).Trace tr d →
    (∀ p ∈ tr, staysConnected p.2 = true) → d.orchestrator.bus.listened.length ≤ listenQueueSize →
      d.Settled → d.AnswersHeard := by
  intro hall
  obtain ⟨tr, d, h, hevents, hd⟩ := Machine.Trace.of_check (M := deploymentMachine wireDeployment)
    bugFixed
    (p := fun tr d => tr.all (fun p => staysConnected p.2) &&
      decide (d.orchestrator.bus.listened.length ≤ listenQueueSize) && decide d.Settled &&
        (d.agents.lookup 0).any fun a => a.answers.any fun m => d.heard m == 0)
    (by decide)
  simp only [Bool.and_eq_true, List.all_eq_true, decide_eq_true_eq, Option.any_eq_true,
    List.any_eq_true, beq_iff_eq] at hd
  obtain ⟨⟨⟨hconnected, hlistened⟩, hsettled⟩, a, ha, m, hm, hzero⟩ := hd
  have hone := hall tr d h hconnected hlistened hsettled 0 a ha m hm
  omega

end Deployment

end NemoClaw
