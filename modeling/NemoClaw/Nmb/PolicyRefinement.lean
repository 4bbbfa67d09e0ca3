import NemoClaw.Nmb.Confinement

/-! The broker that enforces policies does nothing that the broker without them cannot do. A message
that it denies is to the other broker a frame that it cannot parse: both answer it with an error and
go on alike. -/

namespace NemoClaw

open Lib

namespace Broker

variable {π : Type} (E : BrokerEnv π) (pre : List (SentFrame π)) (b : Broker π)

/-- The broker, had it sent these frames before. -/
def after : Broker π := { b with sent := pre ++ b.sent }

section

variable (s : String) (ws : Ws) (msg : NMBMessage π)

@[simp] theorem connections_after : (b.after pre).connections = b.connections := rfl

@[simp] theorem wsToSandbox_after : (b.after pre).wsToSandbox = b.wsToSandbox := rfl

@[simp] theorem channels_after : (b.after pre).channels = b.channels := rfl

@[simp] theorem sandboxChannels_after : (b.after pre).sandboxChannels = b.sandboxChannels := rfl

@[simp] theorem pending_after : (b.after pre).pending = b.pending := rfl

@[simp] theorem pendingCounts_after : (b.after pre).pendingCounts = b.pendingCounts := rfl

@[simp] theorem handlers_after : (b.after pre).handlers = b.handlers := rfl

@[simp] theorem timers_after : (b.after pre).timers = b.timers := rfl

@[simp] theorem sent_after : (b.after pre).sent = pre ++ b.sent := rfl

@[simp] theorem subscriberSockets_after (c : String) (skip : Option String) :
    (b.after pre).subscriberSockets c skip = b.subscriberSockets c skip := rfl

@[simp] theorem send_after (f : NMBMessage π) (t : Option TaskId) :
    (b.after pre).send ws f t = (b.send ws f t).after pre := by
  simp [send, after]

@[simp] theorem auditOp_after (op : AuditOp π) :
    (b.after pre).auditOp op = (b.auditOp op).after pre := rfl

@[simp] theorem auditMsg_after (m : Option (NMBMessage π)) (status : DeliveryStatus) :
    (b.after pre).auditMsg m status = (b.auditMsg m status).after pre := by
  cases m <;> rfl

@[simp] theorem await_after (phase : Phase π) :
    (b.after pre).await s ws phase = (b.await s ws phase).after pre := rfl

@[simp] theorem sendAck_after (id : String) (m : Option (NMBMessage π)) :
    (b.after pre).sendAck s ws id m = (b.sendAck s ws id m).after pre := by
  simp [sendAck]

@[simp] theorem sendError_after (id : String) (code : ErrorCode) (text : String)
    (m : Option (NMBMessage π)) (t : Option TaskId) :
    (b.after pre).sendError s ws id code text m t =
      (b.sendError s ws id code text m t).after pre := by
  simp [sendError]

@[simp] theorem popPending_after (id : String) :
    (b.after pre).popPending id = (b.popPending id).after pre := rfl

@[simp] theorem cancelTimer_after (t : TaskId) :
    (b.after pre).cancelTimer t = (b.cancelTimer t).after pre := rfl

@[simp] theorem freeSlot_after : (b.after pre).freeSlot s = (b.freeSlot s).after pre := rfl

@[simp] theorem track_after (id : String) (timeout : ℚ) (count : ℕ) :
    (b.after pre).track s id timeout count = (b.track s id timeout count).after pre := rfl

/-! ### What it does next is the same -/

theorem forwardTo_after (phase : Phase π) :
    (b.after pre).forwardTo s ws msg phase = (b.forwardTo s ws msg phase).after pre := by
  unfold forwardTo
  cases truthy msg.toSandbox with
  | none => simp
  | some target => cases hlookup : b.connections.lookup target <;> simp [hlookup]

@[simp] theorem handleSend_after :
    (b.after pre).handleSend s ws msg = (b.handleSend s ws msg).after pre :=
  forwardTo_after ..

@[simp] theorem handleStream_after :
    (b.after pre).handleStream s ws msg = (b.handleStream s ws msg).after pre :=
  forwardTo_after ..

@[simp] theorem handleRequest_after :
    (b.after pre).handleRequest E s ws msg = (b.handleRequest E s ws msg).after pre := by
  unfold handleRequest
  cases truthy msg.toSandbox with
  | none => simp
  | some target =>
    by_cases hcount : E.config.maxPendingPerSandbox ≤ (b.pendingCounts.lookup s).getD 0
    · simp [hcount]
    · cases hlookup : b.connections.lookup target with
      | none => simp [hcount, hlookup]
      | some targetWs =>
        simp [hcount, hlookup]
        rfl

@[simp] theorem handleReply_after :
    (b.after pre).handleReply s ws msg = (b.handleReply s ws msg).after pre := by
  unfold handleReply
  cases truthy msg.replyTo with
  | none => simp
  | some requestId =>
    cases hpending : b.pending.lookup requestId with
    | none => simp [hpending]
    | some tracked =>
      have hconnections : (((b.popPending requestId).cancelTimer tracked.timeoutTask).freeSlot
          tracked.owner).connections = b.connections := rfl
      cases hlookup : b.connections.lookup tracked.owner <;>
        simp [hpending, hconnections, hlookup]

@[simp] theorem handleSubscribe_after :
    (b.after pre).handleSubscribe E s ws msg = (b.handleSubscribe E s ws msg).after pre := by
  unfold handleSubscribe
  cases truthy msg.channel with
  | none => simp
  | some c =>
    by_cases hcount : E.config.maxChannelsPerSandbox ≤
        (((Dict.setDefault b.sandboxChannels s []).lookup s).getD []).length
    · refine (if_pos hcount).trans (Eq.trans ?_ (congrArg (after pre) (if_pos hcount).symm))
      exact sendError_after pre { b with sandboxChannels := _ } s ws _ _ _ _ _
    · refine (if_neg hcount).trans (Eq.trans ?_ (congrArg (after pre) (if_neg hcount).symm))
      exact sendAck_after pre { b with channels := _, sandboxChannels := _ } s ws _ _

@[simp] theorem handleUnsubscribe_after :
    (b.after pre).handleUnsubscribe s ws msg = (b.handleUnsubscribe s ws msg).after pre := by
  unfold handleUnsubscribe
  cases truthy msg.channel with
  | none => simp
  | some c => exact sendAck_after pre { b with channels := _, sandboxChannels := _ } s ws _ _

@[simp] theorem handlePublish_after :
    (b.after pre).handlePublish s ws msg = (b.handlePublish s ws msg).after pre := by
  unfold handlePublish
  cases truthy msg.channel with
  | none => simp
  | some c => cases hsockets : b.subscriberSockets c (some s) <;> simp [hsockets]

theorem dispatch_after (raw : Except String (NMBMessage π)) (now : ℚ) :
    (b.after pre).dispatch E s ws raw now = (b.dispatch E s ws raw now).after pre := by
  unfold dispatch
  cases raw with
  | error why => simp
  | ok m =>
    cases hv : (stamp m s now).validateFrame E.payloadBytes with
    | error exc => simp [hv]
    | ok =>
      simp only [hv]
      cases hop : (stamp m s now).op <;> simp

theorem resume_after (result : SendResult) (phase : Phase π) :
    (b.after pre).resume s ws result phase = (b.resume s ws result phase).map (after pre) := by
  cases phase with
  | recv | closed => rfl
  | publishFanout msg left | shutdownFanout msg left => cases left <;> simp [resume]
  | sendDeliver msg | replyDeliver msg | streamDeliver msg => cases result <;> simp [resume]
  | requestDeliver msg task => cases result <;> simp [resume, rollbackRequest]
  | ack m | error m | logDisconnection => simp [resume]

theorem safeSend_after (target : Ws) (phase : Phase π) :
    (b.after pre).safeSend s ws target phase = (b.safeSend s ws target phase).map (after pre) := by
  cases phase with
  | publishFanout msg left | shutdownFanout msg left =>
    by_cases hmem : target ∈ left <;> simp [safeSend, hmem]
  | _ => rfl

theorem register_after : (b.after pre).register s ws = (b.register s ws).after pre := by
  unfold register
  by_cases htaken : (b.connections.lookup s).isSome = true
  · rw [connections_after, if_pos htaken, if_pos htaken]
    rfl
  · rw [connections_after, if_neg htaken, if_neg htaken]
    rfl

theorem cancelTimers_after (expired : List TrackedPending) :
    expired.foldl (fun b t => b.cancelTimer t.timeoutTask) (b.after pre) =
      (expired.foldl (fun b t => b.cancelTimer t.timeoutTask) b).after pre := by
  induction expired generalizing b with
  | nil => rfl
  | cons t expired ih => exact ih (b.cancelTimer t.timeoutTask)

/-- The end of `_unregister`. -/
theorem broadcast_after (frame : NMBMessage π) :
    (match (b.after pre).subscriberSockets "system" none with
      | [] => ((b.after pre).auditOp (.disconnection s "disconnected")).await s ws .logDisconnection
      | left => (b.after pre).await s ws (.shutdownFanout frame left)) =
    (match b.subscriberSockets "system" none with
      | [] => (b.auditOp (.disconnection s "disconnected")).await s ws .logDisconnection
      | left => b.await s ws (.shutdownFanout frame left)).after pre := by
  rw [subscriberSockets_after]
  cases b.subscriberSockets "system" none <;> rfl

theorem unregister_after (msgId : String) (now : ℚ) :
    (b.after pre).unregister E s ws msgId now = (b.unregister E s ws msgId now).after pre := by
  unfold unregister
  by_cases hgone : b.connections.lookup s ≠ some ws
  · rw [if_pos hgone, connections_after, if_pos hgone]
    rfl
  · rw [if_neg hgone, connections_after, if_neg hgone]
    dsimp only
    rw [pending_after, cancelTimers_after]
    generalize List.foldl _ b _ = c
    exact broadcast_after pre { c with
      connections := _, wsToSandbox := _, channels := _
      sandboxChannels := _, pending := _, pendingCounts := _ } s ws _

theorem timeoutRequest_after (task : TaskId) (t : TimeoutTask) :
    (b.after pre).timeoutRequest E task t = (b.timeoutRequest E task t).after pre := by
  unfold timeoutRequest
  cases hpending : b.pending.lookup t.requestId with
  | none => simp [hpending]
  | some tracked =>
    have hconnections : ((b.popPending t.requestId).freeSlot t.requesterId).connections =
        b.connections := rfl
    cases hlookup : b.connections.lookup t.requesterId with
    | none => simp [hpending, hconnections, hlookup]
    | some ws =>
      simp only [pending_after, hpending, popPending_after, freeSlot_after, connections_after,
        hconnections, hlookup]
      exact send_after pre { (b.popPending t.requestId).freeSlot t.requesterId with
        timers := b.timers.insert task { t with sending := true } } ws _ _

end

/-- What was sent before does not matter to the broker. -/
theorem step_after (e : BrokerEvent π) :
    (b.after pre).step E e = (b.step E e).map (after pre) := by
  cases e with
  | connect ws s =>
    simp only [step, handlers_after, register_after]
    split <;> rfl
  | frame ws raw now =>
    simp only [step, handlers_after, dispatch_after]
    split <;> rfl
  | resume ws result =>
    simp only [step, handlers_after, resume_after]
    cases b.handlers.lookup ws <;> rfl
  | safeSend ws target =>
    simp only [step, handlers_after, safeSend_after]
    cases b.handlers.lookup ws <;> rfl
  | disconnect ws msgId now =>
    simp only [step, handlers_after, unregister_after]
    split <;> rfl
  | timer task =>
    simp only [step, timers_after, timeoutRequest_after]
    split
    · split <;> rfl
    · rfl
  | timerSent task =>
    simp only [step, timers_after, cancelTimer_after, auditOp_after]
    split
    · split <;> rfl
    · rfl

/-- The frames agree, or both of them refuse: one of them a message that the policies deny, the
other a frame that does not parse. -/
inductive Mirrored : SentFrame π → SentFrame π → Prop
  | same (f : SentFrame π) : Mirrored f f
  | denied (ws : Ws) (id why : String) :
      Mirrored ⟨ws, errorFrame id .policyDenied why, none⟩
        ⟨ws, errorFrame "" .invalidFrame why, none⟩

/-- The brokers agree in everything but the texts of such refusals. -/
structure Mirrors (b b' : Broker π) : Prop where
  state : { b with sent := [] } = { b' with sent := [] }
  sent : List.Forall₂ Mirrored b.sent b'.sent

variable {E} {b} {b' c : Broker π}

theorem mirrors_refl : Mirrors b b :=
  ⟨rfl, List.forall₂_same.2 fun f _ => .same f⟩

theorem eq_after (b : Broker π) : b = after b.sent { b with sent := [] } := by
  simp [after]

theorem Mirrors.handlers (h : Mirrors b b') : b'.handlers = b.handlers :=
  (congrArg Broker.handlers h.state).symm

/-- The same event takes mirrored brokers to mirrored ones. -/
theorem Mirrors.step (h : Mirrors b b') {e : BrokerEvent π} (hs : b.step E e = some c) :
    ∃ c', b'.step E e = some c' ∧ Mirrors c c' := by
  rw [eq_after b, step_after] at hs
  obtain ⟨d, hd, rfl⟩ := Option.map_eq_some_iff.1 hs
  refine ⟨d.after b'.sent, ?_, rfl, ?_⟩
  · have hstep := step_after E b'.sent { b' with sent := [] } e
    rw [← eq_after, ← h.state, hd] at hstep
    exact hstep
  · exact List.rel_append h.sent (List.forall₂_same.2 fun f _ => .same f)

/-- A denial on the one side, a frame that does not parse on the other. -/
theorem Mirrors.deny (h : Mirrors b b') (s : String) (ws : Ws) (id why : String) :
    Mirrors (b.sendError s ws id .policyDenied why none)
      (b'.sendError s ws "" .invalidFrame why none) := by
  refine ⟨?_, List.rel_append h.sent (.cons (.denied ws id why) .nil)⟩
  have hstate := h.state
  simp only [mk.injEq] at hstate ⊢
  simp only [sendError, send, await]
  simp [hstate]

end Broker

namespace PolicedBroker

open Broker

variable {ι π : Type} (E : BrokerEnv π) (p : PolicedBroker ι π)

/-- What a broker without policies would have to hear to do the same. -/
def heard : PolicedEvent ι π → List (BrokerEvent π)
  | .addPolicy _ | .rekeyPolicy _ _ | .handshake _ _ => []
  | .broker (.frame ws (.ok m) now) =>
    match p.routing.handlers.lookup ws with
    | none => [.frame ws (.ok m) now]
    | some h =>
      match (stamp m h.sandboxId now).validateFrame E.payloadBytes,
        enforcePolicy p.policyOf h.sandboxId (stamp m h.sandboxId now) with
      | .ok (), some why => [.frame ws (.error why) now]
      | _, _ => [.frame ws (.ok m) now]
  | .broker e => [e]

variable {E} {p} {s : String} {ws : Ws} {m : NMBMessage π} {now : ℚ}

theorem heard_of_denied {why : String} (hh : p.routing.handlers.lookup ws = some ⟨s, .recv⟩)
    (hv : (stamp m s now).validateFrame E.payloadBytes = .ok ())
    (hd : enforcePolicy p.policyOf s (stamp m s now) = some why) :
    p.heard E (.broker (.frame ws (.ok m) now)) = [.frame ws (.error why) now] := by
  simp only [heard, hh, hv, hd]

/-- Another frame is dispatched as the broker dispatches it. -/
theorem heard_of_not_denied (hh : p.routing.handlers.lookup ws = some ⟨s, .recv⟩)
    (h : (stamp m s now).validateFrame E.payloadBytes = .ok () →
      enforcePolicy p.policyOf s (stamp m s now) = none) :
    p.heard E (.broker (.frame ws (.ok m) now)) = [.frame ws (.ok m) now] ∧
      p.dispatch E s ws (.ok m) now = p.routing.dispatch E s ws (.ok m) now := by
  cases hv : (stamp m s now).validateFrame E.payloadBytes with
  | error exc =>
    refine ⟨?_, (dispatch_of_invalid hv).1⟩
    simp only [heard, hh, hv]
  | ok =>
    refine ⟨?_, dispatch_of_permits (enforcePolicy_eq_none.1 (h hv))⟩
    simp only [heard, hh, hv, h hv]

/-- A frame, denied or not, is dispatched to the same effect. -/
theorem mirrors_frame {b : Broker π} (hb : Mirrors p.routing b)
    (hh : p.routing.handlers.lookup ws = some ⟨s, .recv⟩) (raw : Except String (NMBMessage π)) :
    ∃ d c, p.heard E (.broker (.frame ws raw now)) = [d] ∧ b.step E d = some c ∧
      Mirrors (p.dispatch E s ws raw now) c := by
  have hstep : ∀ raw, p.routing.step E (.frame ws raw now) =
      some (p.routing.dispatch E s ws raw now) := by
    intro raw
    simp only [Broker.step, hh]
  cases raw with
  | error why =>
    obtain ⟨c, hc, hmirrors⟩ := hb.step (hstep (.error why))
    exact ⟨_, c, rfl, hc, hmirrors⟩
  | ok m =>
    by_cases hdenied : (stamp m s now).validateFrame E.payloadBytes = .ok () ∧
        enforcePolicy p.policyOf s (stamp m s now) ≠ none
    · obtain ⟨hv, hd⟩ := hdenied
      obtain ⟨why, hd⟩ := Option.ne_none_iff_exists'.1 hd
      refine ⟨_, b.sendError s ws "" .invalidFrame why none, heard_of_denied hh hv hd, ?_, ?_⟩
      · simp only [Broker.step, hb.handlers, hh]
        rfl
      · rw [dispatch_of_denied hv hd]
        exact hb.deny s ws m.id why
    · obtain ⟨hheard, hdispatch⟩ := heard_of_not_denied hh fun hv =>
        not_not.1 fun hd => hdenied ⟨hv, hd⟩
      obtain ⟨c, hc, hmirrors⟩ := hb.step (hstep (.ok m))
      exact ⟨_, c, hheard, hc, hdispatch ▸ hmirrors⟩

variable [DecidableEq ι] {objects : ι → SandboxPolicy} {policies : List ι}

theorem mirrors_step {p' : PolicedBroker ι π} {b : Broker π} {e : BrokerEvent π}
    (hb : Mirrors p.routing b) (hs : p.step E (.broker e) = some p') :
    ∃ d c, p.heard E (.broker e) = [d] ∧ b.step E d = some c ∧ Mirrors p'.routing c := by
  cases e with
  | frame ws raw now =>
    simp only [step] at hs
    split at hs
    · next s hh =>
      obtain rfl := Option.some.inj hs
      exact mirrors_frame hb hh raw
    · contradiction
  | connect ws s =>
    simp only [step, Option.ite_none_right_eq_some] at hs
    obtain ⟨c, hc, rfl⟩ := Option.map_eq_some_iff.1 hs.2
    obtain ⟨c', hc', hmirrors⟩ := hb.step hc
    exact ⟨_, c', rfl, hc', hmirrors⟩
  | resume | safeSend | disconnect | timer | timerSent =>
    obtain ⟨c, hc, rfl⟩ := Option.map_eq_some_iff.1 hs
    obtain ⟨c', hc', hmirrors⟩ := hb.step hc
    exact ⟨_, c', rfl, hc', hmirrors⟩

theorem mirrors_simulation :
    Machine.Simulation (policedMachine E objects policies) (brokerMachine E)
      (fun p b => Mirrors p.routing b) (heard E) where
  init := mirrors_refl
  step p e p' b hb hs := by
    cases e with
    | addPolicy i | rekeyPolicy old new =>
      obtain rfl := Option.some.inj hs
      exact ⟨[], b, rfl, hb⟩
    | handshake ws s =>
      obtain rfl := Option.some.inj (Option.ite_none_left_eq_some.1 hs).2
      exact ⟨[], b, rfl, hb⟩
    | broker e =>
      obtain ⟨d, c, hheard, hd, hmirrors⟩ := mirrors_step hb hs
      exact ⟨[(b, d)], c, by rw [hheard]; exact Machine.exec_one hd, hmirrors⟩

/-! ### As long as no policy is registered -/

/-- Every handshake is accepted, and precedes the handler. -/
def announced : BrokerEvent π → List (PolicedEvent ι π)
  | .connect ws s => [.handshake ws s, .broker (.connect ws s)]
  | e => [.broker e]

/-- The broker with no policy registered, and no handshake of which no handler came. -/
structure Unpoliced (b : Broker π) (p : PolicedBroker ι π) : Prop where
  policies : ∀ s, p.policyOf s = none
  routing : p.routing = b
  identities : ∀ ws, p.identities.lookup ws ≠ none → b.handlers.lookup ws ≠ none

omit [DecidableEq ι] in
theorem Unpoliced.permits {b : Broker π} (h : Unpoliced b p) (s : String) (msg : NMBMessage π) :
    Permits p.policyOf s msg := by
  refine ⟨?_, ?_, ?_, ?_⟩ <;> simp [h.policies]

omit [DecidableEq ι] in
theorem Unpoliced.dispatch {b : Broker π} (h : Unpoliced b p)
    (raw : Except String (NMBMessage π)) :
    p.dispatch E s ws raw now = b.dispatch E s ws raw now := by
  rw [← h.routing]
  cases raw with
  | error why => exact dispatch_error why
  | ok m => exact dispatch_of_permits (h.permits s _)

omit [DecidableEq ι] in
theorem Unpoliced.next {b c : Broker π} (h : Unpoliced b p) {e : BrokerEvent π}
    (hs : b.step E e = some c) : Unpoliced c { p with routing := c } :=
  ⟨h.policies, rfl, fun ws hws => handlers_step hs (h.identities ws hws)⟩

/-- A step of the broker other than the start of a handler. -/
theorem Unpoliced.step {b c : Broker π} (h : Unpoliced b p) {e : BrokerEvent π}
    (he : ∀ ws s, e ≠ .connect ws s) (hs : b.step E e = some c) :
    p.step E (.broker e) = some { p with routing := c } := by
  have hrouting := h.routing
  subst hrouting
  cases e with
  | connect ws s => exact absurd rfl (he ws s)
  | frame ws raw now =>
    simp only [Broker.step] at hs
    split at hs
    · next s hh =>
      obtain rfl := Option.some.inj hs
      simp only [PolicedBroker.step, hh, h.dispatch]
    · contradiction
  | resume | safeSend | disconnect | timer | timerSent => exact congrArg (Option.map _) hs

/-- The start of a handler, after a handshake that no policy forbids. -/
theorem Unpoliced.connect {b c : Broker π} (h : Unpoliced b p)
    (hs : b.step E (.connect ws s) = some c) :
    ∃ steps p', (policedMachine E objects policies).exec p (announced (.connect ws s)) =
      some (steps, p') ∧ Unpoliced c p' := by
  have hrouting := h.routing
  subst hrouting
  have hname : s ≠ "" := by
    rintro rfl
    simp [Broker.step] at hs
  obtain ⟨hnew, rfl⟩ := connect_step hs
  have hidentity : p.identities.lookup ws = none :=
    not_not.1 fun hne => h.identities ws hne hnew
  have hhandshake : p.step E (.handshake ws s) =
      some { p with identities := p.identities.insert ws s } := by
    simp [PolicedBroker.step, hname, hidentity, refuses, h.policies]
  let p' : PolicedBroker ι π :=
    { p with identities := p.identities.insert ws s, routing := p.routing.register s ws }
  have hconnect : PolicedBroker.step E { p with identities := p.identities.insert ws s }
      (.broker (.connect ws s)) = some p' := by
    simp [PolicedBroker.step, hs, p']
  refine ⟨_, p', Machine.exec_two hhandshake hconnect, h.policies, rfl, ?_⟩
  intro ws' hws'
  rw [handlers_register]
  by_cases heq : ws' = ws
  · rw [heq, AList.lookup_insert]
    exact Option.some_ne_none _
  · have hold : (p.identities.insert ws s).lookup ws' ≠ none := hws'
    rw [AList.lookup_insert_ne heq] at hold ⊢
    exact h.identities ws' hold

theorem unpoliced_simulation :
    Machine.Simulation (brokerMachine E) (policedMachine E objects []) Unpoliced
      (fun _ e => announced e) where
  init := ⟨fun _ => rfl, rfl, fun ws h => absurd rfl h⟩
  step b e c p hp hs := by
    have hs : b.step E e = some c := hs
    cases e with
    | connect ws s => exact hp.connect hs
    | frame | resume | safeSend | disconnect | timer | timerSent =>
      refine ⟨_, _, Machine.exec_one (hp.step ?_ hs), hp.next hs⟩
      intro ws s he
      contradiction

/-- Every run of the broker with policies is, denials apart, a run of the broker without them, and
as long as no policy is registered every run of that broker is one of it. -/
theorem refines_broker :
    (∀ tr p, (policedMachine E objects policies).Trace tr p →
      ∃ tr' b, (brokerMachine E).Trace tr' b ∧ Mirrors p.routing b ∧
        tr'.map Prod.snd = Machine.image (heard E) tr) ∧
    ∀ tr b, (brokerMachine E).Trace tr b →
      ∃ tr' p, (policedMachine E objects []).Trace tr' p ∧ p.routing = b ∧
        tr'.map Prod.snd = Machine.image (fun _ e => announced e) tr := by
  constructor
  · intro tr p h
    exact mirrors_simulation.run h
  · intro tr b h
    have hsimulation : Machine.Simulation _ (policedMachine E objects []) _ _ :=
      unpoliced_simulation
    obtain ⟨tr', p, htr, hp, hevents⟩ := hsimulation.run h
    exact ⟨tr', p, htr, hp.routing, hevents⟩

theorem refines_broker_pair :
    ∃ tr p, (policedMachine jsonText pairPolicy [false, true]).Trace tr p ∧
      tr.map Prod.snd = pairTraffic ∧ ∃ tr' b, (brokerMachine jsonText).Trace tr' b ∧
        Mirrors p.routing b ∧ tr'.map Prod.snd = Machine.image (heard jsonText) tr := by
  obtain ⟨tr, p, h, hevents, -⟩ :=
    Machine.Trace.of_check (M := policedMachine jsonText pairPolicy [false, true]) pairTraffic
      (p := fun _ _ => true) (by decide +kernel)
  exact ⟨tr, p, h, hevents, refines_broker.1 tr p h⟩

end PolicedBroker

end NemoClaw
