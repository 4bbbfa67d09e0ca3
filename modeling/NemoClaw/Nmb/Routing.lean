import NemoClaw.Nmb.Books

/-! What one step of the broker can do to its connections: which handler moves, from which phase
to which, and what it sends where. `route_step` says it once for all steps. -/

namespace NemoClaw

open Lib

/-- The connection whose handler acts at an event; a timeout task acts for none. -/
def BrokerEvent.socket {π : Type} : BrokerEvent π → Option Ws
  | .connect ws _ | .frame ws _ _ | .resume ws _ | .safeSend ws _ | .disconnect ws _ _ => some ws
  | .timer _ | .timerSent _ => none

/-- The handler is still in its receive loop or in one of its op handlers. -/
def Phase.serving {π : Type} : Phase π → Bool
  | .shutdownFanout _ _ | .logDisconnection | .closed => false
  | _ => true

namespace Broker

variable {π : Type}

/-- The handler of `ws`, serving `s`, sent `new` and is now in `phase`; the registry of
connections is as before. -/
structure Served (b b' : Broker π) (ws : Ws) (s : String) (phase : Phase π)
    (new : List (SentFrame π)) : Prop where
  connections : b'.connections = b.connections
  wsToSandbox : b'.wsToSandbox = b.wsToSandbox
  rejecting : b'.rejecting = b.rejecting
  handlers : b'.handlers = b.handlers.insert ws ⟨s, phase⟩
  sent : b'.sent = b.sent ++ new

theorem Served.lookup {b b' : Broker π} {ws : Ws} {s : String} {phase : Phase π}
    {new : List (SentFrame π)} (hs : Served b b' ws s phase new) :
    b'.handlers.lookup ws = some ⟨s, phase⟩ := by
  rw [hs.handlers]
  exact AList.lookup_insert _

/-- Why the handler of `ws` answers with an ERROR, with the id that this has: the frame that it read
is malformed or refused, or the connection that it was forwarding to is closed. -/
inductive Fails (E : BrokerEnv π) (b : Broker π) (ws : Ws) (s : String) :
    BrokerEvent π → Phase π → String → Prop
  | malformed {why now} : Fails E b ws s (.frame ws (.error why) now) .recv ""
  | refused {m now} (hr : b.Refused E s m now) : Fails E b ws s (.frame ws (.ok m) now) .recv m.id
  | lost {m old} (ho : old = .sendDeliver m ∨ old = .streamDeliver m) :
      Fails E b ws s (.resume ws .connectionClosed) old m.id
  | rolledBack {m task} :
      Fails E b ws s (.resume ws .connectionClosed) (.requestDeliver m task) m.id

/-- What the handler of `ws` does on an event: the phase it leaves, the phase it enters and the
frames it sends. -/
inductive HandlerStep (E : BrokerEnv π) (b : Broker π) (ws : Ws) (s : String) :
    BrokerEvent π → Phase π → Phase π → List (SentFrame π) → Prop
  | acked {e old f a} (ho : old.serving = true) (hf : f.op = .ack) :
      HandlerStep E b ws s e old (.ack a) [⟨ws, f, none⟩]
  | refused {e old f a k} (ho : old.serving = true) (hf : f.op = .error)
      (hwhy : Fails E b ws s e old f.id) : HandlerStep E b ws s e old (.error a) [⟨ws, f, k⟩]
  | forward {m now target targetWs phase} (hop : m.op = .send ∨ m.op = .request ∨ m.op = .stream)
      (ht : truthy m.toSandbox = some target) (hc : b.connections.lookup target = some targetWs)
      (hphase : phase = .sendDeliver (stamp m s now) ∨ phase = .streamDeliver (stamp m s now) ∨
        b.Admits E s m now ∧ phase = .requestDeliver (stamp m s now) b.nextTask)
      (hr : ¬ b.Refused E s m now) :
      HandlerStep E b ws s (.frame ws (.ok m) now) .recv phase
        [⟨targetWs, (stamp m s now).makeDeliver, none⟩]
  | reply {m now rid tracked targetWs} (hop : m.op = .reply) (hrid : m.replyTo = some rid)
      (hp : b.pending.lookup rid = some tracked)
      (hc : b.connections.lookup tracked.owner = some targetWs) (hr : ¬ b.Refused E s m now) :
      HandlerStep E b ws s (.frame ws (.ok m) now) .recv (.replyDeliver (stamp m s now))
        [⟨targetWs, (stamp m s now).makeDeliver, some tracked.timeoutTask⟩]
  | publish {m now c} (hop : m.op = .publish) (hc : truthy m.channel = some c)
      (hr : ¬ b.Refused E s m now) :
      HandlerStep E b ws s (.frame ws (.ok m) now) .recv
        (.publishFanout (stamp m s now) (b.subscriberSockets c (some s))) []
  | fanout {target m left} (ht : target ∈ left) :
      HandlerStep E b ws s (.safeSend ws target) (.publishFanout m left)
        (.publishFanout m (left.erase target)) [⟨target, m.makeDeliver, none⟩]
  | notice {target f left} (ht : target ∈ left) :
      HandlerStep E b ws s (.safeSend ws target) (.shutdownFanout f left)
        (.shutdownFanout f (left.erase target)) [⟨target, f, none⟩]
  | quiet {e old phase} (hphase : phase = .recv ∧ old.serving = true ∨
      phase = .logDisconnection ∨ phase = .closed) :
      HandlerStep E b ws s e old phase []

/-- The effect of a step on connections, handlers and sent frames. -/
inductive RouteStep (E : BrokerEnv π) (b : Broker π) : BrokerEvent π → Broker π → Prop
  | connected {ws s} (hs : s ≠ "") (hw : b.handlers.lookup ws = none) :
      RouteStep E b (.connect ws s) (b.register s ws)
  | disconnected {ws s msgId now} (hh : b.handlers.lookup ws = some ⟨s, .recv⟩) :
      RouteStep E b (.disconnect ws msgId now) (b.unregister E s ws msgId now)
  | served {e ws s old phase new b'} (he : e.socket = some ws)
      (hh : b.handlers.lookup ws = some ⟨s, old⟩) (hs : Served b b' ws s phase new)
      (ho : HandlerStep E b ws s e old phase new) : RouteStep E b e b'
  | fired {e b' new} (he : e.socket = none) (hc : b'.connections = b.connections)
      (hw : b'.wsToSandbox = b.wsToSandbox) (hr : b'.rejecting = b.rejecting)
      (hh : b'.handlers = b.handlers) (hs : b'.sent = b.sent ++ new)
      (hf : ∀ f ∈ new, f.frame.op = .timeout) : RouteStep E b e b'

/-- A handler that has left its receive loop does not come back to it. -/
theorem HandlerStep.serving {E : BrokerEnv π} {b : Broker π} {ws : Ws} {s : String}
    {e : BrokerEvent π} {old phase : Phase π} {new : List (SentFrame π)}
    (h : HandlerStep E b ws s e old phase new) (hp : phase.serving = true) :
    old.serving = true := by
  cases h with
  | acked ho | refused ho => exact ho
  | forward | reply | publish | fanout => rfl
  | notice => contradiction
  | quiet hphase =>
    rcases hphase with ⟨-, ho⟩ | rfl | rfl
    · exact ho
    · contradiction
    · contradiction

/-! ### The handlers -/

section

variable {E : BrokerEnv π} {b : Broker π} {s : String} {ws : Ws}

theorem served_await (b : Broker π) (s : String) (ws : Ws) (phase : Phase π) :
    Served b (b.await s ws phase) ws s phase [] :=
  ⟨rfl, rfl, rfl, rfl, (List.append_nil _).symm⟩

theorem served_send (b : Broker π) (s : String) (ws target : Ws) (f : NMBMessage π)
    (k : Option TaskId) (phase : Phase π) :
    Served b ((b.send target f k).await s ws phase) ws s phase [⟨target, f, k⟩] :=
  ⟨rfl, rfl, rfl, rfl, rfl⟩

/-- The brokers agree on connections, handlers and sent frames. -/
structure SameRoutes (b₀ b : Broker π) : Prop where
  connections : b₀.connections = b.connections
  wsToSandbox : b₀.wsToSandbox = b.wsToSandbox
  rejecting : b₀.rejecting = b.rejecting
  handlers : b₀.handlers = b.handlers
  sent : b₀.sent = b.sent

theorem Served.congr {b₀ b' : Broker π} {phase : Phase π} {new : List (SentFrame π)}
    (h : Served b₀ b' ws s phase new) (hb : SameRoutes b₀ b) : Served b b' ws s phase new :=
  ⟨h.connections.trans hb.connections, h.wsToSandbox.trans hb.wsToSandbox,
    h.rejecting.trans hb.rejecting, by rw [h.handlers, hb.handlers], by rw [h.sent, hb.sent]⟩

theorem served_auditMsg (b : Broker π) (m : Option (NMBMessage π)) (st : DeliveryStatus)
    (s : String) (ws : Ws) (phase : Phase π) :
    Served b ((b.auditMsg m st).await s ws phase) ws s phase [] := by
  cases m <;> exact ⟨rfl, rfl, rfl, rfl, (List.append_nil _).symm⟩

/-- `b'` follows from `b` by what the handler of `ws` does on `e`. -/
def Serves (E : BrokerEnv π) (b b' : Broker π) (ws : Ws) (s : String) (e : BrokerEvent π)
    (old : Phase π) : Prop :=
  ∃ phase new, Served b b' ws s phase new ∧ HandlerStep E b ws s e old phase new

theorem serves_sendAck {b₀ : Broker π} (h : SameRoutes b₀ b) {old : Phase π}
    (ho : old.serving = true) (e : BrokerEvent π) (i : String) (a : Option (NMBMessage π)) :
    Serves E b (b₀.sendAck s ws i a) ws s e old :=
  ⟨_, _, (served_send b₀ s ws ws _ none _).congr h, .acked ho rfl⟩

theorem serves_sendError {b₀ : Broker π} (h : SameRoutes b₀ b) {e : BrokerEvent π} {old : Phase π}
    (ho : old.serving = true) {i : String} (hwhy : Fails E b ws s e old i) (c : ErrorCode)
    (t : String) (a : Option (NMBMessage π)) (k : Option TaskId) :
    Serves E b (b₀.sendError s ws i c t a k) ws s e old :=
  ⟨_, _, (served_send b₀ s ws ws _ k _).congr h, .refused ho rfl hwhy⟩

theorem serves_quiet {phase : Phase π} (e : BrokerEvent π) (old : Phase π)
    (m : Option (NMBMessage π)) (st : DeliveryStatus)
    (hphase : phase = .recv ∧ old.serving = true ∨ phase = .logDisconnection ∨ phase = .closed) :
    Serves E b ((b.auditMsg m st).await s ws phase) ws s e old :=
  ⟨_, _, served_auditMsg b m st s ws phase, .quiet hphase⟩

theorem serves_dispatched {raw : Except String (NMBMessage π)} {now : ℚ} {b' : Broker π}
    (hd : Dispatched E b s ws raw now b') : Serves E b b' ws s (.frame ws raw now) .recv := by
  cases hd with
  | malformed => exact serves_sendError ⟨rfl, rfl, rfl, rfl, rfl⟩ rfl .malformed _ _ _ _
  | refused hr | offline hr | full hr =>
    refine serves_sendError ?_ rfl (.refused hr) _ _ _ _
    exact ⟨rfl, rfl, rfl, rfl, rfl⟩
  | forwarded hr hop ht hc =>
    refine ⟨_, _, served_send _ _ _ _ _ _ _, .forward ?_ ht hc ?_ hr⟩
    · exact hop.imp And.left fun h => Or.inr h.1
    · exact hop.imp And.right fun h => Or.inl h.2
  | admitted hr hm ht hc =>
    exact ⟨_, _, (served_send _ _ _ _ _ _ _).congr ⟨rfl, rfl, rfl, rfl, rfl⟩,
      .forward (Or.inr (Or.inl hm.op)) ht hc (Or.inr (Or.inr ⟨hm, rfl⟩)) hr⟩
  | replied hr hop hrid hp hc =>
    exact ⟨_, _, (served_send _ _ _ _ _ _ _).congr ⟨rfl, rfl, rfl, rfl, rfl⟩,
      .reply hop (truthy_eq_some.1 hrid).1 hp hc hr⟩
  | unheard =>
    exact ⟨_, _, (served_auditMsg _ _ _ _ _ _).congr ⟨rfl, rfl, rfl, rfl, rfl⟩,
      .quiet (Or.inl ⟨rfl, rfl⟩)⟩
  | subscribed | unsubscribed | unread =>
    refine serves_sendAck ?_ rfl _ _ _
    exact ⟨rfl, rfl, rfl, rfl, rfl⟩
  | published hr hop hc => exact ⟨_, _, served_await _ _ _ _, .publish hop hc hr⟩

theorem serves_rollbackRequest (m : NMBMessage π) (task : TaskId) :
    Serves E b (b.rollbackRequest s ws m task) ws s (.resume ws .connectionClosed)
      (.requestDeliver m task) := by
  unfold rollbackRequest
  refine serves_sendError ?_ rfl .rolledBack _ _ _ _
  exact ⟨rfl, rfl, rfl, rfl, rfl⟩

theorem serves_resume {b' : Broker π} {r : SendResult} {old : Phase π}
    (h : b.resume s ws r old = some b') : Serves E b b' ws s (.resume ws r) old := by
  cases old with
  | sendDeliver m =>
    obtain rfl := Option.some.inj h
    cases r with
    | ok => exact serves_sendAck ⟨rfl, rfl, rfl, rfl, rfl⟩ rfl _ _ _
    | connectionClosed =>
      exact serves_sendError ⟨rfl, rfl, rfl, rfl, rfl⟩ rfl (.lost (Or.inl rfl)) _ _ _ _
  | requestDeliver m task =>
    obtain rfl := Option.some.inj h
    cases r with
    | ok => exact serves_sendAck ⟨rfl, rfl, rfl, rfl, rfl⟩ rfl _ _ _
    | connectionClosed => exact serves_rollbackRequest _ _
  | replyDeliver m =>
    obtain rfl := Option.some.inj h
    cases r <;> exact serves_quiet _ _ _ _ (Or.inl ⟨rfl, rfl⟩)
  | streamDeliver m =>
    obtain rfl := Option.some.inj h
    cases r with
    | ok => exact ⟨_, _, served_await _ _ _ _, .quiet (Or.inl ⟨rfl, rfl⟩)⟩
    | connectionClosed =>
      exact serves_sendError ⟨rfl, rfl, rfl, rfl, rfl⟩ rfl (.lost (Or.inr rfl)) _ _ _ _
  | publishFanout m left =>
    cases left with
    | nil =>
      obtain rfl := Option.some.inj h
      exact serves_sendAck ⟨rfl, rfl, rfl, rfl, rfl⟩ rfl _ _ _
    | cons => simp [resume] at h
  | shutdownFanout f left =>
    cases left with
    | nil =>
      obtain rfl := Option.some.inj h
      exact ⟨_, _, (served_await _ _ _ _).congr ⟨rfl, rfl, rfl, rfl, rfl⟩,
        .quiet (Or.inr (Or.inl rfl))⟩
    | cons => simp [resume] at h
  | ack a | error a =>
    obtain rfl := Option.some.inj h
    exact serves_quiet _ _ _ _ (Or.inl ⟨rfl, rfl⟩)
  | logDisconnection =>
    obtain rfl := Option.some.inj h
    exact ⟨_, _, served_await _ _ _ _, .quiet (Or.inr (Or.inr rfl))⟩
  | recv | closed => simp [resume] at h

theorem serves_safeSend {b' : Broker π} {target : Ws} {old : Phase π}
    (h : b.safeSend s ws target old = some b') :
    Serves E b b' ws s (.safeSend ws target) old := by
  cases old with
  | publishFanout m left =>
    simp only [safeSend, Option.ite_none_right_eq_some] at h
    obtain rfl := Option.some.inj h.2
    exact ⟨_, _, served_send _ _ _ _ _ _ _, .fanout h.1⟩
  | shutdownFanout f left =>
    simp only [safeSend, Option.ite_none_right_eq_some] at h
    obtain rfl := Option.some.inj h.2
    exact ⟨_, _, served_send _ _ _ _ _ _ _, .notice h.1⟩
  | _ => simp [safeSend] at h

theorem route_step_timeout (E : BrokerEnv π) (b : Broker π) (task : TaskId) (t : TimeoutTask) :
    RouteStep E b (.timer task) (b.timeoutRequest E task t) := by
  have hquiet : ∀ f ∈ ([] : List (SentFrame π)), f.frame.op = .timeout := by simp
  unfold timeoutRequest
  split
  · exact .fired rfl rfl rfl rfl rfl (List.append_nil _).symm hquiet
  · dsimp only
    split
    · exact .fired rfl rfl rfl rfl rfl (List.append_nil _).symm hquiet
    · refine .fired rfl rfl rfl rfl rfl rfl ?_
      intro f hf
      obtain rfl := List.mem_singleton.1 hf
      rfl

end

/-! ### Connections -/

section

variable {b : Broker π} {s : String} {ws : Ws}

theorem register_of_free (h : b.connections.lookup s = none) :
    (b.register s ws).connections = b.connections.insert s ws ∧
      (b.register s ws).wsToSandbox = b.wsToSandbox.insert ws s ∧
        (b.register s ws).rejecting = b.rejecting := by
  unfold register
  rw [h]
  exact ⟨rfl, rfl, rfl⟩

/-- A duplicate changes nothing but the list of connections to close. -/
theorem register_of_taken (h : (b.connections.lookup s).isSome = true) :
    b.register s ws = { b with rejecting := ws :: b.rejecting }.await s ws .recv := by
  simp [register, h]

theorem handlers_register : (b.register s ws).handlers = b.handlers.insert ws ⟨s, .recv⟩ := by
  unfold register
  split <;> rfl

theorem sent_register : (b.register s ws).sent = b.sent := by
  unfold register
  split <;> rfl

/-- The end of a connection that is not the registered one of its sandbox only drops it from
`_ws_to_sandbox`. -/
theorem unregister_of_stale (E : BrokerEnv π) (h : b.connections.lookup s ≠ some ws)
    (msgId : String) (now : ℚ) :
    b.unregister E s ws msgId now =
      { b with wsToSandbox := b.wsToSandbox.erase ws }.await s ws .closed := by
  simp [unregister, h]

/-- The end of the registered connection of a sandbox frees its name. -/
theorem unregister_of_registered (E : BrokerEnv π) (h : b.connections.lookup s = some ws)
    (msgId : String) (now : ℚ) :
    (b.unregister E s ws msgId now).connections = b.connections.erase s ∧
      (b.unregister E s ws msgId now).wsToSandbox = b.wsToSandbox.erase ws ∧
        (b.unregister E s ws msgId now).rejecting = b.rejecting := by
  simp only [unregister, h, ne_eq, not_true_eq_false, ite_false]
  rw [foldl_cancelTimer]
  split <;> exact ⟨rfl, rfl, rfl⟩

/-- The handler of a connection that ended announces it, logs it or is over. -/
theorem unregister_handler (E : BrokerEnv π) (b : Broker π) (s : String) (ws : Ws)
    (msgId : String) (now : ℚ) : ∃ phase,
      (b.unregister E s ws msgId now).handlers = b.handlers.insert ws ⟨s, phase⟩ ∧
        (b.unregister E s ws msgId now).sent = b.sent ∧
          (phase = .closed ∨ phase = .logDisconnection ∨
            ∃ left, phase = .shutdownFanout (shutdownFrame E s msgId now) left) := by
  by_cases h : b.connections.lookup s = some ws
  · simp only [unregister, h, ne_eq, not_true_eq_false, ite_false]
    rw [foldl_cancelTimer]
    split
    · exact ⟨_, rfl, rfl, Or.inr (Or.inl rfl)⟩
    · exact ⟨_, rfl, rfl, Or.inr (Or.inr ⟨_, rfl⟩)⟩
  · rw [unregister_of_stale E h]
    exact ⟨_, rfl, rfl, Or.inl rfl⟩

end

/-- Every step of the broker has one of the effects of `RouteStep`. -/
theorem route_step {E : BrokerEnv π} {b b' : Broker π} {e : BrokerEvent π}
    (h : b.step E e = some b') : RouteStep E b e b' := by
  cases e with
  | connect ws s =>
    simp only [step, Option.ite_none_left_eq_some, not_or, Bool.not_eq_true] at h
    obtain ⟨⟨hs, hw⟩, h⟩ := h
    obtain rfl := Option.some.inj h
    exact .connected hs (Option.isSome_eq_false_iff.1 hw |> Option.isNone_iff_eq_none.1)
  | frame ws raw now =>
    obtain ⟨s, hh, hd⟩ := step_frame h
    obtain ⟨phase, new, hs, ho⟩ := serves_dispatched hd
    exact .served rfl hh hs ho
  | resume ws r =>
    obtain ⟨⟨s, old⟩, hh, h⟩ := Option.bind_eq_some_iff.1 h
    obtain ⟨phase, new, hs, ho⟩ := serves_resume h
    exact .served rfl hh hs ho
  | safeSend ws target =>
    obtain ⟨⟨s, old⟩, hh, h⟩ := Option.bind_eq_some_iff.1 h
    obtain ⟨phase, new, hs, ho⟩ := serves_safeSend h
    exact .served rfl hh hs ho
  | disconnect ws msgId now =>
    simp only [step] at h
    split at h
    · obtain rfl := Option.some.inj h
      exact .disconnected ‹_›
    · contradiction
  | timer task =>
    simp only [step] at h
    split at h
    · simp only [Option.ite_none_left_eq_some] at h
      obtain rfl := Option.some.inj h.2
      exact route_step_timeout E b task _
    · contradiction
  | timerSent task =>
    simp only [step] at h
    split at h
    · simp only [Option.ite_none_right_eq_some] at h
      obtain rfl := Option.some.inj h.2
      exact .fired rfl rfl rfl rfl rfl (List.append_nil _).symm (by simp)
    · contradiction

theorem connect_step {E : BrokerEnv π} {b b' : Broker π} {ws : Ws} {s : String}
    (h : b.step E (.connect ws s) = some b') :
    b.handlers.lookup ws = none ∧ b' = b.register s ws := by
  simp only [step, Option.ite_none_left_eq_some, not_or, Bool.not_eq_true] at h
  obtain ⟨⟨-, hnew⟩, h⟩ := h
  exact ⟨Option.isNone_iff_eq_none.1 (Option.isSome_eq_false_iff.1 hnew), (Option.some.inj h).symm⟩

/-- Only its own steps move a handler. -/
theorem handler_other {E : BrokerEnv π} {b b' : Broker π} {e : BrokerEvent π} {ws : Ws}
    (h : b.step E e = some b') (he : e.socket ≠ some ws) :
    b'.handlers.lookup ws = b.handlers.lookup ws := by
  have hkeep : ∀ ws₁ h₁, b'.handlers = b.handlers.insert ws₁ h₁ → some ws₁ ≠ some ws →
      b'.handlers.lookup ws = b.handlers.lookup ws := by
    intro ws₁ h₁ hins hne
    rw [hins]
    exact AList.lookup_insert_ne fun heq => hne (congrArg some heq.symm)
  cases route_step h with
  | connected => exact hkeep _ _ handlers_register he
  | @disconnected ws₁ s₁ msgId now hh =>
    obtain ⟨phase, hins, -, -⟩ := unregister_handler E b s₁ ws₁ msgId now
    exact hkeep _ _ hins he
  | served he' hh hs ho => exact hkeep _ _ hs.handlers (he' ▸ he)
  | fired he' hc hw hr hh hs hf => rw [hh]

/-- How the handler of a connection got into its phase. -/
inductive PhaseOrigin (E : BrokerEnv π) (b : Broker π) (e : BrokerEvent π) (ws : Ws) (s : String)
    (phase : Phase π) : Prop
  | before (hh : b.handlers.lookup ws = some ⟨s, phase⟩)
  | opened (hphase : phase = .recv)
  | ended (hphase : phase = .closed ∨ phase = .logDisconnection ∨
      ∃ msgId now left, phase = .shutdownFanout (shutdownFrame E s msgId now) left)
  | served {old new} (hh : b.handlers.lookup ws = some ⟨s, old⟩)
      (ho : HandlerStep E b ws s e old phase new)

theorem phase_step {E : BrokerEnv π} {b b' : Broker π} {e : BrokerEvent π}
    (h : b.step E e = some b') {ws : Ws} {s : String} {phase : Phase π}
    (hh : b'.handlers.lookup ws = some ⟨s, phase⟩) : PhaseOrigin E b e ws s phase := by
  cases route_step h with
  | connected =>
    rw [handlers_register] at hh
    rcases Dict.lookup_insert_eq_some.1 hh with ⟨-, hp⟩ | ⟨-, hh⟩
    · exact .opened (Handler.mk.inj hp).2.symm
    · exact .before hh
  | @disconnected ws₁ s₁ msgId now hh₁ =>
    obtain ⟨phase₁, hins, -, hphase⟩ := unregister_handler E b s₁ ws₁ msgId now
    rw [hins] at hh
    rcases Dict.lookup_insert_eq_some.1 hh with ⟨-, hp⟩ | ⟨-, hh⟩
    · obtain ⟨rfl, rfl⟩ := Handler.mk.inj hp
      apply PhaseOrigin.ended
      rcases hphase with hp' | hp' | ⟨left, hp'⟩
      · exact Or.inl hp'
      · exact Or.inr (Or.inl hp')
      · exact Or.inr (Or.inr ⟨msgId, now, left, hp'⟩)
    · exact .before hh
  | served he hh₁ hs ho =>
    rw [hs.handlers] at hh
    rcases Dict.lookup_insert_eq_some.1 hh with ⟨rfl, hp⟩ | ⟨-, hh⟩
    · obtain ⟨rfl, rfl⟩ := Handler.mk.inj hp
      exact .served hh₁ ho
    · exact .before hh
  | fired he hc hw hr hhand hs hf =>
    rw [hhand] at hh
    exact .before hh

/-- A frame that a step sends is a timeout or comes from a handler. -/
theorem sent_origin {E : BrokerEnv π} {b b' : Broker π} {e : BrokerEvent π}
    (h : b.step E e = some b') {f : SentFrame π} (hf : f ∈ b'.sent) :
    f ∈ b.sent ∨ f.frame.op = .timeout ∨ ∃ ws s old phase new,
      b.handlers.lookup ws = some ⟨s, old⟩ ∧ HandlerStep E b ws s e old phase new ∧ f ∈ new := by
  cases route_step h with
  | connected =>
    rw [sent_register] at hf
    exact Or.inl hf
  | @disconnected ws s msgId now hh =>
    obtain ⟨phase, -, hsent, -⟩ := unregister_handler E b s ws msgId now
    rw [hsent] at hf
    exact Or.inl hf
  | served he hh hs ho =>
    rw [hs.sent] at hf
    rcases List.mem_append.1 hf with hf | hf
    · exact Or.inl hf
    · exact Or.inr (Or.inr ⟨_, _, _, _, _, hh, ho, hf⟩)
  | fired he hc hw hr hhand hs hnew =>
    rw [hs] at hf
    rcases List.mem_append.1 hf with hf | hf
    · exact Or.inl hf
    · exact Or.inr (Or.inl (hnew f hf))

/-! ### What one step writes -/

/-- The frames that a step hands to `ws.send`. -/
def writes (E : BrokerEnv π) (p : Broker π × BrokerEvent π) : List (SentFrame π) :=
  match p.1.step E p.2 with
  | some b => b.sent.drop p.1.sent.length
  | none => []

section

variable {E : BrokerEnv π} {b b' : Broker π} {e : BrokerEvent π}

theorem writes_eq (h : b.step E e = some b') {new : List (SentFrame π)}
    (hsent : b'.sent = b.sent ++ new) : writes E (b, e) = new := by
  simp only [writes, h]
  rw [hsent, List.drop_left]

theorem writes_eq_nil (h : b.step E e = some b') (hsent : b'.sent = b.sent) :
    writes E (b, e) = [] :=
  writes_eq h (hsent.trans (List.append_nil _).symm)

theorem sent_grows (h : b.step E e = some b') : ∃ new, b'.sent = b.sent ++ new := by
  cases route_step h with
  | connected => exact ⟨[], by rw [sent_register, List.append_nil]⟩
  | @disconnected ws₁ s₁ msgId now hh₁ =>
    obtain ⟨phase, -, hsent, -⟩ := unregister_handler E b s₁ ws₁ msgId now
    exact ⟨[], by rw [hsent, List.append_nil]⟩
  | served he hh hs ho => exact ⟨_, hs.sent⟩
  | fired he hc hw hr hh hs hf => exact ⟨_, hs⟩

/-- Nothing else is ever sent. -/
theorem sent_eq_writes {tr : List (Broker π × BrokerEvent π)} (h : (brokerMachine E).Trace tr b) :
    b.sent = tr.flatMap (writes E) := by
  induction h with
  | nil => rfl
  | @snoc tr b e b' _ he ih =>
    obtain ⟨new, hsent⟩ := sent_grows he
    rw [List.flatMap_append, ← ih, hsent]
    simp [writes_eq he hsent]

end

end Broker

end NemoClaw
