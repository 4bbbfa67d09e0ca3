import NemoClaw.Nmb.AuditLog
import NemoClaw.Nmb.Deliveries

/-! The life of a connection at the broker: it is accepted, its end is announced to the subscribers
of `system`, and the end is logged. A step begins or ends one life at most, and makes the audit call
for it. -/

namespace NemoClaw

open Lib

/-- A call of `log_connection` or `log_disconnection`, each in a task of its own. -/
inductive ConnectionTask
  | logConnection (sandboxId : String)
  | logDisconnection (sandboxId reason : String)
  deriving DecidableEq, Repr

def AuditOp.task? {π : Type} : AuditOp π → Option ConnectionTask
  | .connection sandboxId => some (.logConnection sandboxId)
  | .disconnection sandboxId reason => some (.logDisconnection sandboxId reason)
  | .message _ _ | .statusUpdate _ _ => none

def Phase.announcing {π : Type} : Phase π → Bool
  | .shutdownFanout _ _ => true
  | _ => false

namespace Broker

variable {π : Type}

/-- The audit calls about connections. -/
def connectionTasks (b : Broker π) : List ConnectionTask := b.audit.filterMap AuditOp.task?

/-- The handler of `ws` announces the end of `s`. -/
def Announces (b : Broker π) (ws : Ws) (s : String) : Prop :=
  ∃ phase, b.handlers.lookup ws = some ⟨s, phase⟩ ∧ phase.announcing = true

/-- What a step does to the lives of the connections, and the audit calls that it makes for it. -/
inductive LifeStep (b b' : Broker π) : BrokerEvent π → List ConnectionTask → Prop
  | opened {ws s} (hfree : b.connections.lookup s = none)
      (hconn : b'.connections = b.connections.insert s ws)
      (hann : ∀ ws' s', b'.Announces ws' s' ↔ b.Announces ws' s') :
      LifeStep b b' (.connect ws s) [.logConnection s]
  | announced {ws s msgId now} (hlive : b.connections.lookup s = some ws)
      (hconn : b'.connections = b.connections.erase s)
      (hann : ∀ ws' s', b'.Announces ws' s' ↔ b.Announces ws' s' ∨ ws' = ws ∧ s' = s) :
      LifeStep b b' (.disconnect ws msgId now) []
  | ended {ws s msgId now} (hlive : b.connections.lookup s = some ws)
      (hconn : b'.connections = b.connections.erase s)
      (hann : ∀ ws' s', b'.Announces ws' s' ↔ b.Announces ws' s') :
      LifeStep b b' (.disconnect ws msgId now) [.logDisconnection s "disconnected"]
  | logged {ws s r} (hlast : b.Announces ws s) (hconn : b'.connections = b.connections)
      (hann : ∀ ws' s', b'.Announces ws' s' ↔ b.Announces ws' s' ∧ ws' ≠ ws) :
      LifeStep b b' (.resume ws r) [.logDisconnection s "disconnected"]
  | same {e} (he : ∀ ws s, e = .connect ws s → (b.connections.lookup s).isSome)
      (hconn : b'.connections = b.connections)
      (hann : ∀ ws' s', b'.Announces ws' s' ↔ b.Announces ws' s') : LifeStep b b' e []

variable {E : BrokerEnv π} {b b' : Broker π} {ws ws' : Ws} {s s' : String} {phase old : Phase π}

/-! ### The audit calls -/

theorem connectionTasks_of_eq (h : b'.audit = b.audit) :
    b'.connectionTasks = b.connectionTasks := by
  rw [connectionTasks, connectionTasks, h]

theorem connectionTasks_auditOp (b : Broker π) (op : AuditOp π) :
    (b.auditOp op).connectionTasks = b.connectionTasks ++ op.task?.toList := by
  simp only [connectionTasks, auditOp, List.filterMap_append]
  cases h : op.task? with
  | none => rw [List.filterMap_cons_none h]; rfl
  | some task => rw [List.filterMap_cons_some h]; rfl

theorem connectionTasks_auditMsg (b : Broker π) (m : Option (NMBMessage π)) (st : DeliveryStatus) :
    (b.auditMsg m st).connectionTasks = b.connectionTasks := by
  cases m with
  | none => rfl
  | some m =>
    rw [auditMsg, connectionTasks_auditOp]
    exact List.append_nil _

theorem connectionTasks_dispatched {raw : Except String (NMBMessage π)} {now : ℚ}
    (hd : Dispatched E b s ws raw now b') : b'.connectionTasks = b.connectionTasks := by
  cases hd with
  | unheard => exact connectionTasks_auditMsg (b.answered _ _) (some _) _
  | _ => rfl

theorem connectionTasks_resume {r : SendResult} (ho : old.announcing = false)
    (h : b.resume s ws r old = some b') : b'.connectionTasks = b.connectionTasks := by
  cases old with
  | recv | closed => contradiction
  | shutdownFanout f left => contradiction
  | sendDeliver m | requestDeliver m task | streamDeliver m =>
    obtain rfl := Option.some.inj h
    cases r <;> rfl
  | replyDeliver m =>
    obtain rfl := Option.some.inj h
    cases r with
    | ok => exact connectionTasks_auditMsg b (some m) _
    | connectionClosed => exact connectionTasks_auditMsg b (some m) _
  | ack m | error m =>
    obtain rfl := Option.some.inj h
    exact connectionTasks_auditMsg b m _
  | publishFanout m left =>
    cases left with
    | nil =>
      obtain rfl := Option.some.inj h
      rfl
    | cons => contradiction
  | logDisconnection =>
    obtain rfl := Option.some.inj h
    rfl

theorem connectionTasks_timeoutRequest (b : Broker π) (task : TaskId) (t : TimeoutTask) :
    (b.timeoutRequest E task t).connectionTasks = b.connectionTasks := by
  unfold timeoutRequest
  split
  · rfl
  · dsimp only
    split
    · exact (connectionTasks_auditOp _ _).trans (List.append_nil _)
    · rfl

/-! ### The handlers -/

/-- Only a handler that announces goes on to announce. -/
theorem HandlerStep.announcing {e : BrokerEvent π} {new : List (SentFrame π)}
    (h : HandlerStep E b ws s e old phase new) (hphase : phase.announcing = true) :
    old.announcing = true := by
  cases h with
  | acked | refused | reply | publish | fanout => contradiction
  | notice => rfl
  | forward hop ht hc hp =>
    rcases hp with rfl | rfl | ⟨-, rfl⟩
    · contradiction
    · contradiction
    · contradiction
  | quiet hp =>
    rcases hp with ⟨rfl, -⟩ | rfl | rfl
    · contradiction
    · contradiction
    · contradiction

/-- When one handler goes on, the others announce what they did. -/
theorem announces_insert (hh : b'.handlers = b.handlers.insert ws ⟨s, phase⟩) :
    b'.Announces ws' s' ↔ if ws' = ws then s' = s ∧ phase.announcing = true
      else b.Announces ws' s' := by
  unfold Announces
  rw [hh]
  split_ifs with he
  · subst he
    rw [AList.lookup_insert]
    constructor
    · rintro ⟨_, ⟨⟩, hp⟩
      exact ⟨rfl, hp⟩
    · rintro ⟨rfl, hp⟩
      exact ⟨phase, rfl, hp⟩
  · rw [AList.lookup_insert_ne he]

theorem announces_same (hh : b'.handlers = b.handlers.insert ws ⟨s, phase⟩)
    (hold : ∀ s', b.Announces ws s' ↔ s' = s ∧ phase.announcing = true) (ws' : Ws) (s' : String) :
    b'.Announces ws' s' ↔ b.Announces ws' s' := by
  rw [announces_insert hh]
  split_ifs with he
  · rw [he, hold]
  · rfl

/-- A handler that does not announce does not begin to. -/
theorem announces_of_silent (old phase : Phase π)
    (hh : b'.handlers = b.handlers.insert ws ⟨s, phase⟩)
    (hold : b.handlers.lookup ws = none ∨ b.handlers.lookup ws = some ⟨s, old⟩)
    (ho : old.announcing = false) (hp : phase.announcing = false) (ws' : Ws) (s' : String) :
    b'.Announces ws' s' ↔ b.Announces ws' s' := by
  refine announces_same hh (fun s' => iff_of_false ?_ (by simp [hp])) ws' s'
  rintro ⟨phase', hh', hp'⟩
  rcases hold with hnone | hsome
  · cases hnone.symm.trans hh'
  · obtain ⟨-, rfl⟩ := Handler.mk.inj (Option.some.inj (hsome.symm.trans hh'))
    rw [ho] at hp'
    contradiction

/-! ### The steps -/

theorem life_step_connect (h : b.step E (.connect ws s) = some b') :
    ∃ new, b'.connectionTasks = b.connectionTasks ++ new ∧ LifeStep b b' (.connect ws s) new := by
  obtain ⟨hnew, rfl⟩ := connect_step h
  have hhandlers : (b.register s ws).handlers = b.handlers.insert ws ⟨s, .recv⟩ :=
    handlers_register
  have hann := announces_of_silent .recv _ hhandlers (Or.inl hnew) rfl rfl
  cases hc : b.connections.lookup s with
  | none =>
    refine ⟨[.logConnection s], ?_, .opened hc ?_ hann⟩
    · simp [register, hc, connectionTasks, await, auditOp, AuditOp.task?]
    · simp [register, hc, await, auditOp]
  | some ws₀ =>
    have hsome : (b.connections.lookup s).isSome = true := by rw [hc]; rfl
    rw [register_of_taken hsome] at hann ⊢
    refine ⟨[], (List.append_nil _).symm, .same ?_ rfl hann⟩
    rintro _ _ ⟨⟩
    exact hsome

theorem life_step_disconnect (hh : b.handlers.lookup ws = some ⟨s, .recv⟩) (msgId : String)
    (now : ℚ) :
    ∃ new, (b.unregister E s ws msgId now).connectionTasks = b.connectionTasks ++ new ∧
      LifeStep b (b.unregister E s ws msgId now) (.disconnect ws msgId now) new := by
  by_cases hlive : b.connections.lookup s = some ws
  · have hconn := (unregister_of_registered E hlive msgId now).1
    have hnot : ∀ s', ¬ b.Announces ws s' := by
      rintro s' ⟨phase, hh', hp⟩
      obtain ⟨-, rfl⟩ := Handler.mk.inj (Option.some.inj (hh.symm.trans hh'))
      contradiction
    revert hconn
    simp only [unregister, hlive, ne_eq, not_true_eq_false, ite_false]
    rw [foldl_cancelTimer]
    split
    · intro hconn
      refine ⟨[.logDisconnection s "disconnected"], ?_, .ended hlive hconn ?_⟩
      · exact connectionTasks_auditOp b (.disconnection s "disconnected")
      · exact announces_of_silent _ .logDisconnection rfl (Or.inr hh) rfl rfl
    · intro hconn
      refine ⟨[], (List.append_nil _).symm, .announced hlive hconn ?_⟩
      intro ws' s'
      rw [announces_insert rfl]
      split_ifs with he
      · simp [he, hnot, Phase.announcing]
      · rw [or_iff_left fun h => he h.1]
        rfl
  · rw [unregister_of_stale E hlive]
    refine ⟨[], (List.append_nil _).symm, .same (by simp) rfl ?_⟩
    exact announces_of_silent _ .closed rfl (Or.inr hh) rfl rfl

theorem life_step_served {e : BrokerEvent π} {new : List (SentFrame π)}
    (hh : b.handlers.lookup ws = some ⟨s, old⟩) (hs : Served b b' ws s phase new)
    (ho : HandlerStep E b ws s e old phase new) (hsilent : old.announcing = false)
    (he : ∀ ws s, e ≠ .connect ws s) : LifeStep b b' e [] := by
  have hphase : phase.announcing = false := by
    by_contra hp
    rw [ho.announcing (by simpa using hp)] at hsilent
    contradiction
  exact .same (fun ws s heq => absurd heq (he ws s)) hs.connections
    (announces_of_silent _ _ hs.handlers (Or.inr hh) hsilent hphase)

theorem life_step_resume (E : BrokerEnv π) {r : SendResult}
    (hh : b.handlers.lookup ws = some ⟨s, old⟩)
    (h : b.resume s ws r old = some b') :
    ∃ new, b'.connectionTasks = b.connectionTasks ++ new ∧ LifeStep b b' (.resume ws r) new := by
  cases ho : old.announcing with
  | false =>
    obtain ⟨phase, new, hs, hstep⟩ := serves_resume (E := E) h
    refine ⟨[], ?_, life_step_served hh hs hstep ho nofun⟩
    rw [connectionTasks_resume ho h, List.append_nil]
  | true =>
    cases old with
    | shutdownFanout f left =>
      cases left with
      | nil =>
        obtain rfl := Option.some.inj h
        refine ⟨[.logDisconnection s "disconnected"], ?_, .logged ⟨_, hh, rfl⟩ rfl ?_⟩
        · exact connectionTasks_auditOp b (.disconnection s "disconnected")
        · intro ws' s'
          rw [announces_insert rfl]
          split_ifs with he
          · simp [he, Phase.announcing]
          · rw [and_iff_left he]
            rfl
      | cons => contradiction
    | _ => contradiction

theorem life_step_safeSend {target : Ws} (hh : b.handlers.lookup ws = some ⟨s, old⟩)
    (h : b.safeSend s ws target old = some b') : LifeStep b b' (.safeSend ws target) [] := by
  have hsilent : ∀ ws' s', BrokerEvent.safeSend ws target ≠ (.connect ws' s' : BrokerEvent π) :=
    nofun
  cases old with
  | publishFanout m left =>
    simp only [safeSend, Option.ite_none_right_eq_some] at h
    obtain rfl := Option.some.inj h.2
    exact .same (fun _ _ heq => absurd heq (hsilent _ _)) rfl
      (announces_of_silent _ (.publishFanout m (left.erase target)) rfl (Or.inr hh) rfl rfl)
  | shutdownFanout f left =>
    simp only [safeSend, Option.ite_none_right_eq_some] at h
    obtain rfl := Option.some.inj h.2
    refine .same (fun _ _ heq => absurd heq (hsilent _ _)) rfl (announces_same rfl fun s' => ?_)
    constructor
    · rintro ⟨phase, hh', hp⟩
      obtain ⟨rfl, -⟩ := Handler.mk.inj (Option.some.inj (hh.symm.trans hh'))
      exact ⟨rfl, rfl⟩
    · rintro ⟨rfl, -⟩
      exact ⟨_, hh, rfl⟩
  | _ => contradiction

/-- Every step makes the audit calls for what it does to the connections. -/
theorem life_step {e : BrokerEvent π} (h : b.step E e = some b') :
    ∃ new, b'.connectionTasks = b.connectionTasks ++ new ∧ LifeStep b b' e new := by
  cases e with
  | connect ws s => exact life_step_connect h
  | frame ws raw now =>
    obtain ⟨s, hh, hd⟩ := step_frame h
    obtain ⟨phase, new, hs, hstep⟩ := serves_dispatched hd
    refine ⟨[], ?_, life_step_served hh hs hstep rfl (by simp)⟩
    rw [connectionTasks_dispatched hd, List.append_nil]
  | resume ws r =>
    obtain ⟨⟨s, old⟩, hh, h⟩ := Option.bind_eq_some_iff.1 h
    exact life_step_resume E hh h
  | safeSend ws target =>
    obtain ⟨⟨s, old⟩, hh, h⟩ := Option.bind_eq_some_iff.1 h
    refine ⟨[], ?_, life_step_safeSend hh h⟩
    rw [connectionTasks_of_eq (audit_safeSend h), List.append_nil]
  | disconnect ws msgId now =>
    simp only [step] at h
    split at h
    · obtain rfl := Option.some.inj h
      exact life_step_disconnect ‹_› msgId now
    · contradiction
  | timer task =>
    simp only [step] at h
    split at h
    · simp only [Option.ite_none_left_eq_some] at h
      obtain rfl := Option.some.inj h.2
      refine ⟨[], by rw [connectionTasks_timeoutRequest, List.append_nil], ?_⟩
      cases route_step_timeout E b task _ with
      | fired he hc hw hr hh hs hf =>
        exact .same (by simp) hc fun ws' s' => by rw [Announces, Announces, hh]
      | served he => contradiction
    · contradiction
  | timerSent task =>
    simp only [step] at h
    split at h
    · simp only [Option.ite_none_right_eq_some] at h
      obtain rfl := Option.some.inj h.2
      exact ⟨[], connectionTasks_auditOp _ _, .same (by simp) rfl fun _ _ => Iff.rfl⟩
    · contradiction

end Broker

end NemoClaw
