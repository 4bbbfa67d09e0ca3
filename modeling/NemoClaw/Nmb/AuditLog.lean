import NemoClaw.Nmb.Books

/-! What one step of the broker appends to its audit calls, and which requests it expires. A status
update is logged by a timeout task that expired its request, at once or when its frame is sent. -/

namespace NemoClaw

open Lib

/-- A call that the broker makes when it routes a message or a connection comes or goes. -/
def AuditOp.Routed {π : Type} : AuditOp π → Prop
  | .message _ status => status ≠ .timeout
  | .statusUpdate _ _ => False
  | .connection _ | .disconnection _ _ => True

/-- A pending request's timeout task, while there is one, is asleep, and new tasks are new. -/
structure Asleep (k : Books) : Prop where
  entry : ∀ id tracked t, k.pending.lookup id = some tracked →
    k.timers.lookup tracked.timeoutTask = some t → t.sending = false ∧ t.requestId = id
  entry_lt : ∀ id tracked, k.pending.lookup id = some tracked → tracked.timeoutTask < k.nextTask
  task_lt : ∀ task t, k.timers.lookup task = some t → task < k.nextTask

namespace Broker

variable {π : Type} {E : BrokerEnv π} {b b' : Broker π} {e : BrokerEvent π} {k : Books}

/-- The request that a step expires: its timeout task wakes up and takes it from `_pending`. -/
def expiring (b : Broker π) : BrokerEvent π → List String
  | .timer task =>
    match b.timers.lookup task with
    | some t =>
      if t.sending = false ∧ (b.pending.lookup t.requestId).isSome then [t.requestId] else []
    | none => []
  | _ => []

/-! ### The audit calls of the handlers -/

/-- Only routing was audited. -/
def Logs (b b' : Broker π) : Prop :=
  ∃ new, b'.audit = b.audit ++ new ∧ ∀ op ∈ new, op.Routed

theorem logs_of_eq (h : b'.audit = b.audit) : Logs b b' :=
  ⟨[], by rw [h, List.append_nil], by simp⟩

theorem logs_auditOp (b : Broker π) {op : AuditOp π} (h : op.Routed) : Logs b (b.auditOp op) := by
  refine ⟨[op], rfl, ?_⟩
  intro op' hop
  obtain rfl := List.mem_singleton.1 hop
  exact h

theorem logs_auditMsg (b : Broker π) (m : Option (NMBMessage π)) {status : DeliveryStatus}
    (h : status ≠ .timeout) : Logs b (b.auditMsg m status) := by
  cases m with
  | none => exact logs_of_eq rfl
  | some m => exact logs_auditOp b h

theorem logs_dispatched {s : String} {ws : Ws} {raw : Except String (NMBMessage π)} {now : ℚ}
    (hd : Dispatched E b s ws raw now b') : Logs b b' := by
  cases hd with
  | unheard => exact logs_auditMsg (b.answered _ _) (some _) nofun
  | _ => exact logs_of_eq rfl

theorem logs_resume {s : String} {ws : Ws} {r : SendResult} {p : Phase π}
    (hs : b.resume s ws r p = some b') : Logs b b' := by
  cases p with
  | recv | closed => contradiction
  | sendDeliver m | requestDeliver m task | streamDeliver m =>
    obtain rfl := Option.some.inj hs
    cases r <;> exact logs_of_eq rfl
  | replyDeliver m =>
    obtain rfl := Option.some.inj hs
    cases r with
    | ok => exact logs_auditMsg b (some m) nofun
    | connectionClosed => exact logs_auditMsg b (some m) nofun
  | ack m =>
    obtain rfl := Option.some.inj hs
    exact logs_auditMsg b m nofun
  | error m =>
    obtain rfl := Option.some.inj hs
    exact logs_auditMsg b m nofun
  | publishFanout m left =>
    cases left with
    | nil =>
      obtain rfl := Option.some.inj hs
      exact logs_of_eq rfl
    | cons => contradiction
  | shutdownFanout f left =>
    cases left with
    | nil =>
      obtain rfl := Option.some.inj hs
      exact logs_auditOp b trivial
    | cons => contradiction
  | logDisconnection =>
    obtain rfl := Option.some.inj hs
    exact logs_of_eq rfl

theorem audit_safeSend {s : String} {ws target : Ws} {p : Phase π}
    (hs : b.safeSend s ws target p = some b') : b'.audit = b.audit := by
  cases p with
  | publishFanout m left | shutdownFanout m left =>
    simp only [safeSend, Option.ite_none_right_eq_some] at hs
    obtain rfl := Option.some.inj hs.2
    rfl
  | _ => contradiction

theorem logs_register (b : Broker π) (s : String) (ws : Ws) : Logs b (b.register s ws) := by
  unfold register
  split
  · exact logs_of_eq rfl
  · exact ⟨[.connection s], rfl, by simp [AuditOp.Routed]⟩

theorem logs_unregister (b : Broker π) (s : String) (ws : Ws) (msgId : String) (now : ℚ) :
    Logs b (b.unregister E s ws msgId now) := by
  unfold unregister
  split_ifs
  · exact logs_of_eq rfl
  · dsimp only
    rw [foldl_cancelTimer]
    split
    · exact ⟨[.disconnection s "disconnected"], rfl, by simp [AuditOp.Routed]⟩
    · exact logs_of_eq rfl

end Broker

/-! ### The timeout tasks -/

theorem Asleep.shrink {k : Books} (h : Asleep k) {pending : Dict String TrackedPending}
    {timers : Dict TaskId TimeoutTask} {counts : Dict String ℕ} {settled : List TaskId}
    (hp : ∀ id tracked, pending.lookup id = some tracked → k.pending.lookup id = some tracked)
    (ht : ∀ task t, timers.lookup task = some t → k.timers.lookup task = some t) :
    Asleep ⟨pending, counts, timers, k.nextTask, settled⟩ :=
  ⟨fun id tracked t hid hu => h.entry id tracked t (hp id tracked hid) (ht _ t hu),
    fun id tracked hid => h.entry_lt id tracked (hp id tracked hid),
    fun task t hu => h.task_lt task t (ht task t hu)⟩

theorem lookup_of_lookup_erase {κ ν : Type*} [DecidableEq κ] {d : Dict κ ν} {k k' : κ} {v : ν}
    (h : (d.erase k).lookup k' = some v) : d.lookup k' = some v :=
  (Dict.lookup_erase_eq_some.1 h).2

namespace Broker

variable {π : Type} {E : BrokerEnv π} {b b' : Broker π} {e : BrokerEvent π} {k : Books}

theorem asleep_initial : Asleep ({} : Broker π).books := by
  refine ⟨?_, ?_, ?_⟩
  · intro id tracked t hp
    contradiction
  · intro id tracked hp
    contradiction
  · intro task t ht
    contradiction

theorem asleep_step (h : Asleep b.books) (hk : BookStep E b e k) : Asleep k := by
  cases hk with
  | same => exact h
  | @admitted ws sid m now hh hm =>
    refine ⟨?_, ?_, ?_⟩
    · intro id tracked t hid ht
      rcases Dict.lookup_insert_eq_some.1 hid with ⟨rfl, rfl⟩ | ⟨-, hid⟩
      · rcases Dict.lookup_insert_eq_some.1 ht with ⟨-, rfl⟩ | ⟨hne, -⟩
        · exact ⟨rfl, rfl⟩
        · exact absurd rfl hne
      · have hlt : tracked.timeoutTask < b.nextTask := h.entry_lt id tracked hid
        rcases Dict.lookup_insert_eq_some.1 ht with ⟨heq, -⟩ | ⟨-, ht⟩
        · exact absurd heq (Nat.ne_of_lt hlt)
        · exact h.entry id tracked t hid ht
    · intro id tracked hid
      rcases Dict.lookup_insert_eq_some.1 hid with ⟨rfl, rfl⟩ | ⟨-, hid⟩
      · exact Nat.lt_succ_self b.nextTask
      · exact Nat.lt_succ_of_lt (h.entry_lt id tracked hid)
    · intro task t ht
      rcases Dict.lookup_insert_eq_some.1 ht with ⟨rfl, -⟩ | ⟨-, ht⟩
      · exact Nat.lt_succ_self b.nextTask
      · exact Nat.lt_succ_of_lt (h.task_lt task t ht)
  | reply | rollback =>
    exact h.shrink (fun _ _ => lookup_of_lookup_erase) fun _ _ => lookup_of_lookup_erase
  | stale | timedOut => exact h.shrink (fun _ _ => id) fun _ _ => lookup_of_lookup_erase
  | @expire task t tracked timers new ht hs hp htimers hnew =>
    rcases htimers with rfl | rfl
    · exact h.shrink (fun _ _ => lookup_of_lookup_erase) fun _ _ => lookup_of_lookup_erase
    · refine ⟨?_, fun id tracked hid => h.entry_lt id tracked (lookup_of_lookup_erase hid), ?_⟩
      · intro id tracked' t' hid' ht'
        obtain ⟨hne, hid⟩ : id ≠ t.requestId ∧ b.pending.lookup id = some tracked' :=
          Dict.lookup_erase_eq_some.1 hid'
        clear hid'
        rcases Dict.lookup_insert_eq_some.1 ht' with ⟨rfl, -⟩ | ⟨-, ht'⟩
        · exact absurd (h.entry id tracked' t hid ht).2.symm hne
        · exact h.entry id tracked' t' hid ht'
      · intro u t' ht'
        rcases Dict.lookup_insert_eq_some.1 ht' with ⟨rfl, -⟩ | ⟨-, ht'⟩
        · exact h.task_lt _ t ht
        · exact h.task_lt u t' ht'
  | clear =>
    exact h.shrink (fun _ _ hid => (Dict.lookup_drop_eq_some.1 hid).1)
      fun _ _ ht => (lookup_timersWithout.1 ht).1

/-- No forwarding fails while the timeout frame of its request is sent. -/
def KeepsTimeout (b : Broker π) : BrokerEvent π → Prop
  | .resume ws .connectionClosed => ∀ s m task,
      b.handlers.lookup ws = some ⟨s, .requestDeliver m task⟩ →
        ∀ t, b.timers.lookup task = some t → t.sending = false
  | _ => True

/-- A timeout frame that is being sent stays so until it is sent. -/
theorem sending_kept (h : Asleep b.books) (hk : BookStep E b e k) (hg : b.KeepsTimeout e)
    {u : TaskId} {t : TimeoutTask} (ht : b.timers.lookup u = some t) (hs : t.sending = true) :
    k.timers.lookup u = some t ∨ e = .timerSent u := by
  have hne {u' : TaskId} {t' : TimeoutTask} (ht' : b.timers.lookup u' = some t')
      (hs' : t'.sending = false) : u ≠ u' := by
    intro heq
    subst heq
    obtain rfl := Option.some.inj (ht.symm.trans ht')
    simp [hs] at hs'
  have hentry {id : String} {tracked : TrackedPending} (hid : b.pending.lookup id = some tracked) :
      u ≠ tracked.timeoutTask := by
    intro heq
    subst heq
    have := (h.entry id tracked t hid ht).1
    simp [hs] at this
  cases hk with
  | same => exact Or.inl ht
  | admitted =>
    have hlt : u < b.nextTask := h.task_lt u t ht
    exact Or.inl (Dict.lookup_insert_eq_some.2 (Or.inr ⟨Nat.ne_of_lt hlt, ht⟩))
  | reply hh hop hrid hp => exact Or.inl (Dict.lookup_erase_eq_some.2 ⟨hentry hp, ht⟩)
  | @rollback ws sid m task hh =>
    refine Or.inl (Dict.lookup_erase_eq_some.2 ⟨?_, ht⟩)
    intro heq
    subst heq
    have := hg sid m u hh t ht
    simp [hs] at this
  | stale ht' hs' => exact Or.inl (Dict.lookup_erase_eq_some.2 ⟨hne ht' hs', ht⟩)
  | expire ht' hs' hp htimers =>
    rcases htimers with rfl | rfl
    · exact Or.inl (Dict.lookup_erase_eq_some.2 ⟨hne ht' hs', ht⟩)
    · exact Or.inl (Dict.lookup_insert_eq_some.2 (Or.inr ⟨hne ht' hs', ht⟩))
  | @timedOut task =>
    by_cases heq : u = task
    · exact Or.inr (by rw [heq])
    · exact Or.inl (Dict.lookup_erase_eq_some.2 ⟨heq, ht⟩)
  | clear =>
    refine Or.inl (lookup_timersWithout.2 ⟨ht, ?_⟩)
    intro id tracked hid htask
    exact absurd htask.symm (hentry hid)

/-- A timeout frame starts to be sent when its request expires. -/
theorem sending_new (hk : BookStep E b e k) {u : TaskId} {t : TimeoutTask}
    (ht : k.timers.lookup u = some t) (hs : t.sending = true) :
    b.timers.lookup u = some t ∨ t.requestId ∈ b.expiring e := by
  cases hk with
  | same => exact Or.inl ht
  | admitted =>
    rcases Dict.lookup_insert_eq_some.1 ht with ⟨-, rfl⟩ | ⟨-, ht⟩
    · contradiction
    · exact Or.inl ht
  | reply | rollback | stale | timedOut => exact Or.inl (lookup_of_lookup_erase ht)
  | expire ht' hs' hp htimers =>
    rcases htimers with rfl | rfl
    · exact Or.inl (lookup_of_lookup_erase ht)
    · rcases Dict.lookup_insert_eq_some.1 ht with ⟨rfl, rfl⟩ | ⟨-, ht⟩
      · exact Or.inr (by simp [expiring, ht', hs', hp])
      · exact Or.inl ht
  | clear => exact Or.inl (lookup_timersWithout.1 ht).1

/-- What a step appends to the audit calls. -/
inductive LogStep (b b' : Broker π) : BrokerEvent π → Prop
  | routed {e : BrokerEvent π} (hlog : Logs b b') (hexp : b.expiring e = [])
      (hsent : ∀ task, e ≠ .timerSent task) : LogStep b b' e
  | expired {task : TaskId} {t : TimeoutTask} (hexp : b.expiring (.timer task) = [t.requestId])
      (hlog : b'.audit = b.audit ++ [.statusUpdate t.requestId .timeout]) :
      LogStep b b' (.timer task)
  | expiring {task : TaskId} {t : TimeoutTask} (hexp : b.expiring (.timer task) = [t.requestId])
      (hlog : b'.audit = b.audit) (hs : t.sending = true)
      (ht : b'.timers.lookup task = some t) : LogStep b b' (.timer task)
  | timedOut {task : TaskId} {t : TimeoutTask} (ht : b.timers.lookup task = some t)
      (hs : t.sending = true)
      (hlog : b'.audit = b.audit ++ [.statusUpdate t.requestId .timeout]) :
      LogStep b b' (.timerSent task)

theorem log_step_timeout {task : TaskId} {t : TimeoutTask} (ht : b.timers.lookup task = some t)
    (hs : t.sending = false) : LogStep b (b.timeoutRequest E task t) (.timer task) := by
  cases hp : b.pending.lookup t.requestId with
  | none =>
    have hexp : b.expiring (.timer task) = [] := by simp [expiring, ht, hp]
    refine .routed (logs_of_eq ?_) hexp nofun
    simp [timeoutRequest, hp, cancelTimer]
  | some tracked =>
    have hexp : b.expiring (.timer task) = [t.requestId] := by simp [expiring, ht, hs, hp]
    unfold timeoutRequest
    simp only [hp]
    split
    · exact .expired hexp rfl
    · exact .expiring (t := { t with sending := true }) hexp rfl rfl (AList.lookup_insert _)

theorem log_step (h : b.step E e = some b') : LogStep b b' e := by
  cases e with
  | connect ws s =>
    simp only [step, Option.ite_none_left_eq_some] at h
    obtain rfl := Option.some.inj h.2
    exact .routed (logs_register _ _ _) rfl (by simp)
  | frame ws raw now =>
    obtain ⟨s, hh, hd⟩ := step_frame h
    exact .routed (logs_dispatched hd) rfl (by simp)
  | resume ws r =>
    obtain ⟨hd, hh, hs⟩ := Option.bind_eq_some_iff.1 h
    exact .routed (logs_resume hs) rfl (by simp)
  | safeSend ws target =>
    obtain ⟨hd, hh, hs⟩ := Option.bind_eq_some_iff.1 h
    exact .routed (logs_of_eq (audit_safeSend hs)) rfl (by simp)
  | disconnect ws msgId now =>
    simp only [step] at h
    split at h
    · obtain rfl := Option.some.inj h
      exact .routed (logs_unregister _ _ _ _ _) rfl (by simp)
    · contradiction
  | timer task =>
    simp only [step] at h
    split at h
    · rename_i t ht
      simp only [Option.ite_none_left_eq_some] at h
      obtain rfl := Option.some.inj h.2
      exact log_step_timeout ht (by simpa using h.1)
    · contradiction
  | timerSent task =>
    simp only [step] at h
    split at h
    · rename_i t ht
      simp only [Option.ite_none_right_eq_some] at h
      obtain rfl := Option.some.inj h.2
      exact .timedOut ht h.1 rfl
    · contradiction

end Broker

end NemoClaw
