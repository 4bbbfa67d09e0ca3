import NemoClaw.Nmb.Dispatch

/-! What one step of the broker can do to its request books: the pending requests, the counts,
the timeout tasks and the requests settled so far. `book_step` says it once for all steps. -/

namespace NemoClaw

open Lib

structure Books where
  pending : Dict String TrackedPending
  counts : Dict String ℕ
  timers : Dict TaskId TimeoutTask
  nextTask : TaskId
  settled : List TaskId

namespace Broker

variable {π : Type}

/-- The requests ended by a frame to their requester, in the order of the frames. -/
def settled (b : Broker π) : List TaskId := b.sent.filterMap SentFrame.settles

def books (b : Broker π) : Books :=
  ⟨b.pending, b.pendingCounts, b.timers, b.nextTask, b.settled⟩

/-- `_pending_counts` after one slot of `s` is freed. -/
def lowered (b : Broker π) (s : String) : Dict String ℕ :=
  b.pendingCounts.insert s ((b.pendingCounts.lookup s).getD 1 - 1)

/-- The timeout tasks left when `s` disconnects. -/
def timersWithout (b : Broker π) (s : String) : Dict TaskId TimeoutTask :=
  ((b.pending.entries.map Sigma.snd).filter fun t => decide (t.owner = s)).foldl
    (fun timers t => timers.erase t.timeoutTask) b.timers

theorem lookup_timersWithout {b : Broker π} {s : String} {task : TaskId} {t : TimeoutTask} :
    (b.timersWithout s).lookup task = some t ↔ b.timers.lookup task = some t ∧
      ∀ id tracked, b.pending.lookup id = some tracked → tracked.timeoutTask = task →
        tracked.owner ≠ s := by
  rw [timersWithout, Dict.lookup_foldl_erase (fun t : TrackedPending => t.timeoutTask)]
  split_ifs with hmem
  · obtain ⟨tracked, hin, htask⟩ := List.mem_map.1 hmem
    obtain ⟨hin, howner⟩ := List.mem_filter.1 hin
    obtain ⟨id, hid⟩ := Dict.mem_values.1 hin
    simp only [false_iff, not_and]
    intro _ hall
    exact hall id tracked hid htask (by simpa using howner)
  · refine ⟨fun ht => ⟨ht, ?_⟩, fun ht => ht.1⟩
    intro id tracked hid htask howner
    apply hmem
    refine List.mem_map.2 ⟨tracked, List.mem_filter.2 ⟨?_, by simpa using howner⟩, htask⟩
    exact Dict.mem_values.2 ⟨id, hid⟩

/-- The effect of a step on the books, with what the step needed to have that effect. -/
inductive BookStep (E : BrokerEnv π) (b : Broker π) : BrokerEvent π → Books → Prop
  | same (e) : BookStep E b e b.books
  | admitted {ws sid m now} (hh : b.handlers.lookup ws = some ⟨sid, .recv⟩)
      (hm : b.Admits E sid m now) : BookStep E b (.frame ws (.ok m) now) (b.tracked E sid m).books
  | reply {ws sid m now rid tracked new} (hh : b.handlers.lookup ws = some ⟨sid, .recv⟩)
      (hop : m.op = .reply) (hrid : m.replyTo = some rid)
      (hp : b.pending.lookup rid = some tracked) (hnew : List.Sublist new [tracked.timeoutTask]) :
      BookStep E b (.frame ws (.ok m) now)
        ⟨b.pending.erase rid, b.lowered tracked.owner, b.timers.erase tracked.timeoutTask,
          b.nextTask, b.settled ++ new⟩
  | rollback {ws sid m task} (hh : b.handlers.lookup ws = some ⟨sid, .requestDeliver m task⟩) :
      BookStep E b (.resume ws .connectionClosed)
        ⟨b.pending.erase m.id, b.lowered sid, b.timers.erase task, b.nextTask,
          b.settled ++ [task]⟩
  | stale {task t} (ht : b.timers.lookup task = some t) (hs : t.sending = false)
      (hp : b.pending.lookup t.requestId = none) :
      BookStep E b (.timer task)
        ⟨b.pending, b.pendingCounts, b.timers.erase task, b.nextTask, b.settled⟩
  | expire {task t tracked timers new} (ht : b.timers.lookup task = some t)
      (hs : t.sending = false) (hp : b.pending.lookup t.requestId = some tracked)
      (htimers : timers = b.timers.erase task ∨
        timers = b.timers.insert task { t with sending := true })
      (hnew : List.Sublist new [task]) :
      BookStep E b (.timer task)
        ⟨b.pending.erase t.requestId, b.lowered t.requesterId, timers, b.nextTask,
          b.settled ++ new⟩
  | timedOut {task t} (ht : b.timers.lookup task = some t) (hs : t.sending = true) :
      BookStep E b (.timerSent task)
        ⟨b.pending, b.pendingCounts, b.timers.erase task, b.nextTask, b.settled⟩
  | clear {ws sid msgId now} (hh : b.handlers.lookup ws = some ⟨sid, .recv⟩)
      (hc : b.connections.lookup sid = some ws) :
      BookStep E b (.disconnect ws msgId now)
        ⟨Dict.drop (fun t => decide (t.owner = sid)) b.pending, b.pendingCounts.erase sid,
          b.timersWithout sid, b.nextTask, b.settled⟩

/-! ### Calls that leave the books alone -/

@[simp] theorem books_await (b : Broker π) (s : String) (ws : Ws) (p : Phase π) :
    (b.await s ws p).books = b.books := rfl

@[simp] theorem books_auditOp (b : Broker π) (op : AuditOp π) : (b.auditOp op).books = b.books :=
  rfl

@[simp] theorem books_auditMsg (b : Broker π) (m : Option (NMBMessage π)) (st : DeliveryStatus) :
    (b.auditMsg m st).books = b.books := by
  cases m <;> rfl

theorem books_send (b : Broker π) (ws : Ws) (f : NMBMessage π) (k : Option TaskId) :
    (b.send ws f k).books = { b.books with settled := b.settled ++ k.toList } := by
  cases k <;> simp [books, send, settled]

@[simp] theorem books_send_none (b : Broker π) (ws : Ws) (f : NMBMessage π) :
    (b.send ws f).books = b.books := by
  rw [books_send, Option.toList_none, List.append_nil]
  rfl

@[simp] theorem books_sendAck (b : Broker π) (s : String) (ws : Ws) (i : String)
    (a : Option (NMBMessage π)) : (b.sendAck s ws i a).books = b.books := by
  simp [sendAck]

@[simp] theorem books_sendError (b : Broker π) (s : String) (ws : Ws) (i : String) (c : ErrorCode)
    (t : String) (a : Option (NMBMessage π)) : (b.sendError s ws i c t a).books = b.books := by
  simp [sendError]

/-! ### The handlers -/

theorem books_answered (b : Broker π) (rid : String) (tracked : TrackedPending) :
    (b.answered rid tracked).books = ⟨b.pending.erase rid, b.lowered tracked.owner,
      b.timers.erase tracked.timeoutTask, b.nextTask, b.settled⟩ := rfl

theorem books_dispatch_of_admits {E : BrokerEnv π} {b : Broker π} {s : String}
    {m : NMBMessage π} {now : ℚ} (h : b.Admits E s m now) (ws : Ws) :
    (b.dispatch E s ws (.ok m) now).books = (b.tracked E s m).books := by
  have hop : (stamp m s now).op = .request := h.op
  obtain ⟨hroom, target, targetWs, ht, hc⟩ := h.admissible
  have ht : truthy (stamp m s now).toSandbox = some target := ht
  simp only [dispatch, h.valid, hop, handleRequest, ht, hc, Nat.not_le.2 hroom, ite_false,
    books_await, books_send_none]
  rfl

theorem book_step_dispatched {E : BrokerEnv π} {b b' : Broker π} {s : String} {ws : Ws}
    {raw : Except String (NMBMessage π)} {now : ℚ}
    (hh : b.handlers.lookup ws = some ⟨s, .recv⟩) (hd : Dispatched E b s ws raw now b') :
    BookStep E b (.frame ws raw now) b'.books := by
  cases hd with
  | malformed | refused | offline | full =>
    rw [books_sendError]
    exact .same _
  | forwarded =>
    rw [books_await, books_send_none]
    exact .same _
  | admitted hr hm =>
    rw [books_await, books_send_none]
    exact .admitted hh hm
  | replied hr hop hrid hp =>
    rw [books_await, books_send, books_answered]
    exact .reply hh hop (truthy_eq_some.1 hrid).1 hp (List.Sublist.refl _)
  | unheard hr hop hrid hp =>
    rw [books_await, books_auditMsg, books_answered, ← List.append_nil b.settled]
    exact .reply hh hop (truthy_eq_some.1 hrid).1 hp (List.nil_sublist _)
  | subscribed | unsubscribed | unread =>
    rw [books_sendAck]
    exact .same _
  | published =>
    rw [books_await]
    exact .same _

theorem books_rollbackRequest (b : Broker π) (s : String) (ws : Ws) (m : NMBMessage π)
    (task : TaskId) : (b.rollbackRequest s ws m task).books =
      ⟨b.pending.erase m.id, b.lowered s, b.timers.erase task, b.nextTask,
        b.settled ++ [task]⟩ := by
  simp only [rollbackRequest, sendError, books_await, books_send]
  rfl

theorem book_step_resume (E : BrokerEnv π) {b b' : Broker π} {h : Handler π} {ws : Ws}
    {r : SendResult} (hh : b.handlers.lookup ws = some h)
    (hs : b.resume h.sandboxId ws r h.phase = some b') :
    BookStep E b (.resume ws r) b'.books := by
  obtain ⟨s, p⟩ := h
  cases p with
  | requestDeliver m task =>
    cases r with
    | ok =>
      obtain rfl := Option.some.inj hs
      rw [books_sendAck]
      exact .same _
    | connectionClosed =>
      obtain rfl := Option.some.inj hs
      rw [books_rollbackRequest]
      exact .rollback hh
  | publishFanout m left | shutdownFanout m left =>
    cases left with
    | nil =>
      obtain rfl := Option.some.inj hs
      simp only [books_sendAck, books_await, books_auditOp]
      exact .same _
    | cons => simp [resume] at hs
  | recv | closed => simp [resume] at hs
  | sendDeliver m | replyDeliver m | streamDeliver m =>
    obtain rfl := Option.some.inj hs
    cases r <;> simp only [books_sendAck, books_sendError, books_await, books_auditMsg] <;>
      exact .same _
  | ack a | error a =>
    obtain rfl := Option.some.inj hs
    simp only [books_await, books_auditMsg]
    exact .same _
  | logDisconnection =>
    obtain rfl := Option.some.inj hs
    exact .same _

theorem books_safeSend {b b' : Broker π} {s : String} {ws target : Ws} {p : Phase π}
    (hs : b.safeSend s ws target p = some b') : b'.books = b.books := by
  cases p with
  | publishFanout m left | shutdownFanout m left =>
    simp only [safeSend, Option.ite_none_right_eq_some] at hs
    obtain rfl := Option.some.inj hs.2
    simp
  | _ => simp [safeSend] at hs

theorem books_register (b : Broker π) (s : String) (ws : Ws) :
    (b.register s ws).books = b.books := by
  unfold register
  split <;> rfl

/-- Cancelling timeout tasks one after another changes nothing but the timers. -/
theorem foldl_cancelTimer (l : List TrackedPending) (b : Broker π) :
    l.foldl (fun b t => b.cancelTimer t.timeoutTask) b =
      { b with timers := l.foldl (fun timers t => timers.erase t.timeoutTask) b.timers } := by
  induction l generalizing b with
  | nil => rfl
  | cons t l ih => rw [List.foldl_cons, ih, List.foldl_cons]; rfl

theorem book_step_unregister (E : BrokerEnv π) {b : Broker π} {s : String} {ws : Ws}
    (hh : b.handlers.lookup ws = some ⟨s, .recv⟩) (msgId : String) (now : ℚ) :
    BookStep E b (.disconnect ws msgId now) (b.unregister E s ws msgId now).books := by
  unfold unregister
  split_ifs with hc
  · exact .same _
  · have hclear : BookStep E b (.disconnect ws msgId now) _ := .clear hh (not_not.1 hc)
    dsimp only
    rw [foldl_cancelTimer]
    split
    · rw [books_await, books_auditOp]
      exact hclear
    · rw [books_await]
      exact hclear

theorem books_timeoutRequest (E : BrokerEnv π) {b : Broker π} {t : TimeoutTask}
    {tracked : TrackedPending} (hp : b.pending.lookup t.requestId = some tracked) (task : TaskId) :
    ∃ timers new, (timers = b.timers.erase task ∨
        timers = b.timers.insert task { t with sending := true }) ∧ List.Sublist new [task] ∧
      (b.timeoutRequest E task t).books =
        ⟨b.pending.erase t.requestId, b.lowered t.requesterId, timers, b.nextTask,
          b.settled ++ new⟩ := by
  unfold timeoutRequest
  simp only [hp]
  split
  · refine ⟨b.timers.erase task, [], Or.inl rfl, List.nil_sublist _, ?_⟩
    rw [List.append_nil]
    rfl
  · refine ⟨_, [task], Or.inr rfl, List.Sublist.refl _, ?_⟩
    rw [books_send]
    rfl

theorem book_step_timeout (E : BrokerEnv π) {b : Broker π} {task : TaskId} {t : TimeoutTask}
    (ht : b.timers.lookup task = some t) (hs : t.sending = false) :
    BookStep E b (.timer task) (b.timeoutRequest E task t).books := by
  cases hp : b.pending.lookup t.requestId with
  | none =>
    simp only [timeoutRequest, hp]
    exact .stale ht hs hp
  | some tracked =>
    obtain ⟨timers, new, htimers, hnew, hbooks⟩ := books_timeoutRequest E hp task
    rw [hbooks]
    exact .expire ht hs hp htimers hnew

/-- Every step of the broker has one of the effects of `BookStep` on the books. -/
theorem book_step {E : BrokerEnv π} {b b' : Broker π} {e : BrokerEvent π}
    (h : b.step E e = some b') : BookStep E b e b'.books := by
  cases e with
  | connect ws s =>
    simp only [step, Option.ite_none_left_eq_some] at h
    obtain rfl := Option.some.inj h.2
    rw [books_register]
    exact .same _
  | frame ws raw now =>
    obtain ⟨s, hh, hd⟩ := step_frame h
    exact book_step_dispatched hh hd
  | resume ws r =>
    obtain ⟨hd, hh, hs⟩ := Option.bind_eq_some_iff.1 h
    exact book_step_resume E hh hs
  | safeSend ws target =>
    obtain ⟨hd, hh, hs⟩ := Option.bind_eq_some_iff.1 h
    rw [books_safeSend hs]
    exact .same _
  | disconnect ws msgId now =>
    simp only [step] at h
    split at h
    · obtain rfl := Option.some.inj h
      exact book_step_unregister E ‹_› msgId now
    · contradiction
  | timer task =>
    simp only [step] at h
    split at h
    · rename_i t ht
      simp only [Option.ite_none_left_eq_some] at h
      obtain rfl := Option.some.inj h.2
      exact book_step_timeout E ht (by simpa using h.1)
    · contradiction
  | timerSent task =>
    simp only [step] at h
    split at h
    · rename_i t ht
      simp only [Option.ite_none_right_eq_some] at h
      obtain rfl := Option.some.inj h.2
      exact .timedOut ht h.1
    · contradiction

/-- Who waits for a reply waited before or sends the request. -/
theorem pending_origin {E : BrokerEnv π} {b b' : Broker π} {e : BrokerEvent π}
    (h : b.step E e = some b') {rid : String} {tracked : TrackedPending}
    (ht : b'.pending.lookup rid = some tracked) :
    b.pending.lookup rid = some tracked ∨ ∃ ws m now, e = .frame ws (.ok m) now ∧
      b.handlers.lookup ws = some ⟨tracked.owner, .recv⟩ ∧ b.Admits E tracked.owner m now ∧
        m.id = rid ∧ tracked.timeoutTask = b.nextTask := by
  have hpending : b'.books.pending.lookup rid = some tracked := ht
  generalize hk : b'.books = k at hpending
  have hstep := hk ▸ book_step h
  cases hstep with
  | same => exact Or.inl hpending
  | @admitted ws sid m now hh hm =>
    rcases Dict.lookup_insert_eq_some.1 hpending with ⟨hid, htracked⟩ | ⟨-, hold⟩
    · subst htracked
      exact Or.inr ⟨ws, m, now, rfl, hh, hm, hid.symm, rfl⟩
    · exact Or.inl hold
  | reply | rollback | expire => exact Or.inl (Dict.lookup_erase_eq_some.1 hpending).2
  | stale | timedOut => exact Or.inl hpending
  | clear hh hc => exact Or.inl (Dict.lookup_drop_eq_some.1 hpending).1

end Broker

end NemoClaw
