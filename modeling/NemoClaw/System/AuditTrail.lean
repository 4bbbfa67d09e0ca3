import NemoClaw.Nmb.AuditLog
import NemoClaw.Nmb.Outcomes
import NemoClaw.Audit.FlushLoop

/-! The broker with its audit writer. The broker's audit calls queue items in their order, and
`_flush_loop` writes them in batches while the broker runs on. The row of an audited message ends
up as timed out exactly if its request expired, as long as no batch is written between the update
and the insert of a row. -/

namespace NemoClaw

open Lib

variable {π : Type}

/-- The item that an audit call queues; connections are written by the call itself. -/
def AuditOp.item? : AuditOp π → Option (AuditItem π)
  | .message msg status => some (.insert msg status)
  | .statusUpdate msgId status => some (.update msgId status)
  | .connection _ | .disconnection _ _ => none

def AuditItem.inserted? : AuditItem π → Option String
  | .insert msg _ => some msg.id
  | .update _ _ => none

def AuditItem.updated? : AuditItem π → Option String
  | .insert _ _ => none
  | .update msgId _ => some msgId

/-- The ids of the messages that the items insert. -/
def insertedIds (items : List (AuditItem π)) : List String := items.filterMap AuditItem.inserted?

/-- The ids whose status the items write. -/
def updatedIds (items : List (AuditItem π)) : List String := items.filterMap AuditItem.updated?

structure AuditTrail (π : Type) where
  broker : Broker π := {}
  flush : FlushState π := {}
  /-- bookkeeping: the ids of the requests that expired -/
  expired : List String := []

inductive TrailEvent (π : Type)
  | broker (e : BrokerEvent π)
  /-- a batch of the first `size` items that are queued -/
  | flush (size : ℕ)

namespace AuditTrail

/-- All items that were queued so far. -/
def queued (s : AuditTrail π) : List (AuditItem π) := s.broker.audit.filterMap AuditOp.item?

def batch (s : AuditTrail π) (size : ℕ) : List (AuditItem π) :=
  (s.queued.drop s.flush.items.length).take size

def step (E : BrokerEnv π) (A : AuditEnv π) (s : AuditTrail π) :
    TrailEvent π → Option (AuditTrail π)
  | .broker e => (s.broker.step E e).map fun b =>
    { s with broker := b, expired := s.expired ++ s.broker.expiring e }
  | .flush size => (s.flush.step A (s.batch size)).map fun f => { s with flush := f }

/-- All items are applied, and no timeout frame is on its way. -/
def Settled (s : AuditTrail π) : Prop :=
  s.flush.items = s.queued ∧ ∀ task t, s.broker.timers.lookup task = some t → t.sending = false

def TimedOutRow (s : AuditTrail π) (id : String) : Prop :=
  ∃ r ∈ s.flush.table, r.id = id ∧ r.deliveryStatus = .timeout

/-- An audited message has a row that says timed out exactly if its request expired. -/
def TimeoutsAudited (s : AuditTrail π) : Prop :=
  s.Settled → ∀ id ∈ insertedIds s.queued, s.TimedOutRow id ↔ id ∈ s.expired

/-- The constraints accept the rows of the batch. -/
def Accepted (A : AuditEnv π) (s : AuditTrail π) (batch : List (AuditItem π)) : Prop :=
  messagesSchema.Accepts s.flush.table
    ((batch.map (AuditItem.statement A)).filterMap TableOp.row?)

instance (A : AuditEnv π) (s : AuditTrail π) (batch : List (AuditItem π)) :
    Decidable (s.Accepted A batch) := by
  unfold Accepted
  infer_instance

/-- No update is written before the batch of its insert, none is lost with its batch, and none
with its task, whose timeout frame is being sent when the request is rolled back. -/
def Timely (A : AuditEnv π) (s : AuditTrail π) : TrailEvent π → Prop
  | .flush size =>
    (s.Accepted A (s.batch size) → ∀ id ∈ insertedIds (s.batch size),
      id ∈ updatedIds s.flush.items → id ∈ updatedIds (s.batch size)) ∧
    (¬ s.Accepted A (s.batch size) →
      (∀ r ∈ s.flush.table, r.id ∈ updatedIds (s.batch size) → r.deliveryStatus = .timeout) ∧
      ∀ id ∈ insertedIds (s.batch size), id ∈ s.expired → id ∈ s.flush.table.map MessageRow.id)
  | .broker e => s.broker.KeepsTimeout e ∧
    -- nor does a request expire whose row was lost with a batch
    ∀ id ∈ s.broker.expiring e, id ∈ insertedIds s.flush.items →
      id ∈ s.flush.table.map MessageRow.id

end AuditTrail

def trailMachine (E : BrokerEnv π) (A : AuditEnv π) :
    Machine (AuditTrail π) (TrailEvent π) where
  init := {}
  step := AuditTrail.step E A

/-! ### What is queued -/

theorem mem_insertedIds {items : List (AuditItem π)} {id : String} :
    id ∈ insertedIds items ↔ ∃ msg status, .insert msg status ∈ items ∧ msg.id = id := by
  constructor
  · intro h
    obtain ⟨item, hmem, hid⟩ := List.mem_filterMap.1 h
    cases item with
    | insert msg status => exact ⟨msg, status, hmem, Option.some.inj hid⟩
    | update => contradiction
  · rintro ⟨msg, status, hmem, rfl⟩
    exact List.mem_filterMap.2 ⟨_, hmem, rfl⟩

theorem mem_updatedIds {items : List (AuditItem π)} {id : String} :
    id ∈ updatedIds items ↔ ∃ status, .update id status ∈ items := by
  constructor
  · intro h
    obtain ⟨item, hmem, hid⟩ := List.mem_filterMap.1 h
    cases item with
    | insert => contradiction
    | update msgId status =>
      obtain rfl := Option.some.inj hid
      exact ⟨status, hmem⟩
  · rintro ⟨status, hmem⟩
    exact List.mem_filterMap.2 ⟨_, hmem, rfl⟩

/-- The updates among the items all write `timeout`, and the inserts never do. -/
def OnlyTimeouts (items : List (AuditItem π)) : Prop :=
  (∀ msg status, .insert msg status ∈ items → status ≠ .timeout) ∧
    ∀ id status, .update id status ∈ items → status = .timeout

theorem OnlyTimeouts.subset {items items' : List (AuditItem π)} (h : OnlyTimeouts items)
    (hsub : ∀ item ∈ items', item ∈ items) : OnlyTimeouts items' :=
  ⟨fun msg status hmem => h.1 msg status (hsub _ hmem),
    fun id status hmem => h.2 id status (hsub _ hmem)⟩

/-- The update that the items leave on a row. -/
def lastWritten (A : AuditEnv π) (items : List (AuditItem π)) (id : String) :
    Option DeliveryStatus :=
  Schema.written id (items.map (AuditItem.statement A))

theorem mem_of_lastWritten {A : AuditEnv π} {items : List (AuditItem π)} {id : String}
    {status : DeliveryStatus} (h : lastWritten A items id = some status) :
    .update id status ∈ items := by
  obtain ⟨item, hmem, heq⟩ := List.mem_map.1 (Schema.mem_of_written h)
  cases item with
  | insert => contradiction
  | update msgId status' =>
    obtain ⟨rfl, rfl⟩ := TableOp.update.inj heq
    exact hmem

theorem lastWritten_isSome_iff {A : AuditEnv π} {items : List (AuditItem π)} {id : String} :
    (lastWritten A items id).isSome = true ↔ id ∈ updatedIds items := by
  rw [mem_updatedIds]
  constructor
  · intro h
    obtain ⟨status, hs⟩ := Option.isSome_iff_exists.1 h
    exact ⟨status, mem_of_lastWritten hs⟩
  · rintro ⟨status, hmem⟩
    exact Schema.written_isSome_of_mem (List.mem_map_of_mem (f := AuditItem.statement A) hmem)

/-- What a batch of such items makes of a row. -/
theorem settle_timeout_iff {A : AuditEnv π} {items : List (AuditItem π)} (h : OnlyTimeouts items)
    (r : MessageRow) :
    (messagesSchema.settle (items.map (AuditItem.statement A)) r).deliveryStatus = .timeout ↔
      r.id ∈ updatedIds items ∨ r.deliveryStatus = .timeout := by
  rw [← lastWritten_isSome_iff (A := A)]
  have hset : Schema.written (messagesSchema.key r) (items.map (AuditItem.statement A)) =
      lastWritten A items r.id := rfl
  unfold Schema.settle
  rw [hset]
  cases hw : lastWritten A items r.id with
  | none => simp
  | some status => simp [messagesSchema, h.2 r.id status (mem_of_lastWritten hw)]

/-- What a broker step queues, and how it goes with the requests that it expires. -/
structure Queues (b b' : Broker π) (e : BrokerEvent π) (new : List (AuditItem π)) : Prop where
  queued : b'.audit.filterMap AuditOp.item? = b.audit.filterMap AuditOp.item? ++ new
  only : OnlyTimeouts new
  updates : ∀ id ∈ updatedIds new, id ∈ b.expiring e ∨
    ∃ task t, b.timers.lookup task = some t ∧ t.sending = true ∧ t.requestId = id
  expired : ∀ id ∈ b.expiring e, id ∈ updatedIds new ∨
    ∃ task t, b'.timers.lookup task = some t ∧ t.sending = true ∧ t.requestId = id
  sent : ∀ task t, e = .timerSent task → b.timers.lookup task = some t →
    t.requestId ∈ updatedIds new

theorem routed_items {new : List (AuditOp π)} (h : ∀ op ∈ new, op.Routed) :
    OnlyTimeouts (new.filterMap AuditOp.item?) ∧
      updatedIds (new.filterMap AuditOp.item?) = [] := by
  induction new with
  | nil => exact ⟨⟨by simp, by simp⟩, rfl⟩
  | cons op new ih =>
    obtain ⟨hop, hnew⟩ := List.forall_mem_cons.1 h
    obtain ⟨honly, hnone⟩ := ih hnew
    cases op with
    | message msg status =>
      refine ⟨⟨?_, ?_⟩, hnone⟩
      · intro msg' status' hmem
        rcases List.mem_cons.1 hmem with heq | hmem
        · obtain ⟨rfl, rfl⟩ := AuditItem.insert.inj heq
          exact hop
        · exact honly.1 msg' status' hmem
      · intro id status' hmem
        rcases List.mem_cons.1 hmem with heq | hmem
        · contradiction
        · exact honly.2 id status' hmem
    | statusUpdate => exact hop.elim
    | connection | disconnection => exact ⟨honly, hnone⟩

theorem onlyTimeouts_update (id : String) :
    OnlyTimeouts [(.update id .timeout : AuditItem π)] := by
  refine ⟨?_, ?_⟩
  · intro msg status hmem
    simp at hmem
  · intro id' status hmem
    simp only [List.mem_singleton, AuditItem.update.injEq] at hmem
    exact hmem.2

theorem queues_step {E : BrokerEnv π} {b b' : Broker π} {e : BrokerEvent π}
    (h : b.step E e = some b') : ∃ new, Queues b b' e new := by
  cases Broker.log_step h with
  | routed hlog hexp hsent =>
    obtain ⟨new, haudit, hrouted⟩ := hlog
    obtain ⟨honly, hnone⟩ := routed_items hrouted
    refine ⟨new.filterMap AuditOp.item?, ⟨?_, honly, ?_, ?_, ?_⟩⟩
    · rw [haudit, List.filterMap_append]
    · simp [hnone]
    · simp [hexp]
    · exact fun task t he => absurd he (hsent task)
  | @expired task t hexp hlog =>
    refine ⟨[.update t.requestId .timeout], ⟨?_, onlyTimeouts_update _, ?_, ?_, ?_⟩⟩
    · rw [hlog, List.filterMap_append]
      rfl
    · exact fun id hid => Or.inl (by rw [hexp]; exact hid)
    · exact fun id hid => Or.inl (by rw [hexp] at hid; exact hid)
    · intro _ _ he
      contradiction
  | @expiring task t hexp hlog hs ht =>
    refine ⟨[], ⟨?_, ⟨by simp, by simp⟩, by simp [updatedIds], ?_, ?_⟩⟩
    · rw [hlog, List.append_nil]
    · intro id hid
      rw [hexp, List.mem_singleton] at hid
      exact Or.inr ⟨task, t, ht, hs, hid.symm⟩
    · intro _ _ he
      contradiction
  | @timedOut task t ht hs hlog =>
    refine ⟨[.update t.requestId .timeout],
      ⟨?_, onlyTimeouts_update _, ?_, by simp [Broker.expiring], ?_⟩⟩
    · rw [hlog, List.filterMap_append]
      rfl
    · intro id hid
      obtain rfl : id = t.requestId := by simpa [updatedIds, AuditItem.updated?] using hid
      exact Or.inr ⟨task, t, ht, hs, rfl⟩
    · intro u t' he ht'
      obtain rfl := BrokerEvent.timerSent.inj he
      obtain rfl := Option.some.inj (ht.symm.trans ht')
      simp [updatedIds, AuditItem.updated?]

namespace AuditTrail

variable {E : BrokerEnv π} {A : AuditEnv π} {s s' : AuditTrail π}

/-- What is queued, what is flushed and what has expired so far. -/
structure Accounted (s : AuditTrail π) : Prop where
  asleep : Asleep s.broker.books
  flushed : s.flush.items <+: s.queued
  only : OnlyTimeouts s.queued
  updates : ∀ id ∈ updatedIds s.queued, id ∈ s.expired
  expired : ∀ id ∈ s.expired, id ∈ updatedIds s.queued ∨
    ∃ task t, s.broker.timers.lookup task = some t ∧ t.sending = true ∧ t.requestId = id
  sending : ∀ task t, s.broker.timers.lookup task = some t → t.sending = true →
    t.requestId ∈ s.expired
  rows : ∀ r ∈ s.flush.table, r.deliveryStatus = .timeout ↔ r.id ∈ updatedIds s.flush.items
  kept : ∀ id ∈ insertedIds s.flush.items, id ∈ s.expired →
    id ∈ s.flush.table.map MessageRow.id

theorem accounted_initial : Accounted ({} : AuditTrail π) := by
  refine ⟨Broker.asleep_initial, List.prefix_refl _, ⟨?_, ?_⟩, ?_, ?_, ?_, ?_, ?_⟩
  · simp [queued]
  · simp [queued]
  · simp [queued, updatedIds]
  · simp
  · intro task t ht
    contradiction
  · simp
  · simp

theorem onlyTimeouts_append {items new : List (AuditItem π)} (h : OnlyTimeouts items)
    (hnew : OnlyTimeouts new) : OnlyTimeouts (items ++ new) := by
  refine ⟨?_, ?_⟩
  · intro msg status hmem
    exact (List.mem_append.1 hmem).elim (h.1 msg status) (hnew.1 msg status)
  · intro id status hmem
    exact (List.mem_append.1 hmem).elim (h.2 id status) (hnew.2 id status)

theorem updatedIds_append (items new : List (AuditItem π)) :
    updatedIds (items ++ new) = updatedIds items ++ updatedIds new := List.filterMap_append

theorem insertedIds_append (items new : List (AuditItem π)) :
    insertedIds (items ++ new) = insertedIds items ++ insertedIds new := List.filterMap_append

/-- A broker step queues its items behind the others. -/
theorem accounted_broker (h : s.Accounted) {e : BrokerEvent π} {b' : Broker π}
    (hg : s.Timely A (.broker e)) (hs : s.broker.step E e = some b') :
    Accounted { s with broker := b', expired := s.expired ++ s.broker.expiring e } := by
  obtain ⟨new, hnew⟩ := queues_step hs
  obtain ⟨hkeeps, hlost⟩ := hg
  have hq : queued { s with broker := b', expired := s.expired ++ s.broker.expiring e } =
      s.queued ++ new := hnew.queued
  have hbook := Broker.book_step hs
  refine ⟨Broker.asleep_step h.asleep hbook, ?_, ?_, ?_, ?_, ?_, h.rows, ?_⟩
  · rw [hq]
    exact h.flushed.trans (List.prefix_append _ _)
  · rw [hq]
    exact onlyTimeouts_append h.only hnew.only
  · rw [hq, updatedIds_append]
    intro id hid
    rw [List.mem_append]
    rcases List.mem_append.1 hid with hid | hid
    · exact Or.inl (h.updates id hid)
    · rcases hnew.updates id hid with hid | ⟨task, t, ht, hsend, rfl⟩
      · exact Or.inr hid
      · exact Or.inl (h.sending task t ht hsend)
  · rw [hq, updatedIds_append]
    intro id hid
    rw [List.mem_append]
    rcases List.mem_append.1 hid with hid | hid
    · rcases h.expired id hid with hid | ⟨task, t, ht, hsend, rfl⟩
      · exact Or.inl (Or.inl hid)
      · rcases Broker.sending_kept h.asleep hbook hkeeps ht hsend with hkept | rfl
        · exact Or.inr ⟨task, t, hkept, hsend, rfl⟩
        · exact Or.inl (Or.inr (hnew.sent task t rfl ht))
    · rcases hnew.expired id hid with hid | hsending
      · exact Or.inl (Or.inr hid)
      · exact Or.inr hsending
  · intro task t ht hsend
    rw [List.mem_append]
    rcases Broker.sending_new hbook ht hsend with ht | hid
    · exact Or.inl (h.sending task t ht hsend)
    · exact Or.inr hid
  · intro id hid hexp
    rcases List.mem_append.1 hexp with hexp | hexp
    · exact h.kept id hid hexp
    · exact hlost id hexp hid

theorem batch_append (h : s.flush.items <+: s.queued) (size : ℕ) :
    s.flush.items ++ s.batch size <+: s.queued := by
  obtain ⟨rest, hrest⟩ := h
  have hdrop : s.queued.drop s.flush.items.length = rest := by
    rw [← hrest, List.drop_left]
  rw [batch, hdrop, ← hrest, List.prefix_append_right_inj]
  exact List.take_prefix size rest

theorem mem_rows {batch : List (AuditItem π)} {r : MessageRow} :
    r ∈ (batch.map (AuditItem.statement A)).filterMap TableOp.row? ↔
      ∃ msg status, .insert msg status ∈ batch ∧ messageRow A msg status = r := by
  constructor
  · intro h
    obtain ⟨op, hop, hrow⟩ := List.mem_filterMap.1 h
    obtain ⟨item, hmem, rfl⟩ := List.mem_map.1 hop
    cases item with
    | insert msg status => exact ⟨msg, status, hmem, Option.some.inj hrow⟩
    | update => contradiction
  · rintro ⟨msg, status, hmem, rfl⟩
    exact List.mem_filterMap.2 ⟨_, List.mem_map_of_mem hmem, rfl⟩

theorem settle_id (ops : List (TableOp String MessageRow DeliveryStatus)) (r : MessageRow) :
    (messagesSchema.settle ops r).id = r.id := messagesSchema.key_settle ops r

/-- The rows of a batch that is accepted. -/
theorem rows_accepted {items batch : List (AuditItem π)} {table : List MessageRow}
    (honly : OnlyTimeouts batch)
    (hacc : messagesSchema.Accepts table
      ((batch.map (AuditItem.statement A)).filterMap TableOp.row?))
    (hrows : ∀ r ∈ table, r.deliveryStatus = .timeout ↔ r.id ∈ updatedIds items)
    (hlate : ∀ id ∈ insertedIds batch, id ∈ updatedIds items → id ∈ updatedIds batch) :
    ∀ r ∈ flushBatch A table batch,
      r.deliveryStatus = .timeout ↔ r.id ∈ updatedIds (items ++ batch) := by
  have htable : flushBatch A table batch = _ := Schema.applyBatch_of_accepts hacc
  intro r hr
  rw [htable, List.mem_append, List.mem_map, List.mem_map] at hr
  rw [updatedIds_append, List.mem_append]
  rcases hr with ⟨r, hr, rfl⟩ | ⟨r, hr, rfl⟩
  · rw [settle_timeout_iff honly, settle_id, hrows r hr, or_comm]
  · obtain ⟨msg, status, hmem, rfl⟩ := mem_rows.1 hr
    rw [settle_timeout_iff honly, settle_id]
    have hid : (messageRow A msg status).id = msg.id := rfl
    have hstatus : (messageRow A msg status).deliveryStatus = status := rfl
    rw [hid, hstatus]
    constructor
    · rintro (h | h)
      · exact Or.inr h
      · exact absurd h (honly.1 msg status hmem)
    · rintro (h | h)
      · exact Or.inl (hlate msg.id (mem_insertedIds.2 ⟨msg, status, hmem, rfl⟩) h)
      · exact Or.inl h

/-- A batch is written to the table, or lost. -/
theorem accounted_flush (h : s.Accounted) {size : ℕ} {f : FlushState π}
    (hg : s.Timely A (.flush size)) (hs : s.flush.step A (s.batch size) = some f) :
    Accounted { s with flush := f } := by
  simp only [FlushState.step, Option.ite_none_left_eq_some] at hs
  obtain rfl := Option.some.inj hs.2
  obtain ⟨htimely, hlost⟩ := hg
  have hpre := batch_append h.flushed size
  have honly : OnlyTimeouts (s.batch size) :=
    h.only.subset fun item hmem => hpre.subset (List.mem_append_right _ hmem)
  by_cases hacc : s.Accepted A (s.batch size)
  · have htable : flushBatch A s.flush.table (s.batch size) = _ :=
      Schema.applyBatch_of_accepts hacc
    refine ⟨h.asleep, hpre, h.only, h.updates, h.expired, h.sending,
      rows_accepted honly hacc h.rows (htimely hacc), ?_⟩
    intro id hid hexp
    change id ∈ (flushBatch A s.flush.table (s.batch size)).map MessageRow.id
    rw [htable, List.map_append, List.map_map, List.map_map, List.mem_append]
    have hkey : MessageRow.id ∘ messagesSchema.settle
        ((s.batch size).map (AuditItem.statement A)) = MessageRow.id := funext (settle_id _)
    rw [hkey]
    change id ∈ insertedIds (s.flush.items ++ s.batch size) at hid
    rw [insertedIds_append] at hid
    rcases List.mem_append.1 hid with hid | hid
    · exact Or.inl (h.kept id hid hexp)
    · obtain ⟨msg, status, hmem, rfl⟩ := mem_insertedIds.1 hid
      exact Or.inr (List.mem_map.2 ⟨_, mem_rows.2 ⟨msg, status, hmem, rfl⟩, rfl⟩)
  · have htable : flushBatch A s.flush.table (s.batch size) = s.flush.table :=
      Schema.applyBatch_of_not_accepts hacc
    obtain ⟨hwritten, hinserted⟩ := hlost hacc
    refine ⟨h.asleep, hpre, h.only, h.updates, h.expired, h.sending, ?_, ?_⟩
    · intro r hr
      change r.deliveryStatus = .timeout ↔ r.id ∈ updatedIds (s.flush.items ++ s.batch size)
      change r ∈ flushBatch A s.flush.table (s.batch size) at hr
      rw [htable] at hr
      rw [updatedIds_append, List.mem_append, h.rows r hr]
      constructor
      · exact Or.inl
      · rintro (hid | hid)
        · exact hid
        · exact (h.rows r hr).1 (hwritten r hr hid)
    · intro id hid hexp
      change id ∈ (flushBatch A s.flush.table (s.batch size)).map MessageRow.id
      rw [htable]
      change id ∈ insertedIds (s.flush.items ++ s.batch size) at hid
      rw [insertedIds_append] at hid
      rcases List.mem_append.1 hid with hid | hid
      · exact h.kept id hid hexp
      · exact hinserted id hid hexp

theorem accounted_step (h : s.Accounted) {e : TrailEvent π} (hg : s.Timely A e)
    (hs : s.step E A e = some s') : s'.Accounted := by
  cases e with
  | broker e =>
    obtain ⟨b', hb, rfl⟩ := Option.map_eq_some_iff.1 hs
    exact accounted_broker h hg hb
  | flush size =>
    obtain ⟨f, hf, rfl⟩ := Option.map_eq_some_iff.1 hs
    exact accounted_flush h hg hf

theorem timeoutsAudited_of_accounted (h : s.Accounted) : s.TimeoutsAudited := by
  intro hsettled id hid
  obtain ⟨hflushed, hquiet⟩ := hsettled
  constructor
  · rintro ⟨r, hr, rfl, hstatus⟩
    apply h.updates
    rw [← hflushed]
    exact (h.rows r hr).1 hstatus
  · intro hexp
    rw [← hflushed] at hid
    obtain ⟨r, hr, rfl⟩ := List.mem_map.1 (h.kept id hid hexp)
    refine ⟨r, hr, rfl, (h.rows r hr).2 ?_⟩
    rw [hflushed]
    rcases h.expired r.id hexp with hup | ⟨task, t, ht, hsend, -⟩
    · exact hup
    · simp [hquiet task t ht] at hsend

/-- In a run of the broker with its audit writer whose steps are all timely, the audited messages
whose row says timed out are those of the requests that expired. -/
theorem timeouts_audited {tr : List (AuditTrail π × TrailEvent π)}
    (h : (trailMachine E A).Trace tr s) (hg : Machine.Guarded (Timely A) tr) :
    Machine.Always TimeoutsAudited tr s := by
  have hall : Machine.Always Accounted tr s :=
    h.always_of_guarded hg accounted_initial fun s e s' hs hge he => accounted_step hs hge he
  exact hall.imp fun _ hs => timeoutsAudited_of_accounted hs

/-! ### An update before its insert -/

/-- The target is slow to take the request; its timeout is written before its own row. -/
def slowTarget : List (TrailEvent String) :=
  [.broker (.connect 0 "a"), .broker (.connect 1 "b"),
    .broker (.frame 0 (.ok Broker.reviewRequest) 0), .broker (.timer 0), .broker (.timerSent 0),
    .flush 1, .broker (.resume 0 .ok), .broker (.resume 0 .ok), .flush 1]

/-- The request is forwarded, acknowledged and written before it times out. -/
def promptTarget : List (TrailEvent String) :=
  [.broker (.connect 0 "a"), .broker (.connect 1 "b"),
    .broker (.frame 0 (.ok Broker.reviewRequest) 0), .broker (.resume 0 .ok),
    .broker (.resume 0 .ok), .flush 1, .broker (.timer 0), .broker (.timerSent 0), .flush 1]

/-- A step that is timely and fails no forwarding. -/
def timelyStep (A : AuditEnv π) (s : AuditTrail π) : TrailEvent π → Bool
  | .broker (.resume _ .connectionClosed) => false
  | .broker e => (s.broker.expiring e).all fun id =>
    !(insertedIds s.flush.items).contains id || (s.flush.table.map MessageRow.id).contains id
  | .flush size => decide (s.Accepted A (s.batch size)) &&
    (insertedIds (s.batch size)).all fun id => !(updatedIds s.flush.items).contains id

theorem timely_of_timelyStep (s : AuditTrail π) (e : TrailEvent π)
    (h : timelyStep A s e = true) : s.Timely A e := by
  cases e with
  | flush size =>
    simp only [timelyStep, Bool.and_eq_true, decide_eq_true_eq, List.all_eq_true,
      Bool.not_eq_true', List.contains_eq_mem, decide_eq_false_iff_not] at h
    obtain ⟨hacc, hlate⟩ := h
    refine ⟨?_, fun hrefused => absurd hacc hrefused⟩
    intro _ id hid hup
    exact absurd hup (hlate id hid)
  | broker e =>
    have hkept (hall : ((s.broker.expiring e).all fun id =>
        !(insertedIds s.flush.items).contains id ||
          (s.flush.table.map MessageRow.id).contains id) = true) :
        ∀ id ∈ s.broker.expiring e, id ∈ insertedIds s.flush.items →
          id ∈ s.flush.table.map MessageRow.id := by
      intro id hexp hid
      have hor := List.all_eq_true.1 hall id hexp
      simpa [hid] using hor
    cases e with
    | resume ws r =>
      cases r with
      | ok => exact ⟨trivial, hkept h⟩
      | connectionClosed => contradiction
    | _ => exact ⟨trivial, hkept h⟩

theorem timeouts_audited_promptTarget : ∃ tr s, (trailMachine jsonText jsonAudit).Trace tr s ∧
    tr.map Prod.snd = promptTarget ∧ Machine.Always TimeoutsAudited tr s := by
  obtain ⟨tr, s, h, hevents, hg⟩ := Machine.Trace.of_guarded_check
    (M := trailMachine jsonText jsonAudit) promptTarget
    (timely_of_timelyStep (A := jsonAudit)) (by decide)
  exact ⟨tr, s, h, hevents, timeouts_audited h hg⟩

/-- The request has expired, and its row says that it was delivered. -/
theorem timeout_not_audited : ¬ ∀ tr s, (trailMachine jsonText jsonAudit).Trace tr s →
    (insertedIds s.queued).Nodup → Machine.Always TimeoutsAudited tr s := by
  intro hall
  obtain ⟨tr, s, h, -, hs⟩ := Machine.Trace.of_check (M := trailMachine jsonText jsonAudit)
    slowTarget
    (p := fun _ s => decide (s.flush.items = s.queued) && s.broker.timers.keys.isEmpty &&
      decide (insertedIds s.queued = ["m-1"]) && decide ("m-1" ∈ s.expired) &&
      s.flush.table.all fun r => decide (r.deliveryStatus ≠ .timeout)) (by decide)
  simp only [Bool.and_eq_true, decide_eq_true_eq, List.all_eq_true, List.isEmpty_iff] at hs
  obtain ⟨⟨⟨⟨hflushed, hquiet⟩, hinserted⟩, hexp⟩, hstatus⟩ := hs
  have hsettled : s.Settled := by
    refine ⟨hflushed, ?_⟩
    intro task t ht
    have hmem : task ∈ s.broker.timers.keys :=
      AList.mem_keys.1 (AList.lookup_isSome.1 (by simp [ht]))
    rw [hquiet] at hmem
    contradiction
  have hiff := (hall tr s h (by simp [hinserted])).2 hsettled "m-1" (by simp [hinserted])
  obtain ⟨r, hr, -, htimeout⟩ := hiff.2 hexp
  exact hstatus r hr htimeout

end AuditTrail

end NemoClaw
