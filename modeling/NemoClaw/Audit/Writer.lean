import NemoClaw.Lib.Custody
import NemoClaw.Audit.FlushLoop

/-! The background writer of the audit database (`audit/db.py`) from its start to the return of
`stop_background_writer`. One step is what `_flush_loop`, the shutdown or an enqueuing task does
between two awaits. A queued item is in the queue, in the batch that is being written, or
committed; the shutdown loses those of a batch it cancels and those queued behind its last
batch. -/

namespace NemoClaw

open Lib

/-- `DEFAULT_AUDIT_QUEUE_SIZE` -/
def auditQueueSize : ℕ := 10000

/-- What the flush task awaits. -/
inductive FlushPhase (π : Type)
  /-- `Queue.get`, which it may not have reached yet -/
  | getting
  /-- `_write_message_batch`, up to the end of its commit -/
  | writing (first : AuditItem π) (rest : List (AuditItem π))
  | checkpointing
  | done
  deriving DecidableEq

/-- What `stop_background_writer` awaits. -/
inductive StopPhase (π : Type)
  | running
  /-- the flush task, which it has cancelled -/
  | cancelling
  /-- `_write_message_batch` of `_drain_queue`, up to the end of its commit -/
  | draining (first : AuditItem π) (rest : List (AuditItem π))
  | checkpointing
  | stopped
  deriving DecidableEq

structure AuditWriter (π : Type) where
  writeQueue : List (AuditItem π) := []
  flush : FlushPhase π := .getting
  stop : StopPhase π := .running
  table : List MessageRow := []
  /-- bookkeeping: the items that were enqueued and not refused -/
  accepted : List (AuditItem π) := []
  /-- bookkeeping: the items of the committed batches -/
  committed : List (AuditItem π) := []

inductive WriterEvent (π : Type)
  | enqueue (item : AuditItem π)
  /-- the flush task has its first item and takes those behind it -/
  | take
  /-- the commit of the batch of the flush task takes effect, or a constraint refuses it -/
  | commit
  /-- the database fails on it -/
  | fail
  | checkpointed
  | stop
  /-- the flush task is cancelled; `landed` says of a batch that its commit was on its way already
  and takes effect -/
  | cancelled (landed : Bool)
  | drain
  | drainCommit
  | drainFail
  | drainCheckpointed

namespace AuditWriter

variable {π : Type}

/-- The transaction of a batch, and what is different when it commits. -/
def commitBatch (E : AuditEnv π) (s : AuditWriter π) (batch : List (AuditItem π)) :
    Option (AuditWriter π) :=
  (writeMessageBatch E s.table batch).map fun table =>
    { s with table := table, committed := s.committed ++ batch }

/-- `put_nowait`, which drops the item when the queue is full. -/
def enqueue (s : AuditWriter π) (item : AuditItem π) : AuditWriter π :=
  match s.stop with
  | .stopped => s
  | _ =>
    if auditQueueSize ≤ s.writeQueue.length then s
    else { s with writeQueue := s.writeQueue ++ [item], accepted := s.accepted ++ [item] }

/-- The end of `stop_background_writer`: the queue is given up with what it holds. -/
def close (s : AuditWriter π) : AuditWriter π := { s with writeQueue := [], stop := .stopped }

/-- One round of `_flush_loop` before its write. -/
def take (s : AuditWriter π) : Option (AuditWriter π) :=
  match s.flush, s.writeQueue with
  | .getting, first :: queue => some { s with
      flush := .writing first (queue.take (auditBatchSize - 1))
      writeQueue := queue.drop (auditBatchSize - 1) }
  | _, _ => none

def commit (E : AuditEnv π) (s : AuditWriter π) : Option (AuditWriter π) :=
  match s.flush with
  | .writing first rest => some <|
    match s.commitBatch E (first :: rest) with
    | some s => { s with flush := .checkpointing }
    | none => { s with flush := .getting }
  | _ => none

/-- The flush task ends by its cancellation. -/
def cancelled (E : AuditEnv π) (s : AuditWriter π) (landed : Bool) : Option (AuditWriter π) :=
  match s.flush with
  | .done => none
  | .getting | .checkpointing => some { s with flush := .done }
  | .writing first rest =>
    let s' := if landed then (s.commitBatch E (first :: rest)).getD s else s
    some { s' with flush := .done }

/-- `_drain_queue` up to its write. -/
def drain (s : AuditWriter π) : Option (AuditWriter π) :=
  match s.flush, s.writeQueue with
  | .done, [] => some s.close
  | .done, first :: rest => some { s with stop := .draining first rest, writeQueue := [] }
  | _, _ => none

def step (E : AuditEnv π) (s : AuditWriter π) (e : WriterEvent π) : Option (AuditWriter π) :=
  match e, s.stop with
  | .enqueue item, _ => some (s.enqueue item)
  | .take, .running => s.take
  | .commit, .running => s.commit E
  | .fail, .running =>
    match s.flush with
    | .writing _ _ => some { s with flush := .getting }
    | _ => none
  | .checkpointed, .running =>
    match s.flush with
    | .checkpointing => some { s with flush := .getting }
    | _ => none
  | .stop, .running => some { s with stop := .cancelling }
  | .cancelled landed, .cancelling => s.cancelled E landed
  | .drain, .cancelling => s.drain
  | .drainCommit, .draining first rest => some <|
    match s.commitBatch E (first :: rest) with
    | some s => { s with stop := .checkpointing }
    | none => s.close
  | .drainFail, .draining _ _ => some s.close
  | .drainCheckpointed, .checkpointing => some s.close
  | _, _ => none

end AuditWriter

def writerMachine {π : Type} (E : AuditEnv π) : Machine (AuditWriter π) (WriterEvent π) where
  init := {}
  step := AuditWriter.step E

namespace AuditWriter

variable {π : Type} {E : AuditEnv π} {s s' : AuditWriter π} {e : WriterEvent π}

/-- The batch that is being written, by the flush task or by the shutdown. -/
def inHand (s : AuditWriter π) : List (AuditItem π) :=
  (match s.flush with
    | .writing first rest => first :: rest
    | _ => []) ++
  (match s.stop with
    | .draining first rest => first :: rest
    | _ => [])

/-- The items that are committed or on their way. -/
def held (s : AuditWriter π) : List (AuditItem π) := s.committed ++ s.inHand ++ s.writeQueue

/-- The flush task is done once the shutdown is past it. -/
def Phased (s : AuditWriter π) : Prop :=
  match s.stop with
  | .running | .cancelling => True
  | .draining _ _ | .checkpointing => s.flush = .done
  | .stopped => s.flush = .done ∧ s.writeQueue = []

/-- The database does not fail, and no constraint refuses the batch that is written. -/
def DatabaseAccepts (E : AuditEnv π) (s : AuditWriter π) : WriterEvent π → Prop
  | .fail | .drainFail => False
  | .commit | .cancelled _ | .drainCommit =>
    s.inHand ≠ [] → (writeMessageBatch E s.table s.inHand).isSome = true
  | _ => True

/-- The cancellation finds no batch whose commit is not on its way, and nothing was queued behind
the last batch. -/
def KeepsItems (s : AuditWriter π) : WriterEvent π → Prop
  | .cancelled landed => ∀ first rest, s.flush = .writing first rest → landed = true
  | .drainCheckpointed => s.writeQueue = []
  | _ => True

/-- What a step can do. -/
inductive WriterStep (E : AuditEnv π) (s : AuditWriter π) : WriterEvent π → AuditWriter π → Prop
  | dropped {item} : WriterStep E s (.enqueue item) s
  | queued {item} (hstop : s.stop ≠ .stopped) : WriterStep E s (.enqueue item)
      { s with writeQueue := s.writeQueue ++ [item], accepted := s.accepted ++ [item] }
  | took {first queue} (hstop : s.stop = .running) (hflush : s.flush = .getting)
      (hqueue : s.writeQueue = first :: queue) : WriterStep E s .take
      { s with
        flush := .writing first (queue.take (auditBatchSize - 1))
        writeQueue := queue.drop (auditBatchSize - 1) }
  | committed {first rest t} (hstop : s.stop = .running) (hflush : s.flush = .writing first rest)
      (hwrite : s.commitBatch E (first :: rest) = some t) :
      WriterStep E s .commit { t with flush := .checkpointing }
  | refused {first rest} (hstop : s.stop = .running) (hflush : s.flush = .writing first rest)
      (hwrite : s.commitBatch E (first :: rest) = none) :
      WriterStep E s .commit { s with flush := .getting }
  | failed {first rest} (hstop : s.stop = .running) (hflush : s.flush = .writing first rest) :
      WriterStep E s .fail { s with flush := .getting }
  | checkpointed (hstop : s.stop = .running) (hflush : s.flush = .checkpointing) :
      WriterStep E s .checkpointed { s with flush := .getting }
  | stopping (hstop : s.stop = .running) : WriterStep E s .stop { s with stop := .cancelling }
  | idleCancelled {landed} (hstop : s.stop = .cancelling)
      (hflush : s.flush = .getting ∨ s.flush = .checkpointing) :
      WriterStep E s (.cancelled landed) { s with flush := .done }
  | landed {first rest t} (hstop : s.stop = .cancelling) (hflush : s.flush = .writing first rest)
      (hwrite : s.commitBatch E (first :: rest) = some t) :
      WriterStep E s (.cancelled true) { t with flush := .done }
  | cutOff {first rest landed} (hstop : s.stop = .cancelling)
      (hflush : s.flush = .writing first rest)
      (hlost : landed = true → s.commitBatch E (first :: rest) = none) :
      WriterStep E s (.cancelled landed) { s with flush := .done }
  | drained (hstop : s.stop = .cancelling) (hflush : s.flush = .done)
      (hqueue : s.writeQueue = []) : WriterStep E s .drain s.close
  | draining {first rest} (hstop : s.stop = .cancelling) (hflush : s.flush = .done)
      (hqueue : s.writeQueue = first :: rest) :
      WriterStep E s .drain { s with stop := .draining first rest, writeQueue := [] }
  | drainCommitted {first rest t} (hstop : s.stop = .draining first rest)
      (hwrite : s.commitBatch E (first :: rest) = some t) :
      WriterStep E s .drainCommit { t with stop := .checkpointing }
  | drainRefused {first rest} (hstop : s.stop = .draining first rest)
      (hwrite : s.commitBatch E (first :: rest) = none) : WriterStep E s .drainCommit s.close
  | drainFailed {first rest} (hstop : s.stop = .draining first rest) :
      WriterStep E s .drainFail s.close
  | closed (hstop : s.stop = .checkpointing) : WriterStep E s .drainCheckpointed s.close

theorem writer_step (hs : s.step E e = some s') : WriterStep E s e s' := by
  unfold step at hs
  split at hs
  · obtain rfl := Option.some.inj hs
    unfold enqueue
    split
    · exact .dropped
    · split_ifs
      · exact .dropped
      · exact .queued (by simp_all)
  · rename_i hstop
    unfold take at hs
    split at hs
    · obtain rfl := Option.some.inj hs
      exact .took hstop ‹_› ‹_›
    · contradiction
  · rename_i hstop
    unfold commit at hs
    split at hs
    · obtain rfl := Option.some.inj hs
      split
      · exact .committed hstop ‹_› ‹_›
      · exact .refused hstop ‹_› ‹_›
    · contradiction
  · rename_i hstop
    split at hs
    · obtain rfl := Option.some.inj hs
      exact .failed hstop ‹_›
    · contradiction
  · rename_i hstop
    split at hs
    · obtain rfl := Option.some.inj hs
      exact .checkpointed hstop ‹_›
    · contradiction
  · obtain rfl := Option.some.inj hs
    exact .stopping ‹_›
  · rename_i landed hstop
    unfold cancelled at hs
    split at hs
    · contradiction
    · obtain rfl := Option.some.inj hs
      exact .idleCancelled hstop (Or.inl ‹_›)
    · obtain rfl := Option.some.inj hs
      exact .idleCancelled hstop (Or.inr ‹_›)
    · rename_i first rest hflush
      obtain rfl := Option.some.inj hs
      cases landed with
      | false => exact .cutOff hstop hflush nofun
      | true =>
        cases hwrite : s.commitBatch E (first :: rest) with
        | none => exact .cutOff hstop hflush fun _ => hwrite
        | some t => exact .landed hstop hflush hwrite
  · rename_i hstop
    unfold drain at hs
    split at hs
    · obtain rfl := Option.some.inj hs
      exact .drained hstop ‹_› ‹_›
    · obtain rfl := Option.some.inj hs
      exact .draining hstop ‹_› ‹_›
    · contradiction
  · rename_i hstop
    obtain rfl := Option.some.inj hs
    split
    · exact .drainCommitted hstop ‹_›
    · exact .drainRefused hstop ‹_›
  · obtain rfl := Option.some.inj hs
    exact .drainFailed ‹_›
  · obtain rfl := Option.some.inj hs
    exact .closed ‹_›
  · contradiction

theorem commitBatch_eq_some {batch : List (AuditItem π)} {t : AuditWriter π}
    (h : s.commitBatch E batch = some t) :
    ∃ table, t = { s with table := table, committed := s.committed ++ batch } := by
  obtain ⟨table, -, rfl⟩ := Option.map_eq_some_iff.1 h
  exact ⟨table, rfl⟩

theorem phased_step (h : s.Phased) (hs : s.step E e = some s') : s'.Phased := by
  cases writer_step hs with
  | dropped => exact h
  | queued hstop =>
    unfold Phased at h ⊢
    cases hst : s.stop with
    | stopped => exact absurd hst hstop
    | running | cancelling => trivial
    | draining | checkpointing => simpa [hst] using h
  | took hstop | refused hstop | failed hstop | checkpointed hstop =>
    simp [Phased, hstop]
  | committed hstop hflush hwrite =>
    obtain ⟨table, rfl⟩ := commitBatch_eq_some hwrite
    simp [Phased, hstop]
  | stopping => trivial
  | idleCancelled hstop | cutOff hstop => simp [Phased, hstop]
  | landed hstop hflush hwrite =>
    obtain ⟨table, rfl⟩ := commitBatch_eq_some hwrite
    simp [Phased, hstop]
  | drained hstop hflush => exact ⟨hflush, rfl⟩
  | draining hstop hflush => exact hflush
  | drainCommitted hstop hwrite =>
    obtain ⟨table, rfl⟩ := commitBatch_eq_some hwrite
    simpa [Phased, hstop] using h
  | drainRefused hstop | drainFailed hstop | closed hstop =>
    have hdone : s.flush = .done := by simpa [Phased, hstop] using h
    exact ⟨hdone, rfl⟩

/-- A batch in hand is not refused by a database that accepts it. -/
theorem commitBatch_ne_none {batch : List (AuditItem π)}
    (hacc : s.inHand ≠ [] → (writeMessageBatch E s.table s.inHand).isSome = true)
    (hhand : s.inHand = batch) (hne : batch ≠ []) : s.commitBatch E batch ≠ none := by
  subst hhand
  obtain ⟨table, htable⟩ := Option.isSome_iff_exists.1 (hacc hne)
  simp [commitBatch, htable]

theorem flush_of_draining (h : s.Phased) {first : AuditItem π} {rest : List (AuditItem π)}
    (hstop : s.stop = .draining first rest) : s.flush = .done := by
  simpa [Phased, hstop] using h

theorem flush_of_checkpointing (h : s.Phased) (hstop : s.stop = .checkpointing) :
    s.flush = .done := by
  simpa [Phased, hstop] using h

/-- What a step does to the items in the writer's custody: it is handed some and loses some. -/
theorem custody_step (h : s.Phased) (hacc : s.DatabaseAccepts E e)
    (hs : s.step E e = some s') : ∃ new lost,
      Machine.CustodyStep accepted held s s' new lost ∧ (lost = 0 ↔ s.KeepsItems e) := by
  have hkept {t : AuditWriter π} (hk : s.KeepsItems e) (ha : t.accepted = s.accepted)
      (hh : t.held = s.held) : ∃ new lost,
        Machine.CustodyStep accepted held s t new lost ∧ (lost = 0 ↔ s.KeepsItems e) :=
    ⟨[], 0, .keep ha hh, by simp [hk]⟩
  cases writer_step hs with
  | dropped => exact hkept trivial rfl rfl
  | @queued item hstop =>
    exact ⟨[item], 0, .receive rfl (List.append_assoc _ _ _).symm, by simp [KeepsItems]⟩
  | took hstop hflush hqueue =>
    refine hkept trivial rfl ?_
    simp [held, inHand, hstop, hflush, hqueue]
  | committed hstop hflush hwrite =>
    obtain ⟨table, rfl⟩ := commitBatch_eq_some hwrite
    refine hkept trivial rfl ?_
    simp [held, inHand, hstop, hflush]
  | @refused first rest hstop hflush hwrite =>
    have hhand : s.inHand = first :: rest := by simp [inHand, hstop, hflush]
    exact absurd hwrite (commitBatch_ne_none hacc hhand (by simp))
  | failed => exact hacc.elim
  | checkpointed hstop hflush =>
    refine hkept trivial rfl ?_
    simp [held, inHand, hstop, hflush]
  | stopping hstop =>
    refine hkept trivial rfl ?_
    simp [held, inHand, hstop]
  | idleCancelled hstop hflush =>
    rcases hflush with hflush | hflush
    · refine hkept ?_ rfl ?_
      · simp [KeepsItems, hflush]
      · simp [held, inHand, hstop, hflush]
    · refine hkept ?_ rfl ?_
      · simp [KeepsItems, hflush]
      · simp [held, inHand, hstop, hflush]
  | landed hstop hflush hwrite =>
    obtain ⟨table, rfl⟩ := commitBatch_eq_some hwrite
    refine hkept (fun _ _ _ => rfl) rfl ?_
    simp [held, inHand, hstop, hflush]
  | @cutOff first rest landed hstop hflush hlost =>
    cases landed with
    | true =>
      have hhand : s.inHand = first :: rest := by simp [inHand, hstop, hflush]
      exact absurd (hlost rfl) (commitBatch_ne_none hacc hhand (by simp))
    | false =>
      refine ⟨[], (first :: rest).length, .lose rfl ?_ nofun, ?_⟩
      · simp [held, inHand, hstop, hflush]
        omega
      · simp [KeepsItems, hflush]
  | drained hstop hflush hqueue =>
    refine hkept trivial rfl ?_
    simp [held, inHand, close, hstop, hflush, hqueue]
  | draining hstop hflush hqueue =>
    refine hkept trivial rfl ?_
    simp [held, inHand, hstop, hflush, hqueue]
  | drainCommitted hstop hwrite =>
    obtain ⟨table, rfl⟩ := commitBatch_eq_some hwrite
    refine hkept trivial rfl ?_
    simp [held, inHand, hstop, flush_of_draining h hstop]
  | @drainRefused first rest hstop hwrite =>
    have hhand : s.inHand = first :: rest := by
      simp [inHand, hstop, flush_of_draining h hstop]
    exact absurd hwrite (commitBatch_ne_none hacc hhand (by simp))
  | drainFailed => exact hacc.elim
  | closed hstop =>
    have hdone := flush_of_checkpointing h hstop
    refine ⟨[], s.writeQueue.length, .lose rfl ?_ ?_, List.length_eq_zero_iff⟩
    · simp [held, inHand, close, hstop, hdone]
    · intro hlen
      simp [held, inHand, close, hstop, hdone, List.length_eq_zero_iff.1 hlen]

/-- The table is the one that a run of `_flush_loop` makes of the committed items, and the batch
in hand is one that the loop may cut next. -/
def Flushes (E : AuditEnv π) (s : AuditWriter π) : Prop :=
  s.stop = .running →
    (∃ tr f, (flushMachine E).Trace tr f ∧ f.table = s.table ∧ f.items = s.committed) ∧
      ∀ first rest, s.flush = .writing first rest → rest.length < auditBatchSize

theorem flushes_step (h : s.Flushes E) (hacc : s.DatabaseAccepts E e)
    (hs : s.step E e = some s') : s'.Flushes E := by
  intro hrun
  cases writer_step hs with
  | dropped => exact h hrun
  | queued => exact h hrun
  | took hstop hflush hqueue =>
    refine ⟨(h hstop).1, ?_⟩
    intro first rest heq
    obtain ⟨-, rfl⟩ := FlushPhase.writing.inj heq
    have hle := List.length_take_le (auditBatchSize - 1) (s.writeQueue.drop 1)
    simp only [hqueue, List.drop_succ_cons, List.drop_zero] at hle
    exact Nat.lt_of_le_of_lt hle (by decide)
  | @committed first rest t hstop hflush hwrite =>
    obtain ⟨⟨tr, f, htr, htable, hitems⟩, hsize⟩ := h hstop
    obtain ⟨table, hw, rfl⟩ := Option.map_eq_some_iff.1 hwrite
    refine ⟨⟨_, { table := table, items := s.committed ++ first :: rest },
      htr.snoc (e := first :: rest) ?_, rfl, rfl⟩, ?_⟩
    · have hlen : rest.length + 1 ≤ auditBatchSize := hsize first rest hflush
      have hcut : ¬ (first :: rest = [] ∨ auditBatchSize < (first :: rest).length) := by
        rintro (hnil | hlong)
        · contradiction
        · exact Nat.not_lt.2 hlen hlong
      change FlushState.step E f (first :: rest) = _
      unfold FlushState.step
      rw [if_neg hcut]
      simp [flushBatch, htable, hitems, hw]
    · intro _ _ hf
      contradiction
  | @refused first rest hstop hflush hwrite =>
    have hhand : s.inHand = first :: rest := by simp [inHand, hstop, hflush]
    exact absurd hwrite (commitBatch_ne_none hacc hhand (by simp))
  | failed => exact hacc.elim
  | checkpointed hstop =>
    refine ⟨(h hstop).1, ?_⟩
    intro _ _ hf
    contradiction
  | stopping => contradiction
  | idleCancelled hstop | cutOff hstop | draining hstop =>
    simp [hstop] at hrun
  | landed hstop hflush hwrite =>
    obtain ⟨table, rfl⟩ := commitBatch_eq_some hwrite
    simp [hstop] at hrun
  | drainCommitted hstop hwrite => contradiction
  | drained | drainRefused | drainFailed | closed => contradiction

/-- Until it is stopped, what the writer commits is a run of `_flush_loop`. -/
theorem writer_flushes {tr : List (AuditWriter π × WriterEvent π)}
    (h : (writerMachine E).Trace tr s) (hacc : Machine.Guarded (DatabaseAccepts E) tr) :
    s.Flushes E := by
  apply h.guarded_invariant hacc
  · intro _
    refine ⟨⟨[], {}, .nil, rfl, rfl⟩, ?_⟩
    intro _ _ hf
    contradiction
  · exact fun _ _ _ hf ha hs => flushes_step hf ha hs

instance (s : AuditWriter π) (e : WriterEvent π) : Decidable (s.DatabaseAccepts E e) := by
  cases e <;> unfold DatabaseAccepts <;> infer_instance

/-! ### A shutdown in the middle of a write -/

/-- The writer is stopped while it writes the batch of one message. -/
def stoppedInWrite : List (WriterEvent String) :=
  [.enqueue (.insert auditedSend .delivered), .take, .stop, .cancelled false, .drain]

/-- A shutdown that finds the flush task waiting and has one message to drain. -/
def stoppedIdle : List (WriterEvent String) :=
  [.enqueue (.insert auditedSend .delivered), .take, .commit, .checkpointed,
    .enqueue (.update "m-1" .timeout), .stop, .cancelled false, .drain, .drainCommit,
    .drainCheckpointed]

end AuditWriter

end NemoClaw
