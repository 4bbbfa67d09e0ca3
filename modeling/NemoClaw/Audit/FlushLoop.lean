import NemoClaw.Lib.Machine
import NemoClaw.Audit.Models

/-! The batches of `_flush_loop` (`audit/db.py`), as a machine whose events are the batches it cuts
the queue into. A run does what its items do one at a time exactly while every batch keeps its
updates behind their inserts or, when it is refused, would have had no effect. -/

namespace NemoClaw

open Lib

/-- `DEFAULT_AUDIT_BATCH_SIZE` -/
def auditBatchSize : ℕ := 100

structure FlushState (π : Type) where
  table : List MessageRow := []
  /-- bookkeeping: the items of all batches, in the order they were queued -/
  items : List (AuditItem π) := []

variable {π : Type}

/-- One round of `_flush_loop`: a first item and up to `auditBatchSize - 1` more. -/
def FlushState.step (E : AuditEnv π) (s : FlushState π) (batch : List (AuditItem π)) :
    Option (FlushState π) :=
  if batch = [] ∨ auditBatchSize < batch.length then none
  else some { table := flushBatch E s.table batch, items := s.items ++ batch }

def flushMachine (E : AuditEnv π) : Machine (FlushState π) (List (AuditItem π)) where
  init := {}
  step := FlushState.step E

/-- The table is the one that the items make alone. -/
def FlushState.Refines (E : AuditEnv π) (s : FlushState π) : Prop :=
  s.table = applyItems E [] s.items

/-- The batch is accepted and keeps its updates in order, or is refused and has no effect item
by item either. -/
def FaithfulBatch (E : AuditEnv π) (s : FlushState π) (batch : List (AuditItem π)) : Prop :=
  messagesSchema.Faithful s.table (batch.map (AuditItem.statement E))

/-- A run of batches refines the items one at a time exactly if all its batches are faithful. -/
theorem flush_refines_iff (E : AuditEnv π) {tr : List (FlushState π × List (AuditItem π))}
    {s : FlushState π} (h : (flushMachine E).Trace tr s) :
    Machine.Always (FlushState.Refines E) tr s ↔ Machine.Guarded (FaithfulBatch E) tr := by
  apply h.always_iff_guarded
  · rfl
  · intro tr s batch s' _ hs hstep
    simp only [flushMachine, FlushState.step, Option.ite_none_left_eq_some] at hstep
    obtain rfl := Option.some.inj hstep.2
    change flushBatch E s.table batch = applyItems E [] (s.items ++ batch) ↔ _
    rw [applyItems_append, ← hs]
    exact Schema.applyBatch_eq_iff

/-! ### One message without a type -/

/-- An environment on JSON texts. -/
def jsonAudit : AuditEnv String where
  dumps := id
  now := 0

def auditedSend : NMBMessage String :=
  { op := .send, id := "m-1", fromSandbox := some "coder", toSandbox := some "orchestrator",
    type := some "task.progress", timestamp := some 1, payload := some "\x7b\x7d" }

/-- A STREAM frame needs no type; its target was offline. -/
def typelessStream : NMBMessage String :=
  { op := .stream, id := "m-2", fromSandbox := some "coder", toSandbox := some "reviewer",
    streamId := some "s-1", seq := some 0, timestamp := some 2, payload := some "\x7b\x7d" }

def mixedBatch : List (AuditItem String) :=
  [.insert auditedSend .delivered, .insert typelessStream .error]

theorem flush_refines_iff_mixedBatch : ∃ tr s, (flushMachine jsonAudit).Trace tr s ∧
    tr.map Prod.snd = [mixedBatch] ∧
      (Machine.Always (FlushState.Refines jsonAudit) tr s ↔
        Machine.Guarded (FaithfulBatch jsonAudit) tr) := by
  obtain ⟨tr, s, h, hevents, -⟩ := Machine.Trace.of_check (M := flushMachine jsonAudit)
    [mixedBatch] (p := fun _ _ => true) (by decide)
  exact ⟨tr, s, h, hevents, flush_refines_iff jsonAudit h⟩

/-- The message without a type takes the other row of its batch with it. -/
theorem clean_row_lost : ¬ ∀ tr s, (flushMachine jsonAudit).Trace tr s →
    Machine.Always (FlushState.Refines jsonAudit) tr s := by
  intro hall
  obtain ⟨tr, s, h, -, hs⟩ := Machine.Trace.of_check (M := flushMachine jsonAudit) [mixedBatch]
    (p := fun _ s => s.table.length == 0 && (applyItems jsonAudit [] s.items).length == 1)
    (by decide)
  have href : s.table = applyItems jsonAudit [] s.items := (hall tr s h).2
  simp only [Bool.and_eq_true, beq_iff_eq] at hs
  rw [href] at hs
  omega

end NemoClaw
