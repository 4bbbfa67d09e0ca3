import Mathlib.Data.Rat.Defs
import NemoClaw.Lib.Dict
import NemoClaw.Lib.Machine
import NemoClaw.Orchestrator.DelegateTask

/-! The `delegations` table (`audit/models.py`) and the calls that write it (`audit/db.py`). One row
serves all iterations of a workflow, and a call sets only the columns of its own outcome, so what an
earlier outcome has left stays in the row. -/

namespace NemoClaw

open Lib

/-- The columns of `delegations`. -/
structure DelegationRow where
  workflowId : String
  startedAt : ℚ
  completedAt : Option ℚ := none
  parentSandboxId : String
  agentId : String
  workspaceRoot : String
  prompt : String
  requestedModel : Option String := none
  requestedMaxTurns : Option ℤ := none
  baseSha : Option String := none
  baseRepoUrl : Option String := none
  baseBranch : Option String := none
  status : DelegationStatus
  errorKind : Option String := none
  errorMessage : Option String := none
  recoverable : Option ℕ := none
  roundsUsed : Option ℤ := none
  toolCallsMade : Option ℤ := none
  modelUsed : Option String := none
  summary : Option String := none
  diffSize : Option ℕ := none
  deriving DecidableEq, Repr

/-- The arguments of `log_delegation_started`. -/
structure DelegationStart where
  workflowId : String
  parentSandboxId : String
  agentId : String
  workspaceRoot : String
  prompt : String
  requestedModel : Option String := none
  requestedMaxTurns : Option ℤ := none
  baseSha : Option String := none
  baseRepoUrl : Option String := none
  baseBranch : Option String := none

/-- The arguments of `log_delegation_complete`. -/
structure DelegationResult where
  workflowId : String
  roundsUsed : ℤ
  toolCallsMade : ℤ
  modelUsed : Option String
  summary : String
  diffSize : ℕ

/-- The arguments of `log_delegation_error`. -/
structure DelegationFailure where
  workflowId : String
  errorKind : String
  errorMessage : String
  recoverable : Bool

namespace DelegationRow

/-- The row that `log_delegation_started` inserts. -/
def started (start : DelegationStart) (now : ℚ) : DelegationRow where
  workflowId := start.workflowId
  startedAt := now
  parentSandboxId := start.parentSandboxId
  agentId := start.agentId
  workspaceRoot := start.workspaceRoot
  prompt := start.prompt
  requestedModel := start.requestedModel
  requestedMaxTurns := start.requestedMaxTurns
  baseSha := start.baseSha
  baseRepoUrl := start.baseRepoUrl
  baseBranch := start.baseBranch
  status := .started

def completed (row : DelegationRow) (result : DelegationResult) (now : ℚ) : DelegationRow :=
  { row with
    completedAt := some now
    status := .complete
    roundsUsed := some result.roundsUsed
    toolCallsMade := some result.toolCallsMade
    modelUsed := result.modelUsed
    summary := some result.summary
    diffSize := some result.diffSize }

def failed (row : DelegationRow) (failure : DelegationFailure) (now : ℚ) : DelegationRow :=
  { row with
    completedAt := some now
    status := .error
    errorKind := some failure.errorKind
    errorMessage := some failure.errorMessage
    recoverable := some (if failure.recoverable then 1 else 0) }

/-- No column of an error is set. -/
def NoError (row : DelegationRow) : Prop :=
  row.errorKind = none ∧ row.errorMessage = none ∧ row.recoverable = none

/-- A column of a completion is set. -/
def CarriesResult (row : DelegationRow) : Prop :=
  row.roundsUsed.isSome ∨ row.toolCallsMade.isSome ∨ row.modelUsed.isSome ∨ row.summary.isSome ∨
    row.diffSize.isSome

/-- The row is complete, with this result and this time. -/
structure Reports (row : DelegationRow) (result : DelegationResult) (now : ℚ) : Prop where
  status : row.status = .complete
  completedAt : row.completedAt = some now
  roundsUsed : row.roundsUsed = some result.roundsUsed
  toolCallsMade : row.toolCallsMade = some result.toolCallsMade
  modelUsed : row.modelUsed = result.modelUsed
  summary : row.summary = some result.summary
  diffSize : row.diffSize = some result.diffSize

variable (row : DelegationRow) (result : DelegationResult) (failure : DelegationFailure) (now : ℚ)

theorem carriesResult_completed : (row.completed result now).CarriesResult := Or.inl rfl

@[simp] theorem carriesResult_failed :
    (row.failed failure now).CarriesResult ↔ row.CarriesResult := Iff.rfl

@[simp] theorem noError_completed : (row.completed result now).NoError ↔ row.NoError := Iff.rfl

/-- A completion leaves exactly the rows that report it already. -/
theorem completed_eq_iff : row.completed result now = row ↔ row.Reports result now := by
  constructor
  · intro h
    rw [← h]
    exact ⟨rfl, rfl, rfl, rfl, rfl, rfl, rfl⟩
  · intro h
    cases row
    obtain ⟨rfl, rfl, rfl, rfl, rfl, rfl, rfl⟩ := h
    rfl

end DelegationRow

/-- A row, with the iterations of the workflow that have written it. -/
structure Delegation where
  row : DelegationRow
  /-- bookkeeping: the iterations whose completions are recorded, the last one first -/
  completions : List ℕ := []
  /-- bookkeeping: the iteration of the last error -/
  failure : Option ℕ := none

/-- The table by its primary key. -/
abbrev Delegations := Dict String Delegation

/-- A call; of a completion and an error it is known which iteration of the workflow they end. -/
inductive DelegationCall
  | started (start : DelegationStart) (now : ℚ)
  | complete (iteration : ℕ) (result : DelegationResult) (now : ℚ)
  | error (iteration : ℕ) (failure : DelegationFailure) (now : ℚ)

namespace Delegations

/-- An insert under a key that is taken raises, and changes nothing. -/
def logDelegationStarted (table : Delegations) (start : DelegationStart) (now : ℚ) : Delegations :=
  table.setDefault start.workflowId { row := .started start now }

/-- `UPDATE … WHERE workflow_id` -/
def update (table : Delegations) (workflowId : String) (f : Delegation → Delegation) :
    Delegations :=
  match table.lookup workflowId with
  | some d => table.insert workflowId (f d)
  | none => table

def logDelegationComplete (table : Delegations) (iteration : ℕ) (result : DelegationResult)
    (now : ℚ) : Delegations :=
  table.update result.workflowId fun d =>
    { d with row := d.row.completed result now, completions := iteration :: d.completions }

def logDelegationError (table : Delegations) (iteration : ℕ) (failure : DelegationFailure)
    (now : ℚ) : Delegations :=
  table.update failure.workflowId fun d =>
    { d with row := d.row.failed failure now, failure := some iteration }

def call (table : Delegations) : DelegationCall → Delegations
  | .started start now => table.logDelegationStarted start now
  | .complete iteration result now => table.logDelegationComplete iteration result now
  | .error iteration failure now => table.logDelegationError iteration failure now

end Delegations

def delegationsMachine : Machine Delegations DelegationCall where
  init := ∅
  step table c := some (table.call c)

namespace Delegation

/-- A complete row has no columns of an error, and a row with an error none of the completion of
another iteration. -/
structure Consistent (d : Delegation) : Prop where
  complete : d.row.status = .complete → d.row.NoError
  error : d.row.status = .error → d.row.CarriesResult → d.completions.head? = d.failure

/-- The row carries a result exactly if a completion is recorded. -/
def Recorded (d : Delegation) : Prop := d.row.CarriesResult ↔ d.completions ≠ []

end Delegation

namespace Delegations

def Consistent (table : Delegations) : Prop :=
  ∀ workflowId d, table.lookup workflowId = some d → d.Consistent

/-- A call that repeats the completion of an iteration changes no row. -/
def ReplayIgnored (table : Delegations) : DelegationCall → Prop
  | .complete iteration result now => ∀ d, table.lookup result.workflowId = some d →
      iteration ∈ d.completions → ∀ workflowId,
        ((table.logDelegationComplete iteration result now).lookup workflowId).map Delegation.row =
          (table.lookup workflowId).map Delegation.row
  | _ => True

/-- A completion finds no error in its row, and an error no completion of another iteration. -/
def OutcomesApart (table : Delegations) : DelegationCall → Prop
  | .started _ _ => True
  | .complete _ result _ => ∀ d, table.lookup result.workflowId = some d → d.row.NoError
  | .error iteration failure _ => ∀ d, table.lookup failure.workflowId = some d →
      ∀ last ∈ d.completions.head?, last = iteration

/-- A completion that is repeated finds the row as it would leave it. -/
def ReplayReported (table : Delegations) : DelegationCall → Prop
  | .complete iteration result now => ∀ d, table.lookup result.workflowId = some d →
      iteration ∈ d.completions → d.row.Reports result now
  | _ => True

variable {table : Delegations} {workflowId : String} {d : Delegation}

theorem update_of_lookup (f : Delegation → Delegation) (h : table.lookup workflowId = some d) :
    table.update workflowId f = table.insert workflowId (f d) := by
  rw [update, h]

theorem update_of_none (f : Delegation → Delegation) (h : table.lookup workflowId = none) :
    table.update workflowId f = table := by
  rw [update, h]

/-- What holds of all rows holds after an update exactly if it holds of the row that it writes. -/
theorem forall_update_iff {P : Delegation → Prop}
    (hP : ∀ workflowId d, table.lookup workflowId = some d → P d) (workflowId : String)
    (f : Delegation → Delegation) :
    (∀ id d, (table.update workflowId f).lookup id = some d → P d) ↔
      ∀ d, table.lookup workflowId = some d → P (f d) := by
  cases hd : table.lookup workflowId with
  | none =>
    rw [update_of_none f hd]
    exact iff_of_true hP (by simp)
  | some d =>
    rw [update_of_lookup f hd]
    constructor
    · rintro h d' ⟨⟩
      exact h workflowId (f d) (AList.lookup_insert _)
    · intro h id d' hd'
      by_cases he : id = workflowId
      · rw [he, AList.lookup_insert] at hd'
        obtain rfl := Option.some.inj hd'
        exact h d rfl
      · rw [AList.lookup_insert_ne he] at hd'
        exact hP id d' hd'

theorem forall_started {P : Delegation → Prop}
    (hP : ∀ workflowId d, table.lookup workflowId = some d → P d) {start : DelegationStart}
    {now : ℚ} (hnew : P { row := .started start now }) :
    ∀ id d, (table.logDelegationStarted start now).lookup id = some d → P d := by
  unfold logDelegationStarted Dict.setDefault
  split_ifs
  · exact hP
  · intro id d hd
    by_cases he : id = start.workflowId
    · rw [he, AList.lookup_insert] at hd
      obtain rfl := Option.some.inj hd
      exact hnew
    · rw [AList.lookup_insert_ne he] at hd
      exact hP id d hd

def Recorded (table : Delegations) : Prop :=
  ∀ workflowId d, table.lookup workflowId = some d → d.Recorded

theorem recorded_call (h : Recorded table) (c : DelegationCall) : Recorded (table.call c) := by
  cases c with
  | started start now =>
    exact forall_started h (by simp [Delegation.Recorded, DelegationRow.started,
      DelegationRow.CarriesResult])
  | complete iteration result now =>
    refine (forall_update_iff h _ _).2 fun d _ => ?_
    exact iff_of_true (DelegationRow.carriesResult_completed _ _ _) (List.cons_ne_nil _ _)
  | error iteration failure now =>
    refine (forall_update_iff h _ _).2 fun d hd => ?_
    exact h _ d hd

/-- A call keeps the rows consistent exactly if it keeps the outcomes apart. -/
theorem consistent_call_iff (hr : Recorded table) (h : Consistent table) (c : DelegationCall) :
    Consistent (table.call c) ↔ OutcomesApart table c := by
  cases c with
  | started start now =>
    refine iff_of_true (forall_started h ⟨?_, ?_⟩) trivial
    · intro hstatus
      contradiction
    · intro hstatus
      contradiction
  | complete iteration result now =>
    refine (forall_update_iff h _ _).trans (forall₂_congr fun d _ => ?_)
    constructor
    · intro hd
      exact (DelegationRow.noError_completed _ _ _).1 (hd.complete rfl)
    · intro hd
      refine ⟨fun _ => (DelegationRow.noError_completed _ _ _).2 hd, fun hstatus => ?_⟩
      contradiction
  | error iteration failure now =>
    refine (forall_update_iff h _ _).trans (forall₂_congr fun d hlookup => ?_)
    have hcarries := hr _ d hlookup
    constructor
    · intro hd last hlast
      have hne : d.completions ≠ [] := by
        intro hnil
        simp [hnil] at hlast
      have hhead := hd.error rfl (hcarries.2 hne)
      exact Option.some.inj (hlast.symm.trans hhead)
    · intro hd
      refine ⟨fun hstatus => by contradiction, fun _ hresult => ?_⟩
      obtain ⟨last, rest, hcompletions⟩ := List.exists_cons_of_ne_nil (hcarries.1 hresult)
      have hlast : last = iteration := hd last (by rw [hcompletions]; rfl)
      have hhead : d.completions.head? = some iteration := by rw [hcompletions, hlast]; rfl
      exact hhead

/-- A repeated completion changes nothing exactly if it reports what the row reports. -/
theorem replayIgnored_iff (c : DelegationCall) :
    ReplayIgnored table c ↔ ReplayReported table c := by
  cases c with
  | started start now => exact Iff.rfl
  | error iteration failure now => exact Iff.rfl
  | complete iteration result now =>
    refine forall₃_congr fun d hd _ => ?_
    rw [← DelegationRow.completed_eq_iff, logDelegationComplete, update_of_lookup _ hd]
    constructor
    · intro h
      have hrow := h result.workflowId
      rw [AList.lookup_insert, hd] at hrow
      exact Option.some.inj hrow
    · intro h id
      by_cases he : id = result.workflowId
      · rw [he, AList.lookup_insert, hd]
        exact congrArg some h
      · rw [AList.lookup_insert_ne he]

end Delegations

open Delegations

/-- The rows are consistent in every state of a run and no repeated completion changes one, exactly
if all its calls keep the outcomes apart and repeat a completion only to report the same. -/
theorem delegations_consistent_iff {tr : List (Delegations × DelegationCall)} {table : Delegations}
    (h : delegationsMachine.Trace tr table) :
    Machine.Always Consistent tr table ∧ (∀ p ∈ tr, ReplayIgnored p.1 p.2) ↔
      Machine.Guarded (fun table c => OutcomesApart table c ∧ ReplayReported table c) tr := by
  have hconsistent : Machine.Always Consistent tr table ↔ Machine.Guarded OutcomesApart tr := by
    refine h.always_iff_guarded (fun workflowId d hd => by contradiction) ?_
    intro tr table c table' htrace hc hs
    obtain rfl := Option.some.inj hs
    refine consistent_call_iff ?_ hc c
    refine htrace.invariant (I := Recorded) (fun workflowId d hd => by contradiction) ?_
    rintro table c _ hr ⟨⟩
    exact recorded_call hr c
  have hreplay : (∀ p ∈ tr, ReplayIgnored p.1 p.2) ↔ Machine.Guarded ReplayReported tr :=
    forall₂_congr fun p _ => replayIgnored_iff p.2
  rw [hconsistent, hreplay]
  exact forall₂_and.symm

/-! ### An error and then a completion -/

def writeReport : DelegationStart where
  workflowId := "wf-1"
  parentSandboxId := "orchestrator"
  agentId := "coding-1"
  workspaceRoot := "/sandbox/wf-1"
  prompt := "Write the report."

def reportWritten : DelegationResult where
  workflowId := "wf-1"
  roundsUsed := 4
  toolCallsMade := 12
  modelUsed := none
  summary := "Wrote it."
  diffSize := 2048

def tooManyTurns : DelegationFailure where
  workflowId := "wf-1"
  errorKind := "max_turns_exceeded"
  errorMessage := "The agent has used all its turns."
  recoverable := true

/-- The second iteration completes what the first has not. -/
def secondIteration : List DelegationCall :=
  [.started writeReport 0, .error 1 tooManyTurns 10, .complete 2 reportWritten 20]

theorem delegations_consistent_iff_secondIteration : ∃ tr table,
    delegationsMachine.Trace tr table ∧ tr.map Prod.snd = secondIteration ∧
      (Machine.Always Consistent tr table ∧ (∀ p ∈ tr, ReplayIgnored p.1 p.2) ↔
        Machine.Guarded (fun table c => OutcomesApart table c ∧ ReplayReported table c) tr) := by
  obtain ⟨tr, table, h, hcalls, -⟩ := Machine.Trace.of_check (M := delegationsMachine)
    secondIteration (p := fun _ _ => true) (by decide)
  exact ⟨tr, table, h, hcalls, delegations_consistent_iff h⟩

/-- The row of the second iteration is complete and has the error of the first. -/
theorem complete_with_error : ¬ ∀ tr table, delegationsMachine.Trace tr table →
    Consistent table := by
  intro hall
  obtain ⟨tr, table, h, -, hcheck⟩ := Machine.Trace.of_check (M := delegationsMachine)
    secondIteration (p := fun _ table => (table.lookup "wf-1").any fun d : Delegation =>
      decide (d.row.status = .complete ∧ d.row.recoverable = some 1)) (by decide)
  obtain ⟨d, hd, hrow⟩ := (Option.any_eq_true _ _).1 hcheck
  obtain ⟨hstatus, hrecoverable⟩ := of_decide_eq_true hrow
  have hnone := ((hall tr table h "wf-1" d hd).complete hstatus).2.2
  rw [hrecoverable] at hnone
  contradiction

end NemoClaw
