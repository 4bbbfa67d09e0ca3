import NemoClaw.Lib.KeyTable
import NemoClaw.Lib.Machine
import NemoClaw.Nmb.Protocol

/-! The `tool_calls` table of the audit database (`audit/db.py`) and the ingestion of `audit.flush`
batches into it. Each row is written in a transaction of its own, and a row whose id is there
already is skipped, so it does not matter how often or in what pieces a batch is delivered. -/

namespace NemoClaw

open Lib

/-- The arguments of `AuditSink.log_tool_call`. -/
structure ToolCallArgs where
  rowId : Option String := none
  sessionId : Option String := none
  threadTs : Option String := none
  service : String
  command : String
  args : String
  operationType : OperationType
  approvalStatus : Option String := none
  approvedBy : Option String := none
  approvalTimeMs : Option ℚ := none
  exitCode : Option ℤ := none
  durationMs : ℚ
  success : Bool
  errorCode : Option String := none
  errorMessage : Option String := none
  responsePayload : String := ""
  workflowId : Option String := none
  parentSandboxId : Option String := none
  agentId : Option String := none
  agentRole : Option String := none
  deriving DecidableEq

structure ToolCallRow where
  id : String
  timestamp : ℚ
  sessionId : Option String
  threadTs : Option String
  service : String
  command : String
  args : String
  operationType : OperationType
  approvalStatus : Option String
  approvedBy : Option String
  approvalTimeMs : Option ℚ
  exitCode : Option ℤ
  durationMs : ℚ
  success : ℕ
  errorCode : Option String
  errorMessage : Option String
  responsePayload : String
  payloadSize : ℕ
  workflowId : Option String
  parentSandboxId : Option String
  agentId : Option String
  agentRole : Option String
  deriving DecidableEq

/-- The rows of `tool_calls`, under their primary key. -/
abbrev ToolCalls := KeyTable ToolCallRow.id

/-- What `log_tool_call` takes from elsewhere: `persist_payloads`, `time.time()` and
`uuid.uuid4().hex[:16]`. -/
structure LogEnv where
  persistPayloads : Bool := true
  now : ℚ
  uuid : String

def toolCallRow (E : LogEnv) (call : ToolCallArgs) : ToolCallRow where
  id := (truthy call.rowId).getD E.uuid
  timestamp := E.now
  sessionId := call.sessionId
  threadTs := call.threadTs
  service := call.service
  command := call.command
  args := call.args
  operationType := call.operationType
  approvalStatus := call.approvalStatus
  approvedBy := call.approvedBy
  approvalTimeMs := call.approvalTimeMs
  exitCode := call.exitCode
  durationMs := call.durationMs
  success := if call.success then 1 else 0
  errorCode := call.errorCode
  errorMessage := call.errorMessage
  responsePayload := if E.persistPayloads then call.responsePayload else ""
  payloadSize := call.responsePayload.utf8ByteSize
  workflowId := call.workflowId
  parentSandboxId := call.parentSandboxId
  agentId := call.agentId
  agentRole := call.agentRole

/-- `AuditDB.log_tool_call`: the table after it, and the id it returns. -/
def logToolCall (E : LogEnv) (table : ToolCalls) (call : ToolCallArgs) : ToolCalls × String :=
  let row := toolCallRow E call
  match table.insert row with
  | some table => (table, row.id)
  -- `IntegrityError`: the insert is rolled back
  | none => (table, row.id)

/-- The call that `ingest_audit_flush` makes for an item. -/
def flushCall (payload : AuditFlushPayload) (item : AuditToolCallPayload) : ToolCallArgs where
  rowId := some item.id
  sessionId := some payload.workflowId
  service := item.service
  command := item.command
  args := item.args
  operationType := item.operationType
  approvalStatus := item.approvalStatus
  approvedBy := item.approvedBy
  approvalTimeMs := item.approvalTimeMs
  exitCode := item.exitCode
  durationMs := item.durationMs
  success := item.success
  errorCode := item.errorCode
  errorMessage := item.errorMessage
  responsePayload := item.responsePayload
  workflowId := some payload.workflowId
  parentSandboxId := some payload.parentSandboxId
  agentId := some payload.agentId
  agentRole := some payload.agentRole

/-- One round of the loop of `ingest_audit_flush`. -/
def ingestItem (E : ℕ → LogEnv) (payload : AuditFlushPayload) (acc : ToolCalls × ℕ)
    (item : AuditToolCallPayload) : ToolCalls × ℕ :=
  ((logToolCall (E acc.2) acc.1 (flushCall payload item)).1, acc.2 + 1)

/-- `AuditDB.ingest_audit_flush`: the table after it, and the count it returns. `E` is what each
round finds. -/
def ingestAuditFlush (E : ℕ → LogEnv) (table : ToolCalls) (payload : AuditFlushPayload) :
    ToolCalls × ℕ :=
  payload.toolCalls.foldl (ingestItem E payload) (table, 0)

/-! ### Any number of ingests at once -/

/-- A call of `ingest_audit_flush` that is going on. -/
structure Ingest where
  payload : AuditFlushPayload
  count : ℕ := 0

structure AuditIngest where
  toolCalls : ToolCalls
  ingests : List Ingest := []

inductive IngestEvent
  | flush (payload : AuditFlushPayload)
  /-- the `i`-th ingest logs its next item -/
  | log (i : ℕ) (E : LogEnv)
  /-- the `i`-th ingest raises, and what it logged before stays -/
  | fail (i : ℕ)

namespace AuditIngest

/-- The item that an ingest has come to, with its payload. -/
def next (s : AuditIngest) (i : ℕ) : Option (AuditFlushPayload × AuditToolCallPayload) :=
  s.ingests[i]?.bind fun g => g.payload.toolCalls[g.count]?.map fun item => (g.payload, item)

def step (s : AuditIngest) : IngestEvent → Option AuditIngest
  | .flush payload => some { s with ingests := s.ingests ++ [{ payload := payload }] }
  | .log i E =>
    s.ingests[i]?.bind fun g => g.payload.toolCalls[g.count]?.map fun item =>
      { toolCalls := (logToolCall E s.toolCalls (flushCall g.payload item)).1
        ingests := s.ingests.set i { g with count := g.count + 1 } }
  | .fail i =>
    if i < s.ingests.length then some { s with ingests := s.ingests.eraseIdx i } else none

/-- The row that this step tries to write. -/
def logged (p : AuditIngest × IngestEvent) : Option ToolCallRow :=
  match p.2 with
  | .log i E => (p.1.next i).map fun q => toolCallRow E (flushCall q.1 q.2)
  | _ => none

/-- The item that this step applies. -/
def appliedItem (p : AuditIngest × IngestEvent) : Option AuditToolCallPayload :=
  match p.2 with
  | .log i _ => (p.1.next i).map Prod.snd
  | _ => none

/-- The items that a run applies, in order. -/
def applied (tr : List (AuditIngest × IngestEvent)) : List AuditToolCallPayload :=
  tr.filterMap appliedItem

end AuditIngest

def ingestMachine (table : ToolCalls) : Machine AuditIngest IngestEvent where
  init := { toolCalls := table }
  step := AuditIngest.step

/-! ### What one item does -/

theorem logToolCall_table (E : LogEnv) (table : ToolCalls) (call : ToolCallArgs) :
    (logToolCall E table call).1 = table.insertNew (toolCallRow E call) := by
  simp only [logToolCall, KeyTable.insertNew]
  cases table.insert (toolCallRow E call) <;> rfl

/-- An item keeps its id. -/
theorem toolCallRow_flushCall_id (E : LogEnv) (payload : AuditFlushPayload)
    (item : AuditToolCallPayload) : (toolCallRow E (flushCall payload item)).id = item.id := by
  have htruthy : truthy (some item.id.val) = some item.id.val := truthy_eq_some.2 ⟨rfl, item.id.2⟩
  simp only [toolCallRow, flushCall, htruthy, Option.getD_some]

/-- The rows that the rounds from the `n`-th on try to write. -/
def flushRows (E : ℕ → LogEnv) (payload : AuditFlushPayload) :
    List AuditToolCallPayload → ℕ → List ToolCallRow
  | [], _ => []
  | item :: items, n =>
    toolCallRow (E n) (flushCall payload item) :: flushRows E payload items (n + 1)

theorem flushRows_ids (E : ℕ → LogEnv) (payload : AuditFlushPayload)
    (items : List AuditToolCallPayload) (n : ℕ) :
    (flushRows E payload items n).map ToolCallRow.id = items.map fun item => item.id.val := by
  induction items generalizing n with
  | nil => rfl
  | cons item items ih =>
    rw [flushRows, List.map_cons, List.map_cons, ih, toolCallRow_flushCall_id]

theorem foldl_ingestItem (E : ℕ → LogEnv) (payload : AuditFlushPayload)
    (items : List AuditToolCallPayload) (table : ToolCalls) (n : ℕ) :
    items.foldl (ingestItem E payload) (table, n) =
      (table.insertAll (flushRows E payload items n), n + items.length) := by
  induction items generalizing table n with
  | nil => rfl
  | cons item items ih =>
    have hitem : ingestItem E payload (table, n) item =
        (table.insertNew (toolCallRow (E n) (flushCall payload item)), n + 1) := by
      rw [ingestItem, logToolCall_table]
    rw [List.foldl_cons, hitem, ih, List.length_cons]
    refine Prod.ext rfl ?_
    change n + 1 + items.length = n + (items.length + 1)
    omega

theorem ingestAuditFlush_eq (E : ℕ → LogEnv) (table : ToolCalls) (payload : AuditFlushPayload) :
    ingestAuditFlush E table payload =
      (table.insertAll (flushRows E payload payload.toolCalls 0), payload.toolCalls.length) := by
  rw [ingestAuditFlush, foldl_ingestItem, Nat.zero_add]

/-- A payload whose items are all in the table changes nothing, and counts as ingested. -/
theorem ingestAuditFlush_of_mem (E : ℕ → LogEnv) {table : ToolCalls} {payload : AuditFlushPayload}
    (h : ∀ item ∈ payload.toolCalls, item.id.val ∈ table.keys) :
    ingestAuditFlush E table payload = (table, payload.toolCalls.length) := by
  rw [ingestAuditFlush_eq, KeyTable.insertAll_of_mem]
  intro row hrow
  have hid : row.id ∈ (flushRows E payload payload.toolCalls 0).map ToolCallRow.id :=
    List.mem_map_of_mem hrow
  rw [flushRows_ids] at hid
  obtain ⟨item, hitem, heq⟩ := List.mem_map.1 hid
  exact heq ▸ h item hitem

theorem mem_keys_ingestAuditFlush (E : ℕ → LogEnv) (table : ToolCalls)
    {payload : AuditFlushPayload} {item : AuditToolCallPayload} (h : item ∈ payload.toolCalls) :
    item.id.val ∈ (ingestAuditFlush E table payload).1.keys := by
  have hid : item.id.val ∈ (flushRows E payload payload.toolCalls 0).map ToolCallRow.id := by
    rw [flushRows_ids]
    exact List.mem_map_of_mem (f := fun item : AuditToolCallPayload => item.id.val) h
  obtain ⟨row, hrow, heq⟩ := List.mem_map.1 hid
  rw [ingestAuditFlush_eq, KeyTable.mem_keys_insertAll]
  exact Or.inr ⟨row, hrow, heq⟩

namespace AuditIngest

/-- The rows that a run tries to write, in order. -/
def loggedRows (tr : List (AuditIngest × IngestEvent)) : List ToolCallRow := tr.filterMap logged

/-- A step writes at most the row that it logs. -/
theorem toolCalls_step {s s' : AuditIngest} {e : IngestEvent} (h : s.step e = some s') :
    s'.toolCalls = s.toolCalls.insertAll (logged (s, e)).toList := by
  cases e with
  | flush payload =>
    obtain rfl := Option.some.inj h
    rfl
  | log i E =>
    obtain ⟨g, hg, h⟩ := Option.bind_eq_some_iff.1 h
    obtain ⟨item, hitem, rfl⟩ := Option.map_eq_some_iff.1 h
    have hlogged : logged (s, .log i E) = some (toolCallRow E (flushCall g.payload item)) := by
      simp only [logged, next, hg, Option.bind_some, hitem, Option.map_some]
    rw [hlogged]
    exact logToolCall_table E s.toolCalls _
  | fail i =>
    simp only [step, Option.ite_none_right_eq_some] at h
    obtain rfl := Option.some.inj h.2
    rfl

theorem toolCalls_run {table : ToolCalls} {tr : List (AuditIngest × IngestEvent)} {s : AuditIngest}
    (h : (ingestMachine table).Trace tr s) : s.toolCalls = table.insertAll (loggedRows tr) := by
  induction h with
  | nil => rfl
  | @snoc tr s e s' _ he ih =>
    have hlast : loggedRows (tr ++ [(s, e)]) = loggedRows tr ++ (logged (s, e)).toList := by
      rw [loggedRows, List.filterMap_append]
      cases hl : logged (s, e) <;> simp [loggedRows, hl]
    rw [toolCalls_step he, ih, hlast, KeyTable.insertAll_append]

theorem logged_id (p : AuditIngest × IngestEvent) :
    (logged p).map ToolCallRow.id = (appliedItem p).map fun item => item.id.val := by
  obtain ⟨s, e⟩ := p
  cases e with
  | log i E =>
    simp only [logged, appliedItem]
    cases s.next i with
    | none => rfl
    | some q => exact congrArg some (toolCallRow_flushCall_id E q.1 q.2)
  | flush | fail => rfl

theorem loggedRows_ids (tr : List (AuditIngest × IngestEvent)) :
    (loggedRows tr).map ToolCallRow.id = (applied tr).map fun item => item.id.val := by
  rw [loggedRows, applied, List.map_filterMap, List.map_filterMap]
  exact List.filterMap_congr fun p _ => logged_id p

end AuditIngest

open AuditIngest

/-- However batches are delivered, cut off and replayed, each id that was applied has one row, the
one that was written first, and no other row is there but those that were. -/
theorem audit_replay_idempotent {table : ToolCalls} {tr : List (AuditIngest × IngestEvent)}
    {s : AuditIngest} (h : (ingestMachine table).Trace tr s) :
    (∀ id, id ∈ s.toolCalls.keys ↔ id ∈ table.keys ∨ ∃ item ∈ applied tr, item.id.val = id) ∧
    s.toolCalls.keys.Nodup ∧
    (∀ id, s.toolCalls.row? id =
      (table.row? id).or ((loggedRows tr).find? fun row => decide (row.id = id))) ∧
    (∀ payload : AuditFlushPayload, payload.toolCalls ⊆ applied tr →
      ∀ E, ingestAuditFlush E s.toolCalls payload = (s.toolCalls, payload.toolCalls.length)) ∧
    ∀ payload E E', ingestAuditFlush E' (ingestAuditFlush E s.toolCalls payload).1 payload =
      ingestAuditFlush E s.toolCalls payload := by
  have hrun := toolCalls_run h
  have hids : ∀ id, id ∈ s.toolCalls.keys ↔
      id ∈ table.keys ∨ ∃ item ∈ applied tr, item.id.val = id := by
    intro id
    have hmem : (∃ row ∈ loggedRows tr, row.id = id) ↔ ∃ item ∈ applied tr, item.id.val = id := by
      rw [← List.mem_map, loggedRows_ids, List.mem_map]
    rw [hrun, KeyTable.mem_keys_insertAll, hmem]
  refine ⟨hids, s.toolCalls.primaryKey, ?_, ?_, ?_⟩
  · intro id
    rw [hrun, KeyTable.row?_insertAll]
  · intro payload hp E
    exact ingestAuditFlush_of_mem E fun item hi => (hids _).2 (Or.inr ⟨item, hp hi, rfl⟩)
  · intro payload E E'
    rw [ingestAuditFlush_of_mem E' fun item hi => mem_keys_ingestAuditFlush E s.toolCalls hi,
      ingestAuditFlush_eq]

def editCall : AuditToolCallPayload where
  id := ⟨"row-1", by decide⟩
  service := "coding"
  command := ⟨"edit_file", by decide⟩
  operationType := .write
  durationMs := ⟨12, by decide⟩
  success := true

def testCall : AuditToolCallPayload where
  id := ⟨"row-2", by decide⟩
  service := "coding"
  command := ⟨"bash", by decide⟩
  operationType := .write
  durationMs := ⟨340, by decide⟩
  success := false
  errorMessage := some "exit 1"

def twoCalls : AuditFlushPayload where
  workflowId := fixBugTask.workflowId
  parentSandboxId := fixBugTask.parentSandboxId
  agentId := fixBugTask.agentId
  toolCalls := [editCall, testCall]

def atTime (now : ℚ) : LogEnv where
  now := now
  uuid := "u-1"

/-- The first ingest is cut off after one row, and the batch is delivered again. -/
def replayed : List IngestEvent :=
  [.flush twoCalls, .log 0 (atTime 1), .fail 0, .flush twoCalls, .log 0 (atTime 2),
    .log 0 (atTime 3)]

theorem audit_replay_idempotent_twoCalls : ∃ tr s, (ingestMachine .empty).Trace tr s ∧
    s.toolCalls.row? "row-1" = some (toolCallRow (atTime 1) (flushCall twoCalls editCall)) ∧
    ∀ E, ingestAuditFlush E s.toolCalls twoCalls = (s.toolCalls, 2) := by
  obtain ⟨tr, s, h, -, hcheck⟩ := Machine.Trace.of_check (M := ingestMachine .empty) replayed
    (p := fun tr _ => decide (twoCalls.toolCalls ⊆ applied tr ∧
      (loggedRows tr).find? (fun row => decide (row.id = "row-1")) =
        some (toolCallRow (atTime 1) (flushCall twoCalls editCall)))) (by decide)
  obtain ⟨hall, hfirst⟩ := of_decide_eq_true hcheck
  obtain ⟨-, -, hrow, hagain, -⟩ := audit_replay_idempotent h
  refine ⟨tr, s, h, ?_, hagain twoCalls hall⟩
  rw [hrow, hfirst]
  rfl

end NemoClaw
