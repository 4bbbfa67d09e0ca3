import NemoClaw.Lib.Coroutine
import NemoClaw.Agent.ToolProtocol

/-! `execute_tool_calls` (`agent/loop.py`) with a workspace under the tools. The handlers are
coroutines on the workspace; those of concurrency-safe tools run together, those of the others one
after another behind them, and nothing but the tools decides what a handler does. -/

namespace NemoClaw

open Lib

variable {E : AgentEnv} {W : Type*}

/-- The handlers of the tools on a workspace. What a handler returns is what a tool of its kind can
return, and concurrency-safe tools do not modify the workspace. -/
structure Toolbox (E : AgentEnv) (W : Type*) where
  handler : (call : ToolCall) →
    Coroutine W { outcome : HandlerOutcome // (executeOne E call outcome).isSome = true }
  safe_readOnly : ∀ call, E.tools.isConcurrencySafe call = true → (handler call).ReadOnly

namespace Toolbox

/-- `_execute_one`: the handler, and the content of the result that it ends with. -/
def executeOne (T : Toolbox E W) (call : ToolCall) : Coroutine W String :=
  (T.handler call).map fun outcome => (NemoClaw.executeOne E call outcome.1).get outcome.2

/-- A batch of tool calls on a workspace. -/
def executeToolCalls (T : Toolbox E W) (calls : List ToolCall) (workspace : W) :
    Machine (Pool ToolCall W String) PoolEvent :=
  Pool.machine E.tools.isConcurrencySafe T.executeOne calls workspace

theorem executeOne_readOnly (T : Toolbox E W) (call : ToolCall)
    (h : E.tools.isConcurrencySafe call = true) : (T.executeOne call).ReadOnly :=
  (T.safe_readOnly call h).map _

theorem executeOne_returns (T : Toolbox E W) (call : ToolCall) : (T.executeOne call).Returns
    fun content => ∃ outcome, NemoClaw.executeOne E call outcome = some content :=
  Coroutine.Returns.map (fun outcome => ⟨outcome.1, (Option.some_get outcome.2).symm⟩) _

end Toolbox

/-- The slots of `results`. -/
def slotsOf (p : Pool ToolCall W String) : List Slot :=
  p.tasks.map fun task => (task.key, task.result)

/-- The tool messages for these calls and contents. -/
def toolMessages (E : AgentEnv) (calls : List ToolCall) (contents : List String) : List Message :=
  toolResults E (calls.zip (contents.map some))

/-- What `execute_tool_calls` returns, and the workspace it leaves. -/
def returned (E : AgentEnv) (p : Pool ToolCall W String) : Option (List Message × W) :=
  if (slotsOf p).all fun slot => slot.2.isSome then some (toolResults E (slotsOf p), p.shared)
  else none

/-- The calls of a batch one after another, in the order of the model's requests. -/
def requestedOrder (E : AgentEnv) (T : Toolbox E W) (calls : List ToolCall) (workspace : W) :
    List Message × W :=
  let run := sequential T.executeOne calls workspace
  (toolMessages E calls run.1, run.2)

/-- The calls one after another, each concurrency-safe one on the workspace that the batch finds. -/
def safeFirst (E : AgentEnv) (T : Toolbox E W) (calls : List ToolCall) (workspace : W) :
    List Message × W :=
  let run := staged E.tools.isConcurrencySafe T.executeOne workspace calls workspace
  (toolMessages E calls run.1, run.2)

/-- The call gets from the workspace at its turn what it gets from the workspace of the batch. -/
def TurnIndifferent (T : Toolbox E W) (workspace : W) (before : List ToolCall) (call : ToolCall) :
    Prop :=
  ((T.executeOne call).run workspace).1 =
    ((T.executeOne call).run (requestedOrder E T before workspace).2).1

theorem toolMessages_cons (call : ToolCall) (calls : List ToolCall) (content : String)
    (contents : List String) : toolMessages E (call :: calls) (content :: contents) =
      .tool call.id content :: toolMessages E calls contents := rfl

theorem toolMessages_inj {calls : List ToolCall} {contents contents' : List String}
    (h : contents.length = calls.length) (h' : contents'.length = calls.length)
    (heq : toolMessages E calls contents = toolMessages E calls contents') :
    contents = contents' := by
  induction calls generalizing contents contents' with
  | nil => rw [List.length_eq_zero_iff.1 h, List.length_eq_zero_iff.1 h']
  | cons call calls ih =>
    cases contents with
    | nil => simp at h
    | cons content contents =>
      cases contents' with
      | nil => simp at h'
      | cons content' contents' =>
        rw [toolMessages_cons, toolMessages_cons] at heq
        obtain ⟨hfirst, hrest⟩ := List.cons.inj heq
        obtain ⟨-, rfl⟩ := Message.tool.inj hfirst
        rw [ih (by simpa using h) (by simpa using h') hrest]

theorem slotsOf_finished {p : Pool ToolCall W String} {calls : List ToolCall}
    {contents : List String} (hkeys : p.tasks.map Task.key = calls)
    (h : p.Finished contents) : slotsOf p = calls.zip (contents.map some) := by
  rw [← h, ← hkeys, List.zip_map', slotsOf]

/-- The batch returns when all its tasks are finished. -/
theorem returned_eq_some {p : Pool ToolCall W String} {calls : List ToolCall}
    (hkeys : p.tasks.map Task.key = calls) {r : List Message × W} (h : returned E p = some r) :
    ∃ contents, p.Finished contents ∧ r = (toolMessages E calls contents, p.shared) := by
  unfold returned at h
  split at h
  · rename_i hall
    obtain ⟨contents, hfinished⟩ := p.finished_of_all fun task htask =>
      List.all_eq_true.1 hall _ (List.mem_map_of_mem htask)
    refine ⟨contents, hfinished, ?_⟩
    rw [← Option.some.inj h, slotsOf_finished hkeys hfinished, toolMessages]
  · contradiction

theorem returned_eq_none {p : Pool ToolCall W String} (h : returned E p = none) :
    ¬ ∃ contents, p.Finished contents := by
  rintro ⟨contents, hfinished⟩
  unfold returned at h
  split at h
  · contradiction
  · rename_i hall
    apply hall
    rw [slotsOf_finished rfl hfinished, List.all_eq_true]
    rintro ⟨call, content⟩ hslot
    obtain ⟨text, -, rfl⟩ := List.mem_map.1 (List.of_mem_zip hslot).2
    rfl

/-- Filling the slot of a call in the pool is what the loop does when its handler is done. -/
theorem toolReturned_of_finish {T : Toolbox E W} {calls : List ToolCall} {workspace : W}
    {tr : List (Pool ToolCall W String × PoolEvent)} {p p' : Pool ToolCall W String} {i : ℕ}
    (hrun : (T.executeToolCalls calls workspace).Trace tr p)
    (h : p.step E.tools.isConcurrencySafe (.finish i) = some p') (r : AgentRun)
    (after : AfterBatch) : ∃ outcome, ∃ r' : AgentRun,
      r.toolReturned E (slotsOf p) after i outcome = some
        (if (slotsOf p').all fun slot => slot.2.isSome then r'.batchDone E (slotsOf p') after
          else { r' with phase := .executing (slotsOf p') after }) := by
  obtain ⟨hsound, -⟩ := Pool.run_outcomes T.executeOne_readOnly T.executeOne_returns hrun
  obtain ⟨j, call, hready, ⟨_, _, _, he, _⟩ | ⟨content, hi, he, rfl⟩⟩ := Pool.step_eq_some h
  · contradiction
  · obtain rfl := PoolEvent.finish.inj he
    obtain ⟨outcome, houtcome⟩ := hsound.returns _ (List.mem_of_getElem? hi)
    have hslot : (slotsOf p)[i]? = some (call, none) := by
      rw [slotsOf, List.getElem?_map, hi]
      rfl
    have hslots : slotsOf { p with tasks := p.tasks.set i ⟨call, .done content, some content⟩ } =
        (slotsOf p).set i (call, some content) := List.map_set
    have hturn : slotReady E (slotsOf p) i call = true := by
      rw [← hready, slotReady, Pool.ready, slotsOf, List.zipIdx_map, List.all_map]
      rfl
    refine ⟨outcome, { r with
      surface := surfaceAfter E r.surface call outcome
      found := r.found ++ outcome.names }, ?_⟩
    rw [hslots]
    simp only [AgentRun.toolReturned, hslot, hturn, houtcome, ↓reduceIte, Option.map_some]

/-- Every batch comes to its end, whatever the order in which the safe handlers run. It leaves the
workspace that the requested order leaves, and returns the results that the calls give in this
order with each safe one on the workspace of the batch. -/
theorem execute_tool_calls_safeFirst (T : Toolbox E W) (calls : List ToolCall) (workspace : W)
    {tr : List (Pool ToolCall W String × PoolEvent)} {p : Pool ToolCall W String}
    (h : (T.executeToolCalls calls workspace).Trace tr p) :
    Acc (fun p' p => ∃ e, (T.executeToolCalls calls workspace).step p e = some p') p ∧
      (returned E p = none → ∃ e, ((T.executeToolCalls calls workspace).step p e).isSome = true) ∧
      ∀ messages workspace', returned E p = some (messages, workspace') →
        (messages, workspace') = safeFirst E T calls workspace ∧
          workspace' = (requestedOrder E T calls workspace).2 ∧
          (messages = (requestedOrder E T calls workspace).1 ↔
            ∀ before call after, calls = before ++ call :: after →
              E.tools.isConcurrencySafe call = true →
              TurnIndifferent T workspace before call) := by
  obtain ⟨hsound, hout⟩ := Pool.run_outcomes T.executeOne_readOnly T.executeOne_returns h
  refine ⟨(Pool.step_wf E.tools.isConcurrencySafe).apply p, ?_, ?_⟩
  · intro hnone
    exact (Pool.finished_or_step E.tools.isConcurrencySafe p).resolve_left (returned_eq_none hnone)
  · intro messages workspace' hreturned
    obtain ⟨contents, hfinished, heq⟩ := returned_eq_some hsound.keys_eq hreturned
    obtain ⟨rfl, rfl⟩ := Prod.mk.inj heq
    rw [Pool.outcomes_finished hfinished] at hout
    have hcontents : contents =
        (staged E.tools.isConcurrencySafe T.executeOne workspace calls workspace).1 := by
      rw [← hout]
    have hshared : p.shared =
        (staged E.tools.isConcurrencySafe T.executeOne workspace calls workspace).2 := by
      rw [← hout]
    refine ⟨by rw [hcontents, hshared]; rfl, ?_, ?_⟩
    · rw [hshared, staged_snd T.executeOne_readOnly]
      rfl
    · rw [hcontents]
      have hiff := staged_fst_eq_iff (w := workspace) T.executeOne_readOnly calls workspace
      rw [show (∀ before call after, calls = before ++ call :: after →
          E.tools.isConcurrencySafe call = true → TurnIndifferent T workspace before call) ↔ _
        from hiff.symm]
      constructor
      · intro hmessages
        exact toolMessages_inj (staged_length calls workspace) (sequential_length calls workspace)
          hmessages
      · intro hresults
        rw [hresults]
        rfl

/-! ### A read behind an edit -/

theorem executeOne_returned {call : ToolCall} (spec : ToolSpec)
    (h : E.tools.get call.name = some spec) (hexternal : spec.handler = .external)
    (output : String) : (executeOne E call (.returned output)).isSome = true := by
  simp [executeOne, h, hexternal]

theorem executeOne_raised (call : ToolCall) (error : String) :
    (executeOne E call (.raised error)).isSome = true := by
  simp [executeOne]

def editFile : ToolSpec where
  name := "edit_file"
  isReadOnly := false
  isConcurrencySafe := false
  displayName := "Editing file"

def fileEditor : AgentEnv :=
  { AgentRun.fileReader with tools := ⟨[AgentRun.readFile, editFile], by decide, by decide⟩ }

/-- The tools on a workspace of one file, whose new text is the argument of an edit. -/
def oneFile : Toolbox fileEditor String where
  handler call :=
    if hread : call.name = "read_file" then
      .act (fun file => file) fun file => .done ⟨.returned file,
        executeOne_returned (E := fileEditor) AgentRun.readFile (by rw [hread]; rfl) rfl file⟩
    else if hedit : call.name = "edit_file" then
      .act (fun _ => call.arguments) fun _ => .done ⟨.returned "Edited.",
        executeOne_returned (E := fileEditor) editFile (by rw [hedit]; rfl) rfl _⟩
    else .done ⟨.raised "Unknown tool", executeOne_raised call _⟩
  safe_readOnly call hsafe := by
    by_cases hread : call.name = "read_file"
    · simp [hread, Coroutine.ReadOnly]
    · by_cases hedit : call.name = "edit_file"
      · have hget : fileEditor.tools.get call.name = some editFile := by rw [hedit]; rfl
        simp [ToolRegistry.isConcurrencySafe, hget, editFile] at hsafe
      · simp [hread, hedit, Coroutine.ReadOnly]

/-- The model edits the file and reads it. -/
def editAndRead : List ToolCall := [⟨"c-1", "edit_file", "two"⟩, ⟨"c-2", "read_file", ""⟩]

/-- The batch reads the file before it edits it. -/
def readThenEdit : List PoolEvent := [.act 1, .finish 1, .act 0, .finish 0]

theorem execute_tool_calls_editAndRead : ∃ tr p messages workspace',
    (oneFile.executeToolCalls editAndRead "one").Trace tr p ∧
      returned fileEditor p = some (messages, workspace') ∧
      (messages, workspace') = safeFirst fileEditor oneFile editAndRead "one" ∧
      workspace' = (requestedOrder fileEditor oneFile editAndRead "one").2 := by
  obtain ⟨tr, p, hrun, -, hp⟩ := Machine.Trace.of_check
    (M := oneFile.executeToolCalls editAndRead "one") readThenEdit
    (p := fun _ p => (returned fileEditor p).isSome) (by decide)
  obtain ⟨⟨messages, workspace'⟩, hreturned⟩ := Option.isSome_iff_exists.1 hp
  obtain ⟨-, -, hend⟩ := execute_tool_calls_safeFirst oneFile editAndRead "one" hrun
  obtain ⟨hsafe, hworkspace, -⟩ := hend messages workspace' hreturned
  exact ⟨tr, p, messages, workspace', hrun, hreturned, hsafe, hworkspace⟩

/-- The read does not see the edit that the model requested before it. -/
theorem execute_tool_calls_not_requestedOrder : ∃ tr p,
    (oneFile.executeToolCalls editAndRead "one").Trace tr p ∧
      returned fileEditor p = some ([.tool "c-1" "Edited.", .tool "c-2" "one"], "two") ∧
      requestedOrder fileEditor oneFile editAndRead "one" =
        ([.tool "c-1" "Edited.", .tool "c-2" "two"], "two") ∧
      returned fileEditor p ≠ some (requestedOrder fileEditor oneFile editAndRead "one") := by
  obtain ⟨tr, p, hrun, -, hp⟩ := Machine.Trace.of_check
    (M := oneFile.executeToolCalls editAndRead "one") readThenEdit
    (p := fun _ p => returned fileEditor p =
      some ([.tool "c-1" "Edited.", .tool "c-2" "one"], "two")) (by decide)
  have hreturned := of_decide_eq_true hp
  refine ⟨tr, p, hrun, hreturned, by decide, ?_⟩
  rw [hreturned]
  decide

end NemoClaw
