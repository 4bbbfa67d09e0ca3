import Mathlib.Data.Int.Notation
import Mathlib.Data.List.Nodup

/-! Messages and tool calls (`models/types.py`), the configuration of an agent loop (`config.py`)
and the tool registry (`tools/registry.py`, `tools/tool_search.py`). -/

namespace NemoClaw

structure ToolCall where
  id : String
  name : String
  arguments : String
  deriving DecidableEq, Repr

/-- A message of a conversation. An assistant message without tool calls has no `tool_calls` key. -/
inductive Message
  | system (content : String)
  | user (content : String)
  | assistant (content : String) (toolCalls : List ToolCall)
  | tool (toolCallId content : String)
  deriving DecidableEq, Repr

namespace Message

def content : Message → String
  | .system content | .user content | .assistant content _ | .tool _ content => content

def isSystem : Message → Bool
  | .system _ => true
  | _ => false

def isTool : Message → Bool
  | .tool _ _ => true
  | _ => false

/-- A system or user message, or an assistant's text. -/
def isText : Message → Bool
  | .system _ | .user _ | .assistant _ [] => true
  | .assistant _ (_ :: _) | .tool _ _ => false

end Message

/-- `InferenceResponse`, without what is only logged. -/
structure InferenceResponse where
  content : String
  finishReason : String := "stop"
  toolCalls : List ToolCall := []
  deriving DecidableEq

/-- A slice `xs[:n]`; a negative bound counts from the end. -/
def sliceTo {α : Type*} (xs : List α) (n : ℤ) : List α :=
  if 0 ≤ n then xs.take n.toNat else xs.take (xs.length - n.natAbs)

def sliceText (text : String) (n : ℤ) : String := String.ofList (sliceTo text.toList n)

structure AgentLoopConfig where
  maxToolRounds : ℕ
  maxContinuationRetries : ℕ
  microCompactionChars : ℤ
  compactionThresholdChars : ℤ
  compactionMinKeep : ℤ

/-! ### Tools -/

/-- What runs for a tool: the handler of `tool_search`, or code outside the loop. -/
inductive ToolHandler
  | toolSearch
  | external
  deriving DecidableEq, Repr

/-- `ToolSpec`, without its description, its schema and its availability check. -/
structure ToolSpec where
  name : String
  handler : ToolHandler := .external
  isReadOnly : Bool := true
  isConcurrencySafe : Bool := true
  isCore : Bool := true
  displayName : String := ""
  maxResultChars : ℤ := 8000
  deriving DecidableEq, Repr

/-- The spec that `register_tool_search_tool` registers. -/
def toolSearch : ToolSpec where
  name := "tool_search"
  handler := .toolSearch
  displayName := "Searching tools"

/-- `_MAX_LIMIT` of `tool_search` -/
def maxSearchLimit : ℕ := 15

/-- The registered tools, by distinct names. The handler of `tool_search` is registered in one
way only. -/
structure ToolRegistry where
  tools : List ToolSpec
  nodup : (tools.map ToolSpec.name).Nodup
  searched : ∀ spec ∈ tools, spec.handler = .toolSearch → spec = toolSearch

namespace ToolRegistry

variable (R : ToolRegistry)

def get (name : String) : Option ToolSpec := R.tools.find? fun spec => decide (spec.name = name)

def displayName (name : String) : String :=
  match R.get name with
  | some spec => if spec.displayName = "" then "Running " ++ name else spec.displayName
  | none => "Running " ++ name

/-- The names among these that `mark_surfaced` takes: those of registered non-core tools. -/
def surfaceable (names : List String) : List String :=
  names.filter fun name => (R.get name).any fun spec => !spec.isCore

/-- `mark_surfaced` in a context with this surface. -/
def markSurfaced (surface names : List String) : List String := surface ∪ R.surfaceable names

/-- The tools that `tool_definitions` defines. -/
def toolDefinitions (surface : List String) : List ToolSpec :=
  R.tools.filter fun spec => spec.isCore || decide (spec.name ∈ surface)

/-- A registered tool that is not read-only. -/
def isWrite (call : ToolCall) : Bool := (R.get call.name).any fun spec => !spec.isReadOnly

/-- Unknown tools count as safe. -/
def isConcurrencySafe (call : ToolCall) : Bool :=
  (R.get call.name).all ToolSpec.isConcurrencySafe

variable {R}

theorem get_eq_some {name : String} {spec : ToolSpec} (h : R.get name = some spec) :
    spec ∈ R.tools ∧ spec.name = name :=
  ⟨List.mem_of_find?_eq_some h, by simpa using List.find?_some h⟩

theorem get_of_mem {spec : ToolSpec} (h : spec ∈ R.tools) : R.get spec.name = some spec := by
  cases hg : R.get spec.name with
  | none =>
    have hnone := List.find?_eq_none.1 hg spec h
    simp at hnone
  | some spec' =>
    obtain ⟨hmem, hname⟩ := get_eq_some hg
    rw [List.inj_on_of_nodup_map R.nodup hmem h hname]

/-- A non-core tool is defined exactly if it is surfaced. -/
theorem mem_toolDefinitions_iff {surface : List String} {spec : ToolSpec} (h : spec ∈ R.tools)
    (hcore : spec.isCore = false) :
    spec ∈ R.toolDefinitions surface ↔ spec.name ∈ surface := by
  simp [toolDefinitions, h, hcore]

end ToolRegistry

end NemoClaw
