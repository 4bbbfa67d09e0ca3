import NemoClaw.Lib.Machine
import NemoClaw.Agent.Compaction

/-! `AgentLoop.run` and `execute_tool_calls` (`agent/loop.py`) as an event machine. One step is what
the loop does between two awaits: the backend answers a request, or the handler of a tool call
returns or raises. The backend and the handlers may answer anything; calls of concurrency-safe tools
return in any order, the others run one after another behind them. -/

namespace NemoClaw

open Lib

/-- `PendingApproval` -/
structure PendingApproval where
  toolCalls : List ToolCall
  workingMessages : List Message
  assistantMessage : Message
  requestId : String
  description : String
  originalUserText : String := ""
  surfacedTools : List String := []
  deriving DecidableEq

structure AgentLoopResult where
  content : String
  toolCallsMade : ℕ
  rounds : ℕ
  hitSafetyLimit : Bool
  workingMessages : List Message
  deriving DecidableEq

/-- A tool call with the content of its result, once there is one. -/
abbrev Slot := ToolCall × Option String

/-- What follows a batch of tool calls: the next round, or the run of an approval. -/
inductive AfterBatch
  | nextRound
  | resume (surfacedTools : List String)
  deriving DecidableEq

/-- What the loop awaits, or how it ended. -/
inductive RunPhase
  /-- the summary of `compact` -/
  | summarizing
  /-- the answer to the request of the round -/
  | completing
  /-- the answer to a request of `_continue_truncated` -/
  | continuing (working : List Message) (chunks : List String) (left : ℕ)
  | executing (slots : List Slot) (after : AfterBatch)
  | returned (result : AgentLoopResult)
  /-- by a `WriteApprovalError` -/
  | blocked (pending : PendingApproval)
  | raised
  deriving DecidableEq

structure AgentRun where
  requestId : String
  working : List Message
  /-- the surface in the context of the task that runs the loop -/
  surface : List String
  round : ℕ := 0
  totalToolCalls : ℕ := 0
  phase : RunPhase
  /-- bookkeeping: the argument `pre_surfaced_tools` -/
  preSurfaced : List String := []
  /-- bookkeeping: the names that `tool_search` has returned in this run -/
  found : List String := []
  deriving DecidableEq

/-- What becomes of the handler of a tool call. -/
inductive HandlerOutcome
  | returned (output : String)
  /-- `tool_search` returns these names -/
  | found (names : List String) (output : String)
  | raised (error : String)
  deriving DecidableEq

inductive RunEvent
  | answered (response : Except String InferenceResponse)
  /-- the handler of the `i`-th call of the batch is done -/
  | toolReturned (i : ℕ) (outcome : HandlerOutcome)

/-! ### Helpers of the loop -/

def continuationPrompt : String :=
  "Resume directly, no apology, no recap. " ++
    "Pick up mid-thought. Break remaining work into smaller pieces."

def emptyResponseFallback : String :=
  "I wasn't able to generate a response. Could you rephrase?"

/-- The content that `repair_response` leaves. -/
def repairResponse (E : AgentEnv) (response : InferenceResponse) : String :=
  if E.blank response.content then emptyResponseFallback
  else if response.finishReason = "length" then response.content
  else if response.finishReason = "content_filter" then
    "My response was filtered. Could you rephrase your request?"
  else response.content

/-- `_truncate` of the registry -/
def truncateOutput (text : String) (limit : ℤ) : String :=
  if text.length ≤ limit then text
  else sliceText text limit ++ "\n... (truncated, " ++ toString (text.length - limit) ++
    " chars omitted)"

/-- `_get_write_tool_calls` -/
def getWriteToolCalls (E : AgentEnv) (calls : List ToolCall) : List ToolCall :=
  calls.filter E.tools.isWrite

/-- `_needs_write_approval` -/
def needsWriteApproval (E : AgentEnv) (writeCalls : List ToolCall) : Bool :=
  writeCalls.any fun call => !E.approved call

def writeDescriptionLine (item : String × String) : String :=
  "  • " ++ item.1 ++ ": " ++
    if 200 < item.2.length then sliceText item.2 200 ++ "…" else item.2

/-- One call of `_format_write_description`, which raises on arguments that are not an object. -/
def describeWrite (E : AgentEnv) (call : ToolCall) : Option String :=
  (E.writeArguments call.arguments).map fun items =>
    "\n".intercalate
      (("*" ++ E.tools.displayName call.name ++ "*") :: items.map writeDescriptionLine)

/-- `_format_write_description` -/
def formatWriteDescription (E : AgentEnv) (writeCalls : List ToolCall) : Option String :=
  (writeCalls.mapM (describeWrite E)).map "\n\n".intercalate

/-- The message for a filled slot, or the one that `_synthesize_missing_tool_result` makes up. -/
def toolMessage (E : AgentEnv) (slot : Slot) : Message :=
  .tool slot.1.id (slot.2.getD
    (E.errorPayload "Internal error: tool dispatch produced no result" slot.1.name))

/-- The result of `_execute_one`, when the handler of the call can end this way. -/
def executeOne (E : AgentEnv) (call : ToolCall) (outcome : HandlerOutcome) : Option String :=
  match E.tools.get call.name, outcome with
  | _, .raised error => some (E.errorPayload error call.name)
  | some spec, .returned output =>
    if spec.handler = .external then some (truncateOutput output spec.maxResultChars) else none
  | some spec, .found names output =>
    if spec.handler = .toolSearch ∧ E.tools.surfaceable names = names ∧
        names.length ≤ maxSearchLimit then
      some (truncateOutput output spec.maxResultChars)
    else none
  | none, _ => none

/-- The names that a handler returns as found. -/
def HandlerOutcome.names : HandlerOutcome → List String
  | .found names _ => names
  | .returned _ | .raised _ => []

/-- The surface of the loop after a handler. The tasks of `asyncio.gather` run in copies of the
context, so what the handler of a safe tool marks stays in its copy. -/
def surfaceAfter (E : AgentEnv) (surface : List String) (call : ToolCall)
    (outcome : HandlerOutcome) : List String :=
  if E.tools.isConcurrencySafe call then surface
  else E.tools.markSurfaced surface outcome.names

/-- The call of the slot is being executed, if it is not done: a safe one from the start, another
one when all slots before it in the order of execution are done. -/
def slotReady (E : AgentEnv) (slots : List Slot) (i : ℕ) (call : ToolCall) : Bool :=
  E.tools.isConcurrencySafe call ||
    slots.zipIdx.all fun slot =>
      slot.1.2.isSome || (!E.tools.isConcurrencySafe slot.1.1 && decide (i ≤ slot.2))

/-- The results of `execute_tool_calls`, one for each call and in their order. -/
def toolResults (E : AgentEnv) (slots : List Slot) : List Message := slots.map (toolMessage E)

namespace AgentRun

def safetyLimitContent : String :=
  "I've been working on your request but reached the maximum number " ++
    "of tool calls. Here's what I've gathered so far — please ask a " ++
      "follow-up question if you need more."

/-- The loop from the head of a round to its first await, or its end. -/
def startRound (E : AgentEnv) (r : AgentRun) : AgentRun :=
  if r.round < E.config.maxToolRounds then
    let working := truncateToolResults E r.working
    { r with
      working := working
      phase := if shouldCompact E working ∧ (split E working).isSome then .summarizing
        else .completing }
  else
    let result : AgentLoopResult :=
      { content := safetyLimitContent
        toolCallsMade := r.totalToolCalls
        rounds := E.config.maxToolRounds
        hitSafetyLimit := true
        workingMessages := r.working }
    { r with phase := .returned result }

/-- `run` up to its first await. -/
def start (E : AgentEnv) (requestId : String) (messages : List Message)
    (preSurfaced : List String) : AgentRun :=
  startRound E
    { requestId := requestId
      working := messages
      surface := E.tools.markSurfaced [] preSurfaced
      phase := .completing
      preSurfaced := preSurfaced }

/-- The result of a run that ends with this text. -/
def finish (r : AgentRun) (content : String) : AgentRun :=
  let result : AgentLoopResult :=
    { content := content
      toolCallsMade := r.totalToolCalls
      rounds := r.round + 1
      hitSafetyLimit := false
      workingMessages := r.working }
  { r with phase := .returned result }

/-- `_continue_truncated` up to its next await, with the last partial answer in `working`. -/
def continueTruncated (r : AgentRun) (working : List Message) (chunks : List String) :
    ℕ → AgentRun
  | 0 => r.finish (String.join chunks)
  | left + 1 =>
    { r with phase := .continuing (working ++ [.user continuationPrompt]) chunks left }

/-- Start a batch of tool calls behind the assistant message that requests them. -/
def execute (r : AgentRun) (assistant : Message) (calls : List ToolCall) (after : AfterBatch) :
    AgentRun :=
  { r with
    working := r.working ++ [assistant]
    phase := .executing (calls.map fun call => (call, none)) after }

/-- A round after its answer. -/
def completed (E : AgentEnv) (r : AgentRun) (response : InferenceResponse) : AgentRun :=
  if response.toolCalls = [] then
    if response.finishReason = "length" then
      r.continueTruncated (r.working ++ [.assistant response.content []]) [response.content]
        E.config.maxContinuationRetries
    else r.finish (repairResponse E response)
  else
    let assistant := Message.assistant response.content response.toolCalls
    let writeCalls := getWriteToolCalls E response.toolCalls
    if needsWriteApproval E writeCalls then
      match formatWriteDescription E writeCalls with
      | none => { r with phase := .raised }
      | some description =>
        let pending : PendingApproval :=
          { toolCalls := response.toolCalls
            workingMessages := r.working
            assistantMessage := assistant
            requestId := r.requestId
            description := description
            surfacedTools := r.surface }
        { r with phase := .blocked pending }
    else r.execute assistant response.toolCalls .nextRound

def continued (r : AgentRun) (working : List Message) (chunks : List String) (left : ℕ)
    (response : InferenceResponse) : AgentRun :=
  if response.finishReason = "length" then
    r.continueTruncated (working ++ [.assistant response.content []])
      (chunks ++ [response.content]) left
  else r.finish (String.join (chunks ++ [response.content]))

/-- The loop after the last result of a batch. -/
def batchDone (E : AgentEnv) (r : AgentRun) (slots : List Slot) : AfterBatch → AgentRun
  | .nextRound => startRound E { r with
      working := r.working ++ toolResults E slots
      round := r.round + 1
      totalToolCalls := r.totalToolCalls + slots.length }
  | .resume surfacedTools =>
    start E r.requestId (r.working ++ toolResults E slots) surfacedTools

/-- The result of the `i`-th call of a batch is there. -/
def toolReturned (E : AgentEnv) (r : AgentRun) (slots : List Slot) (after : AfterBatch) (i : ℕ)
    (outcome : HandlerOutcome) : Option AgentRun :=
  match slots[i]? with
  | some (call, none) =>
    if slotReady E slots i call then
      (executeOne E call outcome).map fun content =>
        let slots := slots.set i (call, some content)
        let r := { r with
          surface := surfaceAfter E r.surface call outcome
          found := r.found ++ outcome.names }
        if slots.all fun slot => slot.2.isSome then r.batchDone E slots after
        else { r with phase := .executing slots after }
    else none
  | _ => none

def step (E : AgentEnv) (r : AgentRun) (e : RunEvent) : Option AgentRun :=
  match r.phase, e with
  | .summarizing, .answered (.ok response) =>
    (split E r.working).map fun parts =>
      { r with working := compacted r.working parts.2 response.content, phase := .completing }
  | .completing, .answered (.ok response) => some (r.completed E response)
  | .continuing working chunks left, .answered (.ok response) =>
    some (r.continued working chunks left response)
  | .summarizing, .answered (.error _) | .completing, .answered (.error _)
  | .continuing _ _ _, .answered (.error _) => some { r with phase := .raised }
  | .executing slots after, .toolReturned i outcome => r.toolReturned E slots after i outcome
  | _, _ => none

/-- An approval runs the calls that were blocked, and then the loop again. -/
def resume (pending : PendingApproval) : AgentRun :=
  execute { requestId := pending.requestId, working := pending.workingMessages, surface := []
            phase := .completing }
    pending.assistantMessage pending.toolCalls (.resume pending.surfacedTools)

/-- What a step of the loop can be. -/
theorem step_eq_some {E : AgentEnv} {r r' : AgentRun} {e : RunEvent}
    (hs : r.step E e = some r') :
    (∃ response parts, r.phase = .summarizing ∧ split E r.working = some parts ∧
      r' = { r with working := compacted r.working parts.2 response, phase := .completing }) ∨
    (∃ response, r.phase = .completing ∧ r' = r.completed E response) ∨
    (∃ working chunks left response, r.phase = .continuing working chunks left ∧
      r' = r.continued working chunks left response) ∨
    r' = { r with phase := .raised } ∨
    ∃ slots after i outcome, r.phase = .executing slots after ∧ e = .toolReturned i outcome ∧
      r.toolReturned E slots after i outcome = some r' := by
  unfold step at hs
  split at hs
  · rename_i response hphase
    obtain ⟨parts, hsplit, rfl⟩ := Option.map_eq_some_iff.1 hs
    exact Or.inl ⟨response.content, parts, hphase, hsplit, rfl⟩
  · rename_i response hphase
    exact Or.inr (Or.inl ⟨response, hphase, (Option.some.inj hs).symm⟩)
  · rename_i working chunks left response hphase
    exact Or.inr (Or.inr (Or.inl
      ⟨working, chunks, left, response, hphase, (Option.some.inj hs).symm⟩))
  · exact Or.inr (Or.inr (Or.inr (Or.inl (Option.some.inj hs).symm)))
  · exact Or.inr (Or.inr (Or.inr (Or.inl (Option.some.inj hs).symm)))
  · exact Or.inr (Or.inr (Or.inr (Or.inl (Option.some.inj hs).symm)))
  · rename_i slots after i outcome hphase
    exact Or.inr (Or.inr (Or.inr (Or.inr ⟨slots, after, i, outcome, hphase, rfl, hs⟩)))
  · contradiction

/-- A result leaves the calls of the batch as they are. -/
theorem map_fst_set {slots : List Slot} {i : ℕ} {call : ToolCall} (content : Option String)
    (h : slots[i]? = some (call, none)) :
    (slots.set i (call, content)).map Prod.fst = slots.map Prod.fst := by
  obtain ⟨hi, heq⟩ := List.getElem?_eq_some_iff.1 h
  have hcall : (slots.map Prod.fst).get ⟨i, by simpa using hi⟩ = call := by simp [heq]
  rw [List.map_set, ← hcall]
  exact List.set_getElem_self _

end AgentRun

inductive ConversationEvent
  | run (e : RunEvent)
  /-- the write that blocked the run is approved -/
  | approve

/-- A run of the loop on some messages, with the runs that approvals resume. -/
def conversationMachine (E : AgentEnv) (requestId : String) (messages : List Message)
    (preSurfaced : List String) : Machine AgentRun ConversationEvent where
  init := AgentRun.start E requestId messages preSurfaced
  step r
    | .run e => r.step E e
    | .approve =>
      match r.phase with
      | .blocked pending => some (AgentRun.resume pending)
      | _ => none

end NemoClaw
