import NemoClaw.Agent.Loop
import NemoClaw.Agent.PromptBuilder
import NemoClaw.Orchestrator.FinalizationActions

/-! The orchestrator (`orchestrator/orchestrator.py`) as an event machine over any number of
requests that are handled at once. One step is what `handle` does between two awaits. Writes that
wait for approval are kept by thread, one for each; which prompt a click belongs to is bookkeeping,
for the request of a click names its thread only. -/

namespace NemoClaw

open Lib

inductive ErrorCategory
  | authError | rateLimit | timeout | modelError | connectorError | unknown
  deriving DecidableEq, Repr

def approvalActionApprove : String := "approve_write"
def approvalActionDeny : String := "deny_write"

/-- `is_finalization_action` -/
def isFinalizationAction (action : ActionPayload) : Bool :=
  action.actionId ∈ [finalizationActionPushPr, finalizationActionIterate, finalizationActionDiscard]

/-- `request.thread_ts or request.request_id` -/
def NormalizedRequest.threadKey (request : NormalizedRequest) : String :=
  (truthy request.threadTs).getD request.requestId

structure OrchestratorEnv where
  agent : AgentEnv
  actions : ActionEnv
  /-- a `FinalizationActionHandler` is wired in -/
  finalizationActions : Bool := true
  maxThreadHistory : ℤ := 50
  /-- the gate's answer to a response -/
  respondApproved : String → Bool := fun _ => true
  /-- the category of the `InferenceError` with this text, `UNKNOWN` for another exception -/
  category : String → ErrorCategory

/-- `WriteApproval.check` of a write call -/
def writeApproval (_ : ToolCall) : Bool := false

/-- The batches of tool calls that were stored for approval, in order. Each has one prompt. -/
abbrev BatchId := ℕ

/-- An entry of `_pending_approvals`. -/
structure StoredApproval where
  /-- bookkeeping -/
  batch : BatchId
  pending : PendingApproval
  deriving DecidableEq

/-- What `handle` returns. -/
inductive Reply
  | text (response : RichResponse)
  | error (category : ErrorCategory) (response : RichResponse)
  /-- the prompt for a batch, with the value of its buttons -/
  | approval (batch : BatchId) (response : RichResponse) (value : String)
  /-- `suppress_post` -/
  | suppressed (channelId : String) (threadTs : Option String)
  deriving DecidableEq

inductive HandlingPhase
  /-- `run` for a user's message -/
  | running (run : AgentRun)
  /-- `_handle_write_approval`: the approved batch, and `run` behind it -/
  | resuming (run : AgentRun) (approval : StoredApproval)
  /-- `_inference_with_repair` -/
  | inferring (messages : List Message) (chunks : List String) (attempt : ℕ)
  /-- the request is with the `FinalizationActionHandler` -/
  | finalizing
  | replied (reply : Reply)
  | raised
  | cancelled

structure Handling where
  request : NormalizedRequest
  phase : HandlingPhase

inductive OrchestratorEntry
  | stored (threadKey : String) (batch : BatchId) (calls : List ToolCall) (description : String)
  /-- a message is handled, as a text of the user or as an unknown button; `feedback` is the
  workflow that consumes it -/
  | message (threadKey : String) (isText : Bool) (feedback : Option String)
  /-- an Approve click pops a batch and executes its calls; `prompt` is the one clicked, if it was
  posted by this process -/
  | approved (threadKey : String) (prompt : Option BatchId) (batch : BatchId)
    (calls : List ToolCall)
  /-- a batch is popped and not executed -/
  | dropped (threadKey : String) (batch : BatchId)
  /-- an Iterate click on a registered workflow -/
  | iterate (threadKey workflowId : String)
  deriving DecidableEq

structure Orchestrator where
  actions : FinalizationActions := {}
  prompt : PromptBuilder := {}
  pendingApprovals : Dict String StoredApproval := ∅
  handlings : Dict HandlerId Handling := ∅
  nextBatch : BatchId := 0
  /-- the batches whose prompts the connector has posted -/
  posted : List BatchId := []
  /-- bookkeeping -/
  log : List OrchestratorEntry := []

/-- What a request finds outside. -/
structure Circumstances where
  systemPrompt : String := ""
  removal : Removal := .absent
  /-- the prompt whose button was clicked; none if an earlier process posted it -/
  prompt : Option BatchId := none

inductive OrchestratorEvent
  | handle (h : HandlerId) (request : NormalizedRequest) (circumstances : Circumstances)
  | run (h : HandlerId) (e : RunEvent)
  /-- the connector posts the reply -/
  | post (h : HandlerId)
  /-- the finalization actions go on, or the dispatcher changes its registry -/
  | actions (e : ActionEvent)
  | cancel (h : HandlerId)

/-! ### Transcript repair -/

def maxContinuationRetries : ℕ := 2

def initialInferenceAttemptCount : ℕ := 1

structure RepairResult where
  content : String
  wasRepaired : Bool
  needsContinuation : Bool

/-- `repair_response` -/
def repair (E : AgentEnv) (response : InferenceResponse) : RepairResult where
  content := repairResponse E response
  wasRepaired := E.blank response.content || response.finishReason = "content_filter"
  needsContinuation := !E.blank response.content && response.finishReason = "length"

/-- The text that `_inference_with_repair` returns after this answer, or the chunks it goes on
with. -/
def inferenceWithRepair (E : AgentEnv) (chunks : List String) (attempt : ℕ)
    (response : InferenceResponse) : String ⊕ List String :=
  let result := repair E response
  if result.wasRepaired ∧ ¬ result.needsContinuation then .inl result.content
  else if ¬ result.needsContinuation then .inl (String.join chunks ++ result.content)
  else if attempt + 1 < initialInferenceAttemptCount + maxContinuationRetries then
    .inr (chunks ++ [result.content])
  else .inl (String.join (chunks ++ [result.content]))

namespace Orchestrator

/-! ### Replies -/

/-- `_shape_response` -/
def shapeResponse (request : NormalizedRequest) (content : String) : Reply :=
  .text ⟨request.channelId, request.threadTs, content⟩

def errorText : ErrorCategory → String
  | .authError =>
    "I'm having a configuration issue and can't reach the model right now. " ++
      "Please let the admin know."
  | .rateLimit => "I'm being rate-limited right now. Please try again in a moment."
  | .timeout => "The model didn't respond in time. Please try again."
  | .modelError => "Something went wrong with the model. Please try again shortly."
  | .connectorError => "I had trouble communicating. Please try again."
  | .unknown =>
    "Something unexpected happened. Please try again, and if the issue " ++
      "persists, let the admin know."

/-- `_error_response` -/
def errorResponse (request : NormalizedRequest) (category : ErrorCategory) : Reply :=
  .error category ⟨request.channelId, request.threadTs, errorText category⟩

/-- `_build_approval_response` -/
def buildApprovalResponse (request : NormalizedRequest) (batch : BatchId)
    (pending : PendingApproval) : Reply :=
  .approval batch
    ⟨request.channelId, request.threadTs,
      ":warning: *Write operation requires your approval*\n\n" ++ pending.description ++
        "\n\nClick *Approve* to proceed or *Deny* to cancel."⟩ request.threadKey

/-! ### The end of a run -/

variable (E : OrchestratorEnv) (s : Orchestrator) (h : HandlerId) (request : NormalizedRequest)

def setPhase (phase : HandlingPhase) : Orchestrator :=
  { s with handlings := s.handlings.insert h ⟨request, phase⟩ }

def record (e : OrchestratorEntry) : Orchestrator := { s with log := s.log ++ [e] }

/-- Steps 6 and 7 of `handle`. -/
def respond (content : String) : Orchestrator :=
  let content := if E.respondApproved content then content else
    "I generated a response but it was not approved. Please try rephrasing your request."
  { s with
    prompt := s.prompt.commitTurn E.maxThreadHistory request.threadKey request.text content
  }.setPhase h request (.replied (shapeResponse request content))

/-- A `WriteApprovalError` is caught: the batch is stored, and the prompt for it returned. -/
def storeApproval (pending : PendingApproval) : Orchestrator :=
  let batch := s.nextBatch
  let s := s.record (.stored request.threadKey batch pending.toolCalls pending.description)
  { s with
    pendingApprovals := s.pendingApprovals.insert request.threadKey ⟨batch, pending⟩
    nextBatch := batch + 1
  }.setPhase h request (.replied (buildApprovalResponse request batch pending))

/-- `handle` with its run in this phase. -/
def running (run : AgentRun) (category : ErrorCategory) : Orchestrator :=
  match run.phase with
  | .returned result => s.respond E h request result.content
  | .blocked pending => s.storeApproval h request { pending with originalUserText := request.text }
  | .raised => s.setPhase h request (.replied (errorResponse request category))
  | _ => s.setPhase h request (.running run)

/-- `_handle_write_approval` with its run in this phase; only a further write is caught. -/
def resuming (run : AgentRun) (approval : StoredApproval) : Orchestrator :=
  match run.phase with
  | .returned result =>
    { s with
      prompt := s.prompt.commitTurn E.maxThreadHistory request.threadKey
        approval.pending.originalUserText result.content
    }.setPhase h request (.replied (shapeResponse request result.content))
  | .blocked pending =>
    s.storeApproval h request { pending with originalUserText := approval.pending.originalUserText }
  | .raised => s.setPhase h request .raised
  | _ => s.setPhase h request (.resuming run approval)

/-- `_inference_with_repair` has its answer. -/
def inferring (messages : List Message) (chunks : List String) (attempt : ℕ) :
    Except String InferenceResponse → Orchestrator
  | .ok response =>
    match inferenceWithRepair E.agent chunks attempt response with
    | .inl content => s.respond E h request content
    | .inr chunks => s.setPhase h request (.inferring messages chunks (attempt + 1))
  | .error e => s.setPhase h request (.replied (errorResponse request (E.category e)))

/-! ### Requests -/

/-- `_handle_write_approval` up to its first await. -/
def handleWriteApproval (prompt : Option BatchId) : Orchestrator :=
  match s.pendingApprovals.lookup request.threadKey with
  | none =>
    s.setPhase h request (.replied (.suppressed request.channelId request.threadTs))
  | some approval =>
    let s := { s with pendingApprovals := s.pendingApprovals.erase request.threadKey }
    if E.agent.tools.tools = [] then
      (s.record (.dropped request.threadKey approval.batch)).setPhase h request
        (.replied (shapeResponse request "Tool execution is not available."))
    else
      (s.record (.approved request.threadKey prompt approval.batch
        approval.pending.toolCalls)).setPhase h request
          (.resuming (AgentRun.resume approval.pending) approval)

/-- `_handle_write_denial` -/
def handleWriteDenial : Orchestrator :=
  match s.pendingApprovals.lookup request.threadKey with
  | none =>
    s.setPhase h request (.replied (.suppressed request.channelId request.threadTs))
  | some approval =>
    let s := { s with pendingApprovals := s.pendingApprovals.erase request.threadKey }
    (s.record (.dropped request.threadKey approval.batch)).setPhase h request
      (.replied (shapeResponse request "Got it — the write operation was cancelled."))

/-- A click on one of the finalization buttons. -/
def handleFinalizationAction (action : ActionPayload) (removal : Removal) : Orchestrator :=
  let actions := s.actions.handle E.actions h request removal
  let s :=
    if action.actionId = finalizationActionIterate ∧
        (s.actions.getWorkflow action.value).isSome then
      s.record (.iterate request.threadKey action.value)
    else s
  { s with actions := actions }.setPhase h request .finalizing

/-- The workflow that awaits the next message of the thread. -/
def pendingIteration : Option String :=
  if E.finalizationActions then s.actions.pendingIteration.lookup request.threadKey else none

/-- `handle` from the pending iteration on, up to its first await. -/
def handleMessage (systemPrompt : String) : Orchestrator :=
  let feedback := s.pendingIteration E request
  let s := s.record (.message request.threadKey request.action.isNone feedback)
  if feedback.isSome then
    { s with
      actions := s.actions.consumeIterationFeedback E.actions h request request.threadKey
    }.setPhase h request .finalizing
  else
    let s := { s with pendingApprovals := s.pendingApprovals.erase request.threadKey }
    let messages := s.prompt.messagesForInference E.maxThreadHistory systemPrompt
      request.threadKey request.text
    if E.agent.tools.tools = [] then s.setPhase h request (.inferring messages [] 0)
    else s.running E h request (AgentRun.start E.agent request.requestId messages []) .unknown

/-- `handle` up to its first await. -/
def handle (circumstances : Circumstances) : Orchestrator :=
  match request.action with
  | none => s.handleMessage E h request circumstances.systemPrompt
  | some action =>
    if action.actionId = approvalActionApprove then
      s.handleWriteApproval E h request circumstances.prompt
    else if action.actionId = approvalActionDeny then s.handleWriteDenial h request
    else if E.finalizationActions ∧ isFinalizationAction action then
      s.handleFinalizationAction E h request action circumstances.removal
    else s.handleMessage E h request circumstances.systemPrompt

/-- The category of the error that ends a run. -/
def errorCategory : RunEvent → ErrorCategory
  | .answered (.error e) => E.category e
  | _ => .unknown

/-- A request goes on after an await of its run. -/
def advance (e : RunEvent) : HandlingPhase → Option Orchestrator
  | .running run =>
    (run.step E.agent e).map fun run => s.running E h request run (errorCategory E e)
  | .resuming run approval =>
    (run.step E.agent e).map fun run => s.resuming E h request run approval
  | .inferring messages chunks attempt =>
    match e with
    | .answered response => some (s.inferring E h request messages chunks attempt response)
    | .toolReturned _ _ => none
  | _ => none

def isFresh : Bool :=
  (s.handlings.lookup h).isNone && (s.actions.tasks.lookup h).isNone &&
    (s.actions.iterations.lookup h).isNone

def step : OrchestratorEvent → Option Orchestrator
  | .handle h request circumstances =>
    if s.isFresh h ∧ ∀ batch ∈ circumstances.prompt, batch ∈ s.posted then
      some (s.handle E h request circumstances)
    else none
  | .run h e => (s.handlings.lookup h).bind fun t => s.advance E h t.request e t.phase
  | .post h =>
    match s.handlings.lookup h with
    | some ⟨_, .replied (.approval batch _ _)⟩ => some { s with posted := batch :: s.posted }
    | _ => none
  | .actions (.handle _ _ _) | .actions (.feedback _ _ _) => none
  | .actions e => (s.actions.step E.actions e).map fun actions => { s with actions := actions }
  | .cancel h =>
    match s.handlings.lookup h with
    | some ⟨request, .running _⟩ | some ⟨request, .resuming _ _⟩
    | some ⟨request, .inferring _ _ _⟩ => some (s.setPhase h request .cancelled)
    | _ => none

/-! ### What a step can be -/

variable {E s h request} {s' : Orchestrator}

/-- What becomes of a request with its run in this phase: it ends with the run, a write of it is
stored, or it goes on. -/
inductive RunsOn (s : Orchestrator) (h : HandlerId) (request : NormalizedRequest) (run : AgentRun)
    (phase : HandlingPhase) : Orchestrator → Prop
  | ended (prompt : PromptBuilder) {last : HandlingPhase}
      (hlast : (∃ reply, last = .replied reply) ∨ last = .raised) :
      RunsOn s h request run phase ({ s with prompt := prompt }.setPhase h request last)
  | stored {pending : PendingApproval} (originalUserText : String)
      (hblocked : run.phase = .blocked pending) :
      RunsOn s h request run phase
        (s.storeApproval h request { pending with originalUserText := originalUserText })
  | goesOn (hreturned : ∀ result, run.phase ≠ .returned result)
      (hblocked : ∀ pending, run.phase ≠ .blocked pending) (hraised : run.phase ≠ .raised) :
      RunsOn s h request run phase (s.setPhase h request phase)

theorem runsOn_running (run : AgentRun) (category : ErrorCategory) :
    RunsOn s h request run (.running run) (s.running E h request run category) := by
  unfold running
  split
  · exact .ended _ (Or.inl ⟨_, rfl⟩)
  · exact .stored _ ‹_›
  · exact .ended s.prompt (Or.inl ⟨_, rfl⟩)
  · exact .goesOn ‹_› ‹_› ‹_›

theorem runsOn_resuming (run : AgentRun) (approval : StoredApproval) :
    RunsOn s h request run (.resuming run approval) (s.resuming E h request run approval) := by
  unfold resuming
  split
  · exact .ended _ (Or.inl ⟨_, rfl⟩)
  · exact .stored _ ‹_›
  · exact .ended s.prompt (Or.inr rfl)
  · exact .goesOn ‹_› ‹_› ‹_›

theorem advance_cases {e : RunEvent} {phase : HandlingPhase}
    (hs : s.advance E h request e phase = some s') :
    (∃ run run', phase = .running run ∧ run.step E.agent e = some run' ∧
      s' = s.running E h request run' (errorCategory E e)) ∨
    (∃ run run' approval, phase = .resuming run approval ∧ run.step E.agent e = some run' ∧
      s' = s.resuming E h request run' approval) ∨
    ∃ messages chunks attempt response, s' = s.inferring E h request messages chunks attempt
      response := by
  unfold advance at hs
  split at hs
  · rename_i run
    obtain ⟨run', hrun, rfl⟩ := Option.map_eq_some_iff.1 hs
    exact Or.inl ⟨run, run', rfl, hrun, rfl⟩
  · rename_i run approval
    obtain ⟨run', hrun, rfl⟩ := Option.map_eq_some_iff.1 hs
    exact Or.inr (Or.inl ⟨run, run', approval, rfl, hrun, rfl⟩)
  · split at hs
    · obtain rfl := Option.some.inj hs
      exact Or.inr (Or.inr ⟨_, _, _, _, rfl⟩)
    · contradiction
  · contradiction

theorem step_cases {e : OrchestratorEvent} (hs : s.step E e = some s') :
    (∃ h request circumstances, e = .handle h request circumstances ∧
      s' = s.handle E h request circumstances) ∨
    (∃ h e' t, e = .run h e' ∧ s.handlings.lookup h = some t ∧
      s.advance E h t.request e' t.phase = some s') ∨
    (∃ h batch, e = .post h ∧ s' = { s with posted := batch :: s.posted }) ∨
    (∃ e' actions, e = .actions e' ∧ (∀ h request removal, e' ≠ .handle h request removal) ∧
      (∀ h request threadKey, e' ≠ .feedback h request threadKey) ∧
        s.actions.step E.actions e' = some actions ∧ s' = { s with actions := actions }) ∨
    ∃ h request, e = .cancel h ∧ s' = s.setPhase h request .cancelled := by
  unfold step at hs
  split at hs
  · simp only [Option.ite_none_right_eq_some] at hs
    obtain ⟨-, hs⟩ := hs
    exact Or.inl ⟨_, _, _, rfl, (Option.some.inj hs).symm⟩
  · obtain ⟨t, ht, hadvance⟩ := Option.bind_eq_some_iff.1 hs
    exact Or.inr (Or.inl ⟨_, _, t, rfl, ht, hadvance⟩)
  · split at hs
    · exact Or.inr (Or.inr (Or.inl ⟨_, _, rfl, (Option.some.inj hs).symm⟩))
    · contradiction
  · contradiction
  · contradiction
  · rename_i e hhandle hfeedback
    obtain ⟨actions, hactions, rfl⟩ := Option.map_eq_some_iff.1 hs
    exact Or.inr (Or.inr (Or.inr (Or.inl
      ⟨e, actions, rfl, hhandle, hfeedback, hactions, rfl⟩)))
  · split at hs
    · exact Or.inr (Or.inr (Or.inr (Or.inr ⟨_, _, rfl, (Option.some.inj hs).symm⟩)))
    · exact Or.inr (Or.inr (Or.inr (Or.inr ⟨_, _, rfl, (Option.some.inj hs).symm⟩)))
    · exact Or.inr (Or.inr (Or.inr (Or.inr ⟨_, _, rfl, (Option.some.inj hs).symm⟩)))
    · contradiction

end Orchestrator

def orchestratorMachine (E : OrchestratorEnv) : Machine Orchestrator OrchestratorEvent where
  init := {}
  step := Orchestrator.step E

end NemoClaw
