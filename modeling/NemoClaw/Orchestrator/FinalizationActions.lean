import Mathlib.Data.List.Infix
import NemoClaw.Lib.Machine
import NemoClaw.Orchestrator.Workflow

/-! The handler of the finalisation buttons (`orchestrator/finalization_actions.py`) with the tools
it calls (`tools/finalization.py`), as an event machine over the dispatcher's registry. Each click
and each feedback text runs in a task of its own; one step is what a task does between two awaits.
The file system, git, `gh` and the sub-agents are the environment. -/

namespace NemoClaw

open Lib

structure ActionPayload where
  actionId : String
  value : String
  deriving DecidableEq

structure NormalizedRequest where
  text : String := ""
  channelId : String
  requestId : String
  threadTs : Option String := none
  action : Option ActionPayload := none
  deriving DecidableEq

structure RichResponse where
  channelId : String
  threadTs : Option String
  text : String
  deriving DecidableEq

def finalizationActionPushPr : String := "finalization_push_pr"
def finalizationActionIterate : String := "finalization_iterate"
def finalizationActionDiscard : String := "finalization_discard"

/-- `text[:limit]` -/
def truncate (text : String) (limit : ℕ) : String := String.ofList (text.toList.take limit)

def completionSummaryPromptLimit : ℕ := 120
def prTitlePromptLimit : ℕ := 80

/-- `message.startswith("Error:")` -/
def isErrorMessage (message : String) : Bool := "Error:".toList.isPrefixOf message.toList

def isGitError (output : String) : Bool :=
  "Exit code:".toList.isPrefixOf output.toList || isErrorMessage output

/-- The task of one click, one feedback text or one re-delegation. -/
abbrev HandlerId := ℕ

structure ActionEnv where
  renderer : Bool := true
  delegationManager : Bool := true
  /-- `Path(p).resolve()` -/
  resolve : String → String
  /-- `Path(p).expanduser()` -/
  expanduser : String → String
  /-- `Path(p).name` -/
  pathName : String → String
  /-- `str.strip` -/
  strip : String → String
  /-- the text of the `ValidationError` of a follow-up with this prompt -/
  followupError : String → String

/-- `Path(p).expanduser().resolve()` -/
def ActionEnv.expandedPath (E : ActionEnv) (p : String) : String := E.resolve (E.expanduser p)

/-- `_looks_like_per_agent_workspace` -/
def looksLikePerAgentWorkspace (name agentId : String) : Bool :=
  "agent-".toList.isPrefixOf name.toList ||
    (agentId ≠ "" && agentId.toList.isSuffixOf name.toList)

/-! ### The git commands of a push -/

inductive GitStep
  | ensureRoot
  | checkout (branch : String)
  | add
  | commit (message : String)
  | push (remote branch : String)
  deriving DecidableEq

namespace GitStep

def args : GitStep → List String
  | .ensureRoot => ["rev-parse", "--show-toplevel"]
  | .checkout branch => ["checkout", "-B", branch]
  | .add => ["add", "-A"]
  | .commit message => ["commit", "-m", message]
  | .push remote branch => ["push", "-u", remote, branch]

/-- The command that a `GitCommandError` names. -/
def command (step : GitStep) : String := step.args.headD ""

/-- The output of the `GitCommandError` that the output of the command leads to, if any. -/
def failure (E : ActionEnv) (workspace output : String) : GitStep → Option String
  | .ensureRoot =>
    let top := E.strip output
    if isGitError top then some top
    else if E.resolve top ≠ E.resolve workspace then
      some ("workspace " ++ workspace ++ " is inside git repo " ++ top ++ ", not its root")
    else none
  | .commit _ =>
    if isGitError output ∧ ¬ "nothing to commit".toList <:+: output.toList then some output
    else none
  | .checkout _ | .add | .push _ _ => if isGitError output then some output else none

end GitStep

/-- The commands that `_do_push_branch` runs after the first. -/
def pushSteps (branch message remote : String) : List GitStep :=
  [.checkout branch, .ensureRoot, .add, .commit message, .ensureRoot, .push remote branch]

def gitCommandError (step : GitStep) (output : String) : String :=
  "Error: git " ++ step.command ++ " failed: " ++ output

/-! ### Handlers -/

inductive FinalizationAction
  | pushAndCreatePr | discardWork
  deriving DecidableEq, Repr

/-- What the task of a handler awaits. `detached` pushes go on behind `asyncio.shield` after their
handler was cancelled. -/
inductive ActionPhase
  | git (session : FinalizationSession) (step : GitStep) (left : List GitStep) (detached : Bool)
  | creatingPr (session : FinalizationSession) (detached : Bool)
  | renderingPush (message : String) (detached : Bool)
  /-- `deleted` is false when the path is refused -/
  | renderingDiscard (message : String) (deleted : Bool)
  | deregistering (message : String)
  | delegating (session : FinalizationSession)
  | renderingReDelegation (message : String)
  | replied (response : RichResponse)
  | raised
  | cancelled
  deriving DecidableEq

structure ActionTask where
  request : NormalizedRequest
  workflowId : String
  phase : ActionPhase
  deriving DecidableEq

/-- A terminal side effect that was performed. -/
structure TerminalEffect where
  workflowId : String
  action : FinalizationAction
  /-- an iteration of the workflow was running -/
  duringIteration : Bool
  deriving DecidableEq

structure FinalizationActions where
  contexts : Dict CtxId WorkflowContext := ∅
  nextContext : CtxId := 0
  workflows : Dict String CtxId := ∅
  pendingIteration : Dict String String := ∅
  tasks : Dict HandlerId ActionTask := ∅
  /-- the workflow ids ever registered -/
  registered : List String := []
  /-- the re-delegated iterations that run, and their workflows -/
  iterations : Dict HandlerId String := ∅
  /-- the terminal side effects, in order -/
  effects : List TerminalEffect := []

/-- What `path.exists()` and `shutil.rmtree` make of a workspace. -/
inductive Removal
  | absent
  | removed
  | failed (exc : String)

/-- What becomes of an await. -/
inductive ToolOutcome
  | returned (output : String)
  /-- `gh pr create` exits non-zero with this output: a `GitHubCommandError` -/
  | commandError (output : String)
  | raised (exc : String)

inductive ActionEvent
  /-- `delegate_task` registers a workflow under a fresh id -/
  | register (context : WorkflowContext)
  /-- the dispatcher deregisters a workflow -/
  | deregister (workflowId : String)
  | handle (h : HandlerId) (request : NormalizedRequest) (removal : Removal)
  | feedback (h : HandlerId) (request : NormalizedRequest) (threadKey : String)
  /-- a finalization model re-delegates -/
  | reDelegate (h : HandlerId) (context : CtxId) (task : TaskAssignPayload)
  | resume (h : HandlerId) (outcome : ToolOutcome)
  | cancel (h : HandlerId)
  /-- the sub-agent of an iteration ends -/
  | iterationEnds (h : HandlerId)

namespace FinalizationActions

def setPhase (s : FinalizationActions) (h : HandlerId) (request : NormalizedRequest)
    (workflowId : String) (phase : ActionPhase) : FinalizationActions :=
  { s with tasks := s.tasks.insert h ⟨request, workflowId, phase⟩ }

/-- `_text_reply` -/
def textReply (s : FinalizationActions) (h : HandlerId) (request : NormalizedRequest)
    (workflowId text : String) : FinalizationActions :=
  s.setPhase h request workflowId (.replied ⟨request.channelId, request.threadTs, text⟩)

def iterating (s : FinalizationActions) (workflowId : String) : Bool :=
  workflowId ∈ s.iterations.entries.map Sigma.snd

def perform (s : FinalizationActions) (workflowId : String) (action : FinalizationAction) :
    FinalizationActions :=
  { s with effects := s.effects ++ [⟨workflowId, action, s.iterating workflowId⟩] }

def getWorkflow (s : FinalizationActions) (workflowId : String) :
    Option (CtxId × WorkflowContext) :=
  (s.workflows.lookup workflowId).bind fun c => (s.contexts.lookup c).map fun ctx => (c, ctx)

/-- `_completion_stub`; the payload model refuses an empty workflow id. -/
def completionStub (ctx : WorkflowContext) (summary : NonEmptyString) :
    Option TaskCompletePayload :=
  if h : ctx.workflowId ≠ "" then
    some { workflowId := ⟨ctx.workflowId, h⟩, summary := summary
           workspaceBaseline := ctx.task.workspaceBaseline }
  else none

def sessionFactory (c : CtxId) (ctx : WorkflowContext) (complete : TaskCompletePayload) :
    FinalizationSession :=
  ⟨ctx.task, complete, c⟩

/-- `deregister_workflow`, after which the handler replies. -/
def deregisterWorkflow (E : ActionEnv) (s : FinalizationActions) (h : HandlerId)
    (request : NormalizedRequest) (workflowId message : String) : FinalizationActions :=
  let s := { s with workflows := s.workflows.erase workflowId }
  if E.delegationManager then s.setPhase h request workflowId (.deregistering message)
  else s.textReply h request workflowId message

/-- `_handle_push_pr` after the tool. The state is terminal unless the message is an error. -/
def afterPush (E : ActionEnv) (s : FinalizationActions) (h : HandlerId)
    (request : NormalizedRequest) (workflowId message : String) (detached : Bool) :
    FinalizationActions :=
  if detached then s.setPhase h request workflowId .cancelled
  else if isErrorMessage message then s.textReply h request workflowId message
  else s.deregisterWorkflow E h request workflowId message

def renderPush (E : ActionEnv) (s : FinalizationActions) (h : HandlerId)
    (request : NormalizedRequest) (workflowId message : String) (detached : Bool) :
    FinalizationActions :=
  if E.renderer then s.setPhase h request workflowId (.renderingPush message detached)
  else s.afterPush E h request workflowId message detached

/-- The tool raised, which `_handle_push_pr` reports. -/
def pushRaised (s : FinalizationActions) (h : HandlerId) (request : NormalizedRequest)
    (workflowId exc : String) (detached : Bool) : FinalizationActions :=
  if detached then s.setPhase h request workflowId .cancelled
  else s.textReply h request workflowId ("Push & PR failed: " ++ exc)

/-- `push_and_create_pr` after one of its git commands. -/
def afterGit (E : ActionEnv) (s : FinalizationActions) (h : HandlerId)
    (request : NormalizedRequest) (workflowId : String) (session : FinalizationSession)
    (detached : Bool) (step : GitStep) (output : String) (left : List GitStep) :
    FinalizationActions :=
  match step.failure E session.task.workspaceRoot output, left with
  | some out, _ => s.renderPush E h request workflowId (gitCommandError step out) detached
  | none, next :: left => s.setPhase h request workflowId (.git session next left detached)
  | none, [] =>
    -- an output that begins with `Error:` counts as a failure of `git push` already
    s.setPhase h request workflowId (.creatingPr session detached)

def afterDiscard (E : ActionEnv) (s : FinalizationActions) (h : HandlerId)
    (request : NormalizedRequest) (workflowId message : String) (isTerminal : Bool) :
    FinalizationActions :=
  if isTerminal then s.deregisterWorkflow E h request workflowId message
  else s.textReply h request workflowId message

def renderDiscard (E : ActionEnv) (s : FinalizationActions) (h : HandlerId)
    (request : NormalizedRequest) (workflowId message : String) (isTerminal : Bool) :
    FinalizationActions :=
  if E.renderer then s.setPhase h request workflowId (.renderingDiscard message isTerminal)
  else s.afterDiscard E h request workflowId message isTerminal

/-! ### The three buttons -/

def handlePushPr (s : FinalizationActions) (h : HandlerId) (request : NormalizedRequest)
    (c : CtxId) (ctx : WorkflowContext) : FinalizationActions :=
  match completionStub ctx
      ⟨"Finalize " ++ truncate ctx.task.prompt completionSummaryPromptLimit, by simp⟩ with
  | none => s.setPhase h request ctx.workflowId .raised
  | some complete =>
    s.setPhase h request ctx.workflowId
      (.git (sessionFactory c ctx complete) .ensureRoot
        (pushSteps ("finalize/" ++ ctx.workflowId) (truncate ctx.task.prompt prTitlePromptLimit)
          "origin") false)

def handleDiscard (E : ActionEnv) (s : FinalizationActions) (h : HandlerId)
    (request : NormalizedRequest) (c : CtxId) (ctx : WorkflowContext) (removal : Removal) :
    FinalizationActions :=
  match completionStub ctx ⟨"Discarding workflow per user request.", by decide⟩ with
  | none => s.setPhase h request ctx.workflowId .raised
  | some complete =>
    let session := sessionFactory c ctx complete
    let path := E.expandedPath session.task.workspaceRoot
    if ¬ looksLikePerAgentWorkspace (E.pathName path) session.task.agentId then
      s.renderDiscard E h request ctx.workflowId
        ("Error: refusing to discard non-agent path " ++ path) false
    else
      match removal with
      | .failed exc => s.textReply h request ctx.workflowId ("Discard failed: " ++ exc)
      | .absent => s.renderDiscard E h request ctx.workflowId "Discarded by user" true
      | .removed =>
        (s.perform ctx.workflowId .discardWork).renderDiscard E h request ctx.workflowId
          "Discarded by user" true

def handleIterate (s : FinalizationActions) (h : HandlerId) (request : NormalizedRequest)
    (ctx : WorkflowContext) : FinalizationActions :=
  let threadKey := (truthy request.threadTs).getD request.requestId
  { s with pendingIteration := s.pendingIteration.insert threadKey ctx.workflowId }.textReply h
    request ctx.workflowId
    ("OK — please reply in this thread with the changes you'd like the " ++
      "sub-agent to make. Your next message becomes the iteration prompt.")

def handle (E : ActionEnv) (s : FinalizationActions) (h : HandlerId)
    (request : NormalizedRequest) (removal : Removal) : FinalizationActions :=
  match request.action with
  | none => s.textReply h request "" "No finalisation action found."
  | some action =>
    match s.getWorkflow action.value with
    | none =>
      s.textReply h request action.value ("Workflow `" ++ action.value ++
        "` is no longer active (probably already finalised or aged out).")
    | some (c, ctx) =>
      if action.actionId = finalizationActionPushPr then s.handlePushPr h request c ctx
      else if action.actionId = finalizationActionDiscard then
        s.handleDiscard E h request c ctx removal
      else if action.actionId = finalizationActionIterate then s.handleIterate h request ctx
      else
        s.textReply h request ctx.workflowId
          ("Unknown finalisation action `" ++ action.actionId ++ "`.")

/-! ### Iteration feedback -/

/-- `re_delegate` up to its await of `delegate`: the iteration starts. -/
def reDelegate (E : ActionEnv) (s : FinalizationActions) (h : HandlerId)
    (request : NormalizedRequest) (ctx : WorkflowContext) (session : FinalizationSession) :
    FinalizationActions :=
  if E.delegationManager then
    match session.task.followup request.text none none with
    | none =>
      s.textReply h request ctx.workflowId
        ("Re-delegation failed: " ++ E.followupError request.text)
    | some followup =>
      { s with
        contexts := s.contexts.insert session.context { ctx with task := followup }
        iterations := s.iterations.insert h ctx.workflowId }.setPhase h request ctx.workflowId
          (.delegating { session with task := followup })
  else s.textReply h request ctx.workflowId "Error: delegation manager unavailable"

def consumeIterationFeedback (E : ActionEnv) (s : FinalizationActions) (h : HandlerId)
    (request : NormalizedRequest) (threadKey : String) : FinalizationActions :=
  match s.pendingIteration.lookup threadKey with
  | none =>
    s.textReply h request "" "No pending iteration; treating this as a fresh request."
  | some workflowId =>
    let s := { s with pendingIteration := s.pendingIteration.erase threadKey }
    match s.getWorkflow workflowId with
    | none =>
      s.textReply h request workflowId ("Workflow `" ++ workflowId ++ "` is no longer active.")
    | some (c, ctx) =>
      match completionStub ctx ⟨"Iterating on workflow " ++ ctx.workflowId ++
          " per user feedback.", by simp⟩ with
      | none => s.setPhase h request ctx.workflowId .raised
      | some complete => s.reDelegate E h request ctx (sessionFactory c ctx complete)

/-! ### Resumption -/

def reDelegatedMessage (session : FinalizationSession) : String :=
  "Re-delegated workflow " ++ session.task.workflowId.val ++ " (iteration " ++
    toString session.task.iterationNumber ++ ")."

def advance (E : ActionEnv) (s : FinalizationActions) (h : HandlerId)
    (request : NormalizedRequest) (workflowId : String) :
    ActionPhase → ToolOutcome → Option FinalizationActions
  | .git session step left detached, .returned output =>
    some (s.afterGit E h request workflowId session detached step output left)
  | .creatingPr _ detached, .returned output =>
    some <| if isErrorMessage output then s.renderPush E h request workflowId output detached
      else (s.perform workflowId .pushAndCreatePr).renderPush E h request workflowId output detached
  | .creatingPr _ detached, .commandError output =>
    some (s.renderPush E h request workflowId ("Error: gh pr create failed: " ++ output) detached)
  | .git _ _ _ detached, .raised exc | .creatingPr _ detached, .raised exc =>
    some (s.pushRaised h request workflowId exc detached)
  | .renderingPush message detached, _ =>
    some (s.afterPush E h request workflowId message detached)
  | .renderingDiscard message isTerminal, _ =>
    some (s.afterDiscard E h request workflowId message isTerminal)
  | .deregistering message, _ => some (s.textReply h request workflowId message)
  | .delegating _, .raised exc =>
    some (s.textReply h request workflowId ("Re-delegation failed: " ++ exc))
  | .delegating session, .returned _ =>
    some <| if E.renderer then
        s.setPhase h request workflowId (.renderingReDelegation (reDelegatedMessage session))
      else s.textReply h request workflowId (reDelegatedMessage session)
  | .renderingReDelegation message, _ => some (s.textReply h request workflowId message)
  | _, _ => none

/-- What cancelling the task of a handler leaves: a push goes on without it. -/
def cancelled : ActionPhase → Option ActionPhase
  | .git session step left false => some (.git session step left true)
  | .creatingPr session false => some (.creatingPr session true)
  | .renderingPush message false => some (.renderingPush message true)
  | .renderingDiscard _ _ | .deregistering _ | .delegating _ | .renderingReDelegation _ =>
    some .cancelled
  | _ => none

def step (E : ActionEnv) (s : FinalizationActions) : ActionEvent → Option FinalizationActions
  | .register context =>
    if context.workflowId ∈ s.registered then none
    else some { s with
      contexts := s.contexts.insert s.nextContext context
      nextContext := s.nextContext + 1
      workflows := s.workflows.insert context.workflowId s.nextContext
      registered := context.workflowId :: s.registered }
  | .deregister workflowId => some { s with workflows := s.workflows.erase workflowId }
  | .handle h request removal =>
    if (s.tasks.lookup h).isSome then none else some (s.handle E h request removal)
  | .feedback h request threadKey =>
    if (s.tasks.lookup h).isSome ∨ (s.iterations.lookup h).isSome then none
    else some (s.consumeIterationFeedback E h request threadKey)
  | .reDelegate h c task =>
    if (s.tasks.lookup h).isSome ∨ (s.iterations.lookup h).isSome then none
    else (s.contexts.lookup c).map fun ctx => { s with
      contexts := s.contexts.insert c { ctx with task := task }
      iterations := s.iterations.insert h ctx.workflowId }
  | .resume h outcome =>
    (s.tasks.lookup h).bind fun t => s.advance E h t.request t.workflowId t.phase outcome
  | .cancel h =>
    (s.tasks.lookup h).bind fun t =>
      (cancelled t.phase).map fun phase => s.setPhase h t.request t.workflowId phase
  | .iterationEnds h =>
    if (s.iterations.lookup h).isSome then
      some { s with iterations := s.iterations.erase h }
    else none

end FinalizationActions

def actionMachine (E : ActionEnv) : Machine FinalizationActions ActionEvent where
  init := {}
  step := FinalizationActions.step E

end NemoClaw
