import NemoClaw.Orchestrator.Dispatcher
import NemoClaw.Orchestrator.Clicks

/-! The finalization tools (`tools/finalization.py`) in the session of one finalization run, and
what the coordinator (`orchestrator/finalization.py`) and `_finalize` make of the session's state.
The tools of one run are called one after another, in any number and any order; git, `gh`, the file
system, the renderer and the sub-agent are the environment. -/

namespace NemoClaw

open Lib

namespace FinalizationTools

/-- `FinalizationAction` of the source, whole. -/
inductive FinalizationAction
  | presentWorkToUser | pushBranch | pushAndCreatePr | discardWork | reDelegate | destroySandbox
  | modelResponse
  deriving DecidableEq, Repr

structure FinalizationState where
  action : Option FinalizationAction := none
  message : String := ""
  isTerminal : Bool := false
  deriving DecidableEq

/-- A call on the renderer. -/
inductive FinalizationRender
  | presentWork (summary diff : String)
  | finalizationAction (action : FinalizationAction) (result : String)
  deriving DecidableEq

/-- A finalization run: its session, with the context's task and the calls it made on the
renderer and on the delegation manager. -/
structure FinalizationRun where
  session : FinalizationSession
  contextTask : TaskAssignPayload
  state : FinalizationState := {}
  renders : List FinalizationRender := []
  delegated : List TaskAssignPayload := []

/-- A tool call of the model, with what the environment answers to it. The `i`-th git command of a
push is answered by `git i`: an output, or an exception. -/
inductive FinalizationCall
  | presentWorkToUser (summary : Option String) (includeDiff : Bool)
      (rendered : Except String Unit)
  | pushBranch (branchName commitMessage remote : String) (git : ℕ → Except String String)
  | pushAndCreatePr (branchName title body remote : String) (git : ℕ → Except String String)
      (pr : ToolOutcome)
  | discardWork (reason : String) (removal : Removal)
  | reDelegate (prompt : String) (maxTurns : Option ℤ) (model : Option String)
      (delegated : Except String Unit)
  | destroySandbox

def diffPreviewLimit : ℕ := 8000

/-! ### The tools -/

/-- `_do_push_branch` from its `i`-th git command on. -/
def runSteps (E : ActionEnv) (workspace : String) (git : ℕ → Except String String) :
    ℕ → GitStep → List GitStep → Except String String
  | i, step, left =>
    match git i with
    | .error exc => .error exc
    | .ok output =>
      match step.failure E workspace output, left with
      | some out, _ => .ok (gitCommandError step out)
      | none, [] => .ok output
      | none, next :: left => runSteps E workspace git (i + 1) next left

def doPushBranch (E : ActionEnv) (workspace branchName commitMessage remote : String)
    (git : ℕ → Except String String) : Except String String :=
  runSteps E workspace git 0 .ensureRoot (pushSteps branchName commitMessage remote)

/-- The message of `push_and_create_pr`. -/
def pushAndCreatePrMessage (E : ActionEnv) (workspace branchName title remote : String)
    (git : ℕ → Except String String) (pr : ToolOutcome) : Except String String :=
  match doPushBranch E workspace branchName title remote git with
  | .error exc => .error exc
  | .ok pushOutput =>
    if isErrorMessage pushOutput then .ok pushOutput
    else
      match pr with
      | .returned output => .ok output
      | .commandError output => .ok ("Error: gh pr create failed: " ++ output)
      | .raised exc => .error exc

namespace FinalizationRun

def renderActionResult (E : ActionEnv) (run : FinalizationRun) (action : FinalizationAction)
    (result : String) : FinalizationRun :=
  if E.renderer then { run with renders := run.renders ++ [.finalizationAction action result] }
  else run

/-- `state.action` and `state.message`, which most tools set without the flag. -/
def record (run : FinalizationRun) (action : FinalizationAction) (message : String) :
    FinalizationRun :=
  { run with state := { run.state with action := some action, message := message } }

def setTerminal (run : FinalizationRun) (isTerminal : Bool) : FinalizationRun :=
  { run with state := { run.state with isTerminal := isTerminal } }

def presentWorkToUser (E : ActionEnv) (run : FinalizationRun) (summary : Option String)
    (includeDiff : Bool) (rendered : Except String Unit) :
    FinalizationRun × Except String String :=
  let text := (truthy summary).getD run.session.complete.summary
  let diff := if includeDiff then truncate run.session.complete.diff diffPreviewLimit else ""
  let run := if E.renderer then { run with renders := run.renders ++ [.presentWork text diff] }
    else run
  match E.renderer, rendered with
  | true, .error exc => (run, .error exc)
  | _, _ => (run.record .presentWorkToUser text, .ok text)

/-- The end of both push tools. -/
def finishPush (E : ActionEnv) (run : FinalizationRun) (action : FinalizationAction) :
    Except String String → FinalizationRun × Except String String
  | .error exc => (run, .error exc)
  | .ok message =>
    (((run.renderActionResult E action message).record action message).setTerminal
      (!isErrorMessage message), .ok message)

def pushBranch (E : ActionEnv) (run : FinalizationRun) (branchName commitMessage remote : String)
    (git : ℕ → Except String String) : FinalizationRun × Except String String :=
  run.finishPush E .pushBranch
    (doPushBranch E run.session.task.workspaceRoot branchName commitMessage remote git)

def pushAndCreatePr (E : ActionEnv) (run : FinalizationRun) (branchName title remote : String)
    (git : ℕ → Except String String) (pr : ToolOutcome) :
    FinalizationRun × Except String String :=
  run.finishPush E .pushAndCreatePr
    (pushAndCreatePrMessage E run.session.task.workspaceRoot branchName title remote git pr)

/-- The path that `discard_work` may delete. -/
def discardable (E : ActionEnv) (run : FinalizationRun) : Bool :=
  looksLikePerAgentWorkspace (E.pathName (E.expandedPath run.session.task.workspaceRoot))
    run.session.task.agentId

def discardWork (E : ActionEnv) (run : FinalizationRun) (reason : String) (removal : Removal) :
    FinalizationRun × Except String String :=
  let path := E.expandedPath run.session.task.workspaceRoot
  if run.discardable E then
    match removal with
    | .failed exc => (run, .error exc)
    | .absent | .removed =>
      let message := if reason = "" then "Discarded delegated workspace at " ++ path ++ "."
        else reason
      (((run.renderActionResult E .discardWork message).record .discardWork message).setTerminal
        true, .ok message)
  else
    let errorText := "Error: refusing to discard non-agent path " ++ path
    ((run.renderActionResult E .discardWork errorText).record .discardWork errorText, .ok errorText)

def reDelegate (E : ActionEnv) (run : FinalizationRun) (prompt : String) (maxTurns : Option ℤ)
    (model : Option String) (delegated : Except String Unit) :
    FinalizationRun × Except String String :=
  if E.delegationManager then
    match run.session.task.followup prompt maxTurns model with
    | none => (run, .error (E.followupError prompt))
    | some followup =>
      let run := { run with
        contextTask := followup
        session := { run.session with task := followup } }
      match delegated with
      | .error exc => (run, .error exc)
      | .ok () =>
        let run := { run with delegated := run.delegated ++ [followup] }
        let message := FinalizationActions.reDelegatedMessage run.session
        ((run.renderActionResult E .reDelegate message).record .reDelegate message, .ok message)
  else (run, .ok "Error: delegation manager unavailable")

def destroySandbox (E : ActionEnv) (run : FinalizationRun) :
    FinalizationRun × Except String String :=
  let message := "Sub-agent process is already single-shot; no sandbox to destroy."
  (((run.renderActionResult E .destroySandbox message).record .destroySandbox message).setTerminal
    true, .ok message)

/-- A tool call: the run after it, and what it returns or raises. -/
def call (E : ActionEnv) (run : FinalizationRun) :
    FinalizationCall → FinalizationRun × Except String String
  | .presentWorkToUser summary includeDiff rendered =>
    run.presentWorkToUser E summary includeDiff rendered
  | .pushBranch branchName commitMessage remote git =>
    run.pushBranch E branchName commitMessage remote git
  | .pushAndCreatePr branchName title _ remote git pr =>
    run.pushAndCreatePr E branchName title remote git pr
  | .discardWork reason removal => run.discardWork E reason removal
  | .reDelegate prompt maxTurns model delegated =>
    run.reDelegate E prompt maxTurns model delegated
  | .destroySandbox => run.destroySandbox E

/-- The run after a list of tool calls. -/
def calls (E : ActionEnv) (run : FinalizationRun) (cs : List FinalizationCall) :
    FinalizationRun :=
  cs.foldl (fun run c => (run.call E c).1) run

end FinalizationRun

structure FinalizationResult where
  workflowId : String
  action : FinalizationAction
  message : String
  isTerminal : Bool := true

/-- The end of `FinalizationCoordinator.finalize`, after its loop returned `content`. -/
def finalizationResult (workflowId content : String) (state : FinalizationState) :
    FinalizationResult where
  workflowId := workflowId
  action := state.action.getD .modelResponse
  message := if state.message = "" then content else state.message
  isTerminal := if state.action.isSome then state.isTerminal else true

/-- `FinalizationCoordinator.finalize` from its session on: the model makes the calls `cs`, and its
loop returns `content`. -/
def finalize (E : ActionEnv) (workflowId : String) (session : FinalizationSession)
    (cs : List FinalizationCall) (content : String) : FinalizationResult :=
  let run : FinalizationRun := { session := session, contextTask := session.task }
  finalizationResult workflowId content (run.calls E cs).state

/-! ### What a call performs -/

/-- An action that was performed, with whether it went through. -/
inductive Performed
  | presented
  | pushed (createPr landed : Bool)
  | discarded (deleted : Bool)
  | reDelegated
  | destroyed
  deriving DecidableEq, Repr

namespace Performed

/-- The workflow ends with the action. -/
def ends : Performed → Bool
  | .presented | .reDelegated => false
  | .pushed _ landed => landed
  | .discarded deleted => deleted
  | .destroyed => true

/-- A push, whether or not it landed, a deletion or the end of the sandbox. -/
def decides : Performed → Bool
  | .presented | .reDelegated | .discarded false => false
  | .pushed _ _ | .discarded true | .destroyed => true

def action : Performed → FinalizationAction
  | .presented => .presentWorkToUser
  | .pushed false _ => .pushBranch
  | .pushed true _ => .pushAndCreatePr
  | .discarded _ => .discardWork
  | .reDelegated => .reDelegate
  | .destroyed => .destroySandbox

theorem ends_of_not_decides {p : Performed} (h : p.decides = false) : p.ends = false := by
  cases p with
  | presented | reDelegated => rfl
  | pushed | destroyed => contradiction
  | discarded deleted =>
    cases deleted with
    | false => rfl
    | true => contradiction

end Performed

def pushPerformed (createPr : Bool) : Except String String → Option Performed
  | .error _ => none
  | .ok message => some (.pushed createPr (!isErrorMessage message))

/-- What a call performs in the run, unless it raises or cannot start. -/
def performs (E : ActionEnv) (run : FinalizationRun) : FinalizationCall → Option Performed
  | .presentWorkToUser _ _ rendered =>
    match E.renderer, rendered with
    | true, .error _ => none
    | _, _ => some .presented
  | .pushBranch branchName commitMessage remote git =>
    pushPerformed false
      (doPushBranch E run.session.task.workspaceRoot branchName commitMessage remote git)
  | .pushAndCreatePr branchName title _ remote git pr =>
    pushPerformed true
      (pushAndCreatePrMessage E run.session.task.workspaceRoot branchName title remote git pr)
  | .discardWork _ removal =>
    match run.discardable E, removal with
    | false, _ => some (.discarded false)
    | true, .failed _ => none
    | true, _ => some (.discarded true)
  | .reDelegate prompt maxTurns model delegated =>
    match E.delegationManager, run.session.task.followup prompt maxTurns model, delegated with
    | true, some _, .ok () => some .reDelegated
    | _, _, _ => none
  | .destroySandbox => some .destroyed

/-- The actions that a list of calls performs. -/
def performed (E : ActionEnv) (run : FinalizationRun) : List FinalizationCall → List Performed
  | [] => []
  | c :: cs => (performs E run c).toList ++ performed E (run.call E c).1 cs

/-- The last action performed ends the workflow; a run that performs none ends it too. -/
def lastEnds (actions : List Performed) : Bool :=
  match actions.getLast? with
  | none => true
  | some p => p.ends

/-- The last of the actions that decides, if any does, was a push that failed. -/
def Undecided (actions : List Performed) : Prop :=
  ∀ before p after, actions = before ++ p :: after → p.decides = true →
    (∀ q ∈ after, q.decides = false) → p.ends = false

/-- The last action decides, or nothing before it has ended the workflow. -/
def LastDecides (actions : List Performed) : Prop :=
  ∀ before p, actions = before ++ [p] → p.decides = true ∨ Undecided before

/-! ### The state after a call -/

/-- What a call leaves of the state: nothing new, or its own action with a flag that only some
actions set. -/
def Follows (state state' : FinalizationState) : Option Performed → Prop
  | none => state' = state
  | some p => state'.action = some p.action ∧
    state'.isTerminal = if p.decides then p.ends else state.isTerminal

section

variable {E : ActionEnv} {run : FinalizationRun}

@[simp] theorem state_renderActionResult (run : FinalizationRun) (action : FinalizationAction)
    (result : String) : (run.renderActionResult E action result).state = run.state := by
  unfold FinalizationRun.renderActionResult
  split <;> rfl

theorem follows_record (action : FinalizationAction) (result : String) {p : Performed}
    (haction : p.action = action) (hp : p.decides = false) :
    Follows run.state ((run.renderActionResult E action result).record action result).state
      (some p) := by
  subst haction
  refine ⟨rfl, ?_⟩
  simp [FinalizationRun.record, hp]

theorem follows_setTerminal (action : FinalizationAction) (result : String) {p : Performed}
    (haction : p.action = action) (hp : p.decides = true) :
    Follows run.state
      (((run.renderActionResult E action result).record action result).setTerminal p.ends).state
      (some p) := by
  subst haction
  refine ⟨rfl, ?_⟩
  simp [FinalizationRun.setTerminal, hp]

theorem follows_present (summary : Option String) (includeDiff : Bool)
    (rendered : Except String Unit) :
    Follows run.state (run.presentWorkToUser E summary includeDiff rendered).1.state
      (performs E run (.presentWorkToUser summary includeDiff rendered)) := by
  unfold FinalizationRun.presentWorkToUser performs
  cases E.renderer with
  | false =>
    cases rendered with
    | error | ok => exact ⟨rfl, rfl⟩
  | true =>
    cases rendered with
    | error exc => exact rfl
    | ok => exact ⟨rfl, rfl⟩

theorem follows_reDelegate (prompt : String) (maxTurns : Option ℤ) (model : Option String)
    (delegated : Except String Unit) :
    Follows run.state (run.reDelegate E prompt maxTurns model delegated).1.state
      (performs E run (.reDelegate prompt maxTurns model delegated)) := by
  unfold FinalizationRun.reDelegate performs
  dsimp only
  cases E.delegationManager with
  | false => exact rfl
  | true =>
    cases hf : run.session.task.followup prompt maxTurns model with
    | none =>
      cases delegated with
      | error | ok => exact rfl
    | some followup =>
      cases delegated with
      | error exc => exact rfl
      | ok =>
        refine ⟨rfl, ?_⟩
        simp [FinalizationRun.record, Performed.decides]

theorem follows_discard (reason : String) (removal : Removal) :
    Follows run.state (run.discardWork E reason removal).1.state
      (performs E run (.discardWork reason removal)) := by
  unfold FinalizationRun.discardWork performs
  cases run.discardable E with
  | false => exact follows_record .discardWork _ (p := .discarded false) rfl rfl
  | true =>
    cases removal with
    | failed exc => exact rfl
    | absent | removed => exact follows_setTerminal .discardWork _ (p := .discarded true) rfl rfl

theorem follows_finishPush (createPr : Bool) (message : Except String String) :
    Follows run.state
      (run.finishPush E (Performed.pushed createPr true).action message).1.state
      (pushPerformed createPr message) := by
  cases message with
  | error exc => exact rfl
  | ok message =>
    refine follows_setTerminal (Performed.pushed createPr true).action message
      (p := .pushed createPr (!isErrorMessage message)) ?_ rfl
    cases createPr <;> rfl

theorem call_follows (run : FinalizationRun) (c : FinalizationCall) :
    Follows run.state (run.call E c).1.state (performs E run c) := by
  cases c with
  | presentWorkToUser summary includeDiff rendered => exact follows_present _ _ _
  | pushBranch branchName commitMessage remote git => exact follows_finishPush false _
  | pushAndCreatePr branchName title body remote git pr => exact follows_finishPush true _
  | discardWork reason removal => exact follows_discard reason removal
  | reDelegate prompt maxTurns model delegated => exact follows_reDelegate _ _ _ _
  | destroySandbox => exact follows_setTerminal _ _ (p := .destroyed) rfl rfl

/-! ### The state after a run -/

/-- The flag after the actions, each of which may set it. -/
def flagAfter (isTerminal : Bool) (actions : List Performed) : Bool :=
  actions.foldl (fun flag p => if p.decides then p.ends else flag) isTerminal

theorem flagAfter_append_singleton (isTerminal : Bool) (actions : List Performed)
    (p : Performed) : flagAfter isTerminal (actions ++ [p]) =
      if p.decides then p.ends else flagAfter isTerminal actions := by
  rw [flagAfter, List.foldl_append]
  rfl

/-- What a run of calls leaves of the state. -/
theorem calls_state (run : FinalizationRun) (cs : List FinalizationCall) :
    (run.calls E cs).state.isTerminal = flagAfter run.state.isTerminal (performed E run cs) ∧
      (run.calls E cs).state.action =
        ((performed E run cs).getLast?.map Performed.action).or run.state.action := by
  induction cs generalizing run with
  | nil => exact ⟨rfl, rfl⟩
  | cons c cs ih =>
    obtain ⟨hflag, haction⟩ := ih (run.call E c).1
    have hstep := call_follows (E := E) run c
    change ((run.call E c).1.calls E cs).state.isTerminal = _ ∧
      ((run.call E c).1.calls E cs).state.action = _
    rw [hflag, haction, performed]
    cases hp : performs E run c with
    | none =>
      rw [hp] at hstep
      simp only [Follows] at hstep
      simp [hstep]
    | some p =>
      rw [hp] at hstep
      obtain ⟨ha, ht⟩ := hstep
      refine ⟨?_, ?_⟩
      · rw [ht]
        rfl
      · rw [ha]
        cases hl : (performed E (run.call E c).1 cs).getLast? with
        | none => simp [List.getLast?_eq_none_iff.1 hl]
        | some q => simp [List.getLast?_cons, hl]

theorem flagAfter_eq_false_iff (actions : List Performed) :
    flagAfter false actions = false ↔ Undecided actions := by
  induction actions using List.reverseRecOn with
  | nil =>
    refine ⟨fun _ => ?_, fun _ => rfl⟩
    intro before p after heq
    simp at heq
  | append_singleton actions q ih =>
    rw [flagAfter_append_singleton]
    cases hq : q.decides with
    | true =>
      constructor
      · intro hends before p after heq hp hafter
        rcases List.eq_nil_or_concat after with rfl | ⟨after, r, rfl⟩
        · obtain ⟨-, hlast⟩ := List.append_inj' heq rfl
          obtain rfl := (List.cons.inj hlast).1
          simpa using hends
        · have hr := hafter r (by simp)
          have heq' : actions ++ [q] = (before ++ p :: after) ++ [r] := by simpa using heq
          obtain ⟨-, hlast⟩ := List.append_inj' heq' rfl
          obtain rfl := (List.cons.inj hlast).1
          rw [hq] at hr
          contradiction
      · intro h
        simpa using h actions q [] rfl hq (by simp)
    | false =>
      simp only [Bool.false_eq_true, if_false]
      rw [ih]
      constructor
      · intro h before p after heq hp hafter
        rcases List.eq_nil_or_concat after with rfl | ⟨after, r, rfl⟩
        · obtain ⟨-, hlast⟩ := List.append_inj' heq rfl
          obtain rfl := (List.cons.inj hlast).1
          rw [hq] at hp
          contradiction
        · have heq' : actions ++ [q] = (before ++ p :: after) ++ [r] := by simpa using heq
          obtain ⟨hpre, -⟩ := List.append_inj' heq' rfl
          exact h before p after hpre hp fun r hr => hafter r (by simp [hr])
      · intro h before p after heq hp hafter
        refine h before p (after ++ [q]) (by simp [heq]) hp ?_
        intro r hr
        rcases List.mem_append.1 hr with hr | hr
        · exact hafter r hr
        · obtain rfl := List.mem_singleton.1 hr
          exact hq

theorem lastDecides_append_singleton_iff {actions : List Performed} {p : Performed} :
    LastDecides (actions ++ [p]) ↔ p.decides = true ∨ Undecided actions := by
  constructor
  · exact fun h => h actions p rfl
  · intro h before q heq
    obtain ⟨rfl, hlast⟩ := List.append_inj' heq rfl
    obtain rfl := (List.cons.inj hlast).1
    exact h

/-- A flag that starts unset describes the last action exactly if that action decides or nothing
before it has ended the workflow. -/
theorem flagAfter_eq_ends_iff {actions : List Performed} {p : Performed} :
    flagAfter false (actions ++ [p]) = p.ends ↔ LastDecides (actions ++ [p]) := by
  rw [lastDecides_append_singleton_iff, flagAfter_append_singleton, ← flagAfter_eq_false_iff]
  cases hp : p.decides with
  | true => simp
  | false => simp [Performed.ends_of_not_decides hp]

end

/-- The actions that the calls of a session perform. -/
def performedIn (E : ActionEnv) (session : FinalizationSession) (cs : List FinalizationCall) :
    List Performed :=
  performed E { session := session, contextTask := session.task } cs

theorem finalize_isTerminal_iff (E : ActionEnv) (workflowId : String)
    (session : FinalizationSession) (cs : List FinalizationCall) (content : String) :
    (finalize E workflowId session cs content).isTerminal = lastEnds (performedIn E session cs) ↔
      LastDecides (performedIn E session cs) := by
  obtain ⟨hflag, haction⟩ := calls_state (E := E)
    { session := session, contextTask := session.task } cs
  change (if (FinalizationRun.calls E _ cs).state.action.isSome then
    (FinalizationRun.calls E _ cs).state.isTerminal else true) = _ ↔ _
  rw [hflag, haction, performedIn]
  rcases List.eq_nil_or_concat (performed E { session := session, contextTask := session.task } cs)
    with hnil | ⟨actions, p, hsnoc⟩
  · simp [hnil, lastEnds, LastDecides]
  · rw [hsnoc, List.concat_eq_append, ← flagAfter_eq_ends_iff]
    simp [lastEnds]

/-! ### What `_finalize` makes of it -/

section

variable {π : Type} {D : DispatcherEnv π} {d d' : Dispatcher} {t : FinalizeId}

/-- Finalisation task `t` waits for the finalization run of a registered workflow. -/
structure Finalizing (d : Dispatcher) (t : FinalizeId) (workflowId : String) : Prop where
  deciding : ∃ task session context, d.tasks.lookup t = some task ∧
    task.phase = .deciding session ∧ d.contexts.lookup task.context = some context ∧
      context.workflowId = workflowId
  registered : (d.workflows.lookup workflowId).isSome = true

/-- The workflow is still registered, and nothing was terminated or rendered. -/
def KeptRegistered (d d' : Dispatcher) : Prop :=
  d'.workflows = d.workflows ∧ d'.effects = d.effects

/-- `_finalize` keeps the workflow exactly if the flag it reads is unset. -/
theorem kept_iff_not_terminal {workflowId : String} (hfin : Finalizing d t workflowId)
    {isTerminal : Bool} (hs : d.step D (.finalize t (.finished isTerminal)) = some d') :
    KeptRegistered d d' ↔ isTerminal = false := by
  obtain ⟨⟨task, session, context, htask, hphase, hcontext, rfl⟩, hreg⟩ := hfin
  simp only [Dispatcher.step, htask, hcontext, Option.bind_some, hphase, Dispatcher.advance] at hs
  obtain rfl := Option.some.inj hs
  cases isTerminal with
  | false => exact iff_of_true ⟨rfl, rfl⟩ rfl
  | true =>
    refine iff_of_false ?_ nofun
    intro hkept
    have hworkflows : (d.workflows.erase context.workflowId) = d.workflows := by
      have := hkept.1
      simp only [if_true, Dispatcher.finishTerminal, Dispatcher.deregisterWorkflow] at this
      split at this <;> exact this
    rw [← hworkflows] at hreg
    simp at hreg

end

/-- The flag that `_finalize` reads describes the last action that the calls performed, and a
workflow whose last action does not end it is kept, exactly if that action decides or nothing
before it has ended the workflow. -/
theorem outcome_reflects_last_iff {π : Type} (E : ActionEnv) (D : DispatcherEnv π)
    (workflowId : String) (session : FinalizationSession) (cs : List FinalizationCall)
    (content : String) :
    ((finalize E workflowId session cs content).isTerminal =
        lastEnds (performedIn E session cs) ↔ LastDecides (performedIn E session cs)) ∧
      ∀ d d' t, Finalizing d t workflowId →
        d.step D (.finalize t
          (.finished (finalize E workflowId session cs content).isTerminal)) = some d' →
        lastEnds (performedIn E session cs) = false →
          (KeptRegistered d d' ↔ LastDecides (performedIn E session cs)) := by
  have hiff := finalize_isTerminal_iff E workflowId session cs content
  refine ⟨hiff, ?_⟩
  intro d d' t hfin hs hlast
  rw [kept_iff_not_terminal hfin hs, ← hiff, hlast]

/-! ### A push that is presented -/

/-- Every git command of a push in `/work/agent-1` succeeds. -/
def cleanGit : ℕ → Except String String := fun _ => .ok "/work/agent-1"

def pushThenPresent : List FinalizationCall :=
  [.pushBranch "finalize/wf-1" "Finalize delegated work" "origin" cleanGit,
    .presentWorkToUser none true (.ok ())]

def presentOnly : List FinalizationCall := [.presentWorkToUser none true (.ok ())]

def fixBugSession : FinalizationSession where
  task := FinalizationActions.fixBugWorkflow.task
  complete := fixBugResult
  context := 0

/-- A dispatcher whose finalisation task for `wf-1` is at its model. -/
def decidingDispatcher : Dispatcher where
  contexts := (∅ : Dict CtxId WorkflowContext).insert 0 FinalizationActions.fixBugWorkflow
  nextContext := 1
  workflows := (∅ : Dict String CtxId).insert "wf-1" 0
  tasks := (∅ : Dict FinalizeId FinalizeTask).insert 0 ⟨0, fixBugResult, .deciding fixBugSession⟩
  nextTask := 1

theorem deciding_finalizing : Finalizing decidingDispatcher 0 "wf-1" :=
  ⟨⟨_, fixBugSession, FinalizationActions.fixBugWorkflow, rfl, rfl, rfl, rfl⟩, rfl⟩

theorem outcome_reflects_last_iff_presentOnly : ∃ d', decidingDispatcher.step wireDispatcher
    (.finalize 0 (.finished (finalize FinalizationActions.plainPaths "wf-1" fixBugSession
      presentOnly "").isTerminal)) = some d' ∧
      (KeptRegistered decidingDispatcher d' ↔
        LastDecides (performedIn FinalizationActions.plainPaths fixBugSession presentOnly)) :=
  ⟨_, rfl, (outcome_reflects_last_iff FinalizationActions.plainPaths wireDispatcher "wf-1"
    fixBugSession presentOnly "").2 _ _ 0 deciding_finalizing rfl rfl⟩

/-- The buttons are presented for a workflow that `_finalize` then deregisters. -/
theorem presented_deregistered : ¬ ∀ cs, (finalize FinalizationActions.plainPaths "wf-1"
    fixBugSession cs "").isTerminal =
      lastEnds (performedIn FinalizationActions.plainPaths fixBugSession cs) := by
  intro hall
  have h := hall pushThenPresent
  revert h
  decide

end FinalizationTools

end NemoClaw
