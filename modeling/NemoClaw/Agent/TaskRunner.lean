import NemoClaw.Agent.Loop
import NemoClaw.Orchestrator.FinalizationActions

/-! The end of a delegated task in the sub-agent's process (`_run_assigned_task`,
`agent/__main__.py`): the diff against the assigned baseline (`agent/git_helpers.py`), taken through
`run_git` (`tools/git.py`), and the completion payload. -/

namespace NemoClaw

/-! ### Git processes -/

inductive GitProcess
  | exited (returncode : ℤ) (stdout stderr : String)
  | timedOut
  | notInstalled
  deriving DecidableEq

/-- `_OUTPUT_MAX_BYTES`, which `run_git` compares with a number of characters. -/
def outputMaxBytes : ℕ := 65536

def truncationMarker : String := "\n... (truncated at 65536 bytes)"

def gitTimeoutMessage : String := "Error: git command timed out after 30s"

def runGit (E : ActionEnv) : GitProcess → String
  | .timedOut => gitTimeoutMessage
  | .notInstalled => "Error: git is not installed"
  | .exited returncode stdout stderr =>
    if returncode ≠ 0 then "Exit code: " ++ toString returncode ++ "\n" ++ E.strip stderr
    else
      let output := if stdout = "" then stderr else stdout
      if outputMaxBytes < output.length then truncate output outputMaxBytes ++ truncationMarker
      else output

/-- A command that fails is told from one that succeeds. -/
theorem isGitError_of_fails {E : ActionEnv} {process : GitProcess}
    (h : ∀ stdout stderr, process ≠ .exited 0 stdout stderr) :
    isGitError (runGit E process) = true := by
  cases process with
  | exited returncode stdout stderr =>
    have hfails : returncode ≠ 0 := by
      rintro rfl
      exact h stdout stderr rfl
    have hrun : runGit E (.exited returncode stdout stderr) =
        "Exit code: " ++ (toString returncode ++ ("\n" ++ E.strip stderr)) := by
      simp only [runGit, if_pos hfails, String.append_assoc]
    rw [isGitError, hrun, String.toList_append]
    rfl
  | timedOut => exact (by decide : isGitError gitTimeoutMessage = true)
  | notInstalled => exact (by decide : isGitError "Error: git is not installed" = true)

/-- A diff, unless a warning takes its place. -/
theorem runGit_exited {E : ActionEnv} {text stderr : String} (h : text = "" → stderr = "") :
    runGit E (.exited 0 text stderr) =
      if outputMaxBytes < text.length then truncate text outputMaxBytes ++ truncationMarker
      else text := by
  have hout : (if text = "" then stderr else text) = text := by
    split_ifs with hempty
    · rw [h hempty, hempty]
    · rfl
  simp only [runGit, ne_eq, not_true_eq_false, if_false, hout]

/-- `_require_git_workspace_root` does not raise. -/
def isGitWorkspaceRoot (E : ActionEnv) (workspaceRoot : String) (topLevel : GitProcess) : Bool :=
  let topLevel := E.strip (runGit E topLevel)
  !isGitError topLevel && decide (E.resolve topLevel = E.resolve workspaceRoot)

inductive DiffError
  | workspaceNotAGitRepo
  | gitDiff (output : String)
  deriving DecidableEq

/-- `diff_against_baseline`: git prints the top level, and later the diff. What becomes of
`git add --intent-to-add` in between is not looked at. -/
def diffAgainstBaseline (E : ActionEnv) (workspaceRoot : String) (topLevel diff : GitProcess) :
    Except DiffError String :=
  if isGitWorkspaceRoot E workspaceRoot topLevel then
    if isGitError (runGit E diff) then .error (.gitDiff (runGit E diff)) else .ok (runGit E diff)
  else .error .workspaceNotAGitRepo

def computeBaselineDiff (E : ActionEnv) (task : TaskAssignPayload) (topLevel diff : GitProcess) :
    String :=
  match task.workspaceBaseline with
  | none => ""
  | some _ =>
    match diffAgainstBaseline E task.workspaceRoot topLevel diff with
    | .error _ => ""
    | .ok diff => diff

/-! ### Completions -/

/-- `AgentLoopConfig` with its model. -/
structure TaskLoopConfig extends AgentLoopConfig where
  model : String

/-- The `loop_config` of a task. -/
def TaskLoopConfig.override (config : TaskLoopConfig) (task : TaskAssignPayload) :
    TaskLoopConfig :=
  { config with
    maxToolRounds := (task.maxTurns.map Subtype.val).getD config.maxToolRounds
    model := task.model.getD config.model }

structure MaxTurnsExceededError where
  maxToolRounds : ℕ
  roundsUsed : ℕ
  toolCallsMade : ℕ
  partialSummary : String
  deriving DecidableEq

/-- `result.content or "(empty response)"` -/
def summaryOf (content : String) : NonEmptyString :=
  if h : content ≠ "" then ⟨content, h⟩ else ⟨"(empty response)", by decide⟩

/-- `_run_assigned_task` after its loop returned. -/
def runAssignedTask (E : ActionEnv) (config : TaskLoopConfig) (task : TaskAssignPayload)
    (result : AgentLoopResult) (topLevel diff : GitProcess) :
    Except MaxTurnsExceededError TaskCompletePayload :=
  let loopConfig := config.override task
  if result.hitSafetyLimit then
    .error ⟨loopConfig.maxToolRounds, result.rounds, result.toolCallsMade, result.content⟩
  else
    .ok {
      workflowId := task.workflowId
      summary := summaryOf result.content
      diff := computeBaselineDiff E task topLevel diff
      workspaceBaseline := task.workspaceBaseline
      toolCallsMade := result.toolCallsMade
      roundsUsed := result.rounds
      modelUsed := some loopConfig.model }

section

variable {E : ActionEnv} {config : TaskLoopConfig} {task : TaskAssignPayload}
  {result : AgentLoopResult} {topLevel diff : GitProcess} {complete : TaskCompletePayload}

theorem runAssignedTask_eq_ok
    (h : runAssignedTask E config task result topLevel diff = .ok complete) :
    result.hitSafetyLimit = false ∧ complete.workflowId = task.workflowId ∧
      complete.diff = computeBaselineDiff E task topLevel diff ∧
        complete.workspaceBaseline = task.workspaceBaseline := by
  unfold runAssignedTask at h
  cases hlimit : result.hitSafetyLimit with
  | true =>
    simp only [hlimit, if_true] at h
    contradiction
  | false =>
    simp only [hlimit, Bool.false_eq_true, if_false] at h
    obtain rfl := Except.ok.inj h
    exact ⟨rfl, rfl, rfl, rfl⟩

/-- The diff of a task with a baseline, whose workspace is the root of a repository. -/
theorem computeBaselineDiff_eq (hbaseline : task.workspaceBaseline.isSome = true)
    (hroot : isGitWorkspaceRoot E task.workspaceRoot topLevel = true)
    (hdiff : isGitError (runGit E diff) = false) :
    computeBaselineDiff E task topLevel diff = runGit E diff := by
  obtain ⟨baseline, hbaseline⟩ := Option.isSome_iff_exists.1 hbaseline
  simp [computeBaselineDiff, diffAgainstBaseline, hbaseline, hroot, hdiff]

end

def mainBaseline : WorkspaceBaseline where
  repoUrl := ⟨"https://github.com/acme/demo.git", by decide⟩
  branch := ⟨"main", by decide⟩
  baseSha := ⟨"1f7a7a472abf3dd9643fd615f6da379c4acb3e3a", by decide⟩

def codingModel : TaskLoopConfig where
  maxToolRounds := 10
  maxContinuationRetries := 2
  microCompactionChars := 10000
  compactionThresholdChars := 100000
  compactionMinKeep := 4
  model := "coder"

end NemoClaw
