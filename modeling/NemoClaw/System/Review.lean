import Mathlib.Data.Countable.Basic
import Mathlib.Logic.Equiv.List
import Mathlib.Tactic.IntervalCases
import NemoClaw.Agent.AuditBuffer
import NemoClaw.Agent.TaskRunner
import NemoClaw.Lib.WorkTree
import NemoClaw.Orchestrator.FinalizationTools
import NemoClaw.System.AuditRows

/-! From the reported diff to the push. The sub-agent takes its diff when its loop is over and
writes the audit fallback after it; the finalization tools stage and push what the workspace holds
by then. `git add`, `diff`, `checkout`, `commit` and `push` are exact operations on trees. -/

namespace NemoClaw

open Lib FinalizationTools

/-- What `git diff` prints for two trees: the second can be read off it, it begins with a header,
and no line of it begins with a dot. -/
structure GitDiff extends ExactDiff String String String where
  header : ∀ base t, text base t = "" ∨ "diff --git".toList <+: (text base t).toList
  dotless : ∀ base t pre post, (text base t).toList ≠ pre ++ "\n.".toList ++ post

namespace GitDiff

variable (D : GitDiff) {E : ActionEnv}

/-- The process of `git diff` against the base. -/
def process (base t : Tree String String) : GitProcess := .exited 0 (D.text base t) ""

theorem isGitError_eq_false {output : String}
    (h : output = "" ∨ "diff --git".toList <+: output.toList) : isGitError output = false := by
  rcases h with rfl | ⟨rest, hrest⟩
  · decide
  · unfold isGitError isErrorMessage
    rw [← hrest]
    rfl

theorem runGit_process (base t : Tree String String) :
    runGit E (D.process base t) =
      if outputMaxBytes < (D.text base t).length then
        truncate (D.text base t) outputMaxBytes ++ truncationMarker
      else D.text base t :=
  runGit_exited fun _ => rfl

theorem isGitError_runGit (base t : Tree String String) :
    isGitError (runGit E (D.process base t)) = false := by
  apply isGitError_eq_false
  rw [runGit_process]
  split_ifs with hlong
  · rcases D.header base t with hempty | hheader
    · rw [hempty] at hlong
      contradiction
    · have hfits : "diff --git".toList.length ≤ outputMaxBytes := by simp [outputMaxBytes]
      have htake : (truncate (D.text base t) outputMaxBytes).toList =
          (D.text base t).toList.take outputMaxBytes := String.toList_ofList
      right
      rw [String.toList_append, htake]
      exact (List.prefix_take_iff.2 ⟨hheader, hfits⟩).trans (List.prefix_append _ _)
  · exact D.header base t

/-- A truncated diff is the diff of no tree. -/
theorem text_ne_truncated (base t : Tree String String) (s : String) :
    D.text base t ≠ s ++ truncationMarker := by
  intro heq
  refine D.dotless base t s.toList (truncationMarker.toList.drop 2) ?_
  rw [heq, String.toList_append, List.append_assoc]
  rfl

/-- The reported diff makes of its base the tree that it was taken from, if it was not truncated,
and no other tree. -/
theorem apply_runGit_eq_some_iff {base t t' : Tree String String} :
    D.apply base (runGit E (D.process base t)) = some t' ↔
      (D.text base t).length ≤ outputMaxBytes ∧ t' = t := by
  rw [ExactDiff.apply_eq_some, runGit_process]
  split_ifs with hlong
  · refine iff_of_false (D.text_ne_truncated base t' _) ?_
    rintro ⟨hshort, -⟩
    omega
  · constructor
    · intro heq
      exact ⟨by omega, D.exact heq⟩
    · rintro ⟨-, rfl⟩
      rfl

end GitDiff

/-! ### A push on a clone -/

/-- What a command does to the clone. -/
def GitStep.effect (c : Clone String String String) : GitStep → Clone String String String
  | .ensureRoot => c
  | .checkout branch => c.checkout branch
  | .add => c.addAll
  | .commit _ => c.commit
  | .push _ branch => c.push branch

/-- `_do_push_branch` from its `i`-th git command on. A command that fails may have had its effect
nevertheless. -/
def runStepsOn (E : ActionEnv) (workspace : String) (git : ℕ → Except String String)
    (landed : ℕ → Bool) :
    ℕ → GitStep → List GitStep → Clone String String String → Clone String String String
  | i, step, left, c =>
    match git i with
    | .error _ => if landed i then step.effect c else c
    | .ok output =>
      match step.failure E workspace output, left with
      | some _, _ => if landed i then step.effect c else c
      | none, [] => step.effect c
      | none, next :: left => runStepsOn E workspace git landed (i + 1) next left (step.effect c)

def doPushBranchOn (E : ActionEnv) (workspace branchName commitMessage remote : String)
    (git : ℕ → Except String String) (landed : ℕ → Bool) (c : Clone String String String) :
    Clone String String String :=
  runStepsOn E workspace git landed 0 .ensureRoot (pushSteps branchName commitMessage remote) c

section

variable {E : ActionEnv} {workspace : String} {git : ℕ → Except String String}
  {landed : ℕ → Bool}

def GitStep.Succeeds (E : ActionEnv) (workspace : String) (answer : Except String String)
    (step : GitStep) : Prop :=
  ∃ output, answer = .ok output ∧ step.failure E workspace output = none

theorem isErrorMessage_gitCommandError (step : GitStep) (output : String) :
    isErrorMessage (gitCommandError step output) = true := by
  unfold isErrorMessage gitCommandError
  rw [String.toList_append, String.toList_append, String.toList_append]
  rfl

variable (E workspace git landed) in
/-- The commands that have an effect are the first `k`; if the push succeeds they are all. -/
structure RunsFirst (i : ℕ) (step : GitStep) (left : List GitStep) (c : Clone String String String)
    (k : ℕ) : Prop where
  le : k ≤ left.length + 1
  effect : runStepsOn E workspace git landed i step left c =
    ((step :: left).take k).foldl GitStep.effect c
  succeeds : 1 < k → step.Succeeds E workspace (git i)
  all : ∀ output, runSteps E workspace git i step left = .ok output →
    isErrorMessage output = false → k = left.length + 1

/-- A command that fails is the last one. -/
theorem runsFirst_of_fails {i : ℕ} {step : GitStep} (h : ¬ step.Succeeds E workspace (git i))
    (left : List GitStep) (c : Clone String String String) :
    ∃ k, RunsFirst E workspace git landed i step left c k := by
  obtain ⟨k, hk, hstop⟩ : ∃ k ≤ 1, (if landed i then step.effect c else c) =
      ((step :: left).take k).foldl GitStep.effect c := by
    cases landed i with
    | false => exact ⟨0, by omega, rfl⟩
    | true => exact ⟨1, by omega, rfl⟩
  have heffect : runStepsOn E workspace git landed i step left c =
      if landed i then step.effect c else c := by
    unfold runStepsOn
    cases hgit : git i with
    | error exc => rfl
    | ok output =>
      cases hfail : step.failure E workspace output with
      | none => exact absurd ⟨output, hgit, hfail⟩ h
      | some out => simp only [hfail]
  refine ⟨k, by omega, heffect.trans hstop, fun h => by omega, ?_⟩
  intro message hmessage hok
  unfold runSteps at hmessage
  cases hgit : git i with
  | error exc =>
    rw [hgit] at hmessage
    contradiction
  | ok output =>
    cases hfail : step.failure E workspace output with
    | none => exact absurd ⟨output, hgit, hfail⟩ h
    | some out =>
      simp only [hgit, hfail] at hmessage
      obtain rfl := Except.ok.inj hmessage
      rw [isErrorMessage_gitCommandError] at hok
      contradiction

variable (E workspace git landed) in
theorem exists_runsFirst (i : ℕ) (step : GitStep) (left : List GitStep)
    (c : Clone String String String) :
    ∃ k, RunsFirst E workspace git landed i step left c k := by
  induction left generalizing i step c with
  | nil =>
    by_cases hs : step.Succeeds E workspace (git i)
    · refine ⟨1, le_rfl, ?_, fun _ => hs, fun _ _ _ => rfl⟩
      obtain ⟨output, hgit, hok⟩ := hs
      simp [runStepsOn, hgit, hok]
    · exact runsFirst_of_fails hs [] c
  | cons next left ih =>
    by_cases hs : step.Succeeds E workspace (git i)
    · obtain ⟨k, hrest⟩ := ih (i + 1) next (step.effect c)
      refine ⟨k + 1, by simpa using hrest.le, ?_, fun _ => hs, ?_⟩
      · obtain ⟨output, hgit, hok⟩ := hs
        rw [runStepsOn]
        simp only [hgit, hok]
        exact hrest.effect
      · intro message hmessage hok
        obtain ⟨output, hgit, hsucceeds⟩ := hs
        rw [runSteps] at hmessage
        simp only [hgit, hsucceeds] at hmessage
        rw [hrest.all message hmessage hok]
        rfl
    · exact runsFirst_of_fails hs (next :: left) c

@[simp] theorem snapshot_effect (c : Clone String String String) (step : GitStep) :
    (step.effect c).snapshot = c.snapshot := by
  cases step with
  | ensureRoot => rfl
  | checkout branch => exact c.snapshot_checkout branch
  | add => exact c.snapshot_addAll
  | commit message => exact c.snapshot_commit
  | push remote branch => exact c.snapshot_push branch

theorem snapshot_effects (c : Clone String String String) (steps : List GitStep) :
    (steps.foldl GitStep.effect c).snapshot = c.snapshot := by
  induction steps generalizing c with
  | nil => rfl
  | cons step steps ih => rw [List.foldl_cons, ih, snapshot_effect]

variable {branchName commitMessage remote : String}

theorem snapshot_doPushBranchOn (c : Clone String String String) :
    (doPushBranchOn E workspace branchName commitMessage remote git landed c).snapshot =
      c.snapshot := by
  obtain ⟨k, hfirst⟩ := exists_runsFirst E workspace git landed 0 .ensureRoot
    (pushSteps branchName commitMessage remote) c
  rw [doPushBranchOn, hfirst.effect, snapshot_effects]

/-- A push adds what `git add --all` sees to what is pushed, or nothing. -/
theorem mem_pushed_doPushBranchOn {c : Clone String String String}
    {p : String × Tree String String} (hp : p ∈ (doPushBranchOn E workspace branchName
      commitMessage remote git landed c).pushed) :
    p ∈ c.pushed ∨
      GitStep.ensureRoot.Succeeds E workspace (git 0) ∧ p = (branchName, c.snapshot) := by
  obtain ⟨k, hfirst⟩ := exists_runsFirst E workspace git landed 0 .ensureRoot
    (pushSteps branchName commitMessage remote) c
  have hk : k ≤ 7 := hfirst.le
  rw [doPushBranchOn, hfirst.effect] at hp
  rcases Nat.lt_or_ge k 7 with hlt | hge
  · left
    interval_cases k <;> exact hp
  · obtain rfl : k = 7 := le_antisymm hk hge
    have hpushed : p ∈ c.pushed ++ [(branchName, c.snapshot)] := by
      rw [← c.pushed_commit branchName]
      exact hp
    rcases List.mem_append.1 hpushed with hp | hp
    · exact Or.inl hp
    · exact Or.inr ⟨hfirst.succeeds (by omega), List.mem_singleton.1 hp⟩

/-- A push that reports no error has pushed. -/
theorem pushed_of_doPushBranch {output : String}
    (h : doPushBranch E workspace branchName commitMessage remote git = .ok output)
    (hok : isErrorMessage output = false) (c : Clone String String String) :
    (doPushBranchOn E workspace branchName commitMessage remote git landed c).pushed =
      c.pushed ++ [(branchName, c.snapshot)] := by
  obtain ⟨k, hfirst⟩ := exists_runsFirst E workspace git landed 0 .ensureRoot
    (pushSteps branchName commitMessage remote) c
  obtain rfl := hfirst.all output h hok
  rw [doPushBranchOn, hfirst.effect]
  exact c.pushed_commit branchName

end

/-! ### The tool calls on a clone -/

/-- What happens to the workspace during a tool call: which of its git commands had their effect
although they failed, and what becomes of the files when the call deletes them or starts another
sub-agent on them. -/
structure WorkspaceAnswer where
  landed : ℕ → Bool := fun _ => false
  others : Clone String String String → Clone String String String := id

namespace FinalizationTools.FinalizationCall

/-- Someone other than the sub-agent of the run writes to the workspace. -/
def writes (E : ActionEnv) (task : TaskAssignPayload) : FinalizationCall → Bool
  | .discardWork _ _ =>
    looksLikePerAgentWorkspace (E.pathName (E.expandedPath task.workspaceRoot)) task.agentId
  | .reDelegate prompt maxTurns model _ =>
    E.delegationManager && (task.followup prompt maxTurns model).isSome
  | _ => false

def onClone (E : ActionEnv) (task : TaskAssignPayload) (answer : WorkspaceAnswer)
    (c : Clone String String String) (call : FinalizationCall) : Clone String String String :=
  if call.writes E task then answer.others c
  else
    match call with
    | .pushBranch branchName commitMessage remote git =>
      doPushBranchOn E task.workspaceRoot branchName commitMessage remote git answer.landed c
    | .pushAndCreatePr branchName title _ remote git _ =>
      doPushBranchOn E task.workspaceRoot branchName title remote git answer.landed c
    | _ => c

/-- Where git answers the first command of a push, it names this top level. -/
def SameRoot (E : ActionEnv) (topLevel : GitProcess) : FinalizationCall → Prop
  | .pushBranch _ _ _ git | .pushAndCreatePr _ _ _ _ git _ =>
    ∀ output, git 0 = .ok output →
      output = runGit E topLevel ∨ isGitError (E.strip output) = true
  | _ => True

end FinalizationTools.FinalizationCall

theorem isGitWorkspaceRoot_of_succeeds {E : ActionEnv} {workspaceRoot : String}
    {topLevel : GitProcess} {git : ℕ → Except String String}
    (hs : GitStep.ensureRoot.Succeeds E workspaceRoot (git 0))
    (hsame : ∀ output, git 0 = .ok output →
      output = runGit E topLevel ∨ isGitError (E.strip output) = true) :
    isGitWorkspaceRoot E workspaceRoot topLevel = true := by
  obtain ⟨output, hgit, hok⟩ := hs
  unfold GitStep.failure at hok
  dsimp only at hok
  split_ifs at hok with herror hroot
  rcases hsame output hgit with rfl | herror'
  · simp only [isGitWorkspaceRoot]
    simpa [herror] using hroot
  · exact absurd herror' herror

theorem doPushBranchOn_pushed {E : ActionEnv} {workspace : String} {topLevel : GitProcess}
    {branchName commitMessage remote : String} {git : ℕ → Except String String}
    (landed : ℕ → Bool) (c : Clone String String String)
    (hsame : ∀ output, git 0 = .ok output →
      output = runGit E topLevel ∨ isGitError (E.strip output) = true) :
    (doPushBranchOn E workspace branchName commitMessage remote git landed c).snapshot =
        c.snapshot ∧
      ∀ p ∈ (doPushBranchOn E workspace branchName commitMessage remote git landed c).pushed,
        p ∈ c.pushed ∨ isGitWorkspaceRoot E workspace topLevel = true ∧ p.2 = c.snapshot := by
  refine ⟨snapshot_doPushBranchOn c, fun p hp => ?_⟩
  rcases mem_pushed_doPushBranchOn hp with hp | ⟨hs, rfl⟩
  · exact Or.inl hp
  · exact Or.inr ⟨isGitWorkspaceRoot_of_succeeds hs hsame, rfl⟩

/-- A tool call that nobody else writes in pushes what `git add --all` sees, or nothing. -/
theorem onClone_pushed {E : ActionEnv} {task : TaskAssignPayload} {topLevel : GitProcess}
    {call : FinalizationCall} (answer : WorkspaceAnswer) (c : Clone String String String)
    (hquiet : call.writes E task = false) (hsame : call.SameRoot E topLevel) :
    (call.onClone E task answer c).snapshot = c.snapshot ∧
      ∀ p ∈ (call.onClone E task answer c).pushed, p ∈ c.pushed ∨
        isGitWorkspaceRoot E task.workspaceRoot topLevel = true ∧ p.2 = c.snapshot := by
  unfold FinalizationCall.onClone
  rw [hquiet, if_neg Bool.false_ne_true]
  cases call with
  | presentWorkToUser | discardWork | reDelegate | destroySandbox =>
    exact ⟨rfl, fun p hp => Or.inl hp⟩
  | pushBranch branchName commitMessage remote git => exact doPushBranchOn_pushed _ c hsame
  | pushAndCreatePr branchName title body remote git pr => exact doPushBranchOn_pushed _ c hsame

/-! ### From the completion to the push -/

/-- Where the audit fallback goes in the workspace: `fallbackPath` below its root. -/
def fallbackFile (task : TaskAssignPayload) : String :=
  ".nemoclaw/audit-" ++ task.workflowId ++ ".jsonl"

/-- A delegated run whose agent loop has returned. -/
structure DelegatedRun where
  task : TaskAssignPayload
  baseline : WorkspaceBaseline
  pinned : task.workspaceBaseline = some baseline
  result : AgentLoopResult
  workspace : Clone String String String
  /-- the trees of the commits -/
  commits : String → Tree String String
  /-- the answer to `git rev-parse --show-toplevel` -/
  topLevel : GitProcess
  buffer : AuditBuffer
  /-- what the write of the fallback file leaves there, if anything -/
  fallback : Option String

namespace DelegatedRun

variable (D : GitDiff) (E : ActionEnv) (R : DelegatedRun)

/-- The tree of the baseline. -/
def base : Tree String String := R.commits R.baseline.baseSha

/-- What `diff_against_baseline` leaves of a clone. -/
def announce (c : Clone String String String) : Clone String String String :=
  if isGitWorkspaceRoot E R.task.workspaceRoot R.topLevel then c.intentToAdd else c

def complete (config : TaskLoopConfig) : Except MaxTurnsExceededError TaskCompletePayload :=
  runAssignedTask E config R.task R.result R.topLevel
    (D.process R.base (R.announce E R.workspace).compared)

/-- What `_flush_audit_buffer` leaves of a clone. -/
def flush (c : Clone String String String) : Clone String String String :=
  match R.buffer.jsonlFallback, R.fallback with
  | some _, some blob => c.write (fallbackFile R.task) blob
  | _, _ => c

/-- The workspace after the completion and after `_verify_diff`. Pushes count from there. -/
def delivered : Clone String String String :=
  { R.announce E (R.flush (R.announce E R.workspace)) with pushed := [] }

/-- The workspace after the tool calls of the finalization, and of its buttons. -/
def finalized (calls : List (FinalizationCall × WorkspaceAnswer)) :
    Clone String String String :=
  calls.foldl (fun c call => call.1.onClone E R.task call.2 c) (R.delivered E)

/-- Nothing but the process of the sub-agent writes to the workspace, and git finds its top level
where it was. -/
structure Alone (calls : List (FinalizationCall × WorkspaceAnswer)) : Prop where
  quiet : ∀ call ∈ calls, call.1.writes E R.task = false
  sameRoot : ∀ call ∈ calls, call.1.SameRoot E R.topLevel

/-- The diff of the work is not too long for `run_git`. -/
def Fits : Prop := (D.text R.base R.workspace.snapshot).length ≤ outputMaxBytes

/-- The audit fallback is nothing that `git add --all` stages. -/
def FallbackUnseen : Prop :=
  ∀ rows blob, R.buffer.jsonlFallback = some rows → R.fallback = some blob →
    R.workspace.ignored (fallbackFile R.task) = true ∧ fallbackFile R.task ∉ R.workspace.snapshot ∨
      Finmap.lookup (fallbackFile R.task) R.workspace.worktree = some blob

variable {D E R}

@[simp] theorem snapshot_announce (c : Clone String String String) :
    (R.announce E c).snapshot = c.snapshot := by
  unfold announce
  split_ifs
  · exact c.snapshot_intentToAdd
  · rfl

theorem snapshot_delivered :
    (R.delivered E).snapshot = (R.flush (R.announce E R.workspace)).snapshot :=
  snapshot_announce _

/-- The pushes of a run hold the workspace as it was delivered. -/
theorem finalized_pushed {calls : List (FinalizationCall × WorkspaceAnswer)}
    (h : R.Alone E calls) : (R.finalized E calls).snapshot = (R.delivered E).snapshot ∧
      ∀ p ∈ (R.finalized E calls).pushed,
        isGitWorkspaceRoot E R.task.workspaceRoot R.topLevel = true ∧
          p.2 = (R.delivered E).snapshot := by
  induction calls using List.reverseRecOn with
  | nil => exact ⟨rfl, fun p hp => absurd hp List.not_mem_nil⟩
  | append_singleton calls call ih =>
    obtain ⟨hsnapshot, hpushed⟩ := ih
      ⟨fun call hcall => h.quiet call (List.mem_append_left _ hcall),
        fun call hcall => h.sameRoot call (List.mem_append_left _ hcall)⟩
    obtain ⟨hkept, hnew⟩ := onClone_pushed call.2 (R.finalized E calls)
      (h.quiet call (by simp)) (h.sameRoot call (by simp))
    have hlast : R.finalized E (calls ++ [call]) =
        call.1.onClone E R.task call.2 (R.finalized E calls) := by
      simp only [finalized, List.foldl_append, List.foldl_cons, List.foldl_nil]
    rw [hlast]
    refine ⟨hkept.trans hsnapshot, ?_⟩
    intro p hp
    rcases hnew p hp with hp | ⟨hroot, htree⟩
    · exact hpushed p hp
    · exact ⟨hroot, htree.trans hsnapshot⟩

/-- The audit fallback keeps what is staged exactly if nothing sees it. -/
theorem snapshot_flush_eq_iff
    (hroot : isGitWorkspaceRoot E R.task.workspaceRoot R.topLevel = true) :
    (R.flush (R.announce E R.workspace)).snapshot = R.workspace.snapshot ↔
      R.FallbackUnseen := by
  unfold flush FallbackUnseen
  cases hrows : R.buffer.jsonlFallback with
  | none => simp
  | some rows =>
    cases hblob : R.fallback with
    | none => simp
    | some blob =>
      rw [← snapshot_announce (E := E) (R := R) R.workspace, Clone.snapshot_write_eq_iff]
      have hvisible : (R.announce E R.workspace).visible (fallbackFile R.task) = false ↔
          R.workspace.ignored (fallbackFile R.task) = true ∧
            fallbackFile R.task ∉ R.workspace.snapshot := by
        rw [announce, if_pos hroot, Clone.visible, Clone.intentToAdd]
        simp [Finmap.mem_keys, and_comm]
      rw [hvisible, snapshot_announce, announce, if_pos hroot]
      constructor
      · rintro hunseen _ _ ⟨⟩ ⟨⟩
        exact hunseen
      · intro hunseen
        exact hunseen rows blob rfl rfl

def readme : Tree String String := Finmap.singleton "README.md" "A demo.\n"

/-- The sub-agent adds a file. -/
def greeted : Tree String String := readme.insert "hello.txt" "hello\n"

/-- What git prints for it. -/
def helloDiff : String :=
  "diff --git a/hello.txt b/hello.txt\nnew file mode 100644\nindex 0000000..ce01362\n" ++
    "--- /dev/null\n+++ b/hello.txt\n@@ -0,0 +1 @@\n+hello\n"

theorem exists_treeNumber : ∃ f : Tree String String → ℕ, Function.Injective f := by
  have hchar : Countable Char :=
    Function.Injective.countable (f := Char.toNat) fun _ _ => Char.toNat_inj.1
  have hstring : Countable String :=
    Function.Injective.countable (f := String.toList) fun _ _ => String.toList_injective
  have htree : Countable (Tree String String) :=
    Function.Injective.countable (f := Finmap.entries) fun _ _ => Finmap.ext
  exact exists_injective_nat _

noncomputable def treeNumber : Tree String String → ℕ := exists_treeNumber.choose

def otherDiff (n : ℕ) : String := "diff --git" ++ String.ofList (List.replicate n '+')

theorem toList_otherDiff (n : ℕ) :
    (otherDiff n).toList = "diff --git".toList ++ List.replicate n '+' := by
  have hsigns : (String.ofList (List.replicate n '+')).toList = List.replicate n '+' :=
    String.toList_ofList
  rw [otherDiff, String.toList_append, hsigns]

theorem otherDiff_injective : Function.Injective otherDiff := by
  intro n m heq
  have hlength := congrArg (fun s => s.toList.length) heq
  simpa [toList_otherDiff] using hlength

theorem otherDiff_ne_empty (n : ℕ) : otherDiff n ≠ "" := by
  intro heq
  have hlength := congrArg (fun s => s.toList.length) heq
  simp [toList_otherDiff] at hlength

theorem newline_notMem_otherDiff (n : ℕ) : '\n' ∉ (otherDiff n).toList := by
  simp [toList_otherDiff, List.mem_replicate]

theorem helloDiff_ne_otherDiff (n : ℕ) : helloDiff ≠ otherDiff n := by
  intro heq
  exact newline_notMem_otherDiff n (heq ▸ (by decide +kernel : '\n' ∈ helloDiff.toList))

/-- The text of git for the new file, and for other trees some text that tells them apart. -/
noncomputable def sampleText (base t : Tree String String) : String :=
  if t = base then "" else if base = readme ∧ t = greeted then helloDiff
  else otherDiff (treeNumber t)

theorem sampleText_greeted : sampleText readme greeted = helloDiff := by
  have hne : greeted ≠ readme := by decide +kernel
  rw [sampleText, if_neg hne, if_pos ⟨rfl, rfl⟩]

theorem length_helloDiff_le : helloDiff.length ≤ outputMaxBytes := by decide +kernel

theorem sampleText_injective {base t t' : Tree String String}
    (h : sampleText base t = sampleText base t') : t = t' := by
  have hempty : helloDiff ≠ "" := by decide +kernel
  unfold sampleText at h
  split_ifs at h with ht ht' hg' hg ht' hg' ht' hg'
  · exact ht.trans ht'.symm
  · exact absurd h.symm hempty
  · exact absurd h.symm (otherDiff_ne_empty _)
  · exact absurd h hempty
  · exact hg.2.trans hg'.2.symm
  · exact absurd h (helloDiff_ne_otherDiff _)
  · exact absurd h (otherDiff_ne_empty _)
  · exact absurd h.symm (helloDiff_ne_otherDiff _)
  · exact exists_treeNumber.choose_spec (otherDiff_injective h)

noncomputable def sampleDiff : GitDiff where
  text := sampleText
  exact := sampleText_injective
  header base t := by
    unfold sampleText
    split_ifs
    · exact Or.inl rfl
    · exact Or.inr (by decide +kernel)
    · exact Or.inr (toList_otherDiff _ ▸ List.prefix_append _ _)
  dotless base t pre post heq := by
    have hdot : "\n.".toList <:+: (sampleText base t).toList := ⟨pre, post, heq.symm⟩
    unfold sampleText at hdot
    split_ifs at hdot
    · revert hdot
      decide
    · revert hdot
      decide +kernel
    · exact newline_notMem_otherDiff _ (hdot.subset (by decide))

def writeFileRow : AuditToolCallPayload where
  id := editCall.id
  command := ⟨"write_file", by decide⟩
  operationType := .write
  durationMs := ⟨3, by decide⟩
  success := true

/-- The file is written by one tool call, in a repository with these paths ignored. -/
def greetingRun (ignored : String → Bool) : DelegatedRun where
  task :=
    { FinalizationActions.fixBugWorkflow.task with workspaceBaseline := some mainBaseline }
  baseline := mainBaseline
  pinned := rfl
  result := ⟨"Added hello.txt.", 1, 2, false, []⟩
  workspace :=
    { worktree := greeted
      ignored := ignored
      tracked := {"README.md"}
      staged := readme
      head := readme
      branch := some "main" }
  commits _ := readme
  topLevel := .exited 0 "/work/agent-1" ""
  buffer := { AuditBuffer.ofTask fixBugTask with toolCalls := [writeFileRow] }
  fallback := some "\x7b\"workflow_id\": \"wf-1\"\x7d\n"

def pushOnce : List (FinalizationCall × WorkspaceAnswer) :=
  [(.pushBranch "finalize/wf-1" "Finalize delegated work" "origin" cleanGit, {})]

theorem alone_pushOnce (ignored : String → Bool) :
    (greetingRun ignored).Alone FinalizationActions.plainPaths pushOnce := by
  refine ⟨?_, ?_⟩
  · intro call hcall
    obtain rfl := List.mem_singleton.1 hcall
    rfl
  · intro call hcall
    obtain rfl := List.mem_singleton.1 hcall
    intro output hout
    obtain rfl := Except.ok.inj hout
    exact Or.inl rfl

theorem pushed_pushOnce (ignored : String → Bool) :
    ((greetingRun ignored).finalized FinalizationActions.plainPaths pushOnce).pushed =
      [("finalize/wf-1",
        ((greetingRun ignored).delivered FinalizationActions.plainPaths).snapshot)] :=
  pushed_of_doPushBranch (E := FinalizationActions.plainPaths) (by rfl) (by decide +kernel) _

/-- A repository that ignores `.nemoclaw/`. -/
def ignoresNemoclaw (path : String) : Bool := ".nemoclaw/".toList.isPrefixOf path.toList

theorem snapshot_greetingRun : (greetingRun ignoresNemoclaw).workspace.snapshot = greeted := by
  decide +kernel

end DelegatedRun

end NemoClaw
