import NemoClaw.System.Review

/-! `diff_against_baseline` (`agent/git_helpers.py`) with all that may become of its git commands,
and the diff in the completion. New files are announced to git as far as that succeeds, a long diff
is cut and marked, and a completion goes out without a diff if git fails. -/

namespace NemoClaw

open Lib

inductive DiffFailure
  | error (e : DiffError)
  /-- a git process could not be started, and not because git is missing -/
  | uncaught (exc : String)
  deriving DecidableEq

/-- A call of `diff_against_baseline`, with the answers to its commands; one that cannot be started
raises. -/
structure BaselineDiff (D : GitDiff) where
  workspaceRoot : String
  baseSha : String
  clone : Clone String String String
  /-- the trees of the revisions -/
  commits : String → Option (Tree String String)
  topLevel : Except String GitProcess
  add : Except String GitProcess
  /-- the paths in the index after `git add --intent-to-add --all`, which may fail halfway -/
  tracked : Finset String
  announces : ∀ stdout stderr, add = .ok (.exited 0 stdout stderr) → tracked = clone.snapshot.keys
  diff : Except String GitProcess
  /-- with success, `git diff` prints the diff of what is tracked -/
  prints : ∀ stdout stderr, diff = .ok (.exited 0 stdout stderr) → ∃ base,
    commits baseSha = some base ∧ stdout = D.text base { clone with tracked := tracked }.compared

namespace BaselineDiff

variable {D : GitDiff} (E : ActionEnv) (R : BaselineDiff D)

def diffAgainstBaseline : Except DiffFailure String :=
  match R.topLevel with
  | .error exc => .error (.uncaught exc)
  | .ok topLevel =>
    if isGitWorkspaceRoot E R.workspaceRoot topLevel then
      match R.add, R.diff with
      | .error exc, _ => .error (.uncaught exc)
      -- what `git add` answers is not looked at
      | .ok _, .error exc => .error (.uncaught exc)
      | .ok _, .ok diff =>
        if isGitError (runGit E diff) then .error (.error (.gitDiff (runGit E diff)))
        else .ok (runGit E diff)
    else .error (.error .workspaceNotAGitRepo)

/-- The diff of the work tree as far as git tracks it. -/
def trackedText (base : Tree String String) : String :=
  D.text base { R.clone with tracked := R.tracked }.compared

/-- The diff of the work tree with all new files. -/
def wholeText (base : Tree String String) : String := D.text base R.clone.snapshot

/-- Nothing that `git add --all` sees is left out of the index. -/
def Announced : Prop := { R.clone with tracked := R.tracked }.compared = R.clone.snapshot

/-- With no diff to print, git prints no warning either. -/
def Quiet : Prop := ∀ stderr, R.diff = .ok (.exited 0 "" stderr) → stderr = ""

/-- The diff of what is tracked is returned whole, or its start with a mark that no diff has. It is
the whole diff exactly if it is short enough and every new file was announced. -/
structure WholeOrMarked (base : Tree String String) (s : String) : Prop where
  short : (R.trackedText base).length ≤ outputMaxBytes → s = R.trackedText base
  long : outputMaxBytes < (R.trackedText base).length →
    s = truncate (R.trackedText base) outputMaxBytes ++ truncationMarker
  marked : outputMaxBytes < (R.trackedText base).length → ∀ base' t, s ≠ D.text base' t
  whole : s = R.wholeText base ↔
    (R.trackedText base).length ≤ outputMaxBytes ∧ R.Announced

/-- The call of `_compute_baseline_diff` for a task. -/
structure For (task : TaskAssignPayload) : Prop where
  root : R.workspaceRoot = task.workspaceRoot
  pinned : ∃ baseline, task.workspaceBaseline = some baseline ∧ R.baseSha = baseline.baseSha

variable {E R}

/-- A string is returned only for a `git diff` that succeeds. -/
theorem diffAgainstBaseline_eq_ok {s : String} (h : R.diffAgainstBaseline E = .ok s) :
    ∃ stdout stderr, R.diff = .ok (.exited 0 stdout stderr) ∧
      s = runGit E (.exited 0 stdout stderr) := by
  unfold diffAgainstBaseline at h
  split at h
  · contradiction
  · split_ifs at h
    split at h
    · contradiction
    · contradiction
    · rename_i process hadd hdiff
      split_ifs at h with herror
      obtain rfl := Except.ok.inj h
      obtain ⟨stdout, stderr, rfl⟩ : ∃ stdout stderr, process = .exited 0 stdout stderr := by
        by_contra hnone
        exact herror (isGitError_of_fails fun stdout stderr heq => hnone ⟨stdout, stderr, heq⟩)
      exact ⟨stdout, stderr, hdiff, rfl⟩

theorem wholeOrMarked_of_eq_ok (hquiet : R.Quiet) {s : String}
    (h : R.diffAgainstBaseline E = .ok s) :
    ∃ base, R.commits R.baseSha = some base ∧ R.WholeOrMarked base s := by
  obtain ⟨stdout, stderr, hdiff, rfl⟩ := diffAgainstBaseline_eq_ok h
  obtain ⟨base, hbase, rfl⟩ := R.prints stdout stderr hdiff
  have hsilent : R.trackedText base = "" → stderr = "" := fun hempty =>
    hquiet stderr (hempty ▸ hdiff)
  refine ⟨base, hbase, ?_⟩
  change R.WholeOrMarked base (runGit E (.exited 0 (R.trackedText base) stderr))
  rw [runGit_exited hsilent]
  constructor
  case short => exact fun hshort => if_neg (not_lt.2 hshort)
  case long => exact fun hlong => if_pos hlong
  case marked =>
    intro hlong base' t
    rw [if_pos hlong]
    exact (D.text_ne_truncated base' t _).symm
  case whole =>
    split_ifs with hlong
    · refine iff_of_false (D.text_ne_truncated base _ _).symm fun h => ?_
      omega
    · refine ⟨fun htext => ⟨not_lt.1 hlong, D.exact htext⟩, ?_⟩
      rintro ⟨-, hannounced⟩
      exact congrArg (D.text base) hannounced

/-- With its commands started, the call is decided by the first and the last of them. -/
theorem diffAgainstBaseline_started {topLevel add diff : GitProcess}
    (htop : R.topLevel = .ok topLevel) (hadd : R.add = .ok add) (hdiff : R.diff = .ok diff) :
    R.diffAgainstBaseline E =
      (NemoClaw.diffAgainstBaseline E R.workspaceRoot topLevel diff).mapError .error := by
  simp only [diffAgainstBaseline, NemoClaw.diffAgainstBaseline, htop, hadd, hdiff]
  cases isGitWorkspaceRoot E R.workspaceRoot topLevel with
  | false => rfl
  | true => cases isGitError (runGit E diff) <;> rfl

open DelegatedRun FinalizationActions

/-- A repository that ignores `.nemoclaw/`, with a new file. -/
def greetingClone : Clone String String String := (greetingRun ignoresNemoclaw).workspace

def greetingTask : TaskAssignPayload := (greetingRun ignoresNemoclaw).task

/-- The call for that task, when git prints its diff. -/
def greetingCall (D : GitDiff) (add : GitProcess) (tracked : Finset String)
    (h : ∀ stdout stderr, add = .exited 0 stdout stderr →
      tracked = greetingClone.snapshot.keys) : BaselineDiff D where
  workspaceRoot := greetingTask.workspaceRoot
  baseSha := mainBaseline.baseSha
  clone := greetingClone
  commits _ := some readme
  topLevel := .ok (.exited 0 "/work/agent-1" "")
  add := .ok add
  tracked := tracked
  announces stdout stderr hadd := h stdout stderr (Except.ok.inj hadd)
  diff := .ok (D.process readme { greetingClone with tracked := tracked }.compared)
  prints stdout stderr hdiff := by
    obtain ⟨-, rfl, -⟩ := GitProcess.exited.inj (Except.ok.inj hdiff)
    exact ⟨readme, rfl, rfl⟩

theorem diffAgainstBaseline_greetingCall {add : GitProcess} {tracked : Finset String}
    (h : ∀ stdout stderr, add = .exited 0 stdout stderr → tracked = greetingClone.snapshot.keys) :
    (greetingCall D add tracked h).diffAgainstBaseline plainPaths = .ok (runGit plainPaths
      (D.process readme { greetingClone with tracked := tracked }.compared)) := by
  have hroot : isGitWorkspaceRoot plainPaths greetingTask.workspaceRoot
      (.exited 0 "/work/agent-1" "") = true := by decide +kernel
  rw [diffAgainstBaseline_started rfl rfl rfl]
  simp only [greetingCall, NemoClaw.diffAgainstBaseline, hroot, if_true, D.isGitError_runGit,
    Bool.false_eq_true, if_false]
  rfl

/-- The call when nothing fails. -/
def greetingDiff (D : GitDiff) : BaselineDiff D :=
  greetingCall D (.exited 0 "" "") greetingClone.snapshot.keys fun _ _ _ => rfl

theorem diffAgainstBaseline_greetingDiff : (greetingDiff D).diffAgainstBaseline plainPaths =
    .ok (runGit plainPaths (D.process readme greeted)) := by
  have hcompared : ({ greetingClone with
      tracked := greetingClone.snapshot.keys } : Clone String String String).compared = greeted :=
    greetingClone.compared_intentToAdd.trans snapshot_greetingRun
  rw [greetingDiff, diffAgainstBaseline_greetingCall, hcompared]

/-- The index cannot be written, and the new file stays untracked. -/
noncomputable def lockedIndex : BaselineDiff sampleDiff :=
  greetingCall sampleDiff (.exited 128 "" "fatal: unable to write new index file") {"README.md"}
    (by simp)

noncomputable def longText (base t : Tree String String) : String :=
  if t = base then "" else otherDiff (outputMaxBytes + treeNumber t)

/-- Diffs that are too long. -/
noncomputable def longDiff : GitDiff where
  text := longText
  exact := by
    intro base t t' h
    unfold longText at h
    split_ifs at h with ht ht' ht'
    · exact ht.trans ht'.symm
    · exact absurd h.symm (otherDiff_ne_empty _)
    · exact absurd h (otherDiff_ne_empty _)
    · exact exists_treeNumber.choose_spec (Nat.add_left_cancel (otherDiff_injective h))
  header base t := by
    unfold longText
    split_ifs
    · exact Or.inl rfl
    · exact Or.inr (toList_otherDiff _ ▸ List.prefix_append _ _)
  dotless base t pre post heq := by
    have hdot : "\n.".toList <:+: (longText base t).toList := ⟨pre, post, heq.symm⟩
    unfold longText at hdot
    split_ifs at hdot
    · revert hdot
      decide
    · exact newline_notMem_otherDiff _ (hdot.subset (by decide))

theorem diffAgainstBaseline_lockedIndex :
    lockedIndex.diffAgainstBaseline plainPaths = .ok "" := by
  have hcompared : ({ greetingClone with tracked := {"README.md"} } :
      Clone String String String).compared = readme := by decide +kernel
  have htext : sampleDiff.text readme readme = "" := by
    change sampleText readme readme = ""
    rw [sampleText, if_pos rfl]
  rw [lockedIndex, diffAgainstBaseline_greetingCall, hcompared, GitDiff.runGit_process, htext,
    if_neg (by decide)]

/-- A diff that is too long does not come back. -/
theorem diffAgainstBaseline_longDiff : ∃ s,
    (greetingDiff longDiff).diffAgainstBaseline plainPaths = .ok s ∧
      s ≠ longDiff.text readme greeted := by
  have hlong : outputMaxBytes < (longDiff.text readme greeted).length := by
    have hne : greeted ≠ readme := by decide +kernel
    change outputMaxBytes < (longText readme greeted).length
    rw [longText, if_neg hne, ← String.length_toList, toList_otherDiff, List.length_append,
      List.length_replicate]
    exact Nat.lt_of_lt_of_le (by decide) (Nat.add_le_add_left (Nat.le_add_right _ _) _)
  refine ⟨_, diffAgainstBaseline_greetingDiff, ?_⟩
  rw [GitDiff.runGit_process, if_pos hlong]
  exact (longDiff.text_ne_truncated readme greeted _).symm

end BaselineDiff

end NemoClaw
