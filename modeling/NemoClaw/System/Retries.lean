import NemoClaw.Lib.Digits
import NemoClaw.System.Review

/-! Trying a push again (`push_and_create_pr` of `tools/finalization.py`). The commands of an
attempt run on the clone that the earlier attempts left. A commit that went through leaves nothing
to commit, and `run_git` drops the standard output that would say so. -/

namespace NemoClaw

open Lib FinalizationTools

namespace Retries

variable (E : ActionEnv) (workspace : String)

/-- Git in the workspace, when nothing stands in its way. -/
structure WorkingGit where
  process : Clone String String String → GitStep → GitProcess
  succeeds : ∀ (c : Clone String String String) (step : GitStep),
    (∀ message, step = .commit message → c.staged ≠ c.head) →
    step.failure E workspace (runGit E (process c step)) = none
  /-- With nothing staged, `git commit` exits non-zero, and its notice is on standard output. -/
  nothing : ∀ (c : Clone String String String) message, c.staged = c.head →
    ∃ code notice, code ≠ 0 ∧ "nothing to commit".toList <:+: notice.toList ∧
      process c (.commit message) = .exited code notice ""
  strip_empty : E.strip "" = ""

/-- A command that fails, before or after it had its effect. -/
structure Fault (step : GitStep) where
  process : GitProcess
  landed : Bool
  fails : step.failure E workspace (runGit E process) ≠ none

/-- What stands in the way of an attempt: of its `i`-th git command, and of `gh`. -/
structure PushAttempt where
  fault : (i : ℕ) → (step : GitStep) → Option (Fault E workspace step)
  pr : ToolOutcome

variable {E workspace} (G : WorkingGit E workspace)

namespace PushAttempt

variable (a : PushAttempt E workspace)

def output (i : ℕ) (step : GitStep) (c : Clone String String String) : String :=
  runGit E (match a.fault i step with
    | some fault => fault.process
    | none => G.process c step)

def landed (i : ℕ) (step : GitStep) : Bool := (a.fault i step).all Fault.landed

/-- What git answers to the commands from the `i`-th on. -/
def outputs : ℕ → List GitStep → Clone String String String → List String
  | _, [], _ => []
  | i, step :: left, c => a.output G i step c :: outputs (i + 1) left (step.effect c)

/-- The commands of the push. -/
def commands (branchName title remote : String) : List GitStep :=
  .ensureRoot :: pushSteps branchName title remote

variable (branchName title remote : String) (c : Clone String String String)

def git (i : ℕ) : Except String String :=
  .ok ((a.outputs G 0 (commands branchName title remote) c).getD i "")

def landings (i : ℕ) : Bool :=
  ((commands branchName title remote)[i]?).all fun step => a.landed i step

/-- What `push_and_create_pr` returns. -/
def message : Except String String :=
  pushAndCreatePrMessage E workspace branchName title remote
    (a.git G branchName title remote c) a.pr

/-- The clone after the attempt. -/
def after : Clone String String String :=
  doPushBranchOn E workspace branchName title remote (a.git G branchName title remote c)
    (a.landings branchName title remote) c

/-- The commit is reached, and it goes through. -/
def commits : Bool :=
  (a.fault 0 .ensureRoot).isNone && (a.fault 1 (.checkout branchName)).isNone &&
    (a.fault 2 .ensureRoot).isNone && (a.fault 3 .add).isNone && a.landed 4 (.commit title)

end PushAttempt

/-- Nothing stands in the way any more. -/
def clear (url : String) : PushAttempt E workspace where
  fault _ _ := none
  pr := .returned url

def Succeeded (result : Except String String) : Prop :=
  ∃ message, result = .ok message ∧ isErrorMessage message = false

/-- One attempt after the other returns an error; the clone they leave. -/
inductive FailedPushes (branchName title remote : String) :
    Clone String String String → List (PushAttempt E workspace) → Clone String String String → Prop
  | nil (c) : FailedPushes branchName title remote c [] c
  | cons {c a attempts c' message} : a.message G branchName title remote c = .ok message →
      isErrorMessage message = true →
      FailedPushes branchName title remote (a.after G branchName title remote c) attempts c' →
      FailedPushes branchName title remote c (a :: attempts) c'

/-! ### One command -/

section

variable {G} {git : ℕ → Except String String} {landed : ℕ → Bool} {i : ℕ} {step next : GitStep}
  {left : List GitStep} {c : Clone String String String} {output : String}

theorem runStepsOn_cons (hgit : git i = .ok output) :
    runStepsOn E workspace git landed i step (next :: left) c =
      if step.failure E workspace output = none then
        runStepsOn E workspace git landed (i + 1) next left (step.effect c)
      else if landed i then step.effect c else c := by
  rw [runStepsOn]
  cases hfail : step.failure E workspace output with
  | none => simp [hgit, hfail]
  | some out => simp [hgit, hfail]

theorem runSteps_cons (hgit : git i = .ok output)
    (hok : step.failure E workspace output = none) :
    runSteps E workspace git i step (next :: left) =
      runSteps E workspace git (i + 1) next left := by
  rw [runSteps]
  simp [hgit, hok]

theorem runSteps_last (hgit : git i = .ok output)
    (hok : step.failure E workspace output = none) :
    runSteps E workspace git i step [] = .ok output := by
  rw [runSteps]
  simp [hgit, hok]

theorem runSteps_failed {out : String} (hgit : git i = .ok output)
    (hfail : step.failure E workspace output = some out) :
    runSteps E workspace git i step left = .ok (gitCommandError step out) := by
  rw [runSteps.eq_def]
  simp [hgit, hfail]

/-- Every command but a commit keeps the last commit. -/
theorem head_effect (h : ∀ message, step ≠ .commit message) : (step.effect c).head = c.head := by
  cases step with
  | ensureRoot | checkout | add | push => rfl
  | commit message => exact absurd rfl (h message)

theorem head_effects {steps : List GitStep}
    (h : ∀ step ∈ steps, ∀ message, step ≠ .commit message) :
    (steps.foldl GitStep.effect c).head = c.head := by
  induction steps generalizing c with
  | nil => rfl
  | cons step steps ih =>
    rw [List.foldl_cons, ih fun s hs => h s (List.mem_cons_of_mem _ hs),
      head_effect (h step List.mem_cons_self)]

/-- Commands without a commit among them keep the last commit. -/
theorem head_runStepsOn (h : ∀ step' ∈ step :: left, ∀ message, step' ≠ .commit message) :
    (runStepsOn E workspace git landed i step left c).head = c.head := by
  obtain ⟨k, hfirst⟩ := exists_runsFirst E workspace git landed i step left c
  rw [hfirst.effect]
  exact head_effects fun step' hmem => h step' (List.mem_of_mem_take hmem)

end

namespace PushAttempt

variable {G} {a : PushAttempt E workspace} {i : ℕ} {step next : GitStep} {left : List GitStep}
  {c : Clone String String String} {git : ℕ → Except String String} {landed : ℕ → Bool}

theorem failure_output_of_fault (h : (a.fault i step).isSome = true) :
    step.failure E workspace (a.output G i step c) ≠ none := by
  obtain ⟨fault, hfault⟩ := Option.isSome_iff_exists.1 h
  rw [output, hfault]
  exact fault.fails

theorem failure_output_of_none (h : a.fault i step = none)
    (hcommit : ∀ message, step = .commit message → c.staged ≠ c.head) :
    step.failure E workspace (a.output G i step c) = none := by
  rw [output, h]
  exact G.succeeds c step hcommit

/-- A command before the commit: a fault ends the push there. -/
theorem head_before (hgit : git i = .ok (a.output G i step c))
    (hstep : ∀ message, step ≠ .commit message) :
    (runStepsOn E workspace git landed i step (next :: left) c).head =
      if (a.fault i step).isNone then
        (runStepsOn E workspace git landed (i + 1) next left (step.effect c)).head
      else c.head := by
  rw [runStepsOn_cons hgit]
  cases hfault : a.fault i step with
  | none =>
    rw [if_pos (failure_output_of_none hfault fun message heq => absurd heq (hstep message))]
    rfl
  | some fault =>
    rw [if_neg (failure_output_of_fault (by rw [hfault]; rfl))]
    split
    · exact head_effect hstep
    · rfl

/-- The commit: it goes through, or it is the last command. -/
theorem head_commit {message : String} (hgit : git i = .ok (a.output G i (.commit message) c))
    (hlanded : landed i = a.landed i (.commit message))
    (hleft : ∀ step ∈ next :: left, ∀ message, step ≠ .commit message) :
    (runStepsOn E workspace git landed i (.commit message) (next :: left) c).head =
      if a.landed i (.commit message) then c.staged else c.head := by
  rw [runStepsOn_cons hgit, hlanded]
  cases hfault : a.fault i (.commit message) with
  | none =>
    have hlands : a.landed i (.commit message) = true := by simp [PushAttempt.landed, hfault]
    rw [hlands]
    split
    · exact head_runStepsOn hleft
    · rfl
  | some fault =>
    rw [if_neg (failure_output_of_fault (by rw [hfault]; rfl))]
    split <;> rfl

variable {branchName title remote : String}

/-- The last commit after an attempt. -/
theorem head_after : (a.after G branchName title remote c).head =
    if a.commits branchName title then c.snapshot else c.head := by
  have hleft : ∀ step ∈ [GitStep.ensureRoot, .push remote branchName],
      ∀ message, step ≠ .commit message := by
    simp
  unfold after doPushBranchOn pushSteps
  rw [head_before rfl (by simp), head_before rfl (by simp), head_before rfl (by simp),
    head_before rfl (by simp), head_commit rfl rfl hleft]
  have hstaged : (GitStep.add.effect (GitStep.ensureRoot.effect ((GitStep.checkout
      branchName).effect (GitStep.ensureRoot.effect c)))).staged = c.snapshot := rfl
  have hhead : (GitStep.add.effect (GitStep.ensureRoot.effect ((GitStep.checkout
      branchName).effect (GitStep.ensureRoot.effect c)))).head = c.head := rfl
  rw [hstaged, hhead]
  unfold commits
  cases (a.fault 0 .ensureRoot).isNone <;> cases (a.fault 1 (.checkout branchName)).isNone <;>
    cases (a.fault 2 .ensureRoot).isNone <;> cases (a.fault 3 .add).isNone <;> simp <;> rfl

theorem snapshot_after : (a.after G branchName title remote c).snapshot = c.snapshot :=
  snapshot_doPushBranchOn c

end PushAttempt

/-! ### The next attempt -/

/-- What is left of a commit with nothing to commit is an error without the notice. -/
theorem failure_nothing (workspace : String) (hstrip : E.strip "" = "") {code : ℤ}
    (hcode : code ≠ 0) (notice message : String) :
    (GitStep.commit message).failure E workspace (runGit E (.exited code notice "")) ≠ none := by
  have hout : runGit E (.exited code notice "") = "Exit code: " ++ toString code ++ "\n" := by
    simp [runGit, hcode, hstrip]
  have herror : isGitError ("Exit code: " ++ toString code ++ "\n") = true := by
    unfold isGitError
    rw [String.toList_append, String.toList_append]
    rfl
  have hnotice : ¬ "nothing to commit".toList <:+:
      ("Exit code: " ++ toString code ++ "\n").toList := by
    intro hinfix
    have hmem : 'h' ∈ ("Exit code: " ++ toString code ++ "\n").toList :=
      hinfix.subset (by decide)
    rw [String.toList_append, String.toList_append, List.mem_append, List.mem_append] at hmem
    rcases hmem with (hmem | hmem) | hmem
    · exact absurd hmem (by decide)
    · exact absurd (sign_or_digit_of_mem hmem) (by decide)
    · exact absurd hmem (by decide)
  rw [hout, GitStep.failure, if_pos ⟨herror, hnotice⟩]
  simp

theorem isErrorMessage_of_failure {step : GitStep} (hstep : ∀ message, step ≠ .commit message)
    (hroot : step ≠ .ensureRoot) {output : String}
    (h : step.failure E workspace output = none) : isErrorMessage output = false := by
  have hok : isGitError output = false := by
    cases step with
    | ensureRoot => exact absurd rfl hroot
    | commit message => exact absurd rfl (hstep message)
    | checkout | add | push =>
      simp only [GitStep.failure, ite_eq_right_iff, reduceCtorEq, imp_false,
        Bool.not_eq_true] at h
      exact h
  unfold isGitError at hok
  exact (Bool.or_eq_false_iff.1 hok).2

section

variable (url branchName title remote : String) {c : Clone String String String}

/-- With something to commit, every command succeeds. -/
theorem push_of_changes (h : c.snapshot ≠ c.head) :
    ∃ output, doPushBranch E workspace branchName title remote
        ((clear url).git G branchName title remote c) = .ok output ∧
      isErrorMessage output = false := by
  have hok : ∀ i (step : GitStep) (c' : Clone String String String),
      (∀ message, step = .commit message → c'.staged ≠ c'.head) →
        step.failure E workspace ((clear url).output G i step c') = none :=
    fun i step c' hcommit => PushAttempt.failure_output_of_none rfl hcommit
  unfold doPushBranch pushSteps
  rw [runSteps_cons rfl (hok 0 _ _ (by simp)), runSteps_cons rfl (hok 1 _ _ (by simp)),
    runSteps_cons rfl (hok 2 _ _ (by simp)), runSteps_cons rfl (hok 3 _ _ (by simp)),
    runSteps_cons rfl (hok 4 _ _ fun message _ => h), runSteps_cons rfl (hok 5 _ _ (by simp))]
  have hpush := hok 6 (.push remote branchName)
    (((PushAttempt.commands branchName title remote).take 6).foldl GitStep.effect c) (by simp)
  exact ⟨_, runSteps_last rfl hpush, isErrorMessage_of_failure (by simp) (by simp) hpush⟩

/-- With nothing to commit, the commit fails. -/
theorem push_of_no_changes (h : c.snapshot = c.head) :
    ∃ out, doPushBranch E workspace branchName title remote
        ((clear url).git G branchName title remote c) =
      .ok (gitCommandError (.commit title) out) := by
  have hok : ∀ i (step : GitStep) (c' : Clone String String String),
      (∀ message, step ≠ .commit message) →
        step.failure E workspace ((clear url).output G i step c') = none :=
    fun i step c' hcommit => PushAttempt.failure_output_of_none rfl
      fun message heq => absurd heq (hcommit message)
  unfold doPushBranch pushSteps
  rw [runSteps_cons rfl (hok 0 _ _ (by simp)), runSteps_cons rfl (hok 1 _ _ (by simp)),
    runSteps_cons rfl (hok 2 _ _ (by simp)), runSteps_cons rfl (hok 3 _ _ (by simp))]
  obtain ⟨code, notice, hcode, -, hprocess⟩ := G.nothing (GitStep.add.effect
    (GitStep.ensureRoot.effect ((GitStep.checkout branchName).effect
      (GitStep.ensureRoot.effect c)))) title h
  obtain ⟨out, hout⟩ := Option.ne_none_iff_exists'.1
    (failure_nothing workspace G.strip_empty hcode notice title)
  refine ⟨out, runSteps_failed rfl ?_⟩
  rw [← hout, ← hprocess]
  rfl

variable {url} in
/-- An attempt with nothing in its way succeeds exactly if there is something to commit. -/
theorem succeeded_clear_iff (hurl : isErrorMessage url = false) :
    Succeeded ((clear url).message G branchName title remote c) ↔ c.snapshot ≠ c.head := by
  unfold PushAttempt.message pushAndCreatePrMessage Succeeded
  by_cases h : c.snapshot = c.head
  · obtain ⟨out, hpush⟩ := push_of_no_changes G url branchName title remote h
    have herror := isErrorMessage_gitCommandError (.commit title) out
    simp [hpush, herror, h]
  · obtain ⟨output, hpush, hok⟩ := push_of_changes G url branchName title remote h
    simp only [hpush, hok, Bool.false_eq_true, if_false, ne_eq, h, not_false_eq_true, iff_true]
    exact ⟨url, rfl, hurl⟩

variable {branchName title remote} in
/-- Attempts that return an error leave what is there to commit, unless one of them commits it. -/
theorem changes_after_failedPushes {attempts : List (PushAttempt E workspace)}
    {c' : Clone String String String} (h : FailedPushes G branchName title remote c attempts c') :
    c'.snapshot ≠ c'.head ↔
      c.snapshot ≠ c.head ∧ ∀ a ∈ attempts, a.commits branchName title = false := by
  induction h with
  | nil c => simp
  | @cons c a attempts c' message _ _ _ ih =>
    rw [ih, PushAttempt.snapshot_after, PushAttempt.head_after, List.forall_mem_cons]
    cases a.commits branchName title with
    | false => simp
    | true => simp

/-- After attempts that returned an error, however many, the same call succeeds as soon as nothing
fails any more exactly if there was something to commit and none of them committed it. -/
theorem retry_succeeds_iff (E : ActionEnv) (workspace : String) (G : WorkingGit E workspace)
    (branchName title remote url : String) (hurl : isErrorMessage url = false)
    (c c' : Clone String String String) (attempts : List (PushAttempt E workspace))
    (h : FailedPushes G branchName title remote c attempts c') :
    Succeeded ((clear url).message G branchName title remote c') ↔
      c.snapshot ≠ c.head ∧ ∀ a ∈ attempts, a.commits branchName title = false := by
  rw [succeeded_clear_iff G branchName title remote hurl]
  exact changes_after_failedPushes G h

end

/-! ### A push that is rejected once -/

/-- Git in `/work/agent-1`. -/
def plainGit : WorkingGit FinalizationActions.plainPaths "/work/agent-1" where
  process c step :=
    match step with
    | .ensureRoot => .exited 0 "/work/agent-1" ""
    | .commit _ =>
      if c.staged = c.head then .exited 1 "nothing to commit, working tree clean" ""
      else .exited 0 "1 file changed" ""
    | .checkout _ | .add | .push _ _ => .exited 0 "" "done"
  succeeds := by
    have hroot : GitStep.ensureRoot.failure FinalizationActions.plainPaths "/work/agent-1"
        (runGit FinalizationActions.plainPaths (.exited 0 "/work/agent-1" "")) = none := by decide
    have hdone : isGitError
        (runGit FinalizationActions.plainPaths (.exited 0 "" "done")) = false := by decide
    have hchanged : isGitError
        (runGit FinalizationActions.plainPaths (.exited 0 "1 file changed" "")) = false := by decide
    intro c step hcommit
    cases step with
    | ensureRoot => exact hroot
    | checkout | add | push => simp [GitStep.failure, hdone]
    | commit message =>
      dsimp only
      rw [if_neg (hcommit message rfl)]
      simp [GitStep.failure, hchanged]
  nothing := by
    intro c message h
    exact ⟨1, "nothing to commit, working tree clean", by decide, by decide, if_pos h⟩
  strip_empty := rfl

/-- The remote hangs up on the push. -/
def rejectedPush : PushAttempt FinalizationActions.plainPaths "/work/agent-1" where
  fault _ step :=
    match step with
    | .push _ _ => some ⟨.exited 128 "" "fatal: unable to access the remote", false, by
        have herror : isGitError (runGit FinalizationActions.plainPaths
            (.exited 128 "" "fatal: unable to access the remote")) = true := by decide
        simp [GitStep.failure, herror]⟩
    | _ => none
  pr := .returned "https://github.com/acme/demo/pull/1"

/-- The remote cannot be reached from the start. -/
def rejectedCheckout : PushAttempt FinalizationActions.plainPaths "/work/agent-1" where
  fault _ step :=
    match step with
    | .checkout _ => some ⟨.timedOut, false, by
        have herror : isGitError (runGit FinalizationActions.plainPaths .timedOut) = true := by
          decide
        simp [GitStep.failure, herror]⟩
    | _ => none
  pr := .returned "https://github.com/acme/demo/pull/1"

/-- A clone with one new file. -/
def editedClone : Clone String String String where
  worktree := Finmap.singleton "a.py" "x = 1"
  tracked := ∅
  staged := ∅
  head := ∅

theorem rejectedCheckout_message :
    rejectedCheckout.message plainGit "finalize/wf-1" "Fix the bug." "origin" editedClone =
      .ok (gitCommandError (.checkout "finalize/wf-1") gitTimeoutMessage) := by decide +kernel

theorem retry_succeeds_iff_rejectedCheckout :
    let c' := rejectedCheckout.after plainGit "finalize/wf-1" "Fix the bug." "origin" editedClone
    Succeeded ((clear "pull/1").message plainGit "finalize/wf-1" "Fix the bug." "origin" c') ↔
      editedClone.snapshot ≠ editedClone.head ∧
        ∀ a ∈ [rejectedCheckout], a.commits "finalize/wf-1" "Fix the bug." = false :=
  retry_succeeds_iff FinalizationActions.plainPaths "/work/agent-1" plainGit "finalize/wf-1"
    "Fix the bug." "origin" "pull/1" (by decide) editedClone _ [rejectedCheckout]
    (.cons rejectedCheckout_message (by decide) (.nil _))

theorem rejectedPush_message :
    rejectedPush.message plainGit "finalize/wf-1" "Fix the bug." "origin" editedClone =
      .ok (gitCommandError (.push "origin" "finalize/wf-1")
        "Exit code: 128\nfatal: unable to access the remote") := by decide +kernel

/-- The push is rejected once, and every later attempt finds nothing to commit. -/
theorem rejected_push_stuck : ¬ ∀ c attempts c',
    FailedPushes plainGit "finalize/wf-1" "Fix the bug." "origin" c attempts c' →
      c.snapshot ≠ c.head → Succeeded
        ((clear "pull/1").message plainGit "finalize/wf-1" "Fix the bug." "origin" c') := by
  intro hall
  have hsucceeded := hall editedClone [rejectedPush] _
    (.cons rejectedPush_message (by decide) (.nil _)) (by decide +kernel)
  rw [succeeded_clear_iff plainGit _ _ _ (by decide), PushAttempt.snapshot_after,
    PushAttempt.head_after] at hsucceeded
  exact hsucceeded rfl

end Retries

end NemoClaw
