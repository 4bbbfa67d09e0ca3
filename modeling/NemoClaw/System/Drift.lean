import Mathlib.Logic.Relation
import NemoClaw.Agent.TaskRunner
import NemoClaw.Orchestrator.Baselines
import NemoClaw.Orchestrator.Clicks

/-! Baseline drift. A sub-agent's tools may leave its workspace on any commit; its completion goes
to the dispatcher, and `finalize` compares the baseline in it with the assigned one. The sub-agent
fills that field from its assignment and not from the workspace, so the two always agree. -/

namespace NemoClaw

open Lib

/-- Where a workspace stands. -/
structure GitPosition where
  /-- `remote.origin.url`, empty when there is none -/
  originUrl : String
  /-- the branch that `HEAD` is on -/
  branch : Option String
  headSha : String
  deriving DecidableEq

/-- `repo_url or "unknown"` -/
def GitPosition.repoUrl (p : GitPosition) : String :=
  if p.originUrl = "" then "unknown" else p.originUrl

/-- The workspace is on the repository and the branch of the baseline, and on a commit that its base
is or is an ancestor of. -/
def GitPosition.BasedOn (parents : String → List String) (p : GitPosition)
    (baseline : WorkspaceBaseline) : Prop :=
  p.repoUrl = baseline.repoUrl ∧ p.branch = some baseline.branch.val ∧
    Relation.ReflTransGen (fun sha parent => parent ∈ parents sha) p.headSha baseline.baseSha

/-- A run of a sub-agent. -/
abbrev RunId := ℕ

structure TaskRun where
  task : TaskAssignPayload
  /-- where its workspace stands, or stood when it answered -/
  position : GitPosition
  answer : Option (Except MaxTurnsExceededError TaskCompletePayload) := none

structure DriftEnv (π : Type) where
  dispatcher : DispatcherEnv π
  actions : ActionEnv
  config : TaskLoopConfig

/-- The dispatcher and the sub-agents of its workflows. -/
structure DelegatedWork where
  dispatcher : Dispatcher := {}
  runs : Dict RunId TaskRun := ∅
  /-- bookkeeping: the baselines of the workflows ever registered -/
  baselines : Dict String (Option WorkspaceBaseline) := ∅
  /-- bookkeeping: the run whose completion a finalisation task has -/
  origins : Dict FinalizeId RunId := ∅
  /-- bookkeeping: the runs that `finalize` was called for, and whether it raised a
  `BaselineDriftError` -/
  checks : List (RunId × Bool) := []

inductive WorkEvent (π : Type)
  /-- `delegate_task` registers a workflow under a fresh id -/
  | delegate (context : WorkflowContext)
  /-- a sub-agent starts on the assignment of a context, wherever its workspace stands -/
  | spawn (r : RunId) (c : CtxId) (position : GitPosition)
  /-- a tool call leaves the workspace here -/
  | tool (r : RunId) (position : GitPosition)
  /-- the agent loop returns, and the sub-agent answers -/
  | finish (r : RunId) (result : AgentLoopResult) (topLevel diff : GitProcess)
  /-- the dispatch loop takes the completion of a run, with the headers of `msg` -/
  | report (r : RunId) (msg : NMBMessage π) (iteration : ℕ)
  /-- the dispatcher goes on otherwise -/
  | dispatcher (e : DispatcherEvent π)

namespace DelegatedWork

variable {π : Type}

/-- What `finalize` makes of the baseline in the completion, if the step calls it. -/
def check (D : DispatcherEnv π) (s : DelegatedWork) : DispatcherEvent π → Option (RunId × Bool)
  | .finalize t .started =>
    if D.config.finalizer then
      (s.dispatcher.tasks.lookup t).bind fun task =>
        (s.dispatcher.contexts.lookup task.context).bind fun context =>
          (s.origins.lookup t).map fun r => (r, !verifyBaseline context.task task.complete)
    else none
  | _ => none

/-- The run goes on. -/
def goOn (s : DelegatedWork) (r : RunId) (f : TaskRun → TaskRun) : Option DelegatedWork :=
  (s.runs.lookup r).bind fun run =>
    if run.answer.isNone then some { s with runs := s.runs.insert r (f run) } else none

def step (W : DriftEnv π) (s : DelegatedWork) : WorkEvent π → Option DelegatedWork
  | .delegate context =>
    if context.workflowId = context.task.workflowId ∧
        s.baselines.lookup context.workflowId = none then
      some { s with
        dispatcher := s.dispatcher.registerWorkflow context
        baselines := s.baselines.insert context.workflowId context.task.workspaceBaseline }
    else none
  | .spawn r c position =>
    if (s.runs.lookup r).isSome then none
    else (s.dispatcher.contexts.lookup c).map fun context =>
      { s with runs := s.runs.insert r ⟨context.task, position, none⟩ }
  | .tool r position => s.goOn r fun run => { run with position := position }
  | .finish r result topLevel diff =>
    s.goOn r fun run =>
      { run with answer := some (runAssignedTask W.actions W.config run.task result topLevel diff) }
  | .report r msg iteration =>
    match (s.runs.lookup r).bind TaskRun.answer with
    | some (.ok complete) =>
      let msg := { msg with
        type := some MessageType.taskComplete.value
        payload := some (W.dispatcher.codec.dumpComplete complete) }
      (s.dispatcher.step W.dispatcher (.message msg iteration)).map fun d =>
        { s with
          dispatcher := d
          origins := if d.nextTask = s.dispatcher.nextTask then s.origins
            else s.origins.insert s.dispatcher.nextTask r }
    | _ => none
  | .dispatcher e =>
    if e.other then
      (s.dispatcher.step W.dispatcher e).map fun d =>
        { s with dispatcher := d, checks := s.checks ++ (s.check W.dispatcher e).toList }
    else none

end DelegatedWork

def driftMachine {π : Type} (W : DriftEnv π) : Machine DelegatedWork (WorkEvent π) where
  init := {}
  step := DelegatedWork.step W

namespace DelegatedWork

variable {π : Type}

/-- The workspace of the run is not based on its assigned baseline. -/
def Drifted (parents : String → List String) (s : DelegatedWork) (r : RunId) : Prop :=
  ∃ run baseline, s.runs.lookup r = some run ∧ run.task.workspaceBaseline = some baseline ∧
    ¬ run.position.BasedOn parents baseline

/-- `finalize` raises exactly for the runs that have drifted, and no git command and no tool runs
for one of these. -/
structure DriftCaught (parents : String → List String) (s : DelegatedWork) : Prop where
  raised : ∀ r raised, (r, raised) ∈ s.checks → (raised = true ↔ s.Drifted parents r)
  spared : ∀ t, s.dispatcher.acting t = true →
    ∃ r, s.origins.lookup t = some r ∧ ¬ s.Drifted parents r

/-- `finalize` is called for runs whose workspace is on its baseline. -/
def OnBaseline (W : DriftEnv π) (parents : String → List String) (s : DelegatedWork) :
    WorkEvent π → Prop
  | .dispatcher e => ∀ p ∈ s.check W.dispatcher e, ¬ s.Drifted parents p.1
  | _ => True

/-! ### What every run of the system keeps -/

/-- The run has completed with this payload. -/
def Completed (s : DelegatedWork) (r : RunId) (complete : TaskCompletePayload) : Prop :=
  ∃ run, s.runs.lookup r = some run ∧ run.answer = some (.ok complete)

/-- An assignment has the baseline of its workflow. -/
def Pinned (s : DelegatedWork) (pin : String × Option WorkspaceBaseline) : Prop :=
  s.baselines.lookup pin.1 = some pin.2

structure Sound (s : DelegatedWork) : Prop where
  filed : s.dispatcher.Filed
  agree : s.dispatcher.Agree
  context : ∀ c w pin, s.dispatcher.pin c = some (w, pin) → w = pin.1 ∧ s.Pinned pin
  run : ∀ r run, s.runs.lookup r = some run → s.Pinned run.task.pin
  echo : ∀ r run complete, s.runs.lookup r = some run → run.answer = some (.ok complete) →
    (complete.workflowId.val, complete.workspaceBaseline) = run.task.pin
  origin : ∀ t r, s.origins.lookup t = some r → ∃ c complete,
    s.dispatcher.about t = some (c, complete) ∧ s.Completed r complete ∧
      (s.dispatcher.pin c).map Prod.fst = some complete.workflowId.val
  owned : ∀ t p, s.dispatcher.about t = some p → (s.origins.lookup t).isSome = true
  checked : ∀ r raised, (r, raised) ∈ s.checks → ∃ complete, s.Completed r complete

section

variable {W : DriftEnv π} {s s' : DelegatedWork} {parents : String → List String}

theorem sound_init : Sound (driftMachine W).init where
  filed := Dispatcher.filed_initial (E := W.dispatcher)
  agree _ _ h := by contradiction
  context _ _ _ h := by contradiction
  run _ _ h := by contradiction
  echo _ _ _ h := by contradiction
  origin _ _ h := by contradiction
  owned _ _ h := by contradiction
  checked _ _ h := absurd h List.not_mem_nil

/-! ### Runs -/

theorem completed_congr {runs : Dict RunId TaskRun} {r : RunId} {complete : TaskCompletePayload}
    (h : s.Completed r complete) (hkept : runs.lookup r = s.runs.lookup r) :
    Completed { s with runs := runs } r complete := by
  obtain ⟨run, hr, hanswer⟩ := h
  exact ⟨run, hkept.trans hr, hanswer⟩

/-- New runs, and steps of runs that have not answered. -/
theorem sound_runs (h : s.Sound) {runs : Dict RunId TaskRun}
    (hkept : ∀ r complete, s.Completed r complete → runs.lookup r = s.runs.lookup r)
    (hrun : ∀ r run, runs.lookup r = some run → s.Pinned run.task.pin ∧
      ∀ complete, run.answer = some (.ok complete) →
        (complete.workflowId.val, complete.workspaceBaseline) = run.task.pin) :
    Sound { s with runs := runs } := by
  refine { h with run := ?_, echo := ?_, origin := ?_, checked := ?_ }
  · intro r run hr
    exact (hrun r run hr).1
  · intro r run complete hr
    exact (hrun r run hr).2 complete
  · intro t r ht
    obtain ⟨c, complete, habout, hcompleted, hpin⟩ := h.origin t r ht
    exact ⟨c, complete, habout, completed_congr hcompleted (hkept r complete hcompleted), hpin⟩
  · intro r raised hr
    obtain ⟨complete, hcompleted⟩ := h.checked r raised hr
    exact ⟨complete, completed_congr hcompleted (hkept r complete hcompleted)⟩

/-- Writing a run that has not completed leaves those alone that have. -/
theorem lookup_insert_of_completed {r r' : RunId}
    (hopen : ∀ run, s.runs.lookup r = some run → run.answer = none) (run' : TaskRun)
    {complete : TaskCompletePayload} (h : s.Completed r' complete) :
    (s.runs.insert r run').lookup r' = s.runs.lookup r' := by
  refine AList.lookup_insert_ne ?_
  rintro rfl
  obtain ⟨run, hr, hanswer⟩ := h
  rw [hopen run hr] at hanswer
  contradiction

theorem goOn_eq_some {r : RunId} {f : TaskRun → TaskRun} (hs : s.goOn r f = some s') :
    ∃ run, s.runs.lookup r = some run ∧ run.answer = none ∧
      (∀ r' complete, s.Completed r' complete →
        (s.runs.insert r (f run)).lookup r' = s.runs.lookup r') ∧
      s' = { s with runs := s.runs.insert r (f run) } := by
  obtain ⟨run, hr, hs⟩ := Option.bind_eq_some_iff.1 hs
  split_ifs at hs with hanswer
  have hnone : run.answer = none := Option.isNone_iff_eq_none.1 hanswer
  refine ⟨run, hr, hnone, fun r' complete => lookup_insert_of_completed ?_ _,
    (Option.some.inj hs).symm⟩
  intro run₁ hr₁
  obtain rfl := Option.some.inj (hr.symm.trans hr₁)
  exact hnone

theorem spawn_eq_some {r : RunId} {c : CtxId} {position : GitPosition}
    (hs : s.step W (.spawn r c position) = some s') :
    ∃ context, s.dispatcher.contexts.lookup c = some context ∧
      (∀ r' complete, s.Completed r' complete →
        (s.runs.insert r ⟨context.task, position, none⟩).lookup r' = s.runs.lookup r') ∧
      s' = { s with runs := s.runs.insert r ⟨context.task, position, none⟩ } := by
  simp only [step] at hs
  split_ifs at hs with hnew
  obtain ⟨context, hc, rfl⟩ := Option.map_eq_some_iff.1 hs
  refine ⟨context, hc, fun r' complete => lookup_insert_of_completed ?_ _, rfl⟩
  intro run hr
  exact absurd (Option.isSome_of_eq_some hr) hnew

theorem sound_goOn (h : s.Sound) {r : RunId} {f : TaskRun → TaskRun}
    (htask : ∀ run, (f run).task = run.task)
    (hecho : ∀ run complete, run.answer = none → (f run).answer = some (.ok complete) →
      (complete.workflowId.val, complete.workspaceBaseline) = run.task.pin)
    (hs : s.goOn r f = some s') : s'.Sound := by
  obtain ⟨run, hr, hanswer, hkept, rfl⟩ := goOn_eq_some hs
  refine sound_runs h hkept ?_
  intro r' run' hr'
  rcases Dict.lookup_insert_eq_some.1 hr' with ⟨-, rfl⟩ | ⟨-, hr'⟩
  · refine ⟨(htask run).symm ▸ h.run r run hr, ?_⟩
    intro complete hcomplete
    rw [htask]
    exact hecho run complete hanswer hcomplete
  · exact ⟨h.run r' run' hr', fun complete => h.echo r' run' complete hr'⟩

theorem sound_spawn (h : s.Sound) {r : RunId} {c : CtxId} {position : GitPosition}
    (hs : s.step W (.spawn r c position) = some s') : s'.Sound := by
  obtain ⟨context, hc, hkept, rfl⟩ := spawn_eq_some hs
  have hpin : s.dispatcher.pin c = some (context.workflowId, context.task.pin) := by
    rw [Dispatcher.pin, hc, Option.map_some]
  refine sound_runs h hkept ?_
  intro r' run hr
  rcases Dict.lookup_insert_eq_some.1 hr with ⟨-, rfl⟩ | ⟨-, hr⟩
  · exact ⟨(h.context c _ _ hpin).2, fun complete hanswer => by contradiction⟩
  · exact ⟨h.run r' run hr, fun complete => h.echo r' run complete hr⟩

theorem sound_finish (h : s.Sound) {r : RunId} {result : AgentLoopResult}
    {topLevel diff : GitProcess} (hs : s.step W (.finish r result topLevel diff) = some s') :
    s'.Sound := by
  simp only [step] at hs
  refine sound_goOn h ?_ ?_ hs
  · exact fun _ => rfl
  intro run complete _ hanswer
  obtain ⟨-, hworkflow, -, hbaseline⟩ := runAssignedTask_eq_ok (Option.some.inj hanswer)
  rw [hworkflow, hbaseline]
  rfl

/-! ### The dispatcher -/

theorem pin_lt (h : s.Sound) {c : CtxId} {p : String × String × Option WorkspaceBaseline}
    (hp : s.dispatcher.pin c = some p) : c < s.dispatcher.nextContext := by
  obtain ⟨context, hc, -⟩ := Option.map_eq_some_iff.1 hp
  exact h.filed.fresh c context hc

theorem sound_delegate (h : s.Sound) {context : WorkflowContext}
    (hs : s.step W (.delegate context) = some s') : s'.Sound := by
  simp only [step] at hs
  split_ifs at hs with hfresh
  obtain rfl := Option.some.inj hs
  have hpinned : ∀ pin, s.Pinned pin →
      (s.baselines.insert context.workflowId context.task.workspaceBaseline).lookup pin.1 =
        some pin.2 := by
    intro pin hpin
    refine (AList.lookup_insert_ne ?_).trans hpin
    intro heq
    have hnone := hfresh.2
    rw [← heq, hpin] at hnone
    contradiction
  refine
    { filed := Dispatcher.filed_step (E := W.dispatcher) (e := .register context) h.filed rfl
      agree := Dispatcher.agree_registerWorkflow h.filed h.agree context
      context := ?_
      run := fun r run hr => hpinned _ (h.run r run hr)
      echo := h.echo
      origin := ?_
      owned := h.owned
      checked := h.checked }
  · intro c w pin hpin
    rw [Dispatcher.pin_registerWorkflow] at hpin
    split_ifs at hpin with hc
    · obtain ⟨rfl, rfl⟩ := Prod.mk.inj (Option.some.inj hpin)
      refine ⟨hfresh.1, ?_⟩
      have hkey : context.task.pin.1 = context.workflowId := hfresh.1.symm
      rw [Pinned, hkey]
      exact AList.lookup_insert s.baselines
    · obtain ⟨hw, hpin⟩ := h.context c w pin hpin
      exact ⟨hw, hpinned pin hpin⟩
  · intro t r ht
    obtain ⟨c, complete, habout, hcompleted, hpin⟩ := h.origin t r ht
    obtain ⟨p, hp, -⟩ := Option.map_eq_some_iff.1 hpin
    refine ⟨c, complete, habout, hcompleted, ?_⟩
    rw [Dispatcher.pin_registerWorkflow, if_neg (Nat.ne_of_lt (pin_lt h hp)), hpin]

theorem sound_sameWork (h : s.Sound) {d : Dispatcher} {passes : FinalizeId → Prop}
    (hfiled : d.Filed) (hd : s.dispatcher.SameWork passes d) {checks : List (RunId × Bool)}
    (hchecks : ∀ r raised, (r, raised) ∈ checks → ∃ complete, s.Completed r complete) :
    Sound { s with dispatcher := d, checks := checks } where
  filed := hfiled
  agree := hd.agree h.agree
  context c w pin hpin := h.context c w pin (hd.pin c ▸ hpin)
  run := h.run
  echo := h.echo
  origin t r ht := by
    obtain ⟨c, complete, habout, hcompleted, hpin⟩ := h.origin t r ht
    exact ⟨c, complete, (hd.about t).trans habout, hcompleted, (hd.pin c).symm ▸ hpin⟩
  owned t p habout := h.owned t p (hd.about t ▸ habout)
  checked := hchecks

/-- The completion of a run is dropped, or a finalisation task is forked for it. -/
theorem report_cases (hcodec : ∀ p, W.dispatcher.codec.validateComplete
    (W.dispatcher.codec.dumpComplete p) = .ok p) (h : s.Sound) {r : RunId} {msg : NMBMessage π}
    {iteration : ℕ} (hs : s.step W (.report r msg iteration) = some s') :
    ∃ complete d, s.Completed r complete ∧ d.Filed ∧
      (s.dispatcher.SameWork (fun _ => False) d ∧ s' = { s with dispatcher := d } ∨
        s.dispatcher.Forks d complete ∧
          s' = { s with
            dispatcher := d
            origins := s.origins.insert s.dispatcher.nextTask r }) := by
  simp only [step] at hs
  split at hs
  · rename_i complete hanswer
    obtain ⟨run, hr, hanswer⟩ := Option.bind_eq_some_iff.1 hanswer
    obtain ⟨d, hd, rfl⟩ := Option.map_eq_some_iff.1 hs
    refine ⟨complete, d, ⟨run, hr, hanswer⟩, Dispatcher.filed_step h.filed hd, ?_⟩
    rcases Dispatcher.complete_step h.filed rfl (load_eq_ok.2 ⟨_, rfl, hcodec complete⟩) hd with
      ⟨hnext, hwork⟩ | ⟨hnext, hfork⟩
    · exact Or.inl ⟨Dispatcher.SameWork.of_work hwork, by rw [if_pos hnext]⟩
    · have hgrown : d.nextTask ≠ s.dispatcher.nextTask := by
        rw [hnext]
        exact Nat.succ_ne_self _
      exact Or.inr ⟨hfork, by rw [if_neg hgrown]⟩
  · contradiction

theorem sound_fork (h : s.Sound) {r : RunId} {complete : TaskCompletePayload}
    (hcompleted : s.Completed r complete) {d : Dispatcher} (hfiled : d.Filed)
    (hfork : s.dispatcher.Forks d complete) :
    Sound { s with
      dispatcher := d
      origins := s.origins.insert s.dispatcher.nextTask r } := by
  obtain ⟨c, hworkflow, habout⟩ := hfork.about
  refine
    { filed := hfiled
      agree := hfork.agree h.agree
      context := fun c w pin hpin => h.context c w pin (hfork.pin c ▸ hpin)
      run := h.run
      echo := h.echo
      origin := ?_
      owned := ?_
      checked := h.checked }
  · intro t r' ht
    rcases Dict.lookup_insert_eq_some.1 ht with ⟨rfl, rfl⟩ | ⟨hne, ht⟩
    · exact ⟨c, complete, by rw [habout, if_pos rfl], hcompleted, by rw [hfork.pin, hworkflow]⟩
    · obtain ⟨c', complete', habout', hcompleted', hpin⟩ := h.origin t r' ht
      exact ⟨c', complete', by rw [habout, if_neg hne, habout'], hcompleted',
        by rw [hfork.pin, hpin]⟩
  · intro t p hp
    rw [habout] at hp
    split_ifs at hp with ht
    · rw [ht, AList.lookup_insert]
      rfl
    · rw [AList.lookup_insert_ne ht]
      exact h.owned t p hp

theorem sound_report (hcodec : ∀ p, W.dispatcher.codec.validateComplete
    (W.dispatcher.codec.dumpComplete p) = .ok p) (h : s.Sound) {r : RunId} {msg : NMBMessage π}
    {iteration : ℕ} (hs : s.step W (.report r msg iteration) = some s') : s'.Sound := by
  obtain ⟨complete, d, hcompleted, hfiled, ⟨hsame, rfl⟩ | ⟨hfork, rfl⟩⟩ := report_cases hcodec h hs
  · exact sound_sameWork h hfiled hsame h.checked
  · exact sound_fork h hcompleted hfiled hfork

/-- `finalize` does not raise a `BaselineDriftError` for the completion of a sub-agent. -/
theorem check_eq_some (h : s.Sound) {e : DispatcherEvent π} {r : RunId} {raised : Bool}
    (hp : s.check W.dispatcher e = some (r, raised)) :
    raised = false ∧ (∃ complete, s.Completed r complete) ∧
      ∃ t, e = .finalize t .started ∧ s.origins.lookup t = some r ∧
        s.dispatcher.Passes W.dispatcher e t := by
  unfold check at hp
  split at hp
  · rename_i t
    split_ifs at hp with hfinalizer
    obtain ⟨task, ht, hp⟩ := Option.bind_eq_some_iff.1 hp
    obtain ⟨context, hc, hp⟩ := Option.bind_eq_some_iff.1 hp
    obtain ⟨r', hr, hp⟩ := Option.map_eq_some_iff.1 hp
    obtain ⟨rfl, rfl⟩ := Prod.mk.inj hp
    obtain ⟨c, complete, habout, hcompleted, hworkflow⟩ := h.origin t r' hr
    rw [Dispatcher.about, ht, Option.map_some] at habout
    obtain ⟨rfl, rfl⟩ := Prod.mk.inj (Option.some.inj habout)
    have hpin : s.dispatcher.pin task.context = some (context.workflowId, context.task.pin) := by
      rw [Dispatcher.pin, hc, Option.map_some]
    rw [hpin] at hworkflow
    -- both baselines are the one that the workflow was registered with
    obtain ⟨hkey, hassigned⟩ := h.context _ _ _ hpin
    obtain ⟨run, hrun, hanswer⟩ := hcompleted
    have hecho := h.echo r' run task.complete hrun hanswer
    have hpinned := h.run r' run hrun
    rw [← hecho] at hpinned
    have hsame : context.task.pin.1 = task.complete.workflowId.val :=
      hkey.symm.trans (Option.some.inj hworkflow)
    rw [Pinned, hsame] at hassigned
    have hequal := Option.some.inj (hassigned.symm.trans hpinned)
    have hverified : verifyBaseline context.task task.complete = true := decide_eq_true hequal
    exact ⟨by rw [hverified]; rfl, ⟨task.complete, run, hrun, hanswer⟩, t, rfl, hr, rfl,
      hfinalizer, task, context, ht, hc, hverified⟩
  · contradiction

theorem sound_dispatcher (h : s.Sound) {e : DispatcherEvent π}
    (hs : s.step W (.dispatcher e) = some s') : s'.Sound := by
  simp only [step] at hs
  split_ifs at hs with hother
  obtain ⟨d, hd, rfl⟩ := Option.map_eq_some_iff.1 hs
  refine sound_sameWork h (Dispatcher.filed_step h.filed hd)
    (Dispatcher.sameWork_step h.agree hother hd) ?_
  intro r raised hr
  rcases List.mem_append.1 hr with hr | hr
  · exact h.checked r raised hr
  · exact (check_eq_some h (Option.mem_toList.1 hr)).2.1

theorem sound_step (hcodec : ∀ p, W.dispatcher.codec.validateComplete
    (W.dispatcher.codec.dumpComplete p) = .ok p) (h : s.Sound) {e : WorkEvent π}
    (hs : s.step W e = some s') : s'.Sound := by
  cases e with
  | delegate context => exact sound_delegate h hs
  | spawn r c position => exact sound_spawn h hs
  | tool r position =>
    simp only [step] at hs
    refine sound_goOn h ?_ ?_ hs
    · exact fun _ => rfl
    · intro run complete hnone hanswer
      rw [hnone] at hanswer
      contradiction
  | finish r result topLevel diff => exact sound_finish h hs
  | report r msg iteration => exact sound_report hcodec h hs
  | dispatcher e => exact sound_dispatcher h hs

theorem sound_run (hcodec : ∀ p, W.dispatcher.codec.validateComplete
    (W.dispatcher.codec.dumpComplete p) = .ok p) {tr : List (DelegatedWork × WorkEvent π)}
    (h : (driftMachine W).Trace tr s) : s.Sound :=
  h.invariant sound_init fun _ _ _ hsound hs => sound_step hcodec hsound hs

/-! ### Drift -/

theorem drifted_congr {r : RunId} (h : s'.runs.lookup r = s.runs.lookup r) :
    s'.Drifted parents r ↔ s.Drifted parents r := by
  unfold Drifted
  rw [h]

/-- A step that checks nothing and lets no finalisation task through. -/
theorem caught_kept (h : s.Sound) (hcaught : s.DriftCaught parents)
    (hruns : ∀ r complete, s.Completed r complete → s'.runs.lookup r = s.runs.lookup r)
    (hchecks : s'.checks = s.checks)
    (hacting : ∀ t, s'.dispatcher.acting t = true →
      s.dispatcher.acting t = true ∧ s'.origins.lookup t = s.origins.lookup t) :
    s'.DriftCaught parents := by
  refine ⟨?_, ?_⟩
  · intro r raised hr
    rw [hchecks] at hr
    obtain ⟨complete, hcompleted⟩ := h.checked r raised hr
    rw [drifted_congr (hruns r complete hcompleted)]
    exact hcaught.raised r raised hr
  · intro t ht
    obtain ⟨ht, horigin⟩ := hacting t ht
    obtain ⟨r, hr, hbased⟩ := hcaught.spared t ht
    obtain ⟨c, complete, -, hcompleted, -⟩ := h.origin t r hr
    exact ⟨r, horigin.trans hr, (drifted_congr (hruns r complete hcompleted)).not.2 hbased⟩

theorem caught_goOn (h : s.Sound) (hcaught : s.DriftCaught parents) {r : RunId}
    {f : TaskRun → TaskRun} (hs : s.goOn r f = some s') : s'.DriftCaught parents := by
  obtain ⟨run, -, -, hkept, rfl⟩ := goOn_eq_some hs
  exact caught_kept h hcaught hkept rfl fun t ht => ⟨ht, rfl⟩

theorem check_of_passes (h : s.Sound) {e : DispatcherEvent π} {t : FinalizeId}
    (hp : s.dispatcher.Passes W.dispatcher e t) : s.check W.dispatcher e ≠ none := by
  obtain ⟨rfl, hfinalizer, task, context, ht, hc, -⟩ := hp
  have habout : s.dispatcher.about t = some (task.context, task.complete) := by
    rw [Dispatcher.about, ht, Option.map_some]
  obtain ⟨r, hr⟩ := Option.isSome_iff_exists.1 (h.owned t _ habout)
  simp [check, hfinalizer, ht, hc, hr]

theorem caught_dispatcher_iff (h : s.Sound) (hcaught : s.DriftCaught parents)
    {e : DispatcherEvent π} (hs : s.step W (.dispatcher e) = some s') :
    s'.DriftCaught parents ↔ s.OnBaseline W parents (.dispatcher e) := by
  simp only [step] at hs
  split_ifs at hs with hother
  obtain ⟨d, hd, rfl⟩ := Option.map_eq_some_iff.1 hs
  have hsame := Dispatcher.sameWork_step h.agree hother hd
  cases hcheck : s.check W.dispatcher e with
  | none =>
    refine iff_of_true ?_ ?_
    · refine caught_kept h hcaught (fun _ _ _ => rfl) (by simp) fun t ht => ⟨?_, rfl⟩
      rcases hsame.acting t ht with ht | hpasses
      · exact ht
      · exact absurd hcheck (check_of_passes h hpasses)
    · intro p hp
      rw [hcheck] at hp
      contradiction
  | some p =>
    obtain ⟨r, raised⟩ := p
    obtain ⟨rfl, -, t, rfl, hr, -⟩ := check_eq_some h hcheck
    have hon : s.OnBaseline W parents (.dispatcher (.finalize t .started)) ↔
        ¬ s.Drifted parents r := by simp [OnBaseline, hcheck]
    rw [hon]
    constructor
    · intro hcaught' hdrifted
      have := (hcaught'.raised r false (by simp)).2 hdrifted
      contradiction
    · intro hbased
      refine ⟨?_, ?_⟩
      · intro r' raised hr'
        rcases List.mem_append.1 hr' with hr' | hr'
        · exact hcaught.raised r' raised hr'
        · obtain ⟨rfl, rfl⟩ := Prod.mk.inj (List.mem_singleton.1 hr')
          exact iff_of_false (by simp) hbased
      · intro t' ht'
        rcases hsame.acting t' ht' with ht' | ⟨heq, -⟩
        · exact hcaught.spared t' ht'
        · obtain ⟨rfl, -⟩ := DispatcherEvent.finalize.inj heq
          exact ⟨r, hr, hbased⟩

theorem caught_report (hcodec : ∀ p, W.dispatcher.codec.validateComplete
    (W.dispatcher.codec.dumpComplete p) = .ok p) (h : s.Sound) (hcaught : s.DriftCaught parents)
    {r : RunId} {msg : NMBMessage π} {iteration : ℕ}
    (hs : s.step W (.report r msg iteration) = some s') : s'.DriftCaught parents := by
  obtain ⟨complete, d, -, -, ⟨hsame, rfl⟩ | ⟨hfork, rfl⟩⟩ := report_cases hcodec h hs
  · refine caught_kept h hcaught (fun _ _ _ => rfl) rfl ?_
    intro t ht
    exact ⟨(hsame.acting t ht).resolve_right not_false, rfl⟩
  · refine caught_kept h hcaught (fun _ _ _ => rfl) rfl ?_
    intro t ht
    obtain ⟨hne, ht⟩ := hfork.acting t ht
    exact ⟨ht, AList.lookup_insert_ne hne⟩

theorem caught_step_iff (hcodec : ∀ p, W.dispatcher.codec.validateComplete
    (W.dispatcher.codec.dumpComplete p) = .ok p) (h : s.Sound) (hcaught : s.DriftCaught parents)
    {e : WorkEvent π} (hs : s.step W e = some s') :
    s'.DriftCaught parents ↔ s.OnBaseline W parents e := by
  cases e with
  | delegate context =>
    simp only [step] at hs
    split_ifs at hs
    obtain rfl := Option.some.inj hs
    exact iff_of_true (caught_kept h hcaught (fun _ _ _ => rfl) rfl fun t ht => ⟨ht, rfl⟩) trivial
  | spawn r c position =>
    obtain ⟨context, -, hkept, rfl⟩ := spawn_eq_some hs
    exact iff_of_true (caught_kept h hcaught hkept rfl fun t ht => ⟨ht, rfl⟩) trivial
  | tool r position => exact iff_of_true (caught_goOn h hcaught hs) trivial
  | finish r result topLevel diff => exact iff_of_true (caught_goOn h hcaught hs) trivial
  | report r msg iteration => exact iff_of_true (caught_report hcodec h hcaught hs) trivial
  | dispatcher e => exact caught_dispatcher_iff h hcaught hs

end

/-- In a run of the system drift is always caught exactly if `finalize` is called for no run that
has drifted. -/
theorem drift_caught_iff {W : DriftEnv π} (hcodec : ∀ p, W.dispatcher.codec.validateComplete
    (W.dispatcher.codec.dumpComplete p) = .ok p) (parents : String → List String)
    {tr : List (DelegatedWork × WorkEvent π)} {s : DelegatedWork}
    (h : (driftMachine W).Trace tr s) :
    Machine.Always (DriftCaught parents) tr s ↔ Machine.Guarded (OnBaseline W parents) tr := by
  refine h.always_iff_guarded ?_ ?_
  · exact ⟨fun _ _ hr => absurd hr List.not_mem_nil, fun _ ht => by contradiction⟩
  · exact fun _ _ _ _ hrun hcaught hs => caught_step_iff hcodec (sound_run hcodec hrun) hcaught hs

/-! ### A checkout during the task -/

def wireDrift : DriftEnv WirePayload where
  dispatcher := wireDispatcher
  actions := FinalizationActions.plainPaths
  config := codingModel

def onMain : GitPosition where
  originUrl := mainBaseline.repoUrl
  branch := some "main"
  headSha := mainBaseline.baseSha

def onRelease : GitPosition where
  originUrl := mainBaseline.repoUrl
  branch := some "release"
  headSha := "9a1b0c64f0d9b1c3f1e5d4a0a2c7f6e8b3d5c7a9"

/-- A task on `main` whose tools leave the workspace at the positions. -/
def taskThrough (positions : List GitPosition) : List (WorkEvent WirePayload) :=
  [.delegate
      { workflowId := "wf-1", task := { fixBugTask with workspaceBaseline := some mainBaseline } },
    .spawn 0 0 onMain] ++ positions.map (WorkEvent.tool 0) ++
  [.finish 0 ⟨"Fixed", 3, 2, false, []⟩ (.exited 0 "/tmp/wf" "") (.exited 0 "" ""),
    .report 0 (fixBugComplete "m-1") 0, .dispatcher (.finalize 0 .started)]

theorem drift_caught_iff_onMain : ∃ tr s, (driftMachine wireDrift).Trace tr s ∧
    tr.map Prod.snd = taskThrough [] ∧
      (Machine.Always (DriftCaught fun _ => []) tr s ↔
        Machine.Guarded (OnBaseline wireDrift fun _ => []) tr) := by
  obtain ⟨tr, s, h, hevents, -⟩ := Machine.Trace.of_check (M := driftMachine wireDrift)
    (taskThrough []) (p := fun _ s => s.checks == [(0, false)]) (by decide +kernel)
  exact ⟨tr, s, h, hevents, drift_caught_iff (fun _ => rfl) (fun _ => []) h⟩

/-- The tools check out another branch, and `finalize` goes on to its git commands and tools. -/
theorem drift_uncaught : ¬ ∀ parents tr s, (driftMachine wireDrift).Trace tr s →
    Machine.Always (DriftCaught parents) tr s := by
  intro hall
  obtain ⟨tr, s, h, -, hs⟩ := Machine.Trace.of_check (M := driftMachine wireDrift)
    (taskThrough [onRelease])
    (p := fun _ s => decide ((0, false) ∈ s.checks ∧
      (s.runs.lookup 0).map (fun run => (run.task.workspaceBaseline, run.position)) =
        some (some mainBaseline, onRelease)))
    (by decide +kernel)
  obtain ⟨hchecked, hrun⟩ := of_decide_eq_true hs
  obtain ⟨run, hr, hrun⟩ := Option.map_eq_some_iff.1 hrun
  obtain ⟨hbaseline, hposition⟩ := Prod.mk.inj hrun
  have hdrifted : s.Drifted (fun _ => []) 0 := by
    refine ⟨run, mainBaseline, hr, hbaseline, ?_⟩
    rintro ⟨-, hbranch, -⟩
    rw [hposition] at hbranch
    revert hbranch
    decide
  have hraised := ((hall (fun _ => []) tr s h).2.raised 0 false hchecked).2 hdrifted
  contradiction

end DelegatedWork

end NemoClaw
