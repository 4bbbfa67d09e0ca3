import NemoClaw.Orchestrator.Prompts

/-! Iteration feedback. A thread has one slot for the workflow that awaits its next message: an
Iterate click writes it over what it held, a message uses it up, and a workflow that is deregistered
meanwhile stays in it. -/

namespace NemoClaw

open Lib

namespace FinalizationActions

/-- An iteration of the workflow starts with this text. -/
def Iterates (E : ActionEnv) (s : FinalizationActions) (w text : String) : Prop :=
  (s.getWorkflow w).isSome ∧ E.delegationManager = true ∧ w ≠ "" ∧ text ≠ ""

instance (E : ActionEnv) (s : FinalizationActions) (w text : String) :
    Decidable (s.Iterates E w text) :=
  inferInstanceAs (Decidable (_ ∧ _))

/-- What a feedback text does: it starts an iteration of the workflow it is attached to, if that is
registered, and touches no other. -/
structure Attached (E : ActionEnv) (s s' : FinalizationActions) (h : HandlerId)
    (request : NormalizedRequest) (threadKey w : String) : Prop where
  consumed : s'.pendingIteration = s.pendingIteration.erase threadKey
  task : ∃ phase, s'.tasks.lookup h = some ⟨request, w, phase⟩
  iterations : s'.iterations =
    if s.Iterates E w request.text then s.iterations.insert h w else s.iterations
  workflows : s'.workflows = s.workflows
  contexts : ∀ c, s.workflows.lookup w ≠ some c → s'.contexts.lookup c = s.contexts.lookup c
  inactive : s.getWorkflow w = none →
    s' = { s with pendingIteration := s.pendingIteration.erase threadKey }.textReply h request w
      ("Workflow `" ++ w ++ "` is no longer active.")

variable {E : ActionEnv} {s : FinalizationActions} {h : HandlerId} {request : NormalizedRequest}
  {threadKey w : String}

/-- A follow-up is refused only without a text. -/
theorem followup_isSome (task : TaskAssignPayload) (text : String) :
    (task.followup text none none).isSome ↔ text ≠ "" := by
  unfold TaskAssignPayload.followup
  split_ifs with htext
  · simpa [resolveMaxTurns] using htext
  · simpa using htext

theorem completionStub_eq_none {ctx : WorkflowContext} {summary : NonEmptyString} :
    completionStub ctx summary = none ↔ ctx.workflowId = "" := by
  unfold completionStub
  split_ifs with hid
  · simpa using hid
  · simpa using hid

/-- A text that starts nothing. -/
theorem attached_phase {c : CtxId} {ctx : WorkflowContext} (hw : s.getWorkflow w = some (c, ctx))
    (hnot : ¬ s.Iterates E w request.text) (phase : ActionPhase) :
    Attached E s ({ s with pendingIteration := s.pendingIteration.erase threadKey }.setPhase h
      request w phase) h request threadKey w where
  consumed := rfl
  task := ⟨phase, AList.lookup_insert _⟩
  iterations := (if_neg hnot).symm
  workflows := rfl
  contexts _ _ := rfl
  inactive hnone := by
    rw [hw] at hnone
    contradiction

/-- `re_delegate` for the text. -/
theorem attached_reDelegate {c : CtxId} {ctx : WorkflowContext}
    (hw : s.getWorkflow w = some (c, ctx)) (hid : ctx.workflowId = w) (hne : w ≠ "")
    (complete : TaskCompletePayload) :
    Attached E s ({ s with pendingIteration := s.pendingIteration.erase threadKey }.reDelegate E h
      request ctx (sessionFactory c ctx complete)) h request threadKey w := by
  have hiterates : s.Iterates E w request.text ↔
      E.delegationManager = true ∧ request.text ≠ "" := by
    simp [Iterates, hw, hne]
  have htext := followup_isSome (sessionFactory c ctx complete).task request.text
  unfold reDelegate
  rw [hid]
  split_ifs with hmanager
  · split
    · rename_i hnone
      apply attached_phase hw
      intro hstarts
      rw [hnone] at htext
      exact absurd (htext.2 (hiterates.1 hstarts).2) (by simp)
    · rename_i task hsome
      rw [hsome] at htext
      refine ⟨rfl, ⟨_, AList.lookup_insert _⟩, ?_, rfl, ?_, ?_⟩
      · rw [if_pos (hiterates.2 ⟨hmanager, htext.1 rfl⟩)]
        rfl
      · intro c' hc'
        apply AList.lookup_insert_ne
        rintro rfl
        obtain ⟨c'', hc, hmap⟩ := Option.bind_eq_some_iff.1 hw
        obtain ⟨ctx', -, hpair⟩ := Option.map_eq_some_iff.1 hmap
        obtain ⟨rfl, -⟩ := Prod.mk.inj hpair
        exact hc' hc
      · intro hnone
        rw [hw] at hnone
        contradiction
  · apply attached_phase hw
    intro hstarts
    exact hmanager (hiterates.1 hstarts).1

/-- The feedback is attached to the workflow that awaits it. -/
theorem attached_consumeIterationFeedback (hf : Filed s) (h : HandlerId)
    (request : NormalizedRequest) (hpending : s.pendingIteration.lookup threadKey = some w) :
    Attached E s (s.consumeIterationFeedback E h request threadKey) h request threadKey w := by
  unfold consumeIterationFeedback
  simp only [hpending]
  split
  · rename_i hnone
    refine ⟨rfl, ⟨_, AList.lookup_insert _⟩, ?_, rfl, fun _ _ => rfl, fun _ => rfl⟩
    rw [if_neg]
    · rfl
    · intro hstarts
      have hsome := hstarts.1
      rw [show s.getWorkflow w = none from hnone] at hsome
      contradiction
  · rename_i c ctx hfound
    have hw : s.getWorkflow w = some (c, ctx) := hfound
    have hid : ctx.workflowId = w := hf.getWorkflow hw
    split
    · rename_i hnone
      rw [completionStub_eq_none, hid] at hnone
      rw [hid]
      apply attached_phase hw
      intro hstarts
      exact hstarts.2.2.1 hnone
    · rename_i complete hsome
      refine attached_reDelegate hw hid ?_ complete
      rintro rfl
      rw [completionStub_eq_none.2 hid] at hsome
      contradiction

end FinalizationActions

namespace Orchestrator

/-- The last Iterate click on a registered workflow in the thread was on `w`, and no message was
used as feedback since. -/
def AwaitsFeedback (log : List OrchestratorEntry) (threadKey w : String) : Prop :=
  ∃ before after, log = before ++ .iterate threadKey w :: after ∧
    ∀ e ∈ after, (∀ w', e ≠ .iterate threadKey w') ∧
      ∀ isText w', e ≠ .message threadKey isText (some w')

/-- What a text is handled as: feedback for the workflow, or an ordinary request. -/
structure HandledAs (E : OrchestratorEnv) (s s' : Orchestrator) (h : HandlerId)
    (request : NormalizedRequest) (feedback : Option String) : Prop where
  recorded : s'.log = s.log ++ [.message request.threadKey true feedback]
  phase : ∃ phase, s'.handlings.lookup h = some ⟨request, phase⟩ ∧
    (phase = .finalizing ↔ feedback.isSome)
  attached : ∀ w, feedback = some w →
    s.actions.Attached E.actions s'.actions h request request.threadKey w
  ordinary : feedback = none → s'.actions = s.actions

variable {E : OrchestratorEnv} {s s' : Orchestrator} {h : HandlerId} {request : NormalizedRequest}

theorem awaitsFeedback_iff {log : List OrchestratorEntry} {threadKey w : String} :
    AwaitsFeedback log threadKey w ↔ iterations.content log threadKey = some w := by
  have hwrites : ∀ e : OrchestratorEntry, (∀ v, iterations.writes e ≠ some (threadKey, v)) ↔
      (∀ w', e ≠ .iterate threadKey w') ∧ ∀ isText w', e ≠ .message threadKey isText (some w') := by
    intro e
    cases e with
    | message threadKey' isText feedback => cases feedback <;> simp [iterations]
    | iterate | stored | approved | dropped => simp [iterations]
  rw [Slots.content_eq_some_iff]
  constructor
  · rintro ⟨before, after, rfl, hafter⟩
    exact ⟨before, _, after, rfl, rfl, fun e he => (hwrites e).2 (hafter e he)⟩
  · rintro ⟨before, e, after, rfl, hput, hafter⟩
    obtain rfl : e = .iterate threadKey w := by
      cases e with
      | message threadKey' isText feedback => cases feedback <;> simp [iterations] at hput
      | iterate threadKey' w' =>
        obtain ⟨rfl, hsome⟩ := Prod.mk.inj (Option.some.inj hput)
        obtain rfl := Option.some.inj hsome
        rfl
      | stored | approved | dropped => simp [iterations] at hput
    exact ⟨before, after, rfl, fun e he => (hwrites e).1 (hafter e he)⟩

theorem running_keeps (request : NormalizedRequest) (run : AgentRun) (category : ErrorCategory) :
    (s.running E h request run category).actions = s.actions ∧
      ∃ phase, (s.running E h request run category).handlings.lookup h = some ⟨request, phase⟩ ∧
        phase ≠ .finalizing := by
  unfold running
  split
  · exact ⟨rfl, _, AList.lookup_insert _, nofun⟩
  · exact ⟨rfl, _, AList.lookup_insert _, nofun⟩
  · exact ⟨rfl, _, AList.lookup_insert _, nofun⟩
  · exact ⟨rfl, _, AList.lookup_insert _, nofun⟩

theorem handledAs_handleMessage (hr : Recorded E s) (htext : request.action = none)
    (systemPrompt : String) : HandledAs E s (s.handleMessage E h request systemPrompt) h request
      (s.pendingIteration E request) := by
  have hlog : (s.handleMessage E h request systemPrompt).log = s.log ++
      [.message request.threadKey request.action.isNone (s.pendingIteration E request)] :=
    log_handleMessage systemPrompt
  rw [htext] at hlog
  cases hw : s.pendingIteration E request with
  | some w =>
    have hpending : s.actions.pendingIteration.lookup request.threadKey = some w := by
      unfold pendingIteration at hw
      split_ifs at hw
      · exact hw
    have hattached := FinalizationActions.attached_consumeIterationFeedback (E := E.actions)
      hr.filed h request hpending
    rw [hw] at hlog
    unfold handleMessage at hlog ⊢
    simp only [hw, Option.isSome_some, if_true] at hlog ⊢
    refine ⟨hlog, ⟨_, AList.lookup_insert _, iff_of_true rfl rfl⟩, ?_, nofun⟩
    intro w' hw'
    obtain rfl := Option.some.inj hw'
    exact hattached
  | none =>
    rw [hw] at hlog
    unfold handleMessage at hlog ⊢
    simp only [hw, Option.isSome_none, Bool.false_eq_true, if_false] at hlog ⊢
    split_ifs at hlog ⊢
    · exact ⟨hlog, ⟨_, AList.lookup_insert _, iff_of_false nofun nofun⟩, nofun, fun _ => rfl⟩
    · obtain ⟨hactions, phase, hphase, hne⟩ := running_keeps (E := E) (h := h)
        (s := { s.record _ with pendingApprovals := s.pendingApprovals.erase request.threadKey })
        request (AgentRun.start E.agent request.requestId _ []) .unknown
      exact ⟨hlog, ⟨phase, hphase, iff_of_false hne nofun⟩, nofun, fun _ => hactions⟩

/-- In every run, a text is handled as feedback for the workflow of the last Iterate click of its
thread that no message has used, and as an ordinary request if there is none. -/
theorem feedback_to_last_click (E : OrchestratorEnv)
    {tr : List (Orchestrator × OrchestratorEvent)} (h : (orchestratorMachine E).Trace tr s)
    {handler : HandlerId} {circumstances : Circumstances} (htext : request.action = none)
    (hs : s.step E (.handle handler request circumstances) = some s') :
    (∀ w, AwaitsFeedback s.log request.threadKey w →
      HandledAs E s s' handler request (some w)) ∧
    ((∀ w, ¬ AwaitsFeedback s.log request.threadKey w) →
      HandledAs E s s' handler request none) := by
  have hr := recorded_run h
  simp only [step, Option.ite_none_right_eq_some] at hs
  obtain ⟨-, hs⟩ := hs
  obtain rfl := Option.some.inj hs
  have hhandled := handledAs_handleMessage (h := handler) hr htext circumstances.systemPrompt
  simp only [awaitsFeedback_iff, content_pendingIteration hr, handle, htext]
  refine ⟨?_, ?_⟩
  · intro w hw
    rw [← hw]
    exact hhandled
  · intro hnone
    rw [← Option.eq_none_iff_forall_ne_some.2 hnone]
    exact hhandled

/-- Iterate is clicked, and the next text is the feedback. -/
def iteratedOnce : List OrchestratorEvent :=
  [.actions (.register FinalizationActions.fixBugWorkflow),
    .handle 0 (clicking "r-0" finalizationActionIterate "wf-1") {}]

theorem feedback_to_last_click_iteratedOnce : ∃ tr s s',
    (orchestratorMachine fileWriter).Trace tr s ∧ tr.map Prod.snd = iteratedOnce ∧
      HandledAs fileWriter s s' 1 (saying "r-1" "Fix the tests too.") (some "wf-1") := by
  obtain ⟨tr, s, hrun, hevents, hlog⟩ := Machine.Trace.of_check
    (M := orchestratorMachine fileWriter) iteratedOnce
    (p := fun _ s => s.log == [.iterate "t-1" "wf-1"] && s.isFresh 1) (by decide)
  rw [Bool.and_eq_true, beq_iff_eq] at hlog
  have hs : s.step fileWriter (.handle 1 (saying "r-1" "Fix the tests too.") {}) =
      some (s.handle fileWriter 1 (saying "r-1" "Fix the tests too.") {}) :=
    if_pos ⟨hlog.2, by simp⟩
  have hawaits : AwaitsFeedback s.log "t-1" "wf-1" := ⟨[], [], hlog.1, by simp⟩
  exact ⟨tr, s, _, hrun, hevents, (feedback_to_last_click fileWriter hrun rfl hs).1 "wf-1" hawaits⟩

/-- The thread, and the workflow that a text is used as feedback for. -/
def usedFor (E : OrchestratorEnv) (s : Orchestrator) :
    OrchestratorEvent → Option (String × String)
  | .handle _ request _ =>
    if request.action = none then
      (s.pendingIteration E request).map fun w => (request.threadKey, w)
    else none
  | _ => none

/-- A text is used as feedback only for a workflow that is registered. -/
def ForRegistered (E : OrchestratorEnv) (s : Orchestrator) (e : OrchestratorEvent) : Prop :=
  ∀ threadKey w, s.usedFor E e = some (threadKey, w) → (s.actions.getWorkflow w).isSome

/-- A text is used as feedback only when no click on another workflow of its thread awaits one. -/
def ForOnlyClick (E : OrchestratorEnv) (s : Orchestrator) (e : OrchestratorEvent) : Prop :=
  ∀ threadKey w w', s.usedFor E e = some (threadKey, w) → .iterate threadKey w' ∈ s.log →
    (∀ isText w'', .message threadKey isText (some w'') ∉ s.log) → w' = w

/-- Iterate is clicked for two workflows of a thread, and the second one is deregistered before the
text comes. -/
def clickedTwice : List OrchestratorEvent :=
  [.actions (.register FinalizationActions.fixBugWorkflow),
    .actions (.register { FinalizationActions.fixBugWorkflow with workflowId := "wf-2" }),
    .handle 0 (clicking "r-0" finalizationActionIterate "wf-1") {},
    .handle 1 (clicking "r-1" finalizationActionIterate "wf-2") {}, .actions (.deregister "wf-2"),
    .handle 2 (saying "r-2" "Fix the tests too.") {}]

theorem feedback_to_inactive :
    (¬ ∀ tr s, (orchestratorMachine fileWriter).Trace tr s →
      Machine.Guarded (ForRegistered fileWriter) tr) ∧
    ¬ ∀ tr s, (orchestratorMachine fileWriter).Trace tr s →
      Machine.Guarded (ForOnlyClick fileWriter) tr := by
  obtain ⟨tr, s, hrun, -, hany⟩ := Machine.Trace.of_check (M := orchestratorMachine fileWriter)
    clickedTwice (p := fun tr _ => tr.any fun q => decide
      (q.1.usedFor fileWriter q.2 = some ("t-1", "wf-2") ∧ q.1.actions.getWorkflow "wf-2" = none ∧
        q.1.log = [.iterate "t-1" "wf-1", .iterate "t-1" "wf-2"])) (by decide)
  obtain ⟨q, hq, hcheck⟩ := List.any_eq_true.1 hany
  obtain ⟨hused, hinactive, hlog⟩ := of_decide_eq_true hcheck
  refine ⟨?_, ?_⟩
  · intro hall
    have hregistered := hall tr s hrun q hq "t-1" "wf-2" hused
    rw [hinactive] at hregistered
    contradiction
  · intro hall
    have honly := hall tr s hrun q hq "t-1" "wf-2" "wf-1" hused (by simp [hlog]) (by simp [hlog])
    contradiction

end Orchestrator

end NemoClaw
