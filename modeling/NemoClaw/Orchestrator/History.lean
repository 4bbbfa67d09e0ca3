import NemoClaw.Lib.Slots
import NemoClaw.Agent.WriteGate
import NemoClaw.Orchestrator.Orchestrator
import NemoClaw.Orchestrator.PendingIterations

/-! The log of the orchestrator as an account of its two dictionaries. Every entry is legal after
the entries before it, and `_pending_approvals` and the pending iterations hold what the entries
put there. What holds of all legal logs holds of every run. -/

namespace NemoClaw

open Lib

/-- `_pending_approvals`, as the entries write it. -/
def approvals : Slots OrchestratorEntry String BatchId where
  writes
    | .stored threadKey batch _ _ => some (threadKey, some batch)
    | .approved threadKey _ _ _ | .dropped threadKey _ | .message threadKey _ none =>
      some (threadKey, none)
    | .message _ _ (some _) | .iterate _ _ => none

/-- The pending iterations, as the entries write them. -/
def iterations : Slots OrchestratorEntry String String where
  writes
    | .iterate threadKey workflowId => some (threadKey, some workflowId)
    | .message threadKey _ (some _) => some (threadKey, none)
    | .message _ _ none | .stored _ _ _ _ | .approved _ _ _ _ | .dropped _ _ => none

/-- What the entries before it must say for an entry. -/
def LegalEntry (E : OrchestratorEnv) (before : List OrchestratorEntry) : OrchestratorEntry → Prop
  | .stored _ batch calls description => batch ∉ before.filterMap approvals.item ∧
      formatWriteDescription E.agent (getWriteToolCalls E.agent calls) = some description
  | .message threadKey _ feedback => iterations.content before threadKey = feedback
  | .approved threadKey _ batch calls => approvals.content before threadKey = some batch ∧
      ∃ description, .stored threadKey batch calls description ∈ before
  | .dropped threadKey batch => approvals.content before threadKey = some batch
  | .iterate _ _ => True

namespace Orchestrator

structure Recorded (E : OrchestratorEnv) (s : Orchestrator) : Prop where
  legal : Legal (LegalEntry E) s.log
  approvals : approvals.Tracks StoredApproval.batch s.log s.pendingApprovals
  stored : ∀ threadKey approval, s.pendingApprovals.lookup threadKey = some approval →
    .stored threadKey approval.batch approval.pending.toolCalls approval.pending.description ∈ s.log
  numbered : ∀ batch ∈ s.log.filterMap NemoClaw.approvals.item, batch < s.nextBatch
  iterations : iterations.Tracks id s.log s.actions.pendingIteration
  filed : s.actions.Filed
  unwired : E.finalizationActions = false → s.actions.pendingIteration = ∅

variable {E : OrchestratorEnv} {s s' : Orchestrator} {h : HandlerId} {request : NormalizedRequest}

theorem recorded_setPhase (hr : Recorded E s) (phase : HandlingPhase) :
    Recorded E (s.setPhase h request phase) :=
  ⟨hr.legal, hr.approvals, hr.stored, hr.numbered, hr.iterations, hr.filed, hr.unwired⟩

theorem recorded_respond (hr : Recorded E s) (content : String) :
    Recorded E (s.respond E h request content) :=
  ⟨hr.legal, hr.approvals, hr.stored, hr.numbered, hr.iterations, hr.filed, hr.unwired⟩

/-! ### The pending approvals -/

theorem recorded_storeApproval (hr : Recorded E s) {pending : PendingApproval}
    (hd : AgentRun.Described E.agent pending) :
    Recorded E (s.storeApproval h request pending) where
  legal := by
    refine legal_snoc.2 ⟨hr.legal, ?_, hd⟩
    intro hmem
    exact absurd (hr.numbered _ hmem) (Nat.lt_irrefl _)
  approvals := hr.approvals.insert rfl
  stored threadKey approval ha := by
    rcases Dict.lookup_insert_eq_some.1 ha with ⟨rfl, rfl⟩ | ⟨-, hold⟩
    · exact List.mem_append_right _ (List.mem_singleton_self _)
    · exact List.mem_append_left _ (hr.stored threadKey approval hold)
  numbered batch hb := by
    change batch ∈ (s.log ++ [_]).filterMap _ at hb
    rw [List.filterMap_append] at hb
    rcases List.mem_append.1 hb with hb | hb
    · exact Nat.lt_succ_of_lt (hr.numbered batch hb)
    · obtain rfl := List.mem_singleton.1 hb
      exact Nat.lt_succ_self _
  iterations := hr.iterations.keep rfl
  filed := hr.filed
  unwired := hr.unwired

/-- An entry that empties the slot of a thread. -/
theorem recorded_empty (hr : Recorded E s) (e : OrchestratorEntry) {threadKey : String}
    (happrovals : NemoClaw.approvals.writes e = some (threadKey, none))
    (hiterations : NemoClaw.iterations.writes e = none) (hlegal : LegalEntry E s.log e) :
    Recorded E ({ s with
      pendingApprovals := s.pendingApprovals.erase threadKey }.record e) where
  legal := legal_snoc.2 ⟨hr.legal, hlegal⟩
  approvals := hr.approvals.erase happrovals
  stored threadKey' approval ha :=
    List.mem_append_left _ (hr.stored threadKey' approval (Dict.lookup_erase_eq_some.1 ha).2)
  numbered batch hb :=
    hr.numbered batch (Slots.mem_items_of_snoc (Slots.item_of_writes happrovals) hb)
  iterations := hr.iterations.keep hiterations
  filed := hr.filed
  unwired := hr.unwired

theorem recorded_runsOn (hr : Recorded E s) {run : AgentRun} {phase : HandlingPhase}
    (hd : ∀ pending, run.phase = .blocked pending → AgentRun.Described E.agent pending)
    (hs : RunsOn s h request run phase s') : Recorded E s' := by
  cases hs with
  | ended prompt =>
    exact ⟨hr.legal, hr.approvals, hr.stored, hr.numbered, hr.iterations, hr.filed, hr.unwired⟩
  | @stored pending originalUserText hblocked =>
    have hdescribed : AgentRun.Described E.agent pending := hd pending hblocked
    exact recorded_storeApproval hr hdescribed
  | goesOn => exact recorded_setPhase hr phase

theorem recorded_inferring (hr : Recorded E s) (messages : List Message) (chunks : List String)
    (attempt : ℕ) (response : Except String InferenceResponse) :
    Recorded E (s.inferring E h request messages chunks attempt response) := by
  unfold inferring
  split
  · split
    · exact recorded_respond hr _
    · exact recorded_setPhase hr _
  · exact recorded_setPhase hr _

theorem recorded_handleWriteApproval (hr : Recorded E s) (prompt : Option BatchId) :
    Recorded E (s.handleWriteApproval E h request prompt) := by
  unfold handleWriteApproval
  split
  · exact recorded_setPhase hr _
  · rename_i approval ha
    have hheld := hr.approvals.content_of_lookup ha
    dsimp only
    split_ifs
    · exact recorded_setPhase (recorded_empty hr (.dropped _ _) rfl rfl hheld) _
    · exact recorded_setPhase (recorded_empty hr (.approved _ _ _ _) rfl rfl
        ⟨hheld, _, hr.stored _ _ ha⟩) _

theorem recorded_handleWriteDenial (hr : Recorded E s) :
    Recorded E (s.handleWriteDenial h request) := by
  unfold handleWriteDenial
  split
  · exact recorded_setPhase hr _
  · rename_i approval ha
    have hheld := hr.approvals.content_of_lookup ha
    exact recorded_setPhase (recorded_empty hr (.dropped _ _) rfl rfl hheld) _

/-! ### The pending iterations -/

/-- The actions change, and no entry is recorded. -/
theorem recorded_actions (hr : Recorded E s) {actions : FinalizationActions}
    (hpending : actions.pendingIteration = s.actions.pendingIteration) (hfiled : actions.Filed) :
    Recorded E { s with actions := actions } where
  legal := hr.legal
  approvals := hr.approvals
  stored := hr.stored
  numbered := hr.numbered
  iterations := by
    rw [hpending]
    exact hr.iterations
  filed := hfiled
  unwired hw := hpending.trans (hr.unwired hw)

/-- An entry that writes a pending iteration. -/
theorem recorded_iterations (hr : Recorded E s) (e : OrchestratorEntry)
    {actions : FinalizationActions} (happrovals : NemoClaw.approvals.writes e = none)
    (hlegal : LegalEntry E s.log e)
    (hiterations : NemoClaw.iterations.Tracks id (s.log ++ [e]) actions.pendingIteration)
    (hfiled : actions.Filed) (hwired : E.finalizationActions = true) :
    Recorded E { s.record e with actions := actions } where
  legal := legal_snoc.2 ⟨hr.legal, hlegal⟩
  approvals := hr.approvals.keep happrovals
  stored threadKey approval ha := List.mem_append_left _ (hr.stored threadKey approval ha)
  numbered batch hb :=
    hr.numbered batch (Slots.mem_items_of_snoc (by simp [Slots.item, happrovals]) hb)
  iterations := hiterations
  filed := hfiled
  unwired hw := by
    rw [hwired] at hw
    contradiction

theorem recorded_handleFinalizationAction (hr : Recorded E s) {action : ActionPayload}
    (removal : Removal) (ha : request.action = some action)
    (hwired : E.finalizationActions = true) :
    Recorded E (s.handleFinalizationAction E h request action removal) := by
  unfold handleFinalizationAction
  apply recorded_setPhase
  have hcases := FinalizationActions.handle_settles_or_iterates (E := E.actions) (h := h)
    hr.filed removal ha
  have hfiled := FinalizationActions.filed_handle (E := E.actions) (h := h) hr.filed removal ha
  split_ifs at hcases ⊢
  · apply recorded_iterations hr (.iterate _ _) rfl trivial
    · rw [hcases.pending]
      exact hr.iterations.insert rfl
    · exact hfiled
    · exact hwired
  · exact recorded_actions hr hcases.pending hfiled

/-- The workflow that awaits the message, as the log has it. -/
theorem content_pendingIteration (hr : Recorded E s) (request : NormalizedRequest) :
    NemoClaw.iterations.content s.log request.threadKey = s.pendingIteration E request := by
  rw [← hr.iterations request.threadKey, Option.map_id, id]
  unfold pendingIteration
  split_ifs with hw
  · rfl
  · rw [hr.unwired (by simpa using hw)]
    rfl

theorem recorded_handleMessage (hr : Recorded E s) (systemPrompt : String) :
    Recorded E (s.handleMessage E h request systemPrompt) := by
  have hfeedback := content_pendingIteration hr request
  unfold handleMessage
  dsimp only
  cases hw : s.pendingIteration E request with
  | none =>
    rw [hw] at hfeedback
    simp only [Option.isSome_none, Bool.false_eq_true, if_false]
    have hempty := recorded_empty hr (.message request.threadKey request.action.isNone none)
      rfl rfl hfeedback
    split_ifs
    · exact recorded_setPhase hempty _
    · refine recorded_runsOn hempty ?_ (runsOn_running _ _)
      intro pending hphase
      exact absurd hphase ((AgentRun.quiet_start _ _ _).not_blocked pending)
  | some workflowId =>
    rw [hw] at hfeedback
    simp only [Option.isSome_some, if_true]
    obtain ⟨hpending, hfiled⟩ := FinalizationActions.consumeIterationFeedback_keeps
      (E := E.actions) (h := h) hr.filed request request.threadKey
    apply recorded_setPhase
    apply recorded_iterations hr (.message _ _ (some workflowId)) rfl hfeedback
    · change NemoClaw.iterations.Tracks id _
        (s.actions.consumeIterationFeedback E.actions h request request.threadKey).pendingIteration
      rw [hpending]
      exact hr.iterations.erase rfl
    · exact hfiled
    · by_contra hnot
      unfold pendingIteration at hw
      rw [if_neg hnot] at hw
      contradiction

/-! ### Runs -/

theorem recorded_handle (hr : Recorded E s) (circumstances : Circumstances) :
    Recorded E (s.handle E h request circumstances) := by
  unfold handle
  split
  · exact recorded_handleMessage hr _
  · rename_i action ha
    split_ifs with happrove hdeny hfinalization
    · exact recorded_handleWriteApproval hr _
    · exact recorded_handleWriteDenial hr
    · exact recorded_handleFinalizationAction hr _ ha hfinalization.1
    · exact recorded_handleMessage hr _

theorem recorded_advance (hr : Recorded E s) {e : RunEvent} {phase : HandlingPhase}
    (hs : s.advance E h request e phase = some s') : Recorded E s' := by
  rcases advance_cases hs with ⟨run, run', -, hrun, rfl⟩ | ⟨run, run', approval, -, hrun, rfl⟩ |
    ⟨messages, chunks, attempt, response, rfl⟩
  · exact recorded_runsOn hr (fun _ => AgentRun.described_of_step hrun) (runsOn_running _ _)
  · exact recorded_runsOn hr (fun _ => AgentRun.described_of_step hrun) (runsOn_resuming _ _)
  · exact recorded_inferring hr _ _ _ _

theorem recorded_step {e : OrchestratorEvent} (hr : Recorded E s)
    (hs : s.step E e = some s') : Recorded E s' := by
  rcases step_cases hs with ⟨h, request, circumstances, -, rfl⟩ | ⟨h, e', t, -, -, hadvance⟩ |
    ⟨h, batch, -, rfl⟩ | ⟨e', actions, -, hhandle, hfeedback, hactions, rfl⟩ | ⟨h, request, -, rfl⟩
  · exact recorded_handle hr _
  · exact recorded_advance hr hadvance
  · exact ⟨hr.legal, hr.approvals, hr.stored, hr.numbered, hr.iterations, hr.filed, hr.unwired⟩
  · obtain ⟨hpending, hfiled⟩ := FinalizationActions.step_keeps hr.filed hactions hhandle hfeedback
    exact recorded_actions hr hpending hfiled
  · exact recorded_setPhase hr _

theorem recorded_initial : Recorded E {} where
  legal := legal_nil
  approvals := Slots.Tracks.initial
  stored threadKey approval ha := by simp at ha
  numbered batch hb := by simp at hb
  iterations := Slots.Tracks.initial
  filed := ⟨by simp, by simp, by simp⟩
  unwired _ := rfl

/-- Every run of the orchestrator keeps its log and its dictionaries in step. -/
theorem recorded_run {tr : List (Orchestrator × OrchestratorEvent)}
    (h : (orchestratorMachine E).Trace tr s) : Recorded E s :=
  h.invariant recorded_initial fun _ _ _ hr hs => recorded_step hr hs

end Orchestrator

end NemoClaw
