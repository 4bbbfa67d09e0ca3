import NemoClaw.Orchestrator.FinalizationActions

/-! Who writes the pending iterations: an Iterate click and a feedback text. Everything else that
the finalization actions do leaves them alone, and no registered workflow changes its id. -/

namespace NemoClaw

open Lib

namespace FinalizationActions

/-- Pending iterations and contexts stay, and workflows may only be deregistered. -/
structure Settles (s s' : FinalizationActions) : Prop where
  pending : s'.pendingIteration = s.pendingIteration
  contexts : s'.contexts = s.contexts
  nextContext : s'.nextContext = s.nextContext
  workflows : ∀ w c, s'.workflows.lookup w = some c → s.workflows.lookup w = some c

/-- A workflow is registered under the id in its context. -/
structure Filed (s : FinalizationActions) : Prop where
  old : ∀ c ctx, s.contexts.lookup c = some ctx → c < s.nextContext
  filed : ∀ w c ctx, s.workflows.lookup w = some c → s.contexts.lookup c = some ctx →
    ctx.workflowId = w
  held : ∀ w c, s.workflows.lookup w = some c → c < s.nextContext

variable {E : ActionEnv} {s s' s'' : FinalizationActions} {h : HandlerId}
  {request : NormalizedRequest} {w : String}

theorem Settles.trans (h : Settles s s') (h' : Settles s' s'') : Settles s s'' where
  pending := h'.pending.trans h.pending
  contexts := h'.contexts.trans h.contexts
  nextContext := h'.nextContext.trans h.nextContext
  workflows w c hc := h.workflows w c (h'.workflows w c hc)

theorem Filed.settles (hf : Filed s) (h : Settles s s') : Filed s' where
  old := by
    rw [h.contexts, h.nextContext]
    exact hf.old
  filed w c ctx hc := by
    rw [h.contexts]
    exact hf.filed w c ctx (h.workflows w c hc)
  held w c hc := by
    rw [h.nextContext]
    exact hf.held w c (h.workflows w c hc)

theorem Filed.getWorkflow (hf : Filed s) {c : CtxId} {ctx : WorkflowContext}
    (h : s.getWorkflow w = some (c, ctx)) : ctx.workflowId = w := by
  obtain ⟨c', hc, hmap⟩ := Option.bind_eq_some_iff.1 h
  obtain ⟨ctx', hctx, hpair⟩ := Option.map_eq_some_iff.1 hmap
  obtain ⟨rfl, rfl⟩ := Prod.mk.inj hpair
  exact hf.filed w c' ctx' hc hctx

/-! ### Single writes -/

theorem settles_setPhase (phase : ActionPhase) : Settles s (s.setPhase h request w phase) :=
  ⟨rfl, rfl, rfl, fun _ _ hc => hc⟩

theorem settles_textReply (text : String) : Settles s (s.textReply h request w text) :=
  settles_setPhase _

theorem settles_perform (action : FinalizationAction) : Settles s (s.perform w action) :=
  ⟨rfl, rfl, rfl, fun _ _ hc => hc⟩

theorem settles_erase (w : String) : Settles s { s with workflows := s.workflows.erase w } :=
  ⟨rfl, rfl, rfl, fun _ _ hc => (Dict.lookup_erase_eq_some.1 hc).2⟩

theorem settles_deregisterWorkflow (message : String) :
    Settles s (s.deregisterWorkflow E h request w message) := by
  apply (settles_erase w).trans
  unfold deregisterWorkflow
  dsimp only
  split_ifs
  · exact settles_setPhase _
  · exact settles_textReply _

/-! ### Push and Discard -/

theorem settles_afterPush (message : String) (detached : Bool) :
    Settles s (s.afterPush E h request w message detached) := by
  unfold afterPush
  split_ifs
  · exact settles_setPhase _
  · exact settles_textReply _
  · exact settles_deregisterWorkflow _

theorem settles_renderPush (message : String) (detached : Bool) :
    Settles s (s.renderPush E h request w message detached) := by
  unfold renderPush
  split_ifs
  · exact settles_setPhase _
  · exact settles_afterPush _ _

theorem settles_pushRaised (exc : String) (detached : Bool) :
    Settles s (s.pushRaised h request w exc detached) := by
  unfold pushRaised
  split_ifs
  · exact settles_setPhase _
  · exact settles_textReply _

theorem settles_afterGit (session : FinalizationSession) (detached : Bool) (step : GitStep)
    (output : String) (left : List GitStep) :
    Settles s (s.afterGit E h request w session detached step output left) := by
  unfold afterGit
  split
  · exact settles_renderPush _ _
  · exact settles_setPhase _
  · exact settles_setPhase _

theorem settles_afterDiscard (message : String) (isTerminal : Bool) :
    Settles s (s.afterDiscard E h request w message isTerminal) := by
  unfold afterDiscard
  split_ifs
  · exact settles_deregisterWorkflow _
  · exact settles_textReply _

theorem settles_renderDiscard (message : String) (isTerminal : Bool) :
    Settles s (s.renderDiscard E h request w message isTerminal) := by
  unfold renderDiscard
  split_ifs
  · exact settles_setPhase _
  · exact settles_afterDiscard _ _

theorem settles_handlePushPr (c : CtxId) (ctx : WorkflowContext) :
    Settles s (s.handlePushPr h request c ctx) := by
  unfold handlePushPr
  split
  · exact settles_setPhase _
  · exact settles_setPhase _

theorem settles_handleDiscard (c : CtxId) (ctx : WorkflowContext) (removal : Removal) :
    Settles s (s.handleDiscard E h request c ctx removal) := by
  unfold handleDiscard
  split
  · exact settles_setPhase _
  · dsimp only
    split_ifs
    · split
      · exact settles_textReply _
      · exact settles_renderDiscard _ _
      · exact (settles_perform _).trans (settles_renderDiscard _ _)
    · exact settles_renderDiscard _ _

/-! ### The steps -/

/-- What a click leaves of the pending iterations: an Iterate click on a registered workflow writes
that of its thread. -/
theorem handle_settles_or_iterates (hf : Filed s) {action : ActionPayload} (removal : Removal)
    (ha : request.action = some action) :
    if action.actionId = finalizationActionIterate ∧ (s.getWorkflow action.value).isSome then
      Settles { s with pendingIteration :=
        s.pendingIteration.insert ((truthy request.threadTs).getD request.requestId) action.value }
        (s.handle E h request removal)
    else Settles s (s.handle E h request removal) := by
  unfold handle
  simp only [ha]
  cases hw : s.getWorkflow action.value with
  | none =>
    rw [if_neg (by simp)]
    exact settles_textReply _
  | some found =>
    obtain ⟨c, ctx⟩ := found
    dsimp only
    by_cases hpush : action.actionId = finalizationActionPushPr
    · rw [if_neg (by simp [hpush, finalizationActionPushPr, finalizationActionIterate]),
        if_pos hpush]
      exact settles_handlePushPr c ctx
    · rw [if_neg hpush]
      by_cases hdiscard : action.actionId = finalizationActionDiscard
      · rw [if_neg (by simp [hdiscard, finalizationActionDiscard, finalizationActionIterate]),
          if_pos hdiscard]
        exact settles_handleDiscard c ctx removal
      · rw [if_neg hdiscard]
        by_cases hiterate : action.actionId = finalizationActionIterate
        · rw [if_pos ⟨hiterate, rfl⟩, if_pos hiterate, ← hf.getWorkflow hw]
          exact settles_textReply _
        · rw [if_neg (by simp [hiterate]), if_neg hiterate]
          exact settles_textReply _

theorem filed_handle (hf : Filed s) {action : ActionPayload} (removal : Removal)
    (ha : request.action = some action) : Filed (s.handle E h request removal) := by
  have hcases := handle_settles_or_iterates (E := E) (h := h) hf removal ha
  split_ifs at hcases
  · refine Filed.settles ?_ hcases
    exact ⟨hf.old, hf.filed, hf.held⟩
  · exact hf.settles hcases

/-- A context keeps its workflow. -/
theorem filed_reDelegated (hf : Filed s) {c : CtxId} {ctx : WorkflowContext}
    (hc : s.contexts.lookup c = some ctx) (task : TaskAssignPayload) (h : HandlerId) (w : String) :
    Filed { s with
      contexts := s.contexts.insert c { ctx with task := task }
      iterations := s.iterations.insert h w } where
  old c' ctx' hc' := by
    rcases Dict.lookup_insert_eq_some.1 hc' with ⟨rfl, -⟩ | ⟨-, hold⟩
    · exact hf.old c' ctx hc
    · exact hf.old c' ctx' hold
  filed w' c' ctx' hw hc' := by
    rcases Dict.lookup_insert_eq_some.1 hc' with ⟨rfl, rfl⟩ | ⟨-, hold⟩
    · exact hf.filed w' c' ctx hw hc
    · exact hf.filed w' c' ctx' hw hold
  held := hf.held

theorem filed_register (hf : Filed s) (context : WorkflowContext) :
    Filed { s with
      contexts := s.contexts.insert s.nextContext context
      nextContext := s.nextContext + 1
      workflows := s.workflows.insert context.workflowId s.nextContext
      registered := context.workflowId :: s.registered } where
  old c ctx hc := by
    rcases Dict.lookup_insert_eq_some.1 hc with ⟨rfl, -⟩ | ⟨-, hold⟩
    · exact Nat.lt_succ_self _
    · exact Nat.lt_succ_of_lt (hf.old c ctx hold)
  filed w c ctx hw hc := by
    rcases Dict.lookup_insert_eq_some.1 hw with ⟨rfl, rfl⟩ | ⟨-, hwold⟩
    · rcases Dict.lookup_insert_eq_some.1 hc with ⟨-, rfl⟩ | ⟨hne, -⟩
      · rfl
      · exact absurd rfl hne
    · rcases Dict.lookup_insert_eq_some.1 hc with ⟨rfl, -⟩ | ⟨-, hcold⟩
      · exact absurd (hf.held w _ hwold) (Nat.lt_irrefl _)
      · exact hf.filed w c ctx hwold hcold
  held w c hw := by
    rcases Dict.lookup_insert_eq_some.1 hw with ⟨-, rfl⟩ | ⟨-, hold⟩
    · exact Nat.lt_succ_self _
    · exact Nat.lt_succ_of_lt (hf.held w c hold)

/-- `re_delegate` for a text. -/
theorem reDelegate_keeps (hf : Filed s) {ctx : WorkflowContext} (session : FinalizationSession)
    (hc : s.contexts.lookup session.context = some ctx) :
    (s.reDelegate E h request ctx session).pendingIteration = s.pendingIteration ∧
      Filed (s.reDelegate E h request ctx session) := by
  unfold reDelegate
  split_ifs
  · split
    · exact ⟨rfl, hf.settles (settles_textReply _)⟩
    · exact ⟨rfl, (filed_reDelegated hf hc _ h ctx.workflowId).settles (settles_setPhase _)⟩
  · exact ⟨rfl, hf.settles (settles_textReply _)⟩

/-- A feedback text uses up what the thread awaits. -/
theorem consumeIterationFeedback_keeps (hf : Filed s) (request : NormalizedRequest)
    (threadKey : String) :
    (s.consumeIterationFeedback E h request threadKey).pendingIteration =
        s.pendingIteration.erase threadKey ∧
      Filed (s.consumeIterationFeedback E h request threadKey) := by
  have herased : Filed { s with pendingIteration := s.pendingIteration.erase threadKey } :=
    ⟨hf.old, hf.filed, hf.held⟩
  unfold consumeIterationFeedback
  split
  · rename_i hnone
    exact ⟨(Dict.erase_of_lookup_none hnone).symm, hf.settles (settles_textReply _)⟩
  · dsimp only
    split
    · exact ⟨rfl, herased.settles (settles_textReply _)⟩
    · rename_i c ctx hw
      obtain ⟨c', hc, hmap⟩ := Option.bind_eq_some_iff.1 hw
      obtain ⟨ctx', hctx, hpair⟩ := Option.map_eq_some_iff.1 hmap
      obtain ⟨rfl, rfl⟩ := Prod.mk.inj hpair
      split
      · exact ⟨rfl, herased.settles (settles_setPhase _)⟩
      · exact reDelegate_keeps herased _ hctx

theorem settles_advance {phase : ActionPhase} {outcome : ToolOutcome}
    (hs : s.advance E h request w phase outcome = some s') : Settles s s' := by
  unfold advance at hs
  split at hs
  · obtain rfl := Option.some.inj hs
    exact settles_afterGit _ _ _ _ _
  · obtain rfl := Option.some.inj hs
    split_ifs
    · exact settles_renderPush _ _
    · exact (settles_perform _).trans (settles_renderPush _ _)
  · obtain rfl := Option.some.inj hs
    exact settles_renderPush _ _
  · obtain rfl := Option.some.inj hs
    exact settles_pushRaised _ _
  · obtain rfl := Option.some.inj hs
    exact settles_pushRaised _ _
  · obtain rfl := Option.some.inj hs
    exact settles_afterPush _ _
  · obtain rfl := Option.some.inj hs
    exact settles_afterDiscard _ _
  · obtain rfl := Option.some.inj hs
    exact settles_textReply _
  · obtain rfl := Option.some.inj hs
    exact settles_textReply _
  · obtain rfl := Option.some.inj hs
    split_ifs
    · exact settles_setPhase _
    · exact settles_textReply _
  · obtain rfl := Option.some.inj hs
    exact settles_textReply _
  · contradiction

/-- The steps that no request of the orchestrator begins. -/
theorem step_keeps {e : ActionEvent} (hf : Filed s) (hs : s.step E e = some s')
    (hhandle : ∀ h request removal, e ≠ .handle h request removal)
    (hfeedback : ∀ h request threadKey, e ≠ .feedback h request threadKey) :
    s'.pendingIteration = s.pendingIteration ∧ Filed s' := by
  cases e with
  | register context =>
    simp only [step, Option.ite_none_left_eq_some] at hs
    obtain ⟨-, hs⟩ := hs
    obtain rfl := Option.some.inj hs
    exact ⟨rfl, filed_register hf context⟩
  | deregister w =>
    obtain rfl := Option.some.inj hs
    exact ⟨rfl, hf.settles (settles_erase w)⟩
  | handle h request removal => exact absurd rfl (hhandle h request removal)
  | feedback h request threadKey => exact absurd rfl (hfeedback h request threadKey)
  | reDelegate h c task =>
    simp only [step, Option.ite_none_left_eq_some, Option.map_eq_some_iff] at hs
    obtain ⟨-, ctx, hc, rfl⟩ := hs
    exact ⟨rfl, filed_reDelegated hf hc task h ctx.workflowId⟩
  | resume h outcome =>
    obtain ⟨t, -, hadvance⟩ := Option.bind_eq_some_iff.1 hs
    have hsettles := settles_advance hadvance
    exact ⟨hsettles.pending, hf.settles hsettles⟩
  | cancel h =>
    obtain ⟨t, -, hcancel⟩ := Option.bind_eq_some_iff.1 hs
    obtain ⟨phase, -, rfl⟩ := Option.map_eq_some_iff.1 hcancel
    exact ⟨rfl, hf.settles (settles_setPhase phase)⟩
  | iterationEnds h =>
    simp only [step, Option.ite_none_right_eq_some] at hs
    obtain ⟨-, hs⟩ := hs
    obtain rfl := Option.some.inj hs
    exact ⟨rfl, ⟨hf.old, hf.filed, hf.held⟩⟩

end FinalizationActions

end NemoClaw
