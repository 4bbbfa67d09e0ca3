import NemoClaw.Orchestrator.FinalizationActions

/-! Clicks on one workflow. Nothing but the registry keeps two handlers apart, and a workflow leaves
the registry only after its terminal action was rendered. Runs in which no button and no feedback
falls into that window have at most one terminal side effect for each workflow, and none while an
iteration of it runs. -/

namespace NemoClaw

open Lib

namespace ActionPhase

/-- A push whose side effect is still to come. -/
def pushing : ActionPhase → Bool
  | .git _ _ _ _ | .creatingPr _ _ => true
  | _ => false

/-- A push or a discard that has begun and is not rendered yet. -/
def underway : ActionPhase → Bool
  | .git _ _ _ _ | .creatingPr _ _ | .renderingPush _ _ | .renderingDiscard _ _ => true
  | _ => false

/-- The action was performed and its handler is about to deregister the workflow. -/
def finishing : ActionPhase → Bool
  | .renderingPush message detached => !detached && !isErrorMessage message
  | .renderingDiscard _ isTerminal => isTerminal
  | _ => false

def detached : ActionPhase → Bool
  | .git _ _ _ detached | .creatingPr _ detached | .renderingPush _ detached => detached
  | _ => false

theorem underway_of_pushing {p : ActionPhase} (h : p.pushing = true) : p.underway = true := by
  cases p <;> first | rfl | cases h

theorem underway_of_finishing {p : ActionPhase} (h : p.finishing = true) : p.underway = true := by
  cases p <;> first | rfl | cases h

end ActionPhase

namespace FinalizationActions

variable {E : ActionEnv} {s s' : FinalizationActions} {h : HandlerId} {w : String}
  {request : NormalizedRequest} {p : ActionPhase}

/-- The number of terminal side effects performed on the workflow. -/
def spent (s : FinalizationActions) (w : String) : ℕ :=
  s.effects.countP fun e => decide (e.workflowId = w)

/-- Terminal side effects do not meet each other or an iteration. -/
structure Serialised (s : FinalizationActions) : Prop where
  once : ∀ w, s.spent w ≤ 1
  alone : ∀ e ∈ s.effects, e.duringIteration = false
  pushAlone : ∀ h t, s.tasks.lookup h = some t → t.phase.pushing = true →
    s.iterating t.workflowId = false

/-- No push and no discard of the workflow is under way. -/
def Idle (s : FinalizationActions) (w : String) : Prop :=
  ∀ t ∈ s.tasks.entries.map Sigma.snd, t.workflowId = w → t.phase.underway = false

/-- No push of the workflow has its side effect still to come. -/
def Unpushed (s : FinalizationActions) (w : String) : Prop :=
  ∀ t ∈ s.tasks.entries.map Sigma.snd, t.workflowId = w → t.phase.pushing = false

/-- Push and Discard find the workflow with no push, discard or iteration under way, an iteration
starts with no push under way, and no push or discard is cancelled. -/
def InTurn (s : FinalizationActions) : ActionEvent → Prop
  | .handle _ request _ => ∀ action ∈ request.action, s.getWorkflow action.value ≠ none →
      action.actionId = finalizationActionPushPr ∨ action.actionId = finalizationActionDiscard →
        s.Idle action.value ∧ s.iterating action.value = false
  | .feedback _ _ threadKey => ∀ w ∈ s.pendingIteration.lookup threadKey,
      s.getWorkflow w ≠ none → s.Unpushed w
  | .reDelegate _ c _ => ∀ ctx ∈ s.contexts.lookup c, s.Unpushed ctx.workflowId
  | .cancel h => ∀ t ∈ s.tasks.lookup h, t.phase.underway = false
  | _ => True

instance (w : String) : Decidable (s.Idle w) := by unfold Idle; infer_instance

instance (w : String) : Decidable (s.Unpushed w) := by unfold Unpushed; infer_instance

instance (e : ActionEvent) : Decidable (s.InTurn e) := by
  cases e <;> unfold InTurn <;> infer_instance

/-- What holds along with `Serialised` when every step is in turn. -/
structure Inv (s : FinalizationActions) : Prop extends Serialised s where
  fresh : ∀ c ctx, s.contexts.lookup c = some ctx → c < s.nextContext
  filed : ∀ w c, s.workflows.lookup w = some c →
    w ∈ s.registered ∧ ∃ ctx, s.contexts.lookup c = some ctx ∧ ctx.workflowId = w
  known : ∀ e ∈ s.effects, e.workflowId ∈ s.registered
  knownTask : ∀ h t, s.tasks.lookup h = some t → t.phase.underway = true →
    t.workflowId ∈ s.registered
  attached : ∀ h t, s.tasks.lookup h = some t → t.phase.detached = false
  single : ∀ h h' t t', s.tasks.lookup h = some t → s.tasks.lookup h' = some t' →
    t.phase.underway = true → t'.phase.underway = true → t.workflowId = t'.workflowId → h = h'
  /-- a registered workflow that has had its side effect is about to be deregistered -/
  due : ∀ w, 0 < s.spent w → s.workflows.lookup w ≠ none →
    ∃ h t, s.tasks.lookup h = some t ∧ t.workflowId = w ∧ t.phase.finishing = true
  unspent : ∀ h t, s.tasks.lookup h = some t → t.phase.underway = true →
    t.phase.finishing = false → s.spent t.workflowId = 0

/-! ### Single writes -/

theorem inv_erase (hi : Inv s) (w : String) :
    Inv { s with workflows := s.workflows.erase w } where
  __ := hi
  filed w' c hc := hi.filed w' c (Dict.lookup_erase_eq_some.1 hc).2
  due w' hspent hw' := hi.due w' hspent fun hnone => by
    by_cases he : w' = w
    · subst he
      exact hw' (AList.lookup_erase _ _)
    · exact hw' ((AList.lookup_erase_ne he).trans hnone)

/-- A task may enter a phase that fits the workflow. -/
theorem inv_setPhase (hi : Inv s) (request : NormalizedRequest) {p : ActionPhase}
    (hold : ∀ t, s.tasks.lookup h = some t → t.phase.finishing = true →
      t.workflowId = w ∧ (p.finishing = true ∨ s.workflows.lookup w = none))
    (hunderway : p.underway = true → w ∈ s.registered ∧
      ∀ h' t, h' ≠ h → s.tasks.lookup h' = some t → t.workflowId = w → t.phase.underway = false)
    (hunspent : p.underway = true → p.finishing = false → s.spent w = 0)
    (hpushing : p.pushing = true → s.iterating w = false) (hattached : p.detached = false) :
    Inv (s.setPhase h request w p) := by
  refine { hi with
    pushAlone := ?_
    knownTask := ?_
    attached := ?_
    single := ?_
    due := ?_
    unspent := ?_ }
  · intro h' t ht hp
    rcases Dict.lookup_insert_eq_some.1 ht with ⟨-, rfl⟩ | ⟨-, ht⟩
    · exact hpushing hp
    · exact hi.pushAlone h' t ht hp
  · intro h' t ht hp
    rcases Dict.lookup_insert_eq_some.1 ht with ⟨-, rfl⟩ | ⟨-, ht⟩
    · exact (hunderway hp).1
    · exact hi.knownTask h' t ht hp
  · intro h' t ht
    rcases Dict.lookup_insert_eq_some.1 ht with ⟨-, rfl⟩ | ⟨-, ht⟩
    · exact hattached
    · exact hi.attached h' t ht
  · intro h₁ h₂ t₁ t₂ ht₁ ht₂ hp₁ hp₂ hw
    rcases Dict.lookup_insert_eq_some.1 ht₁ with ⟨rfl, rfl⟩ | ⟨hne₁, hold₁⟩
    · rcases Dict.lookup_insert_eq_some.1 ht₂ with ⟨rfl, -⟩ | ⟨hne₂, ht₂⟩
      · rfl
      · have hnot := (hunderway hp₁).2 h₂ t₂ hne₂ ht₂ hw.symm
        rw [hp₂] at hnot
        contradiction
    · rcases Dict.lookup_insert_eq_some.1 ht₂ with ⟨rfl, rfl⟩ | ⟨-, ht₂⟩
      · have hnot := (hunderway hp₂).2 h₁ t₁ hne₁ hold₁ hw
        rw [hp₁] at hnot
        contradiction
      · exact hi.single h₁ h₂ t₁ t₂ hold₁ ht₂ hp₁ hp₂ hw
  · intro w' hspent hw'
    obtain ⟨h', t, ht, hw, hf⟩ := hi.due w' hspent hw'
    by_cases he : h' = h
    · subst he
      obtain ⟨hsame, hnext⟩ := hold t ht hf
      obtain rfl : w = w' := hsame.symm.trans hw
      rcases hnext with hp | hnone
      · exact ⟨h', _, AList.lookup_insert s.tasks, rfl, hp⟩
      · exact absurd hnone hw'
    · exact ⟨h', t, (AList.lookup_insert_ne he).trans ht, hw, hf⟩
  · intro h' t ht hp hf
    rcases Dict.lookup_insert_eq_some.1 ht with ⟨-, rfl⟩ | ⟨-, ht⟩
    · exact hunspent hp hf
    · exact hi.unspent h' t ht hp hf

theorem spent_perform (s : FinalizationActions) (w w' : String) (action : FinalizationAction) :
    (s.perform w action).spent w' = s.spent w' + if w = w' then 1 else 0 := by
  simp [spent, perform, List.countP_append, List.countP_cons]

/-- The first side effect on a workflow that no iteration disturbs and whose handler finishes. -/
theorem inv_perform (hi : Inv s) (action : FinalizationAction) (hspent : s.spent w = 0)
    (hiterating : s.iterating w = false) (hknown : w ∈ s.registered)
    (hfinishing : ∀ h t, s.tasks.lookup h = some t → t.workflowId = w →
      t.phase.underway = true → t.phase.finishing = true)
    (hdue : s.workflows.lookup w ≠ none →
      ∃ h t, s.tasks.lookup h = some t ∧ t.workflowId = w ∧ t.phase.finishing = true) :
    Inv (s.perform w action) := by
  refine { hi with
    once := ?_
    alone := ?_
    known := ?_
    due := ?_
    unspent := ?_ }
  · intro w'
    rw [spent_perform]
    split
    · next he =>
      subst he
      omega
    · exact hi.once w'
  · intro e he
    rcases List.mem_append.1 he with he | he
    · exact hi.alone e he
    · obtain rfl := List.mem_singleton.1 he
      exact hiterating
  · intro e he
    rcases List.mem_append.1 he with he | he
    · exact hi.known e he
    · obtain rfl := List.mem_singleton.1 he
      exact hknown
  · intro w' hpos hw'
    rw [spent_perform] at hpos
    by_cases he : w = w'
    · subst he
      exact hdue hw'
    · rw [if_neg he] at hpos
      exact hi.due w' hpos hw'
  · intro h t ht hp hf
    rw [spent_perform]
    by_cases he : w = t.workflowId
    · have hf' := hfinishing h t ht he.symm hp
      rw [hf] at hf'
      contradiction
    · rw [if_neg he]
      exact hi.unspent h t ht hp hf

theorem iterating_eq_true : s.iterating w = true ↔ ∃ i, s.iterations.lookup i = some w := by
  rw [iterating, decide_eq_true_eq, Dict.mem_values]

theorem inv_iterationEnds (hi : Inv s) (i : HandlerId) :
    Inv { s with iterations := s.iterations.erase i } := by
  refine { hi with pushAlone := ?_ }
  intro h t ht hp
  have halone := hi.pushAlone h t ht hp
  rw [← Bool.not_eq_true, iterating_eq_true] at halone ⊢
  intro hex
  obtain ⟨j, hj⟩ := hex
  exact halone ⟨j, (Dict.lookup_erase_eq_some.1 hj).2⟩

/-- An iteration of a workflow that is not being pushed may start. -/
theorem inv_iterate (hi : Inv s) {c : CtxId} {ctx : WorkflowContext}
    (hc : s.contexts.lookup c = some ctx) (task : TaskAssignPayload) (i : HandlerId)
    (hidle : s.Unpushed ctx.workflowId) :
    Inv { s with
      contexts := s.contexts.insert c { ctx with task := task }
      iterations := s.iterations.insert i ctx.workflowId } := by
  refine { hi with
    fresh := fun c' ctx' hc' => ?_
    filed := fun w c' hw => ?_
    pushAlone := fun h t ht hp => ?_ }
  · have halone := hi.pushAlone h t ht hp
    rw [← Bool.not_eq_true, iterating_eq_true] at halone ⊢
    intro hex
    obtain ⟨j, hj⟩ := hex
    rcases Dict.lookup_insert_eq_some.1 hj with ⟨-, he⟩ | ⟨-, hj⟩
    · have hnot := hidle t (Dict.mem_values.2 ⟨h, ht⟩) he.symm
      rw [hp] at hnot
      contradiction
    · exact halone ⟨j, hj⟩
  · rcases Dict.lookup_insert_eq_some.1 hc' with ⟨rfl, -⟩ | ⟨-, hc'⟩
    · exact hi.fresh c' ctx hc
    · exact hi.fresh c' ctx' hc'
  · obtain ⟨hknown, ctx', hc', hctx'⟩ := hi.filed w c' hw
    obtain ⟨ctx'', hc'', hid⟩ := Dict.exists_lookup_insert WorkflowContext.workflowId
      (w := { ctx with task := task }) hc rfl hc'
    exact ⟨hknown, ctx'', hc'', hid.trans hctx'⟩

theorem inv_register (hi : Inv s) {context : WorkflowContext}
    (hnew : context.workflowId ∉ s.registered) : Inv { s with
      contexts := s.contexts.insert s.nextContext context
      nextContext := s.nextContext + 1
      workflows := s.workflows.insert context.workflowId s.nextContext
      registered := context.workflowId :: s.registered } := by
  refine { hi with
    fresh := ?_
    filed := ?_
    known := fun e he => List.mem_cons_of_mem _ (hi.known e he)
    knownTask := fun h t ht hp => List.mem_cons_of_mem _ (hi.knownTask h t ht hp)
    due := ?_ }
  · intro c ctx hc
    rcases Dict.lookup_insert_eq_some.1 hc with ⟨rfl, -⟩ | ⟨-, hc⟩
    · exact Nat.lt_succ_self _
    · exact Nat.lt_succ_of_lt (hi.fresh c ctx hc)
  · intro w c hw
    rcases Dict.lookup_insert_eq_some.1 hw with ⟨rfl, rfl⟩ | ⟨-, hw⟩
    · exact ⟨List.mem_cons_self, context, AList.lookup_insert s.contexts, rfl⟩
    · obtain ⟨hknown, ctx, hc, hctx⟩ := hi.filed w c hw
      have hne : c ≠ s.nextContext := Nat.ne_of_lt (hi.fresh c ctx hc)
      exact ⟨List.mem_cons_of_mem _ hknown, ctx, (AList.lookup_insert_ne hne).trans hc, hctx⟩
  · intro w hpos hw
    -- no side effect is on record for a new workflow
    obtain ⟨e, he, hew⟩ := List.countP_pos_iff.1 hpos
    have hknown := hi.known e he
    have hne : w ≠ context.workflowId := by
      intro heq
      subst heq
      exact hnew (of_decide_eq_true hew ▸ hknown)
    exact hi.due w hpos fun hnone => hw ((AList.lookup_insert_ne hne).trans hnone)

/-! ### Tasks that end -/

/-- A task that is not to finish an action may end. -/
theorem inv_end (hi : Inv s) (request : NormalizedRequest) {p : ActionPhase}
    (hp : p.underway = false) (hdetached : p.detached = false)
    (hold : ∀ t, s.tasks.lookup h = some t → t.phase.finishing = false) :
    Inv (s.setPhase h request w p) := by
  refine inv_setPhase hi request ?_ ?_ ?_ ?_
    hdetached
  · intro t ht hf
    rw [hold t ht] at hf
    contradiction
  · intro hp'
    rw [hp] at hp'
    contradiction
  · intro hp'
    rw [hp] at hp'
    contradiction
  · intro hp'
    rw [ActionPhase.underway_of_pushing hp'] at hp
    contradiction

theorem inv_deregisterWorkflow (hi : Inv s) (request : NormalizedRequest) (message : String)
    (hold : ∀ t, s.tasks.lookup h = some t → t.workflowId = w) :
    Inv (s.deregisterWorkflow E h request w message) := by
  have herase := inv_erase hi w
  have hnone : (s.workflows.erase w).lookup w = none := AList.lookup_erase _ _
  unfold deregisterWorkflow
  dsimp only
  split
  · exact inv_setPhase herase request (fun t ht _ => ⟨hold t ht, Or.inr hnone⟩)
      (fun hp => by contradiction) (fun hp => by contradiction) (fun hp => by contradiction) rfl
  · exact inv_setPhase herase request (fun t ht _ => ⟨hold t ht, Or.inr hnone⟩)
      (fun hp => by contradiction) (fun hp => by contradiction) (fun hp => by contradiction) rfl

/-! ### Rendering -/

/-- What a handler that goes on with `w` may rely on. -/
structure Holds (s : FinalizationActions) (h : HandlerId) (w : String) : Prop where
  known : w ∈ s.registered
  own : ∀ t, s.tasks.lookup h = some t → t.workflowId = w ∧ t.phase.finishing = false
  others : ∀ h' t, h' ≠ h → s.tasks.lookup h' = some t → t.workflowId = w →
    t.phase.underway = false
  spent : s.spent w = 0

theorem inv_renderPush (hi : Inv s) (hh : Holds s h w) (request : NormalizedRequest)
    (message : String) : Inv (s.renderPush E h request w message false) := by
  unfold renderPush
  split
  · exact inv_setPhase hi request
      (fun t ht hf => by rw [(hh.own t ht).2] at hf; cases hf)
      (fun _ => ⟨hh.known, hh.others⟩) (fun _ _ => hh.spent) (fun hp => by contradiction) rfl
  · unfold afterPush
    rw [if_neg Bool.false_ne_true]
    split
    · exact inv_end hi request rfl rfl fun t ht => (hh.own t ht).2
    · exact inv_deregisterWorkflow hi request message fun t ht => (hh.own t ht).1

theorem inv_renderDiscard (hi : Inv s) (hh : Holds s h w) (request : NormalizedRequest)
    (message : String) (isTerminal : Bool) :
    Inv (s.renderDiscard E h request w message isTerminal) := by
  unfold renderDiscard
  split
  · exact inv_setPhase hi request
      (fun t ht hf => by rw [(hh.own t ht).2] at hf; cases hf)
      (fun _ => ⟨hh.known, hh.others⟩) (fun _ _ => hh.spent) (fun hp => by contradiction) rfl
  · unfold afterDiscard
    split
    · exact inv_deregisterWorkflow hi request message fun t ht => (hh.own t ht).1
    · exact inv_end hi request rfl rfl fun t ht => (hh.own t ht).2

/-! ### Side effects -/

theorem deregisterWorkflow_eq (E : ActionEnv) (s : FinalizationActions) (h : HandlerId)
    (request : NormalizedRequest) (w message : String) : ∃ p : ActionPhase, p.underway = false ∧
      s.deregisterWorkflow E h request w message =
        { s with workflows := s.workflows.erase w }.setPhase h request w p := by
  unfold deregisterWorkflow
  dsimp only
  split
  · exact ⟨_, rfl, rfl⟩
  · exact ⟨_, rfl, rfl⟩

theorem inv_perform_setPhase (hi : Inv (s.setPhase h request w p)) (hh : Holds s h w)
    (hiterating : s.iterating w = false) (action : FinalizationAction)
    (hfinishing : p.underway = true → p.finishing = true)
    (hdue : s.workflows.lookup w ≠ none → p.finishing = true) :
    Inv ((s.setPhase h request w p).perform w action) := by
  refine inv_perform hi action hh.spent hiterating hh.known ?_ ?_
  · intro h' t ht hw hp
    rcases Dict.lookup_insert_eq_some.1 ht with ⟨-, rfl⟩ | ⟨hne, ht⟩
    · exact hfinishing hp
    · rw [hh.others h' t hne ht hw] at hp
      contradiction
  · intro hw
    exact ⟨h, _, AList.lookup_insert s.tasks, rfl, hdue hw⟩

theorem inv_perform_deregisterWorkflow (hi : Inv s) (hh : Holds s h w)
    (hiterating : s.iterating w = false) (action : FinalizationAction)
    (request : NormalizedRequest) (message : String) :
    Inv ((s.deregisterWorkflow E h request w message).perform w action) := by
  have hderegister := inv_deregisterWorkflow (E := E) hi request message fun t ht => (hh.own t ht).1
  obtain ⟨p, hp, heq⟩ := deregisterWorkflow_eq E s h request w message
  rw [heq] at hderegister ⊢
  have hnone : (s.workflows.erase w).lookup w = none := AList.lookup_erase _ _
  refine inv_perform_setPhase hderegister ⟨hh.known, hh.own, hh.others, hh.spent⟩ hiterating action
    ?_ fun hw => absurd hnone hw
  intro hp'
  rw [hp] at hp'
  contradiction

/-- The pull request was created. -/
theorem inv_pushed (hi : Inv s) (hh : Holds s h w) (hiterating : s.iterating w = false)
    (request : NormalizedRequest) {message : String} (hok : isErrorMessage message = false) :
    Inv ((s.perform w .pushAndCreatePr).renderPush E h request w message false) := by
  have hrender := inv_renderPush (E := E) hi hh request message
  have hcomm : (s.perform w .pushAndCreatePr).renderPush E h request w message false =
      (s.renderPush E h request w message false).perform w .pushAndCreatePr := by
    unfold renderPush afterPush deregisterWorkflow
    split_ifs <;> rfl
  rw [hcomm]
  unfold renderPush at hrender ⊢
  by_cases hrenderer : E.renderer = true
  · rw [if_pos hrenderer] at hrender ⊢
    refine inv_perform_setPhase hrender hh hiterating _ ?_ ?_
    · intro _
      simp [ActionPhase.finishing, hok]
    · intro _
      simp [ActionPhase.finishing, hok]
  · unfold afterPush
    rw [if_neg hrenderer, if_neg Bool.false_ne_true, if_neg (by simp [hok])]
    exact inv_perform_deregisterWorkflow hi hh hiterating _ request message

/-- The workspace was deleted. -/
theorem inv_discarded (hi : Inv s) (hh : Holds s h w) (hiterating : s.iterating w = false)
    (request : NormalizedRequest) (message : String) :
    Inv ((s.perform w .discardWork).renderDiscard E h request w message true) := by
  have hrender := inv_renderDiscard (E := E) hi hh request message true
  have hcomm : (s.perform w .discardWork).renderDiscard E h request w message true =
      (s.renderDiscard E h request w message true).perform w .discardWork := by
    unfold renderDiscard afterDiscard deregisterWorkflow
    split_ifs <;> rfl
  rw [hcomm]
  unfold renderDiscard at hrender ⊢
  by_cases hrenderer : E.renderer = true
  · rw [if_pos hrenderer] at hrender ⊢
    exact inv_perform_setPhase hrender hh hiterating _ (fun _ => rfl) fun _ => rfl
  · unfold afterDiscard
    rw [if_neg hrenderer, if_pos rfl]
    exact inv_perform_deregisterWorkflow hi hh hiterating _ request message

/-! ### The buttons -/

theorem getWorkflow_eq_some (hi : Inv s) {c : CtxId} {ctx : WorkflowContext}
    (hg : s.getWorkflow w = some (c, ctx)) :
    s.workflows.lookup w = some c ∧ s.contexts.lookup c = some ctx ∧ ctx.workflowId = w := by
  obtain ⟨c', hw, hmap⟩ := Option.bind_eq_some_iff.1 hg
  obtain ⟨ctx', hc, he⟩ := Option.map_eq_some_iff.1 hmap
  obtain ⟨rfl, rfl⟩ := Prod.mk.inj he
  obtain ⟨-, ctx, hc', hctx⟩ := hi.filed w c' hw
  obtain rfl := Option.some.inj (hc.symm.trans hc')
  exact ⟨hw, hc, hctx⟩

/-- A fresh handler that finds the workflow with no push and no discard under way. -/
theorem holds_of_idle (hi : Inv s) (hnew : s.tasks.lookup h = none) {c : CtxId}
    (hw : s.workflows.lookup w = some c) (hidle : s.Idle w) : Holds s h w := by
  refine ⟨(hi.filed w c hw).1, ?_, fun h' t _ ht he => hidle t (Dict.mem_values.2 ⟨h', ht⟩) he, ?_⟩
  · intro t ht
    rw [hnew] at ht
    contradiction
  · by_contra hspent
    have hregistered : s.workflows.lookup w ≠ none := by simp [hw]
    obtain ⟨h', t, ht, he, hf⟩ := hi.due w (Nat.pos_of_ne_zero hspent) hregistered
    have hunderway := hidle t (Dict.mem_values.2 ⟨h', ht⟩) he
    rw [ActionPhase.underway_of_finishing hf] at hunderway
    contradiction

theorem inv_new (hi : Inv s) (hnew : s.tasks.lookup h = none) (request : NormalizedRequest)
    {p : ActionPhase} (hp : p.underway = false) (hdetached : p.detached = false) :
    Inv (s.setPhase h request w p) := by
  apply inv_end hi request hp hdetached
  intro t ht
  rw [hnew] at ht
  contradiction

theorem inv_handlePushPr (hi : Inv s) (hnew : s.tasks.lookup h = none)
    (request : NormalizedRequest) {c : CtxId} {ctx : WorkflowContext}
    (hh : Holds s h ctx.workflowId) (hiterating : s.iterating ctx.workflowId = false) :
    Inv (s.handlePushPr h request c ctx) := by
  unfold handlePushPr
  split
  · exact inv_new hi hnew request rfl rfl
  · exact inv_setPhase hi request
      (fun t ht hf => by rw [(hh.own t ht).2] at hf; cases hf)
      (fun _ => ⟨hh.known, hh.others⟩) (fun _ _ => hh.spent) (fun _ => hiterating) rfl

theorem inv_handleDiscard (hi : Inv s) (hnew : s.tasks.lookup h = none)
    (request : NormalizedRequest) {c : CtxId} {ctx : WorkflowContext} (removal : Removal)
    (hh : Holds s h ctx.workflowId) (hiterating : s.iterating ctx.workflowId = false) :
    Inv (s.handleDiscard E h request c ctx removal) := by
  unfold handleDiscard
  split
  · exact inv_new hi hnew request rfl rfl
  · dsimp only
    split
    · exact inv_renderDiscard hi hh request _ false
    · cases removal with
      | failed exc => exact inv_new hi hnew request rfl rfl
      | absent => exact inv_renderDiscard hi hh request _ true
      | removed => exact inv_discarded hi hh hiterating request _

theorem inv_handle (hi : Inv s) (hnew : s.tasks.lookup h = none) {request : NormalizedRequest}
    {removal : Removal} (hturn : s.InTurn (.handle h request removal)) :
    Inv (s.handle E h request removal) := by
  unfold handle
  split
  · exact inv_new hi hnew request rfl rfl
  · next action haction =>
    split
    · exact inv_new hi hnew request rfl rfl
    · next c ctx hg =>
      obtain ⟨hw, hc, hctx⟩ := getWorkflow_eq_some hi hg
      have hfree := hturn action haction (by simp [hg])
      split_ifs with hpush hdiscard hiterate
      · obtain ⟨hidle, hiterating⟩ := hfree (Or.inl hpush)
        rw [← hctx] at hw hidle hiterating
        exact inv_handlePushPr hi hnew request (holds_of_idle hi hnew hw hidle) hiterating
      · obtain ⟨hidle, hiterating⟩ := hfree (Or.inr hdiscard)
        rw [← hctx] at hw hidle hiterating
        exact inv_handleDiscard hi hnew request removal (holds_of_idle hi hnew hw hidle) hiterating
      · have hi' : ∀ d, Inv { s with pendingIteration := d } := fun _ => { hi with }
        unfold handleIterate textReply
        exact inv_new (hi' (s.pendingIteration.insert _ ctx.workflowId)) hnew request rfl rfl
      · exact inv_new hi hnew request rfl rfl

theorem inv_feedback (hi : Inv s) (hnew : s.tasks.lookup h = none) {request : NormalizedRequest}
    {threadKey : String} (hturn : s.InTurn (.feedback h request threadKey)) :
    Inv (s.consumeIterationFeedback E h request threadKey) := by
  unfold consumeIterationFeedback
  split
  · exact inv_new hi hnew request rfl rfl
  · next w hpending =>
    have hi' : Inv { s with pendingIteration := s.pendingIteration.erase threadKey } :=
      { hi with }
    dsimp only
    split
    · exact inv_new hi' hnew request rfl rfl
    · next c ctx hg =>
      have hg' : s.getWorkflow w = some (c, ctx) := hg
      obtain ⟨-, hc, hctx⟩ := getWorkflow_eq_some hi hg'
      have hidle := hturn w hpending (by simp [hg'])
      rw [← hctx] at hidle
      split
      · exact inv_new hi' hnew request rfl rfl
      · unfold reDelegate
        split
        · split
          · exact inv_new hi' hnew request rfl rfl
          · next followup hfollowup =>
            exact inv_new (inv_iterate hi' hc followup h hidle) hnew request rfl rfl
        · exact inv_new hi' hnew request rfl rfl

/-! ### Steps -/

/-- A push that goes on relies on what held when it began. -/
theorem holds_of_underway (hi : Inv s) {t : ActionTask} (ht : s.tasks.lookup h = some t)
    (hp : t.phase.underway = true) (hf : t.phase.finishing = false) :
    Holds s h t.workflowId := by
  refine ⟨hi.knownTask h t ht hp, ?_, ?_,
    hi.unspent h t ht hp hf⟩
  · intro t' ht'
    obtain rfl := Option.some.inj (ht.symm.trans ht')
    exact ⟨rfl, hf⟩
  · intro h' t' hne ht' hw
    by_contra hp'
    exact hne (hi.single h' h t' t ht' ht (by simpa using hp') hp hw)

theorem inv_afterGit (hi : Inv s) (hh : Holds s h w) (hiterating : s.iterating w = false)
    (request : NormalizedRequest) (session : FinalizationSession) (step : GitStep)
    (output : String) (left : List GitStep) :
    Inv (s.afterGit E h request w session false step output left) := by
  have hnext : ∀ p : ActionPhase, p.finishing = false → p.detached = false →
      Inv (s.setPhase h request w p) := fun p hf hdetached =>
    inv_setPhase hi request (fun t ht hf' => by rw [(hh.own t ht).2] at hf'; cases hf')
      (fun _ => ⟨hh.known, hh.others⟩) (fun _ _ => hh.spent) (fun _ => hiterating) hdetached
  unfold afterGit
  split
  · exact inv_renderPush hi hh request _
  · exact hnext _ rfl rfl
  · exact hnext _ rfl rfl

theorem inv_advance (hi : Inv s) {phase : ActionPhase}
    (ht : s.tasks.lookup h = some ⟨request, w, phase⟩) {outcome : ToolOutcome}
    (hs : s.advance E h request w phase outcome = some s') : Inv s' := by
  have hattached := hi.attached h _ ht
  have halone := hi.pushAlone h _ ht
  have hholds := holds_of_underway hi ht
  have hown : ∀ t, s.tasks.lookup h = some t → t.workflowId = w := fun t ht' => by
    obtain rfl := Option.some.inj (ht.symm.trans ht')
    rfl
  have hend : phase.finishing = false → ∀ text, Inv (s.textReply h request w text) :=
    fun hf text => inv_end hi request rfl rfl fun t ht' => by
      obtain rfl := Option.some.inj (ht.symm.trans ht')
      exact hf
  unfold advance at hs
  split at hs
  · obtain rfl := Option.some.inj hs
    obtain rfl : _ = false := hattached
    exact inv_afterGit hi (hholds rfl rfl) (halone rfl) request _ _ _ _
  · obtain rfl := Option.some.inj hs
    obtain rfl : _ = false := hattached
    split
    · exact inv_renderPush hi (hholds rfl rfl) request _
    · next hok => exact inv_pushed hi (hholds rfl rfl) (halone rfl) request (by simpa using hok)
  · obtain rfl := Option.some.inj hs
    obtain rfl : _ = false := hattached
    exact inv_renderPush hi (hholds rfl rfl) request _
  · obtain rfl := Option.some.inj hs
    obtain rfl : _ = false := hattached
    exact hend rfl _
  · obtain rfl := Option.some.inj hs
    obtain rfl : _ = false := hattached
    exact hend rfl _
  · next message detached =>
    obtain rfl := Option.some.inj hs
    obtain rfl : detached = false := hattached
    unfold afterPush
    rw [if_neg Bool.false_ne_true]
    split
    · next herror => exact hend (by simp [ActionPhase.finishing, herror]) _
    · exact inv_deregisterWorkflow hi request message hown
  · next message isTerminal =>
    obtain rfl := Option.some.inj hs
    unfold afterDiscard
    split
    · exact inv_deregisterWorkflow hi request message hown
    · next hterminal => exact hend (by simpa [ActionPhase.finishing] using hterminal) _
  · obtain rfl := Option.some.inj hs
    exact hend rfl _
  · obtain rfl := Option.some.inj hs
    exact hend rfl _
  · obtain rfl := Option.some.inj hs
    split
    · exact inv_end hi request rfl rfl fun t ht' => by
        obtain rfl := Option.some.inj (ht.symm.trans ht')
        rfl
    · exact hend rfl _
  · obtain rfl := Option.some.inj hs
    exact hend rfl _
  · contradiction

theorem cancelled_ended {phase phase' : ActionPhase} (hc : cancelled phase = some phase')
    (hp : phase.underway = false) : phase'.underway = false ∧ phase'.detached = false := by
  unfold cancelled at hc
  split at hc <;> cases hc <;> first | exact ⟨rfl, rfl⟩ | cases hp

theorem inv_step (hi : Inv s) {e : ActionEvent} (hturn : s.InTurn e)
    (hs : s.step E e = some s') : Inv s' := by
  cases e with
  | register context =>
    simp only [step, Option.ite_none_left_eq_some] at hs
    obtain ⟨hnew, hs⟩ := hs
    obtain rfl := Option.some.inj hs
    exact inv_register hi hnew
  | deregister w =>
    obtain rfl := Option.some.inj hs
    exact inv_erase hi w
  | handle h request removal =>
    simp only [step, Option.ite_none_left_eq_some] at hs
    obtain ⟨hnew, hs⟩ := hs
    obtain rfl := Option.some.inj hs
    exact inv_handle hi (by simpa using hnew) hturn
  | feedback h request threadKey =>
    simp only [step, Option.ite_none_left_eq_some, not_or] at hs
    obtain ⟨⟨hnew, -⟩, hs⟩ := hs
    obtain rfl := Option.some.inj hs
    exact inv_feedback hi (by simpa using hnew) hturn
  | reDelegate h c task =>
    simp only [step, Option.ite_none_left_eq_some] at hs
    obtain ⟨ctx, hc, rfl⟩ := Option.map_eq_some_iff.1 hs.2
    exact inv_iterate hi hc task h (hturn ctx hc)
  | resume h outcome =>
    obtain ⟨⟨request, w, phase⟩, ht, hs⟩ := Option.bind_eq_some_iff.1 hs
    exact inv_advance hi ht hs
  | cancel h =>
    obtain ⟨t, ht, hs⟩ := Option.bind_eq_some_iff.1 hs
    obtain ⟨phase', hc, rfl⟩ := Option.map_eq_some_iff.1 hs
    obtain ⟨hp, hdetached⟩ := cancelled_ended hc (hturn t ht)
    apply inv_end hi t.request hp hdetached
    intro t' ht'
    by_contra hf
    have hunderway := ActionPhase.underway_of_finishing (by simpa using hf)
    rw [hturn t' ht'] at hunderway
    contradiction
  | iterationEnds i =>
    simp only [step, Option.ite_none_right_eq_some] at hs
    obtain rfl := Option.some.inj hs.2
    exact inv_iterationEnds hi i

theorem inv_initial : Inv (actionMachine E).init where
  once _ := Nat.zero_le _
  alone _ he := by contradiction
  pushAlone _ _ ht := by contradiction
  fresh _ _ hc := by contradiction
  filed _ _ hw := by contradiction
  known _ he := by contradiction
  knownTask _ _ ht := by contradiction
  attached _ _ ht := by contradiction
  single _ _ _ _ ht := by contradiction
  due _ hpos := absurd hpos (Nat.lt_irrefl 0)
  unspent _ _ ht := by contradiction

/-- In a run whose steps are all in turn, terminal side effects never meet each other or an
iteration. -/
theorem clicks_serialised {tr : List (FinalizationActions × ActionEvent)}
    (hrun : (actionMachine E).Trace tr s) (hturn : Machine.Guarded InTurn tr) :
    Machine.Always Serialised tr s := by
  have halways : Machine.Always Inv tr s :=
    hrun.always_of_guarded hturn inv_initial fun _ _ _ hi hg hs => inv_step hi hg hs
  exact halways.imp fun _ hi => hi.toSerialised

/-! ### Push and Discard -/

/-- An environment on plain absolute paths. -/
def plainPaths : ActionEnv where
  resolve path := path
  expanduser path := path
  pathName path := String.ofList (path.toList.reverse.takeWhile (· ≠ '/')).reverse
  strip output := output
  followupError _ := "1 validation error for TaskAssignPayload"

def fixBugWorkflow : WorkflowContext where
  workflowId := "wf-1"
  task := { fixBugTask with workspaceRoot := ⟨"/work/agent-1", by decide⟩ }

def click (actionId : String) : NormalizedRequest where
  channelId := "C1"
  requestId := "r-1"
  action := some ⟨actionId, "wf-1"⟩

/-- Push is clicked and its git commands succeed. -/
def pushClicked : List ActionEvent :=
  [.register fixBugWorkflow, .handle 0 (click finalizationActionPushPr) .absent,
    .resume 0 (.returned "/work/agent-1"), .resume 0 (.returned ""),
    .resume 0 (.returned "/work/agent-1"), .resume 0 (.returned ""), .resume 0 (.returned ""),
    .resume 0 (.returned "/work/agent-1"), .resume 0 (.returned "")]

/-- Discard is clicked after the push has ended. -/
def discardLater : List ActionEvent :=
  pushClicked ++ [.resume 0 (.returned "pull/1"), .resume 0 (.returned ""),
    .resume 0 (.returned ""), .handle 1 (click finalizationActionDiscard) .removed]

theorem clicks_serialised_discardLater : ∃ tr s, (actionMachine plainPaths).Trace tr s ∧
    tr.map Prod.snd = discardLater ∧ Machine.Always Serialised tr s := by
  obtain ⟨tr, s, hrun, hevents, hturn⟩ := Machine.Trace.of_guarded_check
    (M := actionMachine plainPaths) discardLater (G := InTurn)
    (fun s e => of_decide_eq_true) (by decide)
  exact ⟨tr, s, hrun, hevents, clicks_serialised hrun hturn⟩

/-- Discard is clicked while `gh` creates the pull request: the workspace is deleted and the pull
request is created. -/
def discardMeanwhile : List ActionEvent :=
  pushClicked ++ [.handle 1 (click finalizationActionDiscard) .removed,
    .resume 0 (.returned "pull/1")]

theorem two_side_effects : ¬ ∀ tr s, (actionMachine plainPaths).Trace tr s →
    Machine.Always Serialised tr s := by
  intro hall
  obtain ⟨tr, s, hrun, -, hs⟩ := Machine.Trace.of_check (M := actionMachine plainPaths)
    discardMeanwhile (p := fun _ s => s.spent "wf-1" == 2) (by decide)
  have honce := (hall tr s hrun).2.once "wf-1"
  rw [beq_iff_eq.1 hs] at honce
  omega

end FinalizationActions

end NemoClaw
