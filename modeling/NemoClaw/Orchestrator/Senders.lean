import NemoClaw.Nmb.Broker
import NemoClaw.Orchestrator.Dispatcher

/-! What a frame can do to a workflow. The dispatcher goes by the workflow id inside the payload and
never looks at the sender, so a frame has an effect on the workflow it names, whoever sent it, and
on no other. -/

namespace NemoClaw

open Lib

/-- The workflow that the message being handled is about. -/
def LoopPhase.workflow : LoopPhase → Option String
  | .idle => none
  | .renderingError payload | .loggingError payload => some payload.workflowId
  | .deregistering workflowId => some workflowId
  | .renderingProgress payload => some payload.workflowId
  | .ingestingFlush payload => some payload.workflowId

namespace Dispatcher

variable {π : Type} {E : DispatcherEnv π} {d d' : Dispatcher}

/-- All that the dispatcher holds and has done about one workflow: the registered context, the
latest finalisation task and the calls on its collaborators. -/
structure View where
  registered : Option WorkflowContext
  finalization : Option FinalizeTask
  effects : List WorkflowEffect

def view (d : Dispatcher) (w : String) : View where
  registered := (d.workflows.lookup w).bind fun c => d.contexts.lookup c
  finalization := (d.finalizationTasks.lookup w).bind fun t => d.tasks.lookup t
  effects := d.effects.filter fun e => decide (e.workflowId = w)

/-- The frame's type has a handler and its payload is valid and names `w`. -/
def FrameNames (E : DispatcherEnv π) (msg : NMBMessage π) (w : String) : Prop :=
  (msg.type = some MessageType.taskComplete.value ∧
    ∃ p, load E.codec.validateComplete .taskComplete msg.payload = .ok p ∧ p.workflowId.val = w) ∨
  (msg.type = some MessageType.taskError.value ∧
    ∃ p, load E.codec.validateError .taskError msg.payload = .ok p ∧ p.workflowId.val = w) ∨
  (msg.type = some MessageType.taskProgress.value ∧
    ∃ p, load E.codec.validateProgress .taskProgress msg.payload = .ok p ∧ p.workflowId.val = w) ∨
  (msg.type = some MessageType.auditFlush.value ∧
    ∃ p, load E.codec.validateAuditFlush .auditFlush msg.payload = .ok p ∧ p.workflowId.val = w)

/-- The step is about `w`: it takes a frame that names `w`, goes on with one, or belongs to the
finalisation, a button or the registration of `w`. -/
def Concerns (E : DispatcherEnv π) (d : Dispatcher) (w : String) : DispatcherEvent π → Prop
  | .register context => context.workflowId = w
  | .deregister workflowId => workflowId = w
  | .iterate workflowId _ => workflowId = w
  | .message msg _ => FrameNames E msg w
  | .loop => d.loop.workflow = some w
  | .finalize t _ => ∃ task context, d.tasks.lookup t = some task ∧
      d.contexts.lookup task.context = some context ∧ context.workflowId = w

/-- The objects belong to the workflows they are filed under. -/
structure Filed (d : Dispatcher) : Prop where
  fresh : ∀ c context, d.contexts.lookup c = some context → c < d.nextContext
  workflow : ∀ w c, d.workflows.lookup w = some c →
    ∃ context, d.contexts.lookup c = some context ∧ context.workflowId = w
  freshTask : ∀ t task, d.tasks.lookup t = some task → t < d.nextTask
  task : ∀ t task, d.tasks.lookup t = some task →
    ∃ context, d.contexts.lookup task.context = some context
  latest : ∀ w t, d.finalizationTasks.lookup w = some t → ∃ task context,
    d.tasks.lookup t = some task ∧ d.contexts.lookup task.context = some context ∧
      context.workflowId = w
  session : ∀ t task session, d.tasks.lookup t = some task →
    task.phase = .deciding session ∨ task.phase = .delegating session →
      session.context = task.context

/-- The workflow that a finalisation task finalises. -/
def taskOwner (d : Dispatcher) (t : FinalizeId) : Option String :=
  (d.tasks.lookup t).bind fun task => (d.contexts.lookup task.context).map (·.workflowId)

theorem taskOwner_eq_some {t : FinalizeId} {w : String} : d.taskOwner t = some w ↔
    ∃ task context, d.tasks.lookup t = some task ∧
      d.contexts.lookup task.context = some context ∧ context.workflowId = w := by
  simp [taskOwner, Option.bind_eq_some_iff]

/-- `d'` follows from `d` by calls about `w₀` only. -/
structure Moves (w₀ : String) (d d' : Dispatcher) : Prop where
  filed : Filed d'
  view : ∀ w, w ≠ w₀ → d'.view w = d.view w
  nextTask : d.nextTask ≤ d'.nextTask
  owner : ∀ t w, d'.taskOwner t = some w → d.taskOwner t = some w ∨ d.nextTask ≤ t ∧ w = w₀
  loop : ∀ w, d'.loop.workflow = some w → d.loop.workflow = some w ∨ w = w₀

variable {w₀ : String}

theorem Moves.refl (h : Filed d) : Moves w₀ d d :=
  ⟨h, fun _ _ => rfl, le_rfl, fun _ _ => Or.inl, fun _ => Or.inl⟩

theorem Moves.trans {d₁ : Dispatcher} (h₁ : Moves w₀ d d₁) (h₂ : Moves w₀ d₁ d') :
    Moves w₀ d d' := by
  refine ⟨h₂.filed, fun w hw => (h₂.view w hw).trans (h₁.view w hw),
    h₁.nextTask.trans h₂.nextTask, ?_, ?_⟩
  · intro t w hw
    rcases h₂.owner t w hw with hw | ⟨ht, rfl⟩
    · exact h₁.owner t w hw
    · exact Or.inr ⟨h₁.nextTask.trans ht, rfl⟩
  · intro w hw
    rcases h₂.loop w hw with hw | rfl
    · exact h₁.loop w hw
    · exact Or.inr rfl

/-! ### Single writes -/

theorem moves_effect (h : Filed d) {e : WorkflowEffect} (he : e.workflowId = w₀) :
    Moves w₀ d (d.effect e) := by
  refine ⟨{ h with }, ?_, le_rfl, fun _ _ => Or.inl, fun _ => Or.inl⟩
  intro w hw
  have hne : ¬ e.workflowId = w := fun h' => hw (h'.symm.trans he)
  simp [view, effect, hne]

theorem moves_erase (h : Filed d) (w₀ : String) :
    Moves w₀ d { d with workflows := d.workflows.erase w₀ } := by
  refine ⟨{ h with
    workflow := fun w c hc => h.workflow w c (Dict.lookup_erase_eq_some.1 hc).2 }, ?_, le_rfl,
    fun _ _ => Or.inl, fun _ => Or.inl⟩
  intro w hw
  simp only [view, AList.lookup_erase_ne hw]

theorem moves_loop (h : Filed d) {phase : LoopPhase}
    (hphase : ∀ w, phase.workflow = some w → w = w₀) : Moves w₀ d { d with loop := phase } :=
  ⟨{ h with }, fun _ _ => rfl, le_rfl, fun _ _ => Or.inl, fun w hw => Or.inr (hphase w hw)⟩

/-- The loop waits for an effect on the workflow. -/
theorem moves_await (h : Filed d) {e : WorkflowEffect} {phase : LoopPhase}
    (he : e.workflowId = w₀) (hphase : phase.workflow = some w₀) :
    Moves w₀ d { d.effect e with loop := phase } := by
  have heffect := moves_effect h he
  refine heffect.trans (moves_loop heffect.filed ?_)
  intro w hw
  exact (Option.some.inj (hphase.symm.trans hw)).symm

theorem moves_setPhase (h : Filed d) {t : FinalizeId} {task : FinalizeTask}
    {context : WorkflowContext} (ht : d.tasks.lookup t = some task)
    (hc : d.contexts.lookup task.context = some context) (hw₀ : context.workflowId = w₀)
    {phase : FinalizePhase} (hphase : ∀ session,
      phase = .deciding session ∨ phase = .delegating session → session.context = task.context) :
    Moves w₀ d (d.setPhase t task phase) := by
  refine ⟨{ h with freshTask := ?_, task := ?_, latest := ?_, session := ?_ }, ?_, le_rfl,
    fun t' w hw => Or.inl ?_, fun _ => Or.inl⟩
  · intro t' task' ht'
    rcases Dict.lookup_insert_eq_some.1 ht' with ⟨rfl, -⟩ | ⟨-, ht'⟩
    · exact h.freshTask t' task ht
    · exact h.freshTask t' task' ht'
  · intro t' task' ht'
    rcases Dict.lookup_insert_eq_some.1 ht' with ⟨-, rfl⟩ | ⟨-, ht'⟩
    · exact ⟨context, hc⟩
    · exact h.task t' task' ht'
  · intro w t' hl
    obtain ⟨task', context', ht', hc', hw'⟩ := h.latest w t' hl
    obtain ⟨task'', ht'', hcontext⟩ := Dict.exists_lookup_insert FinalizeTask.context
      (w := { task with phase := phase }) ht rfl ht'
    exact ⟨task'', context', ht'', hcontext ▸ hc', hw'⟩
  · intro t' task' session ht'
    rcases Dict.lookup_insert_eq_some.1 ht' with ⟨-, rfl⟩ | ⟨-, ht'⟩
    · exact hphase session
    · exact h.session t' task' session ht'
  · intro w hw
    -- the task of another workflow has another context
    have hother : ∀ t', d.finalizationTasks.lookup w = some t' → t' ≠ t := by
      intro t' hl heq
      subst heq
      obtain ⟨task', context', ht', hc', hw'⟩ := h.latest w t' hl
      obtain rfl := Option.some.inj (ht.symm.trans ht')
      obtain rfl := Option.some.inj (hc.symm.trans hc')
      exact hw (hw'.symm.trans hw₀)
    simp only [view, setPhase]
    rw [Dict.bind_lookup_insert _ hother]
  · obtain ⟨task', context', ht', hc', hw'⟩ := taskOwner_eq_some.1 hw
    rcases Dict.lookup_insert_eq_some.1 ht' with ⟨rfl, rfl⟩ | ⟨-, ht'⟩
    · exact taskOwner_eq_some.2 ⟨task, context', ht, hc', hw'⟩
    · exact taskOwner_eq_some.2 ⟨task', context', ht', hc', hw'⟩

theorem moves_setTask (h : Filed d) {c : CtxId} {context : WorkflowContext}
    (hc : d.contexts.lookup c = some context) (hw₀ : context.workflowId = w₀)
    (task : TaskAssignPayload) :
    Moves w₀ d { d with contexts := d.contexts.insert c { context with task := task } } := by
  have hkeep : ∀ c' context', d.contexts.lookup c' = some context' →
      ∃ context'', (d.contexts.insert c { context with task := task }).lookup c' =
        some context'' ∧ context''.workflowId = context'.workflowId :=
    fun c' context' hc' => Dict.exists_lookup_insert WorkflowContext.workflowId hc rfl hc'
  refine ⟨{ h with fresh := ?_, workflow := ?_, task := ?_, latest := ?_ }, ?_, le_rfl,
    fun t w hw => Or.inl ?_, fun _ => Or.inl⟩
  · intro c' context' hc'
    rcases Dict.lookup_insert_eq_some.1 hc' with ⟨rfl, -⟩ | ⟨-, hc'⟩
    · exact h.fresh c' context hc
    · exact h.fresh c' context' hc'
  · intro w c' hl
    obtain ⟨context', hc', hw'⟩ := h.workflow w c' hl
    obtain ⟨context'', hc'', hid⟩ := hkeep c' context' hc'
    exact ⟨context'', hc'', hid.trans hw'⟩
  · intro t task' ht
    obtain ⟨context', hc'⟩ := h.task t task' ht
    obtain ⟨context'', hc'', -⟩ := hkeep _ context' hc'
    exact ⟨context'', hc''⟩
  · intro w t hl
    obtain ⟨task', context', ht, hc', hw'⟩ := h.latest w t hl
    obtain ⟨context'', hc'', hid⟩ := hkeep _ context' hc'
    exact ⟨task', context'', ht, hc'', hid.trans hw'⟩
  · intro w hw
    have hother : ∀ c', d.workflows.lookup w = some c' → c' ≠ c := by
      intro c' hl heq
      subst heq
      obtain ⟨context', hc', hw'⟩ := h.workflow w c' hl
      obtain rfl := Option.some.inj (hc.symm.trans hc')
      exact hw (hw'.symm.trans hw₀)
    simp only [view]
    rw [Dict.bind_lookup_insert _ hother]
  · obtain ⟨task', context', ht, hc', hw'⟩ := taskOwner_eq_some.1 hw
    rcases Dict.lookup_insert_eq_some.1 hc' with ⟨he, rfl⟩ | ⟨-, hc'⟩
    · exact taskOwner_eq_some.2 ⟨task', context, ht, he ▸ hc, hw'⟩
    · exact taskOwner_eq_some.2 ⟨task', context', ht, hc', hw'⟩

theorem moves_register (h : Filed d) (context : WorkflowContext) :
    Moves context.workflowId d (d.registerWorkflow context) := by
  have hold : ∀ c' context', d.contexts.lookup c' = some context' →
      (d.contexts.insert d.nextContext context).lookup c' = some context' := fun c' context' hc' =>
    (AList.lookup_insert_ne (Nat.ne_of_lt (h.fresh c' context' hc'))).trans hc'
  refine ⟨{ h with fresh := ?_, workflow := ?_, task := ?_, latest := ?_ }, ?_, le_rfl,
    fun t w hw => Or.inl ?_, fun _ => Or.inl⟩
  · intro c' context' hc'
    rcases Dict.lookup_insert_eq_some.1 hc' with ⟨rfl, -⟩ | ⟨-, hc'⟩
    · exact Nat.lt_succ_self _
    · exact Nat.lt_succ_of_lt (h.fresh c' context' hc')
  · intro w c' hl
    rcases Dict.lookup_insert_eq_some.1 hl with ⟨rfl, rfl⟩ | ⟨-, hl⟩
    · exact ⟨context, AList.lookup_insert d.contexts, rfl⟩
    · obtain ⟨context', hc', hw'⟩ := h.workflow w c' hl
      exact ⟨context', hold c' context' hc', hw'⟩
  · intro t task' ht
    obtain ⟨context', hc'⟩ := h.task t task' ht
    exact ⟨context', hold _ context' hc'⟩
  · intro w t hl
    obtain ⟨task', context', ht, hc', hw'⟩ := h.latest w t hl
    exact ⟨task', context', ht, hold _ context' hc', hw'⟩
  · intro w hw
    simp only [view, registerWorkflow, AList.lookup_insert_ne hw]
    congr 1
    cases hl : d.workflows.lookup w with
    | none => rfl
    | some c' =>
      obtain ⟨context', hc', -⟩ := h.workflow w c' hl
      exact (hold c' context' hc').trans hc'.symm
  · obtain ⟨task, context', ht, hc', hw'⟩ := taskOwner_eq_some.1 hw
    obtain ⟨context₁, hc₁⟩ := h.task t task ht
    obtain rfl := Option.some.inj ((hold _ context₁ hc₁).symm.trans hc')
    exact taskOwner_eq_some.2 ⟨task, context₁, ht, hc₁, hw'⟩

theorem moves_fork (h : Filed d) {c : CtxId} {context : WorkflowContext}
    {payload : TaskCompletePayload} (hc : d.contexts.lookup c = some context)
    (hw₀ : context.workflowId = payload.workflowId.val) :
    Moves payload.workflowId.val d (d.forkFinalize c payload) := by
  have hold : ∀ t task, d.tasks.lookup t = some task →
      (d.tasks.insert d.nextTask ⟨c, payload, .created⟩).lookup t = some task := fun t task ht =>
    (AList.lookup_insert_ne (Nat.ne_of_lt (h.freshTask t task ht))).trans ht
  refine ⟨{ h with freshTask := ?_, task := ?_, latest := ?_, session := ?_ }, ?_,
    Nat.le_succ _, ?_, fun _ => Or.inl⟩
  · intro t task ht
    rcases Dict.lookup_insert_eq_some.1 ht with ⟨rfl, -⟩ | ⟨-, ht⟩
    · exact Nat.lt_succ_self _
    · exact Nat.lt_succ_of_lt (h.freshTask t task ht)
  · intro t task ht
    rcases Dict.lookup_insert_eq_some.1 ht with ⟨-, rfl⟩ | ⟨-, ht⟩
    · exact ⟨context, hc⟩
    · exact h.task t task ht
  · intro w t hl
    rcases Dict.lookup_insert_eq_some.1 hl with ⟨rfl, rfl⟩ | ⟨-, hl⟩
    · exact ⟨_, context, AList.lookup_insert d.tasks, hc, hw₀⟩
    · obtain ⟨task, context', ht, hc', hw'⟩ := h.latest w t hl
      exact ⟨task, context', hold t task ht, hc', hw'⟩
  · intro t task session ht
    rcases Dict.lookup_insert_eq_some.1 ht with ⟨-, rfl⟩ | ⟨-, ht⟩
    · intro hp
      rcases hp with hp | hp <;> cases hp
    · exact h.session t task session ht
  · intro w hw
    simp only [view, forkFinalize, AList.lookup_insert_ne hw]
    congr 1
    cases hl : d.finalizationTasks.lookup w with
    | none => rfl
    | some t =>
      obtain ⟨task, context', ht, -, -⟩ := h.latest w t hl
      exact (hold t task ht).trans ht.symm
  · intro t w hw
    obtain ⟨task, context', ht, hc', hw'⟩ := taskOwner_eq_some.1 hw
    rcases Dict.lookup_insert_eq_some.1 ht with ⟨rfl, rfl⟩ | ⟨-, ht⟩
    · obtain rfl := Option.some.inj (hc.symm.trans hc')
      exact Or.inr ⟨le_rfl, hw'.symm.trans hw₀⟩
    · exact Or.inl (taskOwner_eq_some.2 ⟨task, context', ht, hc', hw'⟩)

/-! ### Handlers -/

theorem moves_deregisterWorkflow (h : Filed d) (w₀ : String) :
    Moves w₀ d (d.deregisterWorkflow E w₀) := by
  have herase := moves_erase h w₀
  unfold deregisterWorkflow
  dsimp only
  split
  · exact herase.trans (moves_effect herase.filed rfl)
  · exact herase

theorem moves_deregisterInLoop (h : Filed d) (w₀ : String) :
    Moves w₀ d (d.deregisterInLoop E w₀) := by
  have hderegister := moves_deregisterWorkflow (E := E) h w₀
  refine hderegister.trans (moves_loop hderegister.filed ?_)
  intro w hw
  split at hw
  · exact (Option.some.inj hw).symm
  · contradiction

theorem moves_logTaskError (h : Filed d) (payload : TaskErrorPayload) :
    Moves payload.workflowId.val d (d.logTaskError E payload) := by
  unfold logTaskError
  split
  · exact moves_await h rfl rfl
  · exact moves_deregisterInLoop h _

/-- The context that a frame finds is one of the workflow it names. -/
theorem context_of_lookup (h : Filed d) {w : String} {context : WorkflowContext}
    (hl : ((d.workflows.lookup w).bind fun c => d.contexts.lookup c) = some context) :
    context.workflowId = w := by
  obtain ⟨c, hc, hcontext⟩ := Option.bind_eq_some_iff.1 hl
  obtain ⟨context', hcontext', hw⟩ := h.workflow w c hc
  obtain rfl := Option.some.inj (hcontext.symm.trans hcontext')
  exact hw

theorem moves_handleTaskComplete (h : Filed d) {msg : NMBMessage π} {payload : TaskCompletePayload}
    (hload : load E.codec.validateComplete .taskComplete msg.payload = .ok payload)
    (iteration : ℕ) :
    Moves payload.workflowId.val d (d.handleTaskComplete E msg iteration) := by
  unfold handleTaskComplete
  rw [hload]
  dsimp only
  cases hw : d.workflows.lookup payload.workflowId.val with
  | none => exact Moves.refl h
  | some c =>
    obtain ⟨context, hc, hcontext⟩ := h.workflow _ c hw
    dsimp only
    -- the two logs are bookkeeping and no part of a view
    split
    · exact ⟨{ h with }, fun _ _ => rfl, le_rfl, fun _ _ => Or.inl, fun _ => Or.inl⟩
    · have hfiled : Filed { d with
          arrived := d.arrived ++ [(payload.workflowId.val, iteration)]
          finalized := d.finalized ++ [(payload.workflowId.val, iteration)] } := { h with }
      have hfork := moves_fork hfiled hc hcontext
      exact ⟨hfork.filed, hfork.view, hfork.nextTask, hfork.owner, hfork.loop⟩

/-- A frame about a registered workflow is handled with its context, another one is dropped. -/
theorem moves_lookup (h : Filed d) {f : WorkflowContext → Dispatcher}
    (hf : ∀ context, context.workflowId = w₀ → Moves w₀ d (f context)) :
    Moves w₀ d (match (d.workflows.lookup w₀).bind fun c => d.contexts.lookup c with
      | none => d
      | some context => f context) := by
  split
  · exact Moves.refl h
  · rename_i context hcontext
    exact hf context (context_of_lookup h hcontext)

theorem moves_handleTaskError (h : Filed d) {msg : NMBMessage π} {payload : TaskErrorPayload}
    (hload : load E.codec.validateError .taskError msg.payload = .ok payload) :
    Moves payload.workflowId.val d (d.handleTaskError E msg) := by
  unfold handleTaskError
  rw [hload]
  apply moves_lookup h
  intro context hcontext
  split
  · exact moves_await h hcontext rfl
  · exact moves_logTaskError h payload

theorem moves_handleTaskProgress (h : Filed d) {msg : NMBMessage π}
    {payload : TaskProgressPayload}
    (hload : load E.codec.validateProgress .taskProgress msg.payload = .ok payload) :
    Moves payload.workflowId.val d (d.handleTaskProgress E msg) := by
  unfold handleTaskProgress
  rw [hload]
  apply moves_lookup h
  intro context hcontext
  split
  · exact moves_await h hcontext rfl
  · exact Moves.refl h

theorem moves_handleAuditFlush (h : Filed d) {msg : NMBMessage π} {payload : AuditFlushPayload}
    (hload : load E.codec.validateAuditFlush .auditFlush msg.payload = .ok payload) :
    Moves payload.workflowId.val d (d.handleAuditFlush E msg) := by
  unfold handleAuditFlush
  rw [hload]
  split
  · exact moves_await h rfl rfl
  · exact Moves.refl h

/-- A frame names at most one workflow; if it names none, nothing happens. -/
theorem moves_dispatch (h : Filed d) (msg : NMBMessage π) (iteration : ℕ) :
    d.dispatch E msg iteration = d ∨
      ∃ w₀, FrameNames E msg w₀ ∧ Moves w₀ d (d.dispatch E msg iteration) := by
  unfold dispatch
  split_ifs with hcomplete herror hprogress hflush
  · cases hload : load E.codec.validateComplete .taskComplete msg.payload with
    | error why => exact Or.inl (by simp [handleTaskComplete, hload])
    | ok payload => exact Or.inr ⟨_, Or.inl ⟨hcomplete, payload, hload, rfl⟩,
        moves_handleTaskComplete h hload iteration⟩
  · cases hload : load E.codec.validateError .taskError msg.payload with
    | error why => exact Or.inl (by simp [handleTaskError, hload])
    | ok payload => exact Or.inr ⟨_, Or.inr (Or.inl ⟨herror, payload, hload, rfl⟩),
        moves_handleTaskError h hload⟩
  · cases hload : load E.codec.validateProgress .taskProgress msg.payload with
    | error why => exact Or.inl (by simp [handleTaskProgress, hload])
    | ok payload => exact Or.inr ⟨_, Or.inr (Or.inr (Or.inl ⟨hprogress, payload, hload, rfl⟩)),
        moves_handleTaskProgress h hload⟩
  · cases hload : load E.codec.validateAuditFlush .auditFlush msg.payload with
    | error why => exact Or.inl (by simp [handleAuditFlush, hload])
    | ok payload => exact Or.inr ⟨_, Or.inr (Or.inr (Or.inr ⟨hflush, payload, hload, rfl⟩)),
        moves_handleAuditFlush h hload⟩
  · exact Or.inl rfl

theorem moves_resumeLoop (h : Filed d) (hs : d.resumeLoop E d.loop = some d') :
    ∃ w₀, d.loop.workflow = some w₀ ∧ Moves w₀ d d' := by
  cases hp : d.loop with
  | idle =>
    rw [hp] at hs
    contradiction
  | renderingError payload =>
    rw [hp] at hs
    obtain rfl := Option.some.inj hs
    exact ⟨_, rfl, moves_logTaskError h payload⟩
  | loggingError payload =>
    rw [hp] at hs
    obtain rfl := Option.some.inj hs
    exact ⟨_, rfl, moves_deregisterInLoop h _⟩
  | deregistering | renderingProgress | ingestingFlush =>
    rw [hp] at hs
    obtain rfl := Option.some.inj hs
    exact ⟨_, rfl, moves_loop h fun w hw => by contradiction⟩

/-! ### Finalisation tasks -/

section

variable {t : FinalizeId} {task : FinalizeTask} {context : WorkflowContext} (h : Filed d)
  (ht : d.tasks.lookup t = some task) (hc : d.contexts.lookup task.context = some context)
include h ht hc

theorem moves_phase {phase : FinalizePhase} (hphase : ∀ session,
    phase = .deciding session ∨ phase = .delegating session → session.context = task.context) :
    Moves context.workflowId d (d.setPhase t task phase) :=
  moves_setPhase h ht hc rfl hphase

theorem moves_finishTerminal :
    Moves context.workflowId d (d.finishTerminal E t task context) := by
  have hderegister := moves_deregisterWorkflow (E := E) h context.workflowId
  refine hderegister.trans (moves_phase hderegister.filed ?_ ?_ ?_)
  · unfold deregisterWorkflow
    split <;> exact ht
  · unfold deregisterWorkflow
    split <;> exact hc
  · intro session hp
    rcases hp with hp | hp <;> split at hp <;> cases hp

theorem moves_failFinalize (error : String) :
    Moves context.workflowId d (d.failFinalize E t task context error) := by
  unfold failFinalize
  split
  · have heffect : Moves context.workflowId d
        (d.effect (.completionFailure context task.complete error)) := moves_effect h rfl
    refine heffect.trans (moves_setPhase heffect.filed ht hc rfl ?_)
    intro session hp
    rcases hp with hp | hp <;> cases hp
  · exact moves_finishTerminal h ht hc

theorem moves_startFinalize :
    Moves context.workflowId d (d.startFinalize E t task context) := by
  unfold startFinalize
  split
  · split
    · refine moves_phase h ht hc ?_
      intro session hp
      rcases hp with hp | hp <;> cases hp
    · exact moves_failFinalize h ht hc _
  · split
    · have heffect : Moves context.workflowId d
          (d.effect (.presentWork context task.complete.summary task.complete.diff)) :=
        moves_effect h rfl
      refine heffect.trans (moves_setPhase heffect.filed ht hc rfl ?_)
      intro session hp
      rcases hp with hp | hp <;> cases hp
    · refine moves_phase h ht hc ?_
      intro session hp
      rcases hp with hp | hp <;> cases hp

theorem moves_reDelegate {session : FinalizationSession}
    (hsession : session.context = task.context) (prompt : String) (n : Option ℤ)
    (model : Option String) :
    Moves context.workflowId d (d.reDelegate E t task session context prompt n model) := by
  unfold reDelegate
  split
  · split
    · exact Moves.refl h
    · rename_i followup hfollowup
      have hset := moves_setTask h (hsession ▸ hc) rfl followup
      have hcontext : (d.contexts.insert session.context { context with task := followup }).lookup
          task.context = some { context with task := followup } := by
        rw [hsession]
        exact AList.lookup_insert d.contexts
      refine hset.trans (moves_setPhase hset.filed ht hcontext rfl ?_)
      · intro session' hp
        rcases hp with hp | hp
        · contradiction
        · obtain rfl := FinalizePhase.delegating.inj hp
          exact hsession
  · exact Moves.refl h

theorem moves_advance {event : FinalizeEvent}
    (hs : d.advance E t task context task.phase event = some d') :
    Moves context.workflowId d d' := by
  have hdone : Moves context.workflowId d (d.setPhase t task .done) :=
    moves_phase h ht hc fun session hp => by rcases hp with hp | hp <;> cases hp
  have hsession := h.session t task
  unfold advance at hs
  split at hs
  · obtain rfl := Option.some.inj hs
    exact moves_startFinalize h ht hc
  · obtain rfl := Option.some.inj hs
    exact hdone
  · obtain rfl := Option.some.inj hs
    exact moves_failFinalize h ht hc _
  · obtain rfl := Option.some.inj hs
    exact moves_failFinalize h ht hc _
  · obtain rfl := Option.some.inj hs
    exact moves_failFinalize h ht hc _
  · obtain rfl := Option.some.inj hs
    refine moves_phase h ht hc ?_
    intro session hp
    rcases hp with hp | hp
    · obtain rfl := FinalizePhase.deciding.inj hp
      rfl
    · contradiction
  · rename_i session prompt n model hphase
    obtain rfl := Option.some.inj hs
    exact moves_reDelegate h ht hc (hsession session ht (Or.inl hphase)) prompt n model
  · rename_i session hphase
    obtain rfl := Option.some.inj hs
    refine moves_phase h ht hc ?_
    intro session' hp
    rcases hp with hp | hp
    · obtain rfl := FinalizePhase.deciding.inj hp
      exact hsession _ ht (Or.inr hphase)
    · contradiction
  · rename_i session error hphase
    obtain rfl := Option.some.inj hs
    refine moves_phase h ht hc ?_
    intro session' hp
    rcases hp with hp | hp
    · obtain rfl := FinalizePhase.deciding.inj hp
      exact hsession _ ht (Or.inr hphase)
    · contradiction
  · obtain rfl := Option.some.inj hs
    split
    · exact moves_finishTerminal h ht hc
    · exact hdone
  · obtain rfl := Option.some.inj hs
    exact moves_finishTerminal h ht hc
  · obtain rfl := Option.some.inj hs
    exact moves_finishTerminal h ht hc
  · obtain rfl := Option.some.inj hs
    exact hdone
  · contradiction

end

/-! ### Steps -/

theorem moves_iterate (h : Filed d) (w₀ prompt : String) : Moves w₀ d (d.iterate E w₀ prompt) := by
  unfold iterate
  cases hw : d.workflows.lookup w₀ with
  | none => exact Moves.refl h
  | some c =>
    obtain ⟨context, hc, hcontext⟩ := h.workflow w₀ c hw
    dsimp only
    rw [hc]
    dsimp only
    split
    · exact Moves.refl h
    · split
      · exact moves_setTask h hc hcontext _
      · exact Moves.refl h

/-- A step that has an effect is about one workflow. -/
theorem moves_step (h : Filed d) {e : DispatcherEvent π} (hs : d.step E e = some d') :
    d' = d ∨ ∃ w₀, Concerns E d w₀ e ∧ Moves w₀ d d' := by
  cases e with
  | register context =>
    obtain rfl := Option.some.inj hs
    exact Or.inr ⟨_, rfl, moves_register h context⟩
  | deregister w =>
    obtain rfl := Option.some.inj hs
    exact Or.inr ⟨w, rfl, moves_deregisterWorkflow h w⟩
  | iterate w prompt =>
    obtain rfl := Option.some.inj hs
    exact Or.inr ⟨w, rfl, moves_iterate h w prompt⟩
  | message msg iteration =>
    simp only [step, Option.ite_none_right_eq_some] at hs
    obtain rfl := Option.some.inj hs.2
    exact moves_dispatch h msg iteration
  | loop => exact Or.inr (moves_resumeLoop h hs)
  | finalize t event =>
    obtain ⟨task, ht, hs⟩ := Option.bind_eq_some_iff.1 hs
    obtain ⟨context, hc, hs⟩ := Option.bind_eq_some_iff.1 hs
    exact Or.inr ⟨_, ⟨task, context, ht, hc, rfl⟩, moves_advance h ht hc hs⟩

theorem filed_initial : Filed (dispatcherMachine E).init where
  fresh _ _ h := by contradiction
  workflow _ _ h := by contradiction
  freshTask _ _ h := by contradiction
  task _ _ h := by contradiction
  latest _ _ h := by contradiction
  session _ _ _ h := by contradiction

theorem filed_step (h : Filed d) {e : DispatcherEvent π} (hs : d.step E e = some d') :
    Filed d' := by
  rcases moves_step h hs with rfl | ⟨w₀, -, hmoves⟩
  · exact h
  · exact hmoves.filed

theorem filed_run {tr : List (Dispatcher × DispatcherEvent π)}
    (h : (dispatcherMachine E).Trace tr d) : Filed d :=
  h.invariant filed_initial fun _ _ _ hd hs => filed_step hd hs

/-! ### Where the handling of a frame comes from -/

/-- The run has taken a frame that names `w`. -/
def Named (E : DispatcherEnv π) (tr : List (Dispatcher × DispatcherEvent π)) (w : String) : Prop :=
  ∃ p ∈ tr, ∃ msg iteration, p.2 = .message msg iteration ∧ FrameNames E msg w

/-- The dispatch loop and the finalisation tasks work on frames that the run has taken. -/
structure Sourced (E : DispatcherEnv π) (tr : List (Dispatcher × DispatcherEvent π))
    (d : Dispatcher) : Prop where
  loop : ∀ w, d.loop.workflow = some w → Named E tr w
  owner : ∀ t w, d.taskOwner t = some w → Named E tr w

variable {tr : List (Dispatcher × DispatcherEvent π)}

theorem Named.snoc {w : String} (h : Named E tr w) (p : Dispatcher × DispatcherEvent π) :
    Named E (tr ++ [p]) w := by
  obtain ⟨q, hq, hframe⟩ := h
  exact ⟨q, List.mem_append_left _ hq, hframe⟩

theorem lt_of_taskOwner (h : Filed d) {t : FinalizeId} {w : String}
    (hw : d.taskOwner t = some w) : t < d.nextTask := by
  obtain ⟨task, -, ht, -, -⟩ := taskOwner_eq_some.1 hw
  exact h.freshTask t task ht

theorem sourced_moves (h : Sourced E tr d) (hmoves : Moves w₀ d d')
    {p : Dispatcher × DispatcherEvent π} (hnamed : Named E (tr ++ [p]) w₀) :
    Sourced E (tr ++ [p]) d' := by
  refine ⟨?_, ?_⟩
  · intro w hw
    rcases hmoves.loop w hw with hw | rfl
    · exact (h.loop w hw).snoc p
    · exact hnamed
  · intro t w hw
    rcases hmoves.owner t w hw with hw | ⟨-, rfl⟩
    · exact (h.owner t w hw).snoc p
    · exact hnamed

/-- Only the dispatch loop takes on new frames. -/
theorem sourced_elsewhere (h : Sourced E tr d) (hmoves : Moves w₀ d d')
    (hstate : d'.loopState = d.loopState) (p : Dispatcher × DispatcherEvent π) :
    Sourced E (tr ++ [p]) d' := by
  obtain ⟨hloop, hrest⟩ := Prod.mk.inj hstate
  have hnext : d'.nextTask = d.nextTask := (Prod.mk.inj hrest).1
  refine ⟨?_, ?_⟩
  · intro w hw
    rw [hloop] at hw
    exact (h.loop w hw).snoc p
  · intro t w hw
    rcases hmoves.owner t w hw with hw' | ⟨hle, -⟩
    · exact (h.owner t w hw').snoc p
    · have hlt := lt_of_taskOwner hmoves.filed hw
      rw [hnext] at hlt
      exact absurd hlt (Nat.not_lt.2 hle)

theorem sourced_step (hf : Filed d) (h : Sourced E tr d) {e : DispatcherEvent π}
    (hs : d.step E e = some d') : Sourced E (tr ++ [(d, e)]) d' := by
  cases e with
  | register context =>
    obtain rfl := Option.some.inj hs
    exact sourced_elsewhere h (moves_register hf context) rfl _
  | deregister w =>
    obtain rfl := Option.some.inj hs
    exact sourced_elsewhere h (moves_deregisterWorkflow hf w) (loopState_deregisterWorkflow d w) _
  | iterate w prompt =>
    obtain rfl := Option.some.inj hs
    exact sourced_elsewhere h (moves_iterate hf w prompt) (loopState_iterate d w prompt) _
  | message msg iteration =>
    rcases moves_step hf hs with rfl | ⟨w₀, hnames, hmoves⟩
    · have hmoves : Moves "" _ _ := Moves.refl hf
      exact sourced_elsewhere h hmoves rfl _
    · refine sourced_moves h hmoves ⟨_, List.mem_append_right _ (List.mem_singleton_self _), ?_⟩
      exact ⟨msg, iteration, rfl, hnames⟩
  | loop =>
    obtain ⟨w₀, hw₀, hmoves⟩ := moves_resumeLoop hf hs
    exact sourced_moves h hmoves ((h.loop w₀ hw₀).snoc _)
  | finalize t event =>
    obtain ⟨task, ht, hs⟩ := Option.bind_eq_some_iff.1 hs
    obtain ⟨context, hc, hs⟩ := Option.bind_eq_some_iff.1 hs
    exact sourced_elsewhere h (moves_advance hf ht hc hs) (loopState_advance hs) _

theorem sourced_run (h : (dispatcherMachine E).Trace tr d) : Sourced E tr d := by
  induction h with
  | nil =>
    refine ⟨?_, ?_⟩
    · intro w hw
      contradiction
    · intro t w hw
      contradiction
  | snoc h hs ih => exact sourced_step (filed_run h) ih hs

/-! ### Senders -/

/-- The orchestrator registers `w`, or a button acts on it. -/
def Local (w : String) : DispatcherEvent π → Prop
  | .register context => context.workflowId = w
  | .deregister workflowId | .iterate workflowId _ => workflowId = w
  | _ => False

/-- What reaches the dispatcher when other sandboxes send the same frames. -/
def sentBy (sender : NMBMessage π → Option String) : DispatcherEvent π → DispatcherEvent π
  | .message msg iteration => .message { msg with fromSandbox := sender msg } iteration
  | e => e

theorem step_sentBy (sender : NMBMessage π → Option String) (d : Dispatcher)
    (e : DispatcherEvent π) : d.step E (sentBy sender e) = d.step E e := by
  cases e with
  | message msg iteration => rfl
  | register | deregister | iterate | loop | finalize => rfl

theorem trace_sentBy (sender : NMBMessage π → Option String)
    (h : (dispatcherMachine E).Trace tr d) :
    (dispatcherMachine E).Trace (tr.map fun p => (p.1, sentBy sender p.2)) d := by
  induction h with
  | nil => exact .nil
  | @snoc tr d e d' h hs ih =>
    rw [List.map_append]
    exact ih.snoc ((step_sentBy sender d e).trans hs)

/-- In a run of the dispatcher a step that changes what it holds or has done about `w` is about `w`,
and either local or due to a frame that names `w`. The senders of the frames do not matter. -/
theorem effects_by_workflow (h : (dispatcherMachine E).Trace tr d) :
    (∀ e d' w, d.step E e = some d' → d'.view w ≠ d.view w →
      Concerns E d w e ∧ (Local w e ∨ Named E (tr ++ [(d, e)]) w)) ∧
    ∀ sender, (dispatcherMachine E).Trace (tr.map fun p => (p.1, sentBy sender p.2)) d := by
  refine ⟨?_, fun sender => trace_sentBy sender h⟩
  intro e d' w hs hview
  have hsourced := sourced_run h
  rcases moves_step (filed_run h) hs with rfl | ⟨w₀, hconcerns, hmoves⟩
  · exact absurd rfl hview
  · obtain rfl : w = w₀ := by_contra fun hne => hview (hmoves.view w hne)
    refine ⟨hconcerns, ?_⟩
    cases e with
    | register | deregister | iterate => exact Or.inl hconcerns
    | message msg iteration =>
      refine Or.inr ⟨_, List.mem_append_right _ (List.mem_singleton_self _), ?_⟩
      exact ⟨msg, iteration, rfl, hconcerns⟩
    | loop => exact Or.inr ((hsourced.loop w hconcerns).snoc _)
    | finalize t event =>
      exact Or.inr ((hsourced.owner t w (taskOwner_eq_some.2 hconcerns)).snoc _)

/-! ### A stranger's frame -/

/-- What the broker delivers when the sandbox `mallory` sends a `task.error` about `wf-1`. -/
def strangersError : NMBMessage WirePayload :=
  NMBMessage.makeDeliver (Broker.stamp
    { op := .send, id := "m-1", toSandbox := some "orchestrator",
      type := some MessageType.taskError.value,
      payload := some (.error
        { workflowId := fixBugWorkflowId, error := ⟨"gave up", by decide⟩,
          errorKind := .other }) }
    "mallory" 0)

def strangerSpeaks : List (DispatcherEvent WirePayload) :=
  [.register { workflowId := "wf-1", task := fixBugTask }, .message strangersError 0, .loop, .loop]

theorem effects_by_workflow_strangerSpeaks : ∃ tr d,
    (dispatcherMachine wireDispatcher).Trace tr d ∧ tr.map Prod.snd = strangerSpeaks ∧
      (∀ e d' w, d.step wireDispatcher e = some d' → d'.view w ≠ d.view w →
        Concerns wireDispatcher d w e ∧
          (Local w e ∨ Named wireDispatcher (tr ++ [(d, e)]) w)) ∧
      ∀ sender, (dispatcherMachine wireDispatcher).Trace
        (tr.map fun p => (p.1, sentBy sender p.2)) d := by
  obtain ⟨tr, d, h, hevents, -⟩ := Machine.Trace.of_check (M := dispatcherMachine wireDispatcher)
    strangerSpeaks (p := fun _ _ => true) (by decide)
  exact ⟨tr, d, h, hevents, effects_by_workflow h⟩

/-- The dispatcher renders the stranger's error for `wf-1` and deregisters it. -/
theorem stranger_heard : ¬ ∀ tr d, (dispatcherMachine wireDispatcher).Trace tr d →
    ∀ w context msg iteration d', (d.view w).registered = some context →
      d.step wireDispatcher (.message msg iteration) = some d' → d'.view w ≠ d.view w →
        msg.fromSandbox = some context.task.agentId.val := by
  intro hall
  obtain ⟨tr, d, h, -, hd⟩ := Machine.Trace.of_check (M := dispatcherMachine wireDispatcher)
    (strangerSpeaks.take 1)
    (p := fun _ d => decide ((d.view "wf-1").registered =
        some { workflowId := "wf-1", task := fixBugTask }) &&
      (d.step wireDispatcher (.message strangersError 0)).any fun d' : Dispatcher =>
        decide ((d'.view "wf-1").effects ≠ (d.view "wf-1").effects))
    (by decide)
  rw [Bool.and_eq_true, decide_eq_true_eq, Option.any_eq_true] at hd
  obtain ⟨hregistered, d', hs, heffects⟩ := hd
  have hview : d'.view "wf-1" ≠ d.view "wf-1" := fun he =>
    of_decide_eq_true heffects (congrArg View.effects he)
  have hsender := hall tr d h "wf-1" _ strangersError 0 d' hregistered hs hview
  exact absurd hsender (by decide)

end Dispatcher

end NemoClaw
