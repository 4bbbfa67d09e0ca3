import NemoClaw.Orchestrator.Senders

/-! Assignments and completions in the dispatcher. Whatever it does, a context keeps its workflow
and its baseline, a finalisation task keeps its context and its completion, and tools run only for
a task that passed `verify_baseline`. -/

namespace NemoClaw

open Lib

/-- `finalize` has passed `verify_baseline` and is not over: git commands and tools may run. -/
def FinalizePhase.acts : FinalizePhase → Bool
  | .verifying | .deciding _ | .delegating _ => true
  | _ => false

/-- The workflow of an assignment, and the baseline it is pinned to. -/
def TaskAssignPayload.pin (task : TaskAssignPayload) : String × Option WorkspaceBaseline :=
  (task.workflowId, task.workspaceBaseline)

theorem TaskAssignPayload.pin_followup {t task : TaskAssignPayload} {prompt : String}
    {maxTurns : Option ℤ} {model : Option String}
    (h : t.followup prompt maxTurns model = some task) : task.pin = t.pin := by
  obtain ⟨hworkflow, -, -, hbaseline, -⟩ := TaskAssignPayload.followup_eq h
  simp only [pin, hworkflow, hbaseline]

/-- A step that neither registers a workflow nor takes a completion. -/
def DispatcherEvent.other {π : Type} : DispatcherEvent π → Bool
  | .register _ => false
  | .message msg _ => decide (msg.type ≠ some MessageType.taskComplete.value)
  | _ => true

namespace Dispatcher

variable {π : Type} {E : DispatcherEnv π} {d d' : Dispatcher}

/-- The workflow id of a context, and the pin of its assignment. -/
def pin (d : Dispatcher) (c : CtxId) : Option (String × String × Option WorkspaceBaseline) :=
  (d.contexts.lookup c).map fun context => (context.workflowId, context.task.pin)

/-- The context of a finalisation task, and its completion. -/
def about (d : Dispatcher) (t : FinalizeId) : Option (CtxId × TaskCompletePayload) :=
  (d.tasks.lookup t).map fun task => (task.context, task.complete)

def acting (d : Dispatcher) (t : FinalizeId) : Bool :=
  (d.tasks.lookup t).any fun task => task.phase.acts

/-- The session of a finalisation task is about the assignment of its context. -/
def Suits (d : Dispatcher) (c : CtxId) (phase : FinalizePhase) : Prop :=
  ∀ session, phase = .deciding session ∨ phase = .delegating session →
    session.context = c ∧ (d.pin c).map Prod.snd = some session.task.pin

def Agree (d : Dispatcher) : Prop :=
  ∀ t task, d.tasks.lookup t = some task → d.Suits task.context task.phase

/-- The finalisation tasks that the step lets through. -/
def Passes (E : DispatcherEnv π) (d : Dispatcher) (e : DispatcherEvent π) (t : FinalizeId) :
    Prop :=
  e = .finalize t .started ∧ E.config.finalizer = true ∧ ∃ task context,
    d.tasks.lookup t = some task ∧ d.contexts.lookup task.context = some context ∧
      verifyBaseline context.task task.complete = true

/-- `d'` has the contexts and the finalisation tasks of `d`, further on. -/
structure SameWork (passes : FinalizeId → Prop) (d d' : Dispatcher) : Prop where
  pin : ∀ c, d'.pin c = d.pin c
  about : ∀ t, d'.about t = d.about t
  acting : ∀ t, d'.acting t = true → d.acting t = true ∨ passes t
  agree : d.Agree → d'.Agree

variable {passes : FinalizeId → Prop}

theorem SameWork.refl (d : Dispatcher) : SameWork passes d d :=
  ⟨fun _ => rfl, fun _ => rfl, fun _ => Or.inl, id⟩

theorem SameWork.trans {d₁ : Dispatcher} (h₁ : SameWork passes d d₁)
    (h₂ : SameWork passes d₁ d') : SameWork passes d d' := by
  refine ⟨fun c => (h₂.pin c).trans (h₁.pin c), fun t => (h₂.about t).trans (h₁.about t), ?_,
    fun h => h₂.agree (h₁.agree h)⟩
  intro t ht
  rcases h₂.acting t ht with ht | ht
  · exact h₁.acting t ht
  · exact Or.inr ht

/-! ### Steps that leave the work alone -/

def work (d : Dispatcher) : Dict CtxId WorkflowContext × Dict FinalizeId FinalizeTask :=
  (d.contexts, d.tasks)

theorem SameWork.of_work (h : d'.work = d.work) : SameWork passes d d' := by
  obtain ⟨hcontexts, htasks⟩ := Prod.mk.inj h
  have hpin : d'.pin = d.pin := by simp only [funext_iff, Dispatcher.pin, hcontexts, implies_true]
  refine ⟨fun c => congrFun hpin c, fun t => ?_, fun t ht => Or.inl ?_, ?_⟩
  · simp only [Dispatcher.about, htasks]
  · simpa only [Dispatcher.acting, htasks] using ht
  · intro hagree t task ht
    rw [htasks] at ht
    simpa only [Suits, hpin] using hagree t task ht

@[simp] theorem work_deregisterWorkflow (d : Dispatcher) (w : String) :
    (d.deregisterWorkflow E w).work = d.work := by
  unfold deregisterWorkflow
  split <;> rfl

@[simp] theorem work_logTaskError (d : Dispatcher) (p : TaskErrorPayload) :
    (d.logTaskError E p).work = d.work := by
  unfold logTaskError
  split
  · rfl
  · exact work_deregisterWorkflow d _

theorem work_handleTaskError (d : Dispatcher) (msg : NMBMessage π) :
    (d.handleTaskError E msg).work = d.work := by
  unfold handleTaskError
  split
  · rfl
  · split
    · rfl
    · split
      · rfl
      · exact work_logTaskError d _

theorem work_handleTaskProgress (d : Dispatcher) (msg : NMBMessage π) :
    (d.handleTaskProgress E msg).work = d.work := by
  unfold handleTaskProgress
  split
  · rfl
  · split
    · rfl
    · split <;> rfl

theorem work_handleAuditFlush (d : Dispatcher) (msg : NMBMessage π) :
    (d.handleAuditFlush E msg).work = d.work := by
  unfold handleAuditFlush
  split
  · split <;> rfl
  · rfl

theorem work_resumeLoop {p : LoopPhase} (h : d.resumeLoop E p = some d') : d'.work = d.work := by
  cases p with
  | idle => contradiction
  | renderingError payload =>
    obtain rfl := Option.some.inj h
    exact work_logTaskError d payload
  | loggingError payload =>
    obtain rfl := Option.some.inj h
    exact work_deregisterWorkflow d _
  | deregistering | renderingProgress | ingestingFlush =>
    obtain rfl := Option.some.inj h
    rfl

theorem work_dispatch {msg : NMBMessage π} (iteration : ℕ)
    (hother : msg.type ≠ some MessageType.taskComplete.value) :
    (d.dispatch E msg iteration).work = d.work := by
  unfold dispatch
  rw [if_neg hother]
  split_ifs
  · exact work_handleTaskError d msg
  · exact work_handleTaskProgress d msg
  · exact work_handleAuditFlush d msg
  · rfl

/-! ### Contexts and finalisation tasks -/

/-- A context gets another assignment with the same pin. -/
theorem sameWork_setTask {c : CtxId} {context : WorkflowContext}
    (hc : d.contexts.lookup c = some context) {task : TaskAssignPayload}
    (hpin : task.pin = context.task.pin) :
    SameWork passes d { d with contexts := d.contexts.insert c { context with task := task } } := by
  have hsame : ∀ c', Dispatcher.pin { d with
      contexts := d.contexts.insert c { context with task := task } } c' = d.pin c' := by
    intro c'
    unfold Dispatcher.pin
    by_cases h : c' = c
    · subst h
      rw [AList.lookup_insert, hc, Option.map_some, Option.map_some, hpin]
    · rw [AList.lookup_insert_ne h]
  refine ⟨hsame, fun _ => rfl, fun _ => Or.inl, ?_⟩
  intro hagree t task' ht session hp
  rw [hsame]
  exact hagree t task' ht session hp

section

variable {t : FinalizeId} {task : FinalizeTask} {context : WorkflowContext}

theorem sameWork_setPhase (ht : d.tasks.lookup t = some task) {phase : FinalizePhase}
    (hacts : phase.acts = true → task.phase.acts = true ∨ passes t)
    (hsuits : d.Agree → d.Suits task.context phase) :
    SameWork passes d (d.setPhase t task phase) := by
  refine ⟨fun _ => rfl, ?_, ?_, ?_⟩
  · intro t'
    unfold about setPhase
    by_cases h : t' = t
    · subst h
      rw [AList.lookup_insert, ht]
      rfl
    · rw [AList.lookup_insert_ne h]
  · intro t' hacting
    unfold acting setPhase at hacting
    by_cases h : t' = t
    · subst h
      rw [AList.lookup_insert] at hacting
      simpa only [acting, ht, Option.any_some] using hacts hacting
    · rw [AList.lookup_insert_ne h] at hacting
      exact Or.inl hacting
  · intro hagree t' task' ht'
    rcases Dict.lookup_insert_eq_some.1 ht' with ⟨-, rfl⟩ | ⟨-, ht'⟩
    · exact hsuits hagree
    · exact hagree t' task' ht'

theorem suits_of_not_acts {c : CtxId} {phase : FinalizePhase} (h : phase.acts = false) :
    d.Suits c phase := by
  intro session hp
  rcases hp with rfl | rfl <;> contradiction

/-- A phase in which nothing is done. -/
theorem sameWork_rest (ht : d.tasks.lookup t = some task) {phase : FinalizePhase}
    (h : phase.acts = false) : SameWork passes d (d.setPhase t task phase) :=
  sameWork_setPhase ht (fun hacts => absurd hacts (by simp [h])) fun _ => suits_of_not_acts h

theorem sameWork_finishTerminal (ht : d.tasks.lookup t = some task) :
    SameWork passes d (d.finishTerminal E t task context) := by
  have hwork := work_deregisterWorkflow (E := E) d context.workflowId
  refine (SameWork.of_work hwork).trans (sameWork_rest ?_ ?_)
  · exact (congrArg (fun w => w.2.lookup t) hwork).trans ht
  · split <;> rfl

theorem sameWork_failFinalize (ht : d.tasks.lookup t = some task) (error : String) :
    SameWork passes d (d.failFinalize E t task context error) := by
  unfold failFinalize
  split
  · have heffect : SameWork passes d
        (d.effect (.completionFailure context task.complete error)) := SameWork.of_work rfl
    refine heffect.trans (sameWork_rest ?_ rfl)
    exact ht
  · exact sameWork_finishTerminal ht

theorem sameWork_startFinalize (ht : d.tasks.lookup t = some task)
    (hpasses : E.config.finalizer = true → verifyBaseline context.task task.complete = true →
      passes t) : SameWork passes d (d.startFinalize E t task context) := by
  unfold startFinalize
  split
  · rename_i hfinalizer
    split
    · rename_i hverified
      refine sameWork_setPhase ht (fun _ => Or.inr (hpasses hfinalizer hverified)) fun _ => ?_
      intro session hp
      rcases hp with hp | hp <;> contradiction
    · exact sameWork_failFinalize ht _
  · split
    · have heffect : SameWork passes d
          (d.effect (.presentWork context task.complete.summary task.complete.diff)) :=
        SameWork.of_work rfl
      refine heffect.trans (sameWork_rest ?_ rfl)
      exact ht
    · exact sameWork_rest ht rfl

theorem sameWork_reDelegate (ht : d.tasks.lookup t = some task)
    (hc : d.contexts.lookup task.context = some context) {session : FinalizationSession}
    (hphase : task.phase = .deciding session) (hagree : d.Agree) (prompt : String)
    (maxTurns : Option ℤ) (model : Option String) :
    SameWork passes d (d.reDelegate E t task session context prompt maxTurns model) := by
  obtain ⟨hcontext, hpin⟩ := hagree t task ht session (Or.inl hphase)
  have hsession : session.task.pin = context.task.pin := by
    simpa [Dispatcher.pin, hc] using hpin.symm
  unfold reDelegate
  split
  · split
    · exact SameWork.refl d
    · rename_i followup hfollowup
      have hfollows := TaskAssignPayload.pin_followup hfollowup
      rw [← hcontext] at hc
      have hset : SameWork passes d { d with
          contexts := d.contexts.insert session.context { context with task := followup } } :=
        sameWork_setTask hc (hfollows.trans hsession)
      refine hset.trans (sameWork_setPhase ?_ ?_ fun _ => ?_)
      · exact ht
      · exact fun _ => Or.inl (by rw [hphase]; rfl)
      · intro session' hp
        rcases hp with hp | hp
        · contradiction
        · obtain rfl := FinalizePhase.delegating.inj hp
          exact ⟨hcontext, by rw [hset.pin, hpin, hfollows]⟩
  · exact SameWork.refl d

/-- The model goes on with the session that has re-delegated. -/
theorem sameWork_delegated (ht : d.tasks.lookup t = some task) {session : FinalizationSession}
    (hphase : task.phase = .delegating session) :
    SameWork passes d (d.setPhase t task (.deciding session)) := by
  refine sameWork_setPhase ht (fun _ => Or.inl (by rw [hphase]; rfl)) fun hagree => ?_
  intro session' hp
  rcases hp with hp | hp
  · obtain rfl := FinalizePhase.deciding.inj hp
    exact hagree t task ht session (Or.inr hphase)
  · contradiction

theorem sameWork_advance (hagree : d.Agree) (ht : d.tasks.lookup t = some task)
    (hc : d.contexts.lookup task.context = some context) {event : FinalizeEvent}
    (hs : d.advance E t task context task.phase event = some d') :
    SameWork (d.Passes E (.finalize t event)) d d' := by
  unfold advance at hs
  split at hs
  · obtain rfl := Option.some.inj hs
    exact sameWork_startFinalize ht fun hf h => ⟨rfl, hf, task, context, ht, hc, h⟩
  · obtain rfl := Option.some.inj hs
    exact sameWork_rest ht rfl
  · obtain rfl := Option.some.inj hs
    exact sameWork_failFinalize ht _
  · obtain rfl := Option.some.inj hs
    exact sameWork_failFinalize ht _
  · obtain rfl := Option.some.inj hs
    exact sameWork_failFinalize ht _
  · rename_i hphase
    obtain rfl := Option.some.inj hs
    refine sameWork_setPhase ht (fun _ => Or.inl (by rw [hphase]; rfl)) fun _ => ?_
    -- the session is opened on the assignment of the context
    intro session hp
    rcases hp with hp | hp
    · obtain rfl := FinalizePhase.deciding.inj hp
      exact ⟨rfl, by simp [Dispatcher.pin, hc]⟩
    · contradiction
  · rename_i session prompt maxTurns model hphase
    obtain rfl := Option.some.inj hs
    exact sameWork_reDelegate ht hc hphase hagree prompt maxTurns model
  · rename_i session hphase
    obtain rfl := Option.some.inj hs
    exact sameWork_delegated ht hphase
  · rename_i session error hphase
    obtain rfl := Option.some.inj hs
    exact sameWork_delegated ht hphase
  · obtain rfl := Option.some.inj hs
    split
    · exact sameWork_finishTerminal ht
    · exact sameWork_rest ht rfl
  · obtain rfl := Option.some.inj hs
    exact sameWork_finishTerminal ht
  · obtain rfl := Option.some.inj hs
    exact sameWork_finishTerminal ht
  · obtain rfl := Option.some.inj hs
    exact sameWork_rest ht rfl
  · contradiction

end

theorem sameWork_iterate (d : Dispatcher) (w prompt : String) :
    SameWork passes d (d.iterate E w prompt) := by
  unfold iterate
  split
  · exact SameWork.refl d
  · split
    · exact SameWork.refl d
    · rename_i context hc
      split
      · exact SameWork.refl d
      · rename_i followup hfollowup
        split
        · exact sameWork_setTask hc (TaskAssignPayload.pin_followup hfollowup)
        · exact SameWork.refl d

theorem sameWork_step (hagree : d.Agree) {e : DispatcherEvent π} (hother : e.other = true)
    (hs : d.step E e = some d') : SameWork (d.Passes E e) d d' := by
  cases e with
  | register => contradiction
  | deregister w =>
    obtain rfl := Option.some.inj hs
    exact SameWork.of_work (work_deregisterWorkflow d w)
  | iterate w prompt =>
    obtain rfl := Option.some.inj hs
    exact sameWork_iterate d w prompt
  | message msg iteration =>
    simp only [step, Option.ite_none_right_eq_some] at hs
    obtain rfl := Option.some.inj hs.2
    exact SameWork.of_work (work_dispatch iteration (of_decide_eq_true hother))
  | loop => exact SameWork.of_work (work_resumeLoop hs)
  | finalize t event =>
    obtain ⟨task, ht, hs⟩ := Option.bind_eq_some_iff.1 hs
    obtain ⟨context, hc, hs⟩ := Option.bind_eq_some_iff.1 hs
    exact sameWork_advance hagree ht hc hs

/-! ### New contexts and new finalisation tasks -/

theorem pin_registerWorkflow (d : Dispatcher) (context : WorkflowContext) (c : CtxId) :
    (d.registerWorkflow context).pin c =
      if c = d.nextContext then some (context.workflowId, context.task.pin) else d.pin c := by
  unfold Dispatcher.pin registerWorkflow
  split_ifs with h
  · rw [h, AList.lookup_insert]
    rfl
  · rw [AList.lookup_insert_ne h]

theorem agree_registerWorkflow (h : Filed d) (hagree : d.Agree) (context : WorkflowContext) :
    (d.registerWorkflow context).Agree := by
  intro t task ht session hp
  obtain ⟨hcontext, hpin⟩ := hagree t task ht session hp
  refine ⟨hcontext, ?_⟩
  obtain ⟨context', hc⟩ := h.task t task ht
  rw [pin_registerWorkflow, if_neg (Nat.ne_of_lt (h.fresh _ _ hc)), hpin]

/-- `d'` is `d` with a finalisation task for the completion of a workflow. -/
structure Forks (d d' : Dispatcher) (payload : TaskCompletePayload) : Prop where
  pin : ∀ c, d'.pin c = d.pin c
  about : ∃ c, (d.pin c).map Prod.fst = some payload.workflowId.val ∧
    ∀ t, d'.about t = if t = d.nextTask then some (c, payload) else d.about t
  acting : ∀ t, d'.acting t = true → t ≠ d.nextTask ∧ d.acting t = true
  agree : d.Agree → d'.Agree

/-- A completion is dropped, or a finalisation task is forked for it. -/
theorem complete_step (h : Filed d) {msg : NMBMessage π} {iteration : ℕ}
    {payload : TaskCompletePayload} (htype : msg.type = some MessageType.taskComplete.value)
    (hload : load E.codec.validateComplete .taskComplete msg.payload = .ok payload)
    (hs : d.step E (.message msg iteration) = some d') :
    d'.nextTask = d.nextTask ∧ d'.work = d.work ∨
      d'.nextTask = d.nextTask + 1 ∧ Forks d d' payload := by
  simp only [step, Option.ite_none_right_eq_some] at hs
  obtain rfl := Option.some.inj hs.2
  unfold dispatch handleTaskComplete
  rw [if_pos htype, hload]
  dsimp only
  cases hw : d.workflows.lookup payload.workflowId.val with
  | none => exact Or.inl ⟨rfl, rfl⟩
  | some c =>
    dsimp only
    split
    · exact Or.inl ⟨rfl, rfl⟩
    · obtain ⟨context, hc, hcontext⟩ := h.workflow _ c hw
      refine Or.inr ⟨rfl, fun _ => rfl, ⟨c, by simp [Dispatcher.pin, hc, hcontext], ?_⟩, ?_, ?_⟩
      · intro t
        unfold Dispatcher.about forkFinalize
        split_ifs with ht
        · rw [ht, AList.lookup_insert]
          rfl
        · rw [AList.lookup_insert_ne ht]
      · intro t hacting
        unfold Dispatcher.acting forkFinalize at hacting
        by_cases ht : t = d.nextTask
        · subst ht
          rw [AList.lookup_insert] at hacting
          contradiction
        · rw [AList.lookup_insert_ne ht] at hacting
          exact ⟨ht, hacting⟩
      · intro hagree t task ht
        rcases Dict.lookup_insert_eq_some.1 ht with ⟨-, rfl⟩ | ⟨-, ht⟩
        · exact suits_of_not_acts rfl
        · exact hagree t task ht

end Dispatcher

end NemoClaw
