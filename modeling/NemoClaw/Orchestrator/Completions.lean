import NemoClaw.Orchestrator.Dispatcher

/-! Completions and their finalisations. The dispatcher tells a duplicate from a new completion by
whether a finalisation of the workflow is running, so both an early completion and a late duplicate
go wrong; a run finalises each completion exactly once as long as neither occurs. -/

namespace NemoClaw

open Lib

namespace Dispatcher

variable {π : Type} {E : DispatcherEnv π} {d d' : Dispatcher}

/-- Every completion that found its workflow registered was finalised exactly once. -/
def FinalizedOnce (d : Dispatcher) : Prop :=
  ∀ key, d.finalized.count key = if key ∈ d.arrived then 1 else 0

/-- A completion that finds its workflow registered is new if no finalisation of the workflow is
running, and a duplicate if one is. -/
def Timely (E : DispatcherEnv π) (d : Dispatcher) : DispatcherEvent π → Prop
  | .message msg iteration => ∀ payload, msg.type = some MessageType.taskComplete.value →
      load E.codec.validateComplete .taskComplete msg.payload = .ok payload →
        d.workflows.lookup payload.workflowId.val ≠ none →
          (d.finalizing payload.workflowId.val = true ↔
            (payload.workflowId.val, iteration) ∈ d.arrived)
  | _ => True

/-! ### Steps that log nothing -/

theorem log_eq_of_loopState (h : d'.loopState = d.loopState) : d'.log = d.log :=
  congrArg (fun state => state.2.2) h

@[simp] theorem log_deregisterInLoop (d : Dispatcher) (w : String) :
    (d.deregisterInLoop E w).log = d.log := by
  have h : (d.deregisterWorkflow E w).log = d.log :=
    log_eq_of_loopState (loopState_deregisterWorkflow d w)
  exact h

theorem log_logTaskError (d : Dispatcher) (p : TaskErrorPayload) :
    (d.logTaskError E p).log = d.log := by
  unfold logTaskError
  split
  · rfl
  · simp

theorem log_handleTaskError (d : Dispatcher) (msg : NMBMessage π) :
    (d.handleTaskError E msg).log = d.log := by
  unfold handleTaskError
  split
  · rfl
  · split
    · rfl
    · split
      · rfl
      · exact log_logTaskError d _

theorem log_handleTaskProgress (d : Dispatcher) (msg : NMBMessage π) :
    (d.handleTaskProgress E msg).log = d.log := by
  unfold handleTaskProgress
  split
  · rfl
  · split
    · rfl
    · split <;> rfl

theorem log_handleAuditFlush (d : Dispatcher) (msg : NMBMessage π) :
    (d.handleAuditFlush E msg).log = d.log := by
  unfold handleAuditFlush
  split
  · split <;> rfl
  · rfl

theorem log_resumeLoop {p : LoopPhase} (h : d.resumeLoop E p = some d') : d'.log = d.log := by
  cases p with
  | idle => contradiction
  | renderingError payload =>
    obtain rfl := Option.some.inj h
    exact log_logTaskError d payload
  | loggingError payload =>
    obtain rfl := Option.some.inj h
    simp
  | deregistering | renderingProgress | ingestingFlush =>
    obtain rfl := Option.some.inj h
    rfl

theorem finalizedOnce_congr (h : d'.log = d.log) : d'.FinalizedOnce ↔ d.FinalizedOnce := by
  obtain ⟨harrived, hfinalized⟩ := Prod.mk.inj h
  simp only [FinalizedOnce, harrived, hfinalized]

/-! ### The step that does -/

/-- With `key` arrived, leaving the finalised completions as they are is right exactly for a
duplicate, and finalising it exactly for a new one. -/
theorem finalizedOnce_arrived (h : d.FinalizedOnce) (key : String × ℕ) (forked : Bool)
    (harrived : d'.arrived = d.arrived ++ [key])
    (hfinalized : d'.finalized = d.finalized ++ if forked then [key] else []) :
    d'.FinalizedOnce ↔ (forked = false ↔ key ∈ d.arrived) := by
  have hkey := h key
  refine ⟨?_, ?_⟩
  · intro h'
    have hkey' := h' key
    rw [harrived, hfinalized, List.count_append] at hkey'
    by_cases hmem : key ∈ d.arrived <;> cases forked <;> simp_all
  · intro hiff other
    have hother := h other
    rw [harrived, hfinalized, List.count_append]
    by_cases he : other = key
    · subst he
      by_cases hmem : other ∈ d.arrived <;> cases forked <;> simp_all
    · have he' : key ≠ other := Ne.symm he
      cases forked <;> simp_all

theorem handleTaskComplete_iff (h : d.FinalizedOnce) {msg : NMBMessage π} {iteration : ℕ}
    (htype : msg.type = some MessageType.taskComplete.value) :
    (d.handleTaskComplete E msg iteration).FinalizedOnce ↔ Timely E d (.message msg iteration) := by
  unfold handleTaskComplete
  cases hload : load E.codec.validateComplete .taskComplete msg.payload with
  | error why =>
    apply iff_of_true h
    intro payload _ hok
    rw [hload] at hok
    contradiction
  | ok payload =>
    have htimely : Timely E d (.message msg iteration) ↔
        (d.workflows.lookup payload.workflowId.val ≠ none →
          (d.finalizing payload.workflowId.val = true ↔
            (payload.workflowId.val, iteration) ∈ d.arrived)) := by
      refine ⟨fun ht => ht payload htype hload, ?_⟩
      intro ht payload' _ hok
      rw [hload] at hok
      obtain rfl := Except.ok.inj hok
      exact ht
    rw [htimely]
    dsimp only
    cases hw : d.workflows.lookup payload.workflowId.val with
    | none => exact iff_of_true h fun hne => absurd rfl hne
    | some context =>
      simp only [ne_eq, reduceCtorEq, not_false_eq_true, forall_const]
      cases hrun : d.finalizing payload.workflowId.val with
      | true =>
        have hsame : Dispatcher.finalizing { d with
            arrived := d.arrived ++ [(payload.workflowId.val, iteration)] }
              payload.workflowId.val = true := hrun
        rw [if_pos hsame]
        have hiff : Dispatcher.FinalizedOnce { d with
            arrived := d.arrived ++ [(payload.workflowId.val, iteration)] } ↔ _ :=
          finalizedOnce_arrived h (payload.workflowId.val, iteration) false rfl
            (List.append_nil _).symm
        simpa using hiff
      | false =>
        have hsame : Dispatcher.finalizing { d with
            arrived := d.arrived ++ [(payload.workflowId.val, iteration)] }
              payload.workflowId.val = false := hrun
        rw [if_neg (by simp [hsame])]
        simpa using finalizedOnce_arrived h (payload.workflowId.val, iteration) true rfl rfl

theorem finalizedOnce_step_iff (h : d.FinalizedOnce) {e : DispatcherEvent π}
    (hs : d.step E e = some d') : d'.FinalizedOnce ↔ Timely E d e := by
  cases e with
  | register context =>
    obtain rfl := Option.some.inj hs
    exact iff_of_true h trivial
  | deregister w =>
    obtain rfl := Option.some.inj hs
    have hlog := log_eq_of_loopState (loopState_deregisterWorkflow (E := E) d w)
    exact iff_of_true ((finalizedOnce_congr hlog).2 h) trivial
  | iterate w prompt =>
    obtain rfl := Option.some.inj hs
    have hlog := log_eq_of_loopState (loopState_iterate (E := E) d w prompt)
    exact iff_of_true ((finalizedOnce_congr hlog).2 h) trivial
  | loop => exact iff_of_true ((finalizedOnce_congr (log_resumeLoop hs)).2 h) trivial
  | finalize t event =>
    obtain ⟨task, -, hs⟩ := Option.bind_eq_some_iff.1 hs
    obtain ⟨context, -, hs⟩ := Option.bind_eq_some_iff.1 hs
    have hlog := log_eq_of_loopState (loopState_advance hs)
    exact iff_of_true ((finalizedOnce_congr hlog).2 h) trivial
  | message msg iteration =>
    simp only [step, Option.ite_none_right_eq_some] at hs
    obtain rfl := Option.some.inj hs.2
    unfold dispatch
    by_cases htype : msg.type = some MessageType.taskComplete.value
    · rw [if_pos htype]
      exact handleTaskComplete_iff h htype
    · rw [if_neg htype]
      refine iff_of_true ((finalizedOnce_congr ?_).2 h) fun _ ht => absurd ht htype
      split_ifs
      · exact log_handleTaskError d msg
      · exact log_handleTaskProgress d msg
      · exact log_handleAuditFlush d msg
      · rfl

/-- The finalization model re-delegates, and the agent is done before the model is. -/
def earlyCompletion : List (DispatcherEvent WirePayload) :=
  [.register { workflowId := "wf-1", task := fixBugTask }, .message (fixBugComplete "m-1") 0,
    .finalize 0 .started, .finalize 0 .resumed, .finalize 0 (.reDelegate "Add a test" none none),
    .finalize 0 .resumed, .message (fixBugComplete "m-2") 1]

end Dispatcher

end NemoClaw
