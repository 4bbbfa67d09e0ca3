import NemoClaw.Orchestrator.Clicks
import NemoClaw.Orchestrator.History

/-! The write gate of the orchestrator. Calls of tools that write are executed only by the request
of an Approve click, as the batch that the click popped; a batch is popped once, by Approve or
Deny. -/

namespace NemoClaw

open Lib

/-- The batch that an entry takes out of `_pending_approvals` on a click. -/
def OrchestratorEntry.popped : OrchestratorEntry → Option BatchId
  | .approved _ _ batch _ | .dropped _ batch => some batch
  | .stored _ _ _ _ | .message _ _ _ | .iterate _ _ => none

/-- The approved batch behind which a request resumes. -/
def HandlingPhase.resumes : HandlingPhase → Option BatchId
  | .resuming _ approval => some approval.batch
  | _ => none

/-- The approved batch that a request is executing, and its slots. -/
def HandlingPhase.approvedSlots : HandlingPhase → Option (BatchId × List Slot)
  | .resuming run approval => run.approvedSlots.map fun slots => (approval.batch, slots)
  | _ => none

/-- The tool calls that a request is executing. -/
def Handling.executing (t : Handling) : List ToolCall :=
  match t.phase with
  | .running run | .resuming run _ => run.executing
  | _ => []

/-- The request that begins, goes on or is cancelled. -/
def OrchestratorEvent.handler : OrchestratorEvent → Option HandlerId
  | .handle h _ _ | .run h _ | .cancel h => some h
  | .post _ | .actions _ => none

namespace Orchestrator

/-- The request executes a batch that was stored for a thread, and popped by an Approve click for
the thread. -/
def ExecutesApproved (s : Orchestrator) (t : Handling) : Prop :=
  ∃ batch threadKey prompt description before after, t.phase.resumes = some batch ∧
    s.log = before ++ .approved threadKey prompt batch t.executing :: after ∧
      .stored threadKey batch t.executing description ∈ before ∧
        approvals.content before threadKey = some batch

/-- What a request executes passed the gate, or is the batch that its click approved. -/
def Admitted (E : OrchestratorEnv) (log : List OrchestratorEntry) : HandlingPhase → Prop
  | .running run => AgentRun.Gated E.agent none run
  | .resuming run approval => AgentRun.Gated E.agent (some approval.pending.toolCalls) run ∧
      ∃ threadKey prompt,
        .approved threadKey prompt approval.batch approval.pending.toolCalls ∈ log
  | _ => True

/-- The call of an approved batch whose handler is done with the step: its batch and its place. -/
def performs (s : Orchestrator) : OrchestratorEvent → Option (BatchId × ℕ)
  | .run h (.toolReturned i _) =>
    ((s.handlings.lookup h).bind fun t => t.phase.approvedSlots).map fun p => (p.1, i)
  | _ => none

/-- The calls of approved batches that a run has performed, in order. -/
def performed (tr : List (Orchestrator × OrchestratorEvent)) : List (BatchId × ℕ) :=
  tr.filterMap fun p => p.1.performs p.2

structure Gate (E : OrchestratorEnv) (s : Orchestrator) : Prop where
  admitted : ∀ h t, s.handlings.lookup h = some t → Admitted E s.log t.phase
  alone : ∀ h h' t t' batch, s.handlings.lookup h = some t → s.handlings.lookup h' = some t' →
    t.phase.resumes = some batch → t'.phase.resumes = some batch → h = h'

/-- A request goes on to an admitted phase, in which it resumes no run but this one. -/
def Puts (E : OrchestratorEnv) (s s' : Orchestrator) (h : HandlerId)
    (next : Option (AgentRun × StoredApproval)) : Prop :=
  ∃ t, s'.handlings = s.handlings.insert h t ∧ s.log <+: s'.log ∧ Admitted E s'.log t.phase ∧
    ∀ run approval, t.phase = .resuming run approval → next = some (run, approval)

/-- The request is an Approve click, and there are tools to execute. -/
def Approves (E : OrchestratorEnv) (request : NormalizedRequest) : Prop :=
  E.agent.tools.tools ≠ [] ∧ ∃ action ∈ request.action, action.actionId = approvalActionApprove

/-- The event is an Approve click that finds this approval pending in its thread. -/
def Pops (E : OrchestratorEnv) (s : Orchestrator) (e : OrchestratorEvent) (h : HandlerId)
    (approval : StoredApproval) : Prop :=
  ∃ request circumstances, e = .handle h request circumstances ∧ Approves E request ∧
    s.pendingApprovals.lookup request.threadKey = some approval

/-- A run is resumed by a step of it, or by an Approve click that pops the batch. -/
def Resumes (E : OrchestratorEnv) (s : Orchestrator) (e : OrchestratorEvent) (h : HandlerId)
    (run : AgentRun) (approval : StoredApproval) : Prop :=
  (∃ e' t before, e = .run h e' ∧ s.handlings.lookup h = some t ∧
    t.phase = .resuming before approval ∧ before.step E.agent e' = some run) ∨
  s.Pops E e h approval ∧ run = AgentRun.resume approval.pending

variable {E : OrchestratorEnv} {s s' : Orchestrator} {h : HandlerId} {request : NormalizedRequest}
  {log : List OrchestratorEntry}

/-! ### What the log says of the batches -/

theorem once_of_legal (hl : Legal (LegalEntry E) log) : approvals.Once log := by
  induction log using List.reverseRecOn with
  | nil => exact List.nodup_nil
  | append_singleton log e ih =>
    obtain ⟨hlog, he⟩ := legal_snoc.1 hl
    refine Slots.once_snoc.2 ⟨ih hlog, ?_⟩
    intro batch hitem
    cases e with
    | stored threadKey batch' calls description =>
      obtain rfl := Option.some.inj hitem
      exact he.1
    | message threadKey isText feedback => cases feedback <;> simp [Slots.item, approvals] at hitem
    | approved | dropped | iterate => simp [Slots.item, approvals] at hitem

/-- A batch is popped from the slot of a thread. -/
theorem held_of_popped {e : OrchestratorEntry} {batch : BatchId} (hl : LegalEntry E log e)
    (he : e.popped = some batch) : ∃ threadKey,
      approvals.writes e = some (threadKey, none) ∧
        approvals.content log threadKey = some batch := by
  cases e with
  | approved threadKey prompt batch' calls =>
    obtain rfl := Option.some.inj he
    exact ⟨threadKey, rfl, hl.1⟩
  | dropped threadKey batch' =>
    obtain rfl := Option.some.inj he
    exact ⟨threadKey, rfl, hl⟩
  | stored | message | iterate => contradiction

/-- A batch that is pending has not been popped: it is stored only once. -/
theorem not_popped_of_held (hl : Legal (LegalEntry E) log) {threadKey : String} {batch : BatchId}
    (hheld : approvals.content log threadKey = some batch) :
    ∀ e ∈ log, e.popped ≠ some batch := by
  intro e hmem hpopped
  obtain ⟨before, after, rfl⟩ := List.append_of_mem hmem
  obtain ⟨threadKey', hempty, hheld'⟩ := held_of_popped (hl before e after rfl) hpopped
  exact Slots.gone (once_of_legal hl) hheld' hempty threadKey hheld

theorem popped_once (hl : Legal (LegalEntry E) log) :
    (log.filterMap OrchestratorEntry.popped).Nodup := by
  induction log using List.reverseRecOn with
  | nil => exact List.nodup_nil
  | append_singleton log e ih =>
    obtain ⟨hlog, he⟩ := legal_snoc.1 hl
    rw [List.filterMap_append, List.nodup_append]
    refine ⟨ih hlog, ?_, ?_⟩
    · cases hpopped : e.popped with
      | none => simp [hpopped]
      | some batch => simp [hpopped]
    · intro batch hbatch batch' hbatch' heq
      subst heq
      obtain ⟨e', hmem', hpopped'⟩ := List.mem_filterMap.1 hbatch
      obtain ⟨e'', hmem, hpopped⟩ := List.mem_filterMap.1 hbatch'
      obtain rfl := List.mem_singleton.1 hmem
      obtain ⟨threadKey, -, hheld⟩ := held_of_popped he hpopped
      exact not_popped_of_held hlog hheld e' hmem' hpopped'

/-- No other entry pops the batch. -/
theorem popped_elsewhere (hl : Legal (LegalEntry E) log) {before after : List OrchestratorEntry}
    {e : OrchestratorEntry} {batch : BatchId} (hlog : log = before ++ e :: after)
    (he : e.popped = some batch) : ∀ e' ∈ before ++ after, e'.popped ≠ some batch := by
  subst hlog
  have hnodup := popped_once hl
  rw [List.filterMap_append, List.filterMap_cons, he, List.nodup_middle, List.nodup_cons,
    ← List.filterMap_append] at hnodup
  intro e' hmem hpopped
  exact hnodup.1 (List.mem_filterMap.2 ⟨e', hmem, hpopped⟩)

/-! ### What each part of a request does to the gate -/

theorem Admitted.grow {phase : HandlingPhase} {log' : List OrchestratorEntry}
    (ha : Admitted E log phase) (hlog : log <+: log') : Admitted E log' phase := by
  cases phase with
  | running => exact ha
  | resuming run approval =>
    obtain ⟨hgated, threadKey, prompt, hmem⟩ := ha
    exact ⟨hgated, threadKey, prompt, hlog.subset hmem⟩
  | inferring | finalizing | replied | raised | cancelled => trivial

theorem popped_of_resumes {phase : HandlingPhase} {batch : BatchId} (ha : Admitted E log phase)
    (hresumes : phase.resumes = some batch) : ∃ e ∈ log, e.popped = some batch := by
  cases phase with
  | resuming run approval =>
    obtain rfl := Option.some.inj hresumes
    obtain ⟨-, threadKey, prompt, hmem⟩ := ha
    exact ⟨_, hmem, rfl⟩
  | running | inferring | finalizing | replied | raised | cancelled => contradiction

theorem Puts.resumes_none {P : AgentRun → StoredApproval → Prop} (hp : Puts E s s' h none) :
    ∃ next, Puts E s s' h next ∧
      ∀ run approval, next = some (run, approval) → P run approval := by
  refine ⟨none, hp, ?_⟩
  intro run approval hnext
  contradiction

theorem puts_setPhase {phase : HandlingPhase} {next : Option (AgentRun × StoredApproval)}
    (ha : Admitted E s.log phase)
    (hnext : ∀ run approval, phase = .resuming run approval → next = some (run, approval)) :
    Puts E s (s.setPhase h request phase) h next :=
  ⟨_, rfl, List.prefix_refl _, ha, hnext⟩

theorem puts_plain {phase : HandlingPhase} {next : Option (AgentRun × StoredApproval)}
    (hlog : s.log <+: s'.log) (hhandlings : s'.handlings = s.handlings.insert h ⟨request, phase⟩)
    (ha : ∀ log, Admitted E log phase) (hphase : phase.resumes = none) : Puts E s s' h next := by
  refine ⟨_, hhandlings, hlog, ha _, ?_⟩
  rintro run approval rfl
  contradiction

theorem puts_replied {reply : Reply} {next : Option (AgentRun × StoredApproval)}
    (hlog : s.log <+: s'.log)
    (hhandlings : s'.handlings = s.handlings.insert h ⟨request, .replied reply⟩) :
    Puts E s s' h next :=
  puts_plain hlog hhandlings (fun _ => trivial) rfl

theorem puts_finalizing {next : Option (AgentRun × StoredApproval)} (hlog : s.log <+: s'.log)
    (hhandlings : s'.handlings = s.handlings.insert h ⟨request, .finalizing⟩) :
    Puts E s s' h next :=
  puts_plain hlog hhandlings (fun _ => trivial) rfl

theorem puts_running {run : AgentRun} (hg : AgentRun.Gated E.agent none run)
    (request : NormalizedRequest) (category : ErrorCategory) :
    Puts E s (s.running E h request run category) h none := by
  unfold running
  split
  · exact puts_replied (List.prefix_refl _) rfl
  · exact puts_replied (List.prefix_append _ _) rfl
  · exact puts_replied (List.prefix_refl _) rfl
  · refine ⟨_, rfl, List.prefix_refl _, hg, ?_⟩
    intro run approval hphase
    contradiction

theorem puts_resuming {run : AgentRun} {approval : StoredApproval}
    (ha : Admitted E s.log (.resuming run approval)) :
    Puts E s (s.resuming E h request run approval) h (some (run, approval)) := by
  unfold resuming
  split
  · exact puts_replied (List.prefix_refl _) rfl
  · exact puts_replied (List.prefix_append _ _) rfl
  · exact puts_plain (List.prefix_refl _) rfl (fun _ => trivial) rfl
  · apply puts_setPhase ha
    intro run' approval' hphase
    obtain ⟨rfl, rfl⟩ := HandlingPhase.resuming.inj hphase
    rfl

theorem puts_inferring (messages : List Message) (chunks : List String) (attempt : ℕ)
    (response : Except String InferenceResponse) :
    Puts E s (s.inferring E h request messages chunks attempt response) h none := by
  unfold inferring
  split
  · split
    · exact puts_replied (List.prefix_refl _) rfl
    · exact puts_plain (List.prefix_refl _) rfl (fun _ => trivial) rfl
  · exact puts_replied (List.prefix_refl _) rfl

theorem puts_handleMessage (systemPrompt : String) :
    Puts E s (s.handleMessage E h request systemPrompt) h none := by
  unfold handleMessage
  dsimp only
  split_ifs
  · exact puts_finalizing (List.prefix_append _ _) rfl
  · exact puts_plain (List.prefix_append _ _) rfl (fun _ => trivial) rfl
  · obtain ⟨t, hhandlings, hlog, hrest⟩ := puts_running (E := E) (h := h)
      (s := { s.record _ with pendingApprovals := _ }) (AgentRun.quiet_start _ _ _).gated request
      .unknown
    exact ⟨t, hhandlings, (List.prefix_append _ _).trans hlog, hrest⟩

/-- An Approve click resumes what it pops. -/
theorem puts_handleWriteApproval (request : NormalizedRequest) (prompt : Option BatchId) :
    ∃ next, Puts E s (s.handleWriteApproval E h request prompt) h next ∧
      ∀ run approval, next = some (run, approval) → E.agent.tools.tools ≠ [] ∧
        s.pendingApprovals.lookup request.threadKey = some approval ∧
          run = AgentRun.resume approval.pending := by
  unfold handleWriteApproval
  split
  · apply Puts.resumes_none
    exact puts_replied (List.prefix_refl _) rfl
  · rename_i approval ha
    dsimp only
    split_ifs with htools
    · apply Puts.resumes_none
      exact puts_replied (List.prefix_append _ _) rfl
    · refine ⟨some (AgentRun.resume approval.pending, approval),
        ⟨_, rfl, List.prefix_append _ _, ?_, ?_⟩, ?_⟩
      · exact ⟨AgentRun.gated_resume _, _, _, List.mem_append_right _ (List.mem_singleton_self _)⟩
      · intro run approval' hphase
        obtain ⟨rfl, rfl⟩ := HandlingPhase.resuming.inj hphase
        rfl
      · intro run approval' hnext
        obtain ⟨rfl, rfl⟩ := Prod.mk.inj (Option.some.inj hnext)
        exact ⟨htools, ha, rfl⟩

theorem puts_handle (request : NormalizedRequest) (circumstances : Circumstances) :
    ∃ next, Puts E s (s.handle E h request circumstances) h next ∧
      ∀ run approval, next = some (run, approval) →
        Resumes E s (.handle h request circumstances) h run approval := by
  unfold handle
  split
  · exact (puts_handleMessage _).resumes_none
  · rename_i action haction
    split_ifs with happrove
    · obtain ⟨next, hputs, hnext⟩ :=
        puts_handleWriteApproval (E := E) (s := s) (h := h) request circumstances.prompt
      refine ⟨next, hputs, ?_⟩
      intro run approval heq
      obtain ⟨htools, ha, hrun⟩ := hnext run approval heq
      exact Or.inr ⟨⟨_, _, rfl, ⟨htools, action, haction, happrove⟩, ha⟩, hrun⟩
    · apply Puts.resumes_none
      unfold handleWriteDenial
      split
      · exact puts_replied (List.prefix_refl _) rfl
      · exact puts_replied (List.prefix_append _ _) rfl
    · apply Puts.resumes_none
      unfold handleFinalizationAction
      dsimp only
      split_ifs
      · exact puts_finalizing (List.prefix_append _ _) rfl
      · exact puts_finalizing (List.prefix_refl _) rfl
    · exact (puts_handleMessage _).resumes_none

/-! ### Runs -/

theorem puts_advance (hg : Gate E s) {t : Handling} {e : RunEvent}
    (ht : s.handlings.lookup h = some t) (hs : s.advance E h t.request e t.phase = some s') :
    ∃ next, Puts E s s' h next ∧ ∀ run approval, next = some (run, approval) →
      Resumes E s (.run h e) h run approval := by
  have hadmitted := hg.admitted h t ht
  rcases advance_cases hs with ⟨run, run', hphase, hrun, rfl⟩ |
    ⟨run, run', approval, hphase, hrun, rfl⟩ | ⟨messages, chunks, attempt, response, rfl⟩
  · rw [hphase] at hadmitted
    have hgated : AgentRun.Gated E.agent none run' := AgentRun.gated_step hadmitted hrun
    exact (puts_running hgated t.request _).resumes_none
  · rw [hphase] at hadmitted
    refine ⟨_, puts_resuming ⟨AgentRun.gated_step hadmitted.1 hrun, hadmitted.2⟩, ?_⟩
    intro run'' approval' hnext
    obtain ⟨rfl, rfl⟩ := Prod.mk.inj (Option.some.inj hnext)
    exact Or.inl ⟨e, t, run, rfl, ht, hphase, hrun⟩
  · exact (puts_inferring _ _ _ _).resumes_none

/-- What a step does to the requests: nothing, or one request goes on. -/
theorem step_puts {e : OrchestratorEvent} (hg : Gate E s) (hs : s.step E e = some s') :
    e.handler = none ∧ s'.handlings = s.handlings ∧ s'.log = s.log ∨
      ∃ h next, e.handler = some h ∧ Puts E s s' h next ∧
        ∀ run approval, next = some (run, approval) → Resumes E s e h run approval := by
  rcases step_cases hs with ⟨h, request, circumstances, rfl, rfl⟩ | ⟨h, e', t, rfl, ht, hadvance⟩ |
    ⟨h, batch, rfl, rfl⟩ | ⟨e', actions, rfl, -, -, -, rfl⟩ | ⟨h, request, rfl, rfl⟩
  · obtain ⟨next, hp, hnext⟩ := puts_handle (E := E) (s := s) (h := h) request circumstances
    exact Or.inr ⟨h, next, rfl, hp, hnext⟩
  · obtain ⟨next, hp, hnext⟩ := puts_advance hg ht hadvance
    exact Or.inr ⟨h, next, rfl, hp, hnext⟩
  · exact Or.inl ⟨rfl, rfl, rfl⟩
  · exact Or.inl ⟨rfl, rfl, rfl⟩
  · refine Or.inr ⟨h, none, rfl, puts_plain (List.prefix_refl _) rfl (fun _ => trivial) rfl, ?_⟩
    intro run approval hnext
    contradiction

/-- What a click pops was not popped before. -/
theorem not_popped_of_pops {e : OrchestratorEvent} {approval : StoredApproval} (hr : Recorded E s)
    (hp : s.Pops E e h approval) : ∀ x ∈ s.log, x.popped ≠ some approval.batch := by
  obtain ⟨request, circumstances, -, -, ha⟩ := hp
  exact not_popped_of_held hr.legal (hr.approvals.content_of_lookup ha)

/-- A request resumes behind no batch that another one resumes behind. -/
theorem resumes_alone {e : OrchestratorEvent} {run : AgentRun} {approval : StoredApproval}
    (hr : Recorded E s) (hg : Gate E s) (hres : Resumes E s e h run approval) {h' : HandlerId}
    {t' : Handling} (hne : h' ≠ h) (ht' : s.handlings.lookup h' = some t') :
    t'.phase.resumes ≠ some approval.batch := by
  intro hb'
  rcases hres with ⟨e', t, before, -, ht, hphase, -⟩ | ⟨hpops, -⟩
  · exact hne (hg.alone h' h t' t approval.batch ht' ht hb' (by rw [hphase]; rfl))
  · obtain ⟨x, hmem, hpopped⟩ := popped_of_resumes (hg.admitted h' t' ht') hb'
    exact not_popped_of_pops hr hpops x hmem hpopped

theorem eq_resuming {phase : HandlingPhase} {batch : BatchId}
    (h : phase.resumes = some batch) :
    ∃ run approval, phase = .resuming run approval ∧ approval.batch = batch := by
  cases phase with
  | resuming run approval => exact ⟨run, approval, rfl, Option.some.inj h⟩
  | running | inferring | finalizing | replied | raised | cancelled => contradiction

theorem gate_step {e : OrchestratorEvent} (hr : Recorded E s) (hg : Gate E s)
    (hs : s.step E e = some s') : Gate E s' := by
  rcases step_puts hg hs with ⟨-, hhandlings, hlog⟩ | ⟨h, next, -, hp, hnext⟩
  · refine ⟨?_, ?_⟩
    · rw [hhandlings, hlog]
      exact hg.admitted
    · rw [hhandlings]
      exact hg.alone
  · obtain ⟨t, hhandlings, hlog, hadmitted, hresuming⟩ := hp
    have halone : ∀ h' t' batch, h' ≠ h → s.handlings.lookup h' = some t' →
        t.phase.resumes = some batch → t'.phase.resumes ≠ some batch := by
      intro h' t' batch hne ht' hb
      obtain ⟨run, approval, hphase, rfl⟩ := eq_resuming hb
      exact resumes_alone hr hg (hnext run approval (hresuming run approval hphase)) hne ht'
    refine ⟨?_, ?_⟩
    · intro h' t' ht'
      rw [hhandlings] at ht'
      rcases Dict.lookup_insert_eq_some.1 ht' with ⟨-, rfl⟩ | ⟨-, hold⟩
      · exact hadmitted
      · exact (hg.admitted h' t' hold).grow hlog
    · intro h₁ h₂ t₁ t₂ batch ht₁ ht₂ hb₁ hb₂
      rw [hhandlings] at ht₁ ht₂
      rcases Dict.lookup_insert_eq_some.1 ht₁ with ⟨rfl, rfl⟩ | ⟨hne₁, hold₁⟩
      · rcases Dict.lookup_insert_eq_some.1 ht₂ with ⟨rfl, -⟩ | ⟨hne₂, hold₂⟩
        · rfl
        · exact absurd hb₂ (halone h₂ t₂ batch hne₂ hold₂ hb₁)
      · rcases Dict.lookup_insert_eq_some.1 ht₂ with ⟨rfl, rfl⟩ | ⟨-, hold₂⟩
        · exact absurd hb₁ (halone h₁ t₁ batch hne₁ hold₁ hb₂)
        · exact hg.alone h₁ h₂ t₁ t₂ batch hold₁ hold₂ hb₁ hb₂

theorem gate_run {tr : List (Orchestrator × OrchestratorEvent)}
    (h : (orchestratorMachine E).Trace tr s) :
    Machine.Always (fun s => Recorded E s ∧ Gate E s) tr s := by
  refine h.always_of_invariant ⟨recorded_initial, ?_, ?_⟩ ?_
  · intro h t ht
    simp [orchestratorMachine] at ht
  · intro h h' t t' batch ht
    simp [orchestratorMachine] at ht
  · intro s e s' hi hs
    exact ⟨recorded_step hi.1 hs, gate_step hi.1 hi.2 hs⟩

/-! ### Each call once -/

/-- Calls that were performed stay filled slots, and none of them twice. -/
structure Performed (s : Orchestrator) (done : List (BatchId × ℕ)) : Prop where
  once : done.Nodup
  popped : ∀ p ∈ done, ∃ x ∈ s.log, x.popped = some p.1
  filled : ∀ p ∈ done, ∀ h t slots, s.handlings.lookup h = some t →
    t.phase.approvedSlots = some (p.1, slots) →
      ∃ call content, slots[p.2]? = some (call, some content)

theorem eq_of_approvedSlots {phase : HandlingPhase} {batch : BatchId} {slots : List Slot}
    (h : phase.approvedSlots = some (batch, slots)) : ∃ run approval,
      phase = .resuming run approval ∧ approval.batch = batch ∧
        run.approvedSlots = some slots := by
  cases phase with
  | resuming run approval =>
    obtain ⟨slots', hslots, heq⟩ := Option.map_eq_some_iff.1 h
    obtain ⟨rfl, rfl⟩ := Prod.mk.inj heq
    exact ⟨run, approval, rfl, rfl, hslots⟩
  | running | inferring | finalizing | replied | raised | cancelled => contradiction

/-- A call is performed by the request that executes its batch, in a slot without a result. -/
theorem performs_eq_some {e : OrchestratorEvent} {p : BatchId × ℕ}
    (hs : s.step E e = some s') (hp : s.performs e = some p) :
    ∃ h outcome t slots call, e = .run h (.toolReturned p.2 outcome) ∧
      s.handlings.lookup h = some t ∧ t.phase.approvedSlots = some (p.1, slots) ∧
        slots[p.2]? = some (call, none) := by
  unfold performs at hp
  split at hp
  · rename_i h i outcome
    obtain ⟨⟨batch, slots⟩, hfound, rfl⟩ := Option.map_eq_some_iff.1 hp
    obtain ⟨t, ht, hslots⟩ := Option.bind_eq_some_iff.1 hfound
    obtain ⟨run, approval, hphase, rfl, hrun⟩ := eq_of_approvedSlots hslots
    simp only [step, ht, Option.bind_some, advance, hphase, Option.map_eq_some_iff] at hs
    obtain ⟨run', hstep, -⟩ := hs
    obtain ⟨call, hslot⟩ := AgentRun.slot_of_toolReturned hstep hrun
    exact ⟨h, outcome, t, slots, call, rfl, ht, hslots, hslot⟩
  · contradiction

/-- An approved batch that is being executed after a step goes on by at most one result, or a click
has popped it and executes all its calls. -/
theorem approvedSlots_step {e : OrchestratorEvent} (hg : Gate E s) (hs : s.step E e = some s')
    {h : HandlerId} {t' : Handling} {batch : BatchId} {slots' : List Slot}
    (ht' : s'.handlings.lookup h = some t')
    (hslots' : t'.phase.approvedSlots = some (batch, slots')) :
    (∃ t, s.handlings.lookup h = some t ∧ t.phase.approvedSlots = some (batch, slots') ∧
      e.handler ≠ some h) ∨
    (∃ t slots i outcome call content, s.handlings.lookup h = some t ∧
      t.phase.approvedSlots = some (batch, slots) ∧ e = .run h (.toolReturned i outcome) ∧
        slots[i]? = some (call, none) ∧ slots' = slots.set i (call, some content)) ∨
    ∃ approval, s.Pops E e h approval ∧ approval.batch = batch ∧
      slots' = approval.pending.toolCalls.map fun call => (call, none) := by
  rcases step_puts hg hs with ⟨hhandler, hhandlings, -⟩ | ⟨h', next, hhandler, hp, hnext⟩
  · exact Or.inl ⟨t', hhandlings ▸ ht', hslots', by simp [hhandler]⟩
  · obtain ⟨t, hhandlings, -, -, hresuming⟩ := hp
    rw [hhandlings] at ht'
    rcases Dict.lookup_insert_eq_some.1 ht' with ⟨rfl, rfl⟩ | ⟨hne, hold⟩
    · obtain ⟨run, approval, hphase, rfl, hrun⟩ := eq_of_approvedSlots hslots'
      rcases hnext run approval (hresuming run approval hphase) with
        ⟨e', t, before, rfl, ht, hbefore, hstep⟩ | ⟨hpops, rfl⟩
      · obtain ⟨slots, i, outcome, call, content, rfl, hslots, hslot, rfl⟩ :=
          AgentRun.approvedSlots_step hstep hrun
        refine Or.inr (Or.inl ⟨t, slots, i, outcome, call, content, ht, ?_, rfl, hslot, rfl⟩)
        simp [hbefore, HandlingPhase.approvedSlots, hslots]
      · exact Or.inr (Or.inr ⟨approval, hpops, rfl, (Option.some.inj hrun).symm⟩)
    · refine Or.inl ⟨t', hold, hslots', ?_⟩
      rw [hhandler]
      exact fun heq => hne (Option.some.inj heq).symm

theorem resumes_of_approvedSlots {phase : HandlingPhase} {batch : BatchId} {slots : List Slot}
    (h : phase.approvedSlots = some (batch, slots)) : phase.resumes = some batch := by
  obtain ⟨run, approval, rfl, rfl, -⟩ := eq_of_approvedSlots h
  rfl

theorem log_grows {e : OrchestratorEvent} (hg : Gate E s) (hs : s.step E e = some s') :
    s.log <+: s'.log := by
  rcases step_puts hg hs with ⟨-, -, hlog⟩ | ⟨h, next, -, ⟨t, -, hlog, -⟩, -⟩
  · rw [hlog]
  · exact hlog

/-- What was performed before a step stays filled. -/
theorem filled_step {e : OrchestratorEvent} {done : List (BatchId × ℕ)} (hr : Recorded E s)
    (hg : Gate E s) (hd : Performed s done) (hs : s.step E e = some s') {p : BatchId × ℕ}
    (hmem : p ∈ done) {h : HandlerId} {t' : Handling} {slots' : List Slot}
    (ht' : s'.handlings.lookup h = some t')
    (hslots' : t'.phase.approvedSlots = some (p.1, slots')) :
    ∃ call content, slots'[p.2]? = some (call, some content) := by
  rcases approvedSlots_step hg hs ht' hslots' with ⟨t, ht, hslots, -⟩ |
    ⟨t, slots, i, outcome, call, content, ht, hslots, -, hslot, rfl⟩ | ⟨approval, hpops, hbatch, -⟩
  · exact hd.filled p hmem h t slots' ht hslots
  · obtain ⟨call', content', hfilled⟩ := hd.filled p hmem h t slots ht hslots
    have hne : i ≠ p.2 := by
      rintro rfl
      simp [hslot] at hfilled
    refine ⟨call', content', ?_⟩
    rw [List.getElem?_set_ne hne]
    exact hfilled
  · obtain ⟨x, hx, hpopped⟩ := hd.popped p hmem
    rw [← hbatch] at hpopped
    exact absurd hpopped (not_popped_of_pops hr hpops x hx)

/-- What a step performs was not performed before, and is filled behind it. -/
theorem performs_step {e : OrchestratorEvent} {done : List (BatchId × ℕ)} (hg : Gate E s)
    (hd : Performed s done) (hs : s.step E e = some s') {p : BatchId × ℕ}
    (hp : s.performs e = some p) :
    p ∉ done ∧ (∃ x ∈ s.log, x.popped = some p.1) ∧
      ∀ h t' slots', s'.handlings.lookup h = some t' →
        t'.phase.approvedSlots = some (p.1, slots') →
          ∃ call content, slots'[p.2]? = some (call, some content) := by
  obtain ⟨h, outcome, t, slots, call, rfl, ht, hslots, hslot⟩ := performs_eq_some hs hp
  have hresumes := resumes_of_approvedSlots hslots
  have hpopped := popped_of_resumes (hg.admitted h t ht) hresumes
  refine ⟨?_, hpopped, ?_⟩
  · intro hmem
    obtain ⟨call', content, hfilled⟩ := hd.filled p hmem h t slots ht hslots
    simp [hslot] at hfilled
  · intro h' t' slots' ht' hslots'
    rcases approvedSlots_step hg hs ht' hslots' with ⟨t'', ht'', hslots'', hother⟩ |
      ⟨t'', slots'', i, outcome', call', content, -, -, heq, hslot', rfl⟩ |
      ⟨approval, ⟨request, circumstances, heq, -⟩, -⟩
    · obtain rfl := hg.alone h' h t'' t p.1 ht'' ht (resumes_of_approvedSlots hslots'') hresumes
      exact absurd rfl hother
    · obtain ⟨rfl, hreturned⟩ := OrchestratorEvent.run.inj heq
      obtain ⟨rfl, -⟩ := RunEvent.toolReturned.inj hreturned
      refine ⟨call', content, ?_⟩
      rw [List.getElem?_set_self]
      exact (List.getElem?_eq_some_iff.1 hslot').1
    · contradiction

theorem performed_step {e : OrchestratorEvent} {done : List (BatchId × ℕ)} (hr : Recorded E s)
    (hg : Gate E s) (hd : Performed s done) (hs : s.step E e = some s') :
    Performed s' (done ++ (s.performs e).toList) := by
  have hlog := (log_grows hg hs).subset
  have hold : Performed s' done := by
    refine ⟨hd.once, ?_, ?_⟩
    · intro p hmem
      obtain ⟨x, hx, hpopped⟩ := hd.popped p hmem
      exact ⟨x, hlog hx, hpopped⟩
    · intro p hmem h t' slots' ht' hslots'
      exact filled_step hr hg hd hs hmem ht' hslots'
  cases hp : s.performs e with
  | none =>
    rw [Option.toList_none, List.append_nil]
    exact hold
  | some p =>
    obtain ⟨hnew, ⟨x, hx, hpopped⟩, hfilled⟩ := performs_step hg hd hs hp
    refine ⟨?_, ?_, ?_⟩
    · rw [Option.toList_some, ← List.concat_eq_append]
      exact hd.once.concat hnew
    · intro p' hmem
      rcases List.mem_append.1 hmem with hmem | hmem
      · exact hold.popped p' hmem
      · obtain rfl := List.mem_singleton.1 hmem
        exact ⟨x, hlog hx, hpopped⟩
    · intro p' hmem
      rcases List.mem_append.1 hmem with hmem | hmem
      · exact hold.filled p' hmem
      · obtain rfl := List.mem_singleton.1 hmem
        exact hfilled

theorem performed_snoc (tr : List (Orchestrator × OrchestratorEvent)) (s : Orchestrator)
    (e : OrchestratorEvent) :
    performed (tr ++ [(s, e)]) = performed tr ++ (s.performs e).toList := by
  unfold performed
  rw [List.filterMap_append]
  cases hp : s.performs e with
  | none => simp [hp]
  | some p => simp [hp]

theorem performed_run {tr : List (Orchestrator × OrchestratorEvent)}
    (h : (orchestratorMachine E).Trace tr s) : Performed s (performed tr) := by
  induction h with
  | nil =>
    refine ⟨List.nodup_nil, ?_, ?_⟩
    · intro p hmem
      contradiction
    · intro p hmem
      contradiction
  | @snoc tr s e s' htr hs ih =>
    obtain ⟨hr, hg⟩ := (gate_run htr).2
    rw [performed_snoc]
    exact performed_step hr hg ih hs

/-- What the gate refuses is executed only with a batch that an Approve click popped. -/
theorem executesApproved_of_gate (hr : Recorded E s) (hg : Gate E s) {t : Handling}
    {call : ToolCall} (ht : s.handlings.lookup h = some t) (hcall : call ∈ t.executing)
    (hwrite : E.agent.tools.isWrite call = true) (hgate : E.agent.approved call = false) :
    s.ExecutesApproved t := by
  have hadmitted := hg.admitted h t ht
  obtain ⟨request, phase⟩ := t
  cases phase with
  | running run =>
    have hnone := AgentRun.Gated.approved_of_write hadmitted hcall hwrite hgate
    contradiction
  | resuming run approval =>
    obtain ⟨hgated, threadKey, prompt, hmem⟩ := hadmitted
    have hcalls := Option.some.inj (hgated.approved_of_write hcall hwrite hgate)
    rw [hcalls] at hmem
    obtain ⟨before, after, hlog⟩ := List.append_of_mem hmem
    obtain ⟨hheld, description, hstored⟩ := hr.legal before _ after hlog
    exact ⟨approval.batch, threadKey, prompt, description, before, after, rfl, hlog, hstored, hheld⟩
  | inferring | finalizing | replied | raised | cancelled => simp [Handling.executing] at hcall

/-- What the gate and the clicks leave of writes. A request that executes a call of a registered
tool that is not read-only executes a batch that was stored for a thread and that an Approve click
for the thread popped; no other click pops that batch, by Approve or by Deny; and no other request
executes it. -/
structure WriteGated (E : OrchestratorEnv) (s : Orchestrator) : Prop where
  approved : ∀ h t call, s.handlings.lookup h = some t → call ∈ t.executing →
    E.agent.tools.isWrite call = true → s.ExecutesApproved t
  popped : ∀ before after threadKey prompt batch calls,
    s.log = before ++ .approved threadKey prompt batch calls :: after →
      ∀ e ∈ before ++ after, e.popped ≠ some batch
  alone : ∀ h h' t t' batch, s.handlings.lookup h = some t → s.handlings.lookup h' = some t' →
    t.phase.resumes = some batch → t'.phase.resumes = some batch → h = h'

theorem writeGated_of_gate (hgate : E.agent.approved = writeApproval) (hr : Recorded E s)
    (hg : Gate E s) : WriteGated E s := by
  refine ⟨?_, ?_, hg.alone⟩
  · intro h t call ht hcall hwrite
    apply executesApproved_of_gate hr hg ht hcall hwrite
    rw [hgate]
    rfl
  · intro before after threadKey prompt batch calls hlog
    exact popped_elsewhere hr.legal hlog rfl

/-- With the `WriteApproval` gate, writes are gated in every state of every run, and no call of a
batch is performed twice. -/
theorem write_gate (E : OrchestratorEnv) (hgate : E.agent.approved = writeApproval)
    {tr : List (Orchestrator × OrchestratorEvent)} (h : (orchestratorMachine E).Trace tr s) :
    Machine.Always (WriteGated E) tr s ∧ (performed tr).Nodup := by
  refine ⟨(gate_run h).imp ?_, (performed_run h).once⟩
  intro s hi
  exact writeGated_of_gate hgate hi.1 hi.2

def writeFile : ToolSpec where
  name := "write_file"
  isReadOnly := false
  isConcurrencySafe := false
  displayName := "Writing a file"

def fileWriter : OrchestratorEnv where
  agent :=
    { config :=
        { maxToolRounds := 10
          maxContinuationRetries := 2
          microCompactionChars := 10000
          compactionThresholdChars := 100000
          compactionMinKeep := 4 }
      tools := ⟨[writeFile], by decide, by decide⟩
      compressed := fun n => (n / 2 : ℕ)
      blank := fun content => content = ""
      approved := writeApproval
      errorPayload := fun error tool =>
        "\x7b\"error\": \"" ++ error ++ "\", \"tool\": \"" ++ tool ++ "\"\x7d"
      writeArguments := fun arguments => some [("path", arguments)] }
  actions := FinalizationActions.plainPaths
  category _ := .unknown

/-- The arguments are given by the path. -/
def writeCall (path : String) : ToolCall := ⟨"c-" ++ path, "write_file", path⟩

def saying (requestId text : String) : NormalizedRequest where
  text := text
  channelId := "C1"
  requestId := requestId
  threadTs := some "t-1"

def clicking (requestId actionId value : String) : NormalizedRequest where
  channelId := "C1"
  requestId := requestId
  threadTs := some "t-1"
  action := some ⟨actionId, value⟩

/-- The model answers with a write. -/
def answersWrite (h : HandlerId) (path : String) : OrchestratorEvent :=
  .run h (.answered (.ok { content := "", toolCalls := [writeCall path] }))

/-- A write is approved and performed, and Approve is clicked again. -/
def approvedOnce : List OrchestratorEvent :=
  [.handle 0 (saying "r-0" "Write a note.") {}, answersWrite 0 "notes.txt", .post 0,
    .handle 1 (clicking "r-1" approvalActionApprove "t-1") { prompt := some 0 },
    .run 1 (.toolReturned 0 (.returned "ok")),
    .handle 2 (clicking "r-2" approvalActionApprove "t-1") { prompt := some 0 }]

theorem write_gate_approvedOnce : ∃ tr s, (orchestratorMachine fileWriter).Trace tr s ∧
    tr.map Prod.snd = approvedOnce ∧ performed tr = [(0, 0)] ∧
      Machine.Always (WriteGated fileWriter) tr s ∧ (performed tr).Nodup := by
  obtain ⟨tr, s, hrun, hevents, hp⟩ := Machine.Trace.of_check
    (M := orchestratorMachine fileWriter) approvedOnce
    (p := fun tr _ => performed tr == [(0, 0)]) (by decide)
  exact ⟨tr, s, hrun, hevents, beq_iff_eq.1 hp, write_gate fileWriter rfl hrun⟩

end Orchestrator

end NemoClaw
