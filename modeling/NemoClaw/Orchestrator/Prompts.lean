import NemoClaw.Orchestrator.Approvals

/-! Prompts and Approve clicks. A click pops whatever batch is pending in its thread, so it executes
the batch of its own prompt only if no other one took the place; and a text supersedes the pending
batch of its thread only if no iteration feedback was awaited there. -/

namespace NemoClaw

open Lib

def OrchestratorEntry.isApproved : OrchestratorEntry → Bool
  | .approved _ _ _ _ => true
  | _ => false

namespace Orchestrator

/-- What is recorded of an Approve click that executes a batch. -/
def approving (E : OrchestratorEnv) (s : Orchestrator) :
    OrchestratorEvent → Option OrchestratorEntry
  | .handle _ request circumstances =>
    if E.agent.tools.tools ≠ [] ∧
        ∃ action ∈ request.action, action.actionId = approvalActionApprove then
      (s.pendingApprovals.lookup request.threadKey).map fun approval =>
        .approved request.threadKey circumstances.prompt approval.batch approval.pending.toolCalls
    else none
  | _ => none

/-- The event is an Approve click in the thread, and finds this approval pending. -/
def FindsPending (E : OrchestratorEnv) (s : Orchestrator) (e : OrchestratorEvent)
    (threadKey : String) (prompt : Option BatchId) (approval : StoredApproval) : Prop :=
  ∃ h request circumstances, e = .handle h request circumstances ∧
    (E.agent.tools.tools ≠ [] ∧
      ∃ action ∈ request.action, action.actionId = approvalActionApprove) ∧
        request.threadKey = threadKey ∧ circumstances.prompt = prompt ∧
          s.pendingApprovals.lookup threadKey = some approval

variable {E : OrchestratorEnv} {s s' : Orchestrator} {h : HandlerId} {request : NormalizedRequest}

/-! ### What a step records -/

/-- The reply to a request of the thread is the prompt for the batch, with this description. -/
def Prompts (s : Orchestrator) (threadKey : String) (batch : BatchId) (description : String) :
    Prop :=
  ∃ h request pending, s.handlings.lookup h =
      some ⟨request, .replied (buildApprovalResponse request batch pending)⟩ ∧
    request.threadKey = threadKey ∧ pending.description = description

/-- At most one entry is recorded, none of an Approve click, and of a batch along with its
prompt. -/
def RecordsOther (s s' : Orchestrator) : Prop :=
  s'.log = s.log ∨ ∃ x, s'.log = s.log ++ [x] ∧ x.isApproved = false ∧
    ∀ threadKey batch calls description, x = .stored threadKey batch calls description →
      s'.Prompts threadKey batch description

theorem recordsOther_plain {x : OrchestratorEntry} (hlog : s'.log = s.log ++ [x])
    (hitem : approvals.item x = none) (hx : x.isApproved = false) : RecordsOther s s' := by
  refine Or.inr ⟨x, hlog, hx, ?_⟩
  rintro threadKey batch calls description rfl
  contradiction

theorem recordsOther_storeApproval (pending : PendingApproval) :
    RecordsOther s (s.storeApproval h request pending) := by
  refine Or.inr ⟨_, rfl, rfl, ?_⟩
  intro threadKey batch calls description heq
  obtain ⟨rfl, rfl, -, rfl⟩ := OrchestratorEntry.stored.inj heq
  exact ⟨h, request, pending, AList.lookup_insert _, rfl, rfl⟩

theorem recordsOther_runsOn {run : AgentRun} {phase : HandlingPhase}
    (hs : RunsOn s h request run phase s') : RecordsOther s s' := by
  cases hs with
  | ended => exact Or.inl rfl
  | stored => exact recordsOther_storeApproval _
  | goesOn => exact Or.inl rfl

theorem log_running_of_quiet {run : AgentRun} (hq : run.Quiet) (category : ErrorCategory) :
    (s.running E h request run category).log = s.log := by
  unfold running
  split
  · rfl
  · rename_i pending hphase
    exact absurd hphase (hq.not_blocked pending)
  · rfl
  · rfl

theorem log_inferring (messages : List Message) (chunks : List String) (attempt : ℕ)
    (response : Except String InferenceResponse) :
    (s.inferring E h request messages chunks attempt response).log = s.log := by
  unfold inferring
  split
  · split
    · rfl
    · rfl
  · rfl

theorem log_handleMessage (systemPrompt : String) :
    (s.handleMessage E h request systemPrompt).log = s.log ++
      [.message request.threadKey request.action.isNone (s.pendingIteration E request)] := by
  unfold handleMessage
  dsimp only
  split_ifs
  · rfl
  · rfl
  · exact log_running_of_quiet (AgentRun.quiet_start _ _ _) _

theorem log_handleWriteApproval (happrove : ∃ action ∈ request.action,
    action.actionId = approvalActionApprove) (circumstances : Circumstances) :
    (∃ x, approving E s (.handle h request circumstances) = some x ∧
      (s.handleWriteApproval E h request circumstances.prompt).log = s.log ++ [x]) ∨
    approving E s (.handle h request circumstances) = none ∧
      RecordsOther s (s.handleWriteApproval E h request circumstances.prompt) := by
  unfold handleWriteApproval
  split
  · rename_i hnone
    exact Or.inr ⟨by simp [approving, hnone], Or.inl rfl⟩
  · rename_i approval ha
    dsimp only
    split_ifs with htools
    · exact Or.inr ⟨by simp [approving, htools], recordsOther_plain rfl rfl rfl⟩
    · exact Or.inl ⟨_, by simp only [approving, ha, if_pos (And.intro htools happrove)]; rfl, rfl⟩

theorem recordsOther_handleMessage (systemPrompt : String) :
    RecordsOther s (s.handleMessage E h request systemPrompt) := by
  apply recordsOther_plain (log_handleMessage systemPrompt)
  · cases hfeedback : s.pendingIteration E request with
    | none => rfl
    | some workflowId => rfl
  · rfl

theorem log_handle (circumstances : Circumstances) :
    (∃ x, approving E s (.handle h request circumstances) = some x ∧
      (s.handle E h request circumstances).log = s.log ++ [x]) ∨
    approving E s (.handle h request circumstances) = none ∧
      RecordsOther s (s.handle E h request circumstances) := by
  unfold handle
  split
  · rename_i hnone
    exact Or.inr ⟨by simp [approving, hnone], recordsOther_handleMessage _⟩
  · rename_i action ha
    by_cases happrove : action.actionId = approvalActionApprove
    · rw [if_pos happrove]
      exact log_handleWriteApproval ⟨action, ha, happrove⟩ circumstances
    · refine Or.inr ⟨by simp [approving, ha, happrove], ?_⟩
      rw [if_neg happrove]
      split_ifs
      · unfold handleWriteDenial
        split
        · exact Or.inl rfl
        · exact recordsOther_plain rfl rfl rfl
      · unfold handleFinalizationAction
        dsimp only
        split_ifs
        · exact recordsOther_plain rfl rfl rfl
        · exact Or.inl rfl
      · exact recordsOther_handleMessage _

/-- An Approve click that executes a batch is recorded, and no other step records one. -/
theorem log_step {e : OrchestratorEvent} (hs : s.step E e = some s') :
    (∃ x, approving E s e = some x ∧ s'.log = s.log ++ [x]) ∨
      approving E s e = none ∧ RecordsOther s s' := by
  rcases step_cases hs with ⟨h, request, circumstances, rfl, rfl⟩ | ⟨h, e', t, rfl, -, hadvance⟩ |
    ⟨h, batch, rfl, rfl⟩ | ⟨e', actions, rfl, -, -, -, rfl⟩ | ⟨h, request, rfl, rfl⟩
  · exact log_handle circumstances
  · refine Or.inr ⟨rfl, ?_⟩
    rcases advance_cases hadvance with ⟨run, run', -, -, rfl⟩ | ⟨run, run', approval, -, -, rfl⟩ |
      ⟨messages, chunks, attempt, response, rfl⟩
    · exact recordsOther_runsOn (runsOn_running _ _)
    · exact recordsOther_runsOn (runsOn_resuming _ _)
    · exact Or.inl (log_inferring _ _ _ _)
  · exact Or.inr ⟨rfl, Or.inl rfl⟩
  · exact Or.inr ⟨rfl, Or.inl rfl⟩
  · exact Or.inr ⟨rfl, Or.inl rfl⟩

theorem approving_eq_some_iff {e : OrchestratorEvent} {x : OrchestratorEntry} :
    approving E s e = some x ↔ ∃ threadKey prompt approval,
      FindsPending E s e threadKey prompt approval ∧
        x = .approved threadKey prompt approval.batch approval.pending.toolCalls := by
  constructor
  · intro hx
    unfold approving at hx
    split at hx
    · rename_i h request circumstances
      simp only [Option.ite_none_right_eq_some] at hx
      obtain ⟨hclick, happroval⟩ := hx
      obtain ⟨approval, ha, rfl⟩ := Option.map_eq_some_iff.1 happroval
      exact ⟨_, _, approval, ⟨h, request, circumstances, rfl, hclick, rfl, rfl, ha⟩, rfl⟩
    · contradiction
  · rintro ⟨_, _, approval, ⟨h, request, circumstances, rfl, hclick, rfl, rfl, ha⟩, rfl⟩
    simp only [approving, if_pos hclick, ha]
    rfl

/-- What the log says of each Approve click stays true exactly if the next one meets it. -/
theorem legal_step {L : List OrchestratorEntry → OrchestratorEntry → Prop}
    (hother : ∀ before x, x.isApproved = false → L before x) {e : OrchestratorEvent}
    (hl : Legal L s.log) (hs : s.step E e = some s') : Legal L s'.log ↔
      ∀ threadKey prompt approval, FindsPending E s e threadKey prompt approval →
        L s.log (.approved threadKey prompt approval.batch approval.pending.toolCalls) := by
  have hclick : (∀ threadKey prompt approval, FindsPending E s e threadKey prompt approval →
      L s.log (.approved threadKey prompt approval.batch approval.pending.toolCalls)) ↔
        ∀ x, approving E s e = some x → L s.log x := by
    constructor
    · intro h x hx
      obtain ⟨threadKey, prompt, approval, hfinds, rfl⟩ := approving_eq_some_iff.1 hx
      exact h threadKey prompt approval hfinds
    · intro h threadKey prompt approval hfinds
      exact h _ (approving_eq_some_iff.2 ⟨threadKey, prompt, approval, hfinds, rfl⟩)
  rw [hclick]
  rcases log_step hs with ⟨x, hx, hlog⟩ | ⟨hnone, hlog | ⟨x, hlog, hx, -⟩⟩
  · rw [hlog, legal_snoc, hx]
    simp [hl]
  · rw [hlog, hnone]
    simp [hl]
  · rw [hlog, legal_snoc, hnone]
    simp [hl, hother s.log x hx]

/-! ### The prompts -/

/-- A reply stays as it is. -/
theorem replied_step {e : OrchestratorEvent} {reply : Reply} (hg : Gate E s)
    (hs : s.step E e = some s') (ht : s.handlings.lookup h = some ⟨request, .replied reply⟩) :
    s'.handlings.lookup h = some ⟨request, .replied reply⟩ := by
  rcases step_puts hg hs with ⟨-, hhandlings, -⟩ | ⟨h', next, hhandler, ⟨t, hhandlings, -⟩, -⟩
  · rw [hhandlings]
    exact ht
  · rw [hhandlings]
    by_cases hne : h = h'
    · subst hne
      cases e with
      | handle h'' request' circumstances =>
        obtain rfl := Option.some.inj hhandler
        simp [step, isFresh, ht] at hs
      | run h'' e' =>
        obtain rfl := Option.some.inj hhandler
        simp [step, advance, ht] at hs
      | cancel h'' =>
        obtain rfl := Option.some.inj hhandler
        simp [step, ht] at hs
      | post | actions => contradiction
    · exact (AList.lookup_insert_ne hne).trans ht

/-- Every batch that was stored for a thread has its prompt there. -/
def Prompted (s : Orchestrator) : Prop :=
  ∀ threadKey batch calls description, .stored threadKey batch calls description ∈ s.log →
    s.Prompts threadKey batch description

theorem prompted_step {e : OrchestratorEvent} (hg : Gate E s) (hp : s.Prompted)
    (hs : s.step E e = some s') : s'.Prompted := by
  have hkeep : ∀ {threadKey batch calls description},
      .stored threadKey batch calls description ∈ s.log →
        s'.Prompts threadKey batch description := by
    intro threadKey batch calls description hmem
    obtain ⟨h, request, pending, ht, hthread, hdescription⟩ := hp _ _ _ _ hmem
    exact ⟨h, request, pending, replied_step hg hs ht, hthread, hdescription⟩
  intro threadKey batch calls description hmem
  rcases log_step hs with ⟨x, happroving, hlog⟩ | ⟨-, hlog | ⟨x, hlog, -, hx⟩⟩
  · rw [hlog] at hmem
    rcases List.mem_append.1 hmem with hold | hnew
    · exact hkeep hold
    · obtain ⟨threadKey', prompt, approval, -, rfl⟩ := approving_eq_some_iff.1 happroving
      simp at hnew
  · rw [hlog] at hmem
    exact hkeep hmem
  · rw [hlog] at hmem
    rcases List.mem_append.1 hmem with hold | hnew
    · exact hkeep hold
    · exact hx _ _ _ _ (List.mem_singleton.1 hnew).symm

theorem prompted_run {tr : List (Orchestrator × OrchestratorEvent)}
    (h : (orchestratorMachine E).Trace tr s) : s.Prompted := by
  induction h with
  | nil =>
    intro threadKey batch calls description hmem
    simp [orchestratorMachine] at hmem
  | snoc htr hs ih => exact prompted_step (gate_run htr).2.2 ih hs

/-! ### What is approved is what runs -/

/-- What the request executes as approved is the batch of this prompt with all its calls, and the
prompt shows the description of the writes among them. -/
def ExecutesPrompt (E : OrchestratorEnv) (h : HandlerId) (threadKey : String)
    (prompt : Option BatchId) (s : Orchestrator) : Prop :=
  ∀ t batch slots, s.handlings.lookup h = some t → t.phase.approvedSlots = some (batch, slots) →
    prompt = some batch ∧ ∃ description,
      .stored threadKey batch (slots.map Prod.fst) description ∈ s.log ∧
        formatWriteDescription E.agent (getWriteToolCalls E.agent (slots.map Prod.fst)) =
          some description ∧ s.Prompts threadKey batch description

/-- The request executes these calls, the whole batch. -/
def ExecutesBatch (h : HandlerId) (batch : BatchId) (calls : List ToolCall) (s : Orchestrator) :
    Prop :=
  ∃ t slots, s.handlings.lookup h = some t ∧ t.phase.approvedSlots = some (batch, slots) ∧
    slots.map Prod.fst = calls

/-- In the run, no request ever executes other calls than those of the prompt that was clicked, and
those are executed if the batch of the prompt is pending. -/
structure ApprovedAsDescribed (E : OrchestratorEnv) (tr : List (Orchestrator × OrchestratorEvent))
    (s : Orchestrator) : Prop where
  described : ∀ before s₀ h request circumstances later,
    tr = before ++ (s₀, .handle h request circumstances) :: later →
      Machine.Always (ExecutesPrompt E h request.threadKey circumstances.prompt) later s
  executed : ∀ s₀ h request circumstances, (s₀, .handle h request circumstances) ∈ tr →
    Approves E request → ∀ approval, s₀.pendingApprovals.lookup request.threadKey = some approval →
      circumstances.prompt = some approval.batch →
        ∀ s₁, s₀.step E (.handle h request circumstances) = some s₁ →
          ExecutesBatch h approval.batch approval.pending.toolCalls s₁

/-- Every other batch that was stored for the thread of the prompt has left its slot since: it was
replaced, approved, denied or superseded. -/
def StandsLast (log : List OrchestratorEntry) (threadKey : String) (prompt : Option BatchId) :
    Prop :=
  ∀ before batch calls description later,
    log = before ++ .stored threadKey batch calls description :: later → prompt ≠ some batch →
      ∃ x ∈ later, ∃ v, approvals.writes x = some (threadKey, v)

/-- An Approve click is one on the prompt that stands last in its thread. -/
def ClicksLast (E : OrchestratorEnv) (s : Orchestrator) : OrchestratorEvent → Prop
  | .handle _ request circumstances =>
    Approves E request → StandsLast s.log request.threadKey circumstances.prompt
  | _ => True

theorem stored_of_writes {x : OrchestratorEntry} {threadKey : String} {batch : BatchId}
    (hx : approvals.writes x = some (threadKey, some batch)) :
    ∃ calls description, x = .stored threadKey batch calls description := by
  cases x with
  | stored threadKey' batch' calls description =>
    obtain ⟨rfl, hbatch⟩ := Prod.mk.inj (Option.some.inj hx)
    obtain rfl := Option.some.inj hbatch
    exact ⟨calls, description, rfl⟩
  | message threadKey' isText feedback =>
    cases feedback with
    | none => simp [approvals] at hx
    | some workflowId => simp [approvals] at hx
  | approved | dropped | iterate => simp [approvals] at hx

theorem standsLast_iff {log : List OrchestratorEntry} {threadKey : String}
    {prompt : Option BatchId} : StandsLast log threadKey prompt ↔
      ∀ batch ∈ approvals.content log threadKey, prompt = some batch := by
  constructor
  · intro hlast batch hheld
    obtain ⟨before, x, later, rfl, hput, hlater⟩ := Slots.content_eq_some_iff.1 hheld
    obtain ⟨calls, description, rfl⟩ := stored_of_writes hput
    by_contra hother
    obtain ⟨x, hmem, v, hwrites⟩ := hlast before batch calls description later rfl hother
    exact hlater x hmem v hwrites
  · intro hheld before batch calls description later hlog hother
    by_contra hleft
    refine hother (hheld batch (Slots.content_eq_some_iff.2 ⟨before, _, later, hlog, rfl, ?_⟩))
    intro x hmem v hwrites
    exact hleft ⟨x, hmem, v, hwrites⟩

instance (log : List OrchestratorEntry) (threadKey : String) (prompt : Option BatchId) :
    Decidable (StandsLast log threadKey prompt) :=
  decidable_of_iff _ standsLast_iff.symm

instance (E : OrchestratorEnv) (request : NormalizedRequest) : Decidable (Approves E request) := by
  unfold Approves
  infer_instance

instance (E : OrchestratorEnv) (s : Orchestrator) (e : OrchestratorEvent) :
    Decidable (ClicksLast E s e) := by
  cases e <;> unfold ClicksLast <;> infer_instance

/-- What a request executes as approved, as the log has it. -/
structure Follows (h : HandlerId) (threadKey : String) (prompt : Option BatchId)
    (s : Orchestrator) : Prop where
  handled : s.handlings.lookup h ≠ none
  executes : ∀ t batch slots, s.handlings.lookup h = some t →
    t.phase.approvedSlots = some (batch, slots) → prompt = some batch ∧
      ∃ description, .stored threadKey batch (slots.map Prod.fst) description ∈ s.log

theorem Follows.executesPrompt {threadKey : String} {prompt : Option BatchId}
    (hf : Follows h threadKey prompt s) (hr : Recorded E s) (hp : s.Prompted) :
    ExecutesPrompt E h threadKey prompt s := by
  intro t batch slots ht hslots
  obtain ⟨hprompt, description, hstored⟩ := hf.executes t batch slots ht hslots
  obtain ⟨before, later, hlog⟩ := List.append_of_mem hstored
  exact ⟨hprompt, description, hstored, (hr.legal before _ later hlog).2, hp _ _ _ _ hstored⟩

theorem lookup_of_handle {circumstances : Circumstances}
    (hs : s.step E (.handle h request circumstances) = some s') :
    s.handlings.lookup h = none := by
  simp only [step, Option.ite_none_right_eq_some, isFresh, Bool.and_eq_true,
    Option.isNone_iff_eq_none] at hs
  exact hs.1.1.1.1

theorem handled_step {e : OrchestratorEvent} (hg : Gate E s) (hs : s.step E e = some s')
    (hh : e.handler = some h ∨ s.handlings.lookup h ≠ none) : s'.handlings.lookup h ≠ none := by
  rcases step_puts hg hs with ⟨hnone, hhandlings, -⟩ | ⟨h', next, hhandler, ⟨t, hhandlings, -⟩, -⟩
  · rw [hhandlings]
    exact hh.resolve_left (by simp [hnone])
  · rw [hhandlings]
    by_cases hne : h = h'
    · subst hne
      simp
    · rw [AList.lookup_insert_ne hne]
      refine hh.resolve_left ?_
      rw [hhandler]
      exact fun heq => hne (Option.some.inj heq).symm

/-- A click on the prompt that stands last executes its batch. -/
theorem follows_click {circumstances : Circumstances} (hr : Recorded E s) (hg : Gate E s)
    (hs : s.step E (.handle h request circumstances) = some s')
    (hc : ClicksLast E s (.handle h request circumstances)) :
    Follows h request.threadKey circumstances.prompt s' := by
  refine ⟨handled_step hg hs (Or.inl rfl), ?_⟩
  intro t' batch slots ht' hslots
  have hnew := lookup_of_handle hs
  rcases approvedSlots_step hg hs ht' hslots with ⟨t, ht, -⟩ |
    ⟨t, slots', i, outcome, call, content, ht, -⟩ |
    ⟨approval, ⟨request', circumstances', heq, happroves, ha⟩, rfl, rfl⟩
  · rw [hnew] at ht
    contradiction
  · rw [hnew] at ht
    contradiction
  · obtain ⟨-, rfl, rfl⟩ := OrchestratorEvent.handle.inj heq
    have hheld := hr.approvals.content_of_lookup ha
    refine ⟨standsLast_iff.1 (hc happroves) approval.batch hheld, approval.pending.description, ?_⟩
    rw [List.map_map]
    simpa [Function.comp_def] using (log_grows hg hs).subset (hr.stored _ _ ha)

/-- Once the click has popped its batch, the request executes no other. -/
theorem follows_step {e : OrchestratorEvent} {threadKey : String} {prompt : Option BatchId}
    (hg : Gate E s) (hf : Follows h threadKey prompt s) (hs : s.step E e = some s') :
    Follows h threadKey prompt s' := by
  have hlog := (log_grows hg hs).subset
  refine ⟨handled_step hg hs (Or.inr hf.handled), ?_⟩
  intro t' batch slots ht' hslots
  rcases approvedSlots_step hg hs ht' hslots with ⟨t, ht, hold, -⟩ |
    ⟨t, old, i, outcome, call, content, ht, hold, -, hslot, rfl⟩ |
    ⟨approval, ⟨request, circumstances, rfl, -⟩, -⟩
  · obtain ⟨hprompt, description, hstored⟩ := hf.executes t batch slots ht hold
    exact ⟨hprompt, description, hlog hstored⟩
  · obtain ⟨hprompt, description, hstored⟩ := hf.executes t batch old ht hold
    rw [AgentRun.map_fst_set (some content) hslot]
    exact ⟨hprompt, description, hlog hstored⟩
  · exact absurd (lookup_of_handle hs) hf.handled

/-- A click that finds a batch pending executes all its calls. -/
theorem executesBatch_click {circumstances : Circumstances} {approval : StoredApproval}
    (hs : s.step E (.handle h request circumstances) = some s') (happroves : Approves E request)
    (ha : s.pendingApprovals.lookup request.threadKey = some approval) :
    ExecutesBatch h approval.batch approval.pending.toolCalls s' := by
  obtain ⟨htools, action, haction, happrove⟩ := happroves
  simp only [step, Option.ite_none_right_eq_some] at hs
  obtain rfl := Option.some.inj hs.2
  simp only [handle, Option.mem_def.1 haction, if_pos happrove, handleWriteApproval, ha,
    if_neg htools]
  exact ⟨_, _, AList.lookup_insert _, rfl, by simp [Function.comp_def]⟩

/-- Behind a click on the prompt that stands last, its request executes no other batch. -/
theorem executesPrompt_since {circumstances : Circumstances}
    {before later : List (Orchestrator × OrchestratorEvent)} {s₀ : Orchestrator}
    (hrun : (orchestratorMachine E).Trace
      (before ++ (s₀, .handle h request circumstances) :: later) s)
    (hc : ClicksLast E s₀ (.handle h request circumstances)) :
    Machine.Always (ExecutesPrompt E h request.threadKey circumstances.prompt) later s := by
  obtain ⟨hr, hg⟩ := (gate_run hrun.before).2
  have halways : Machine.Always (fun s => (Recorded E s ∧ Gate E s) ∧ s.Prompted ∧
      Follows h request.threadKey circumstances.prompt s) later s := by
    apply hrun.always_since
    · intro s₁ (hs : s₀.step E (.handle h request circumstances) = some s₁)
      refine ⟨⟨recorded_step hr hs, gate_step hr hg hs⟩, ?_, follows_click hr hg hs hc⟩
      exact prompted_step hg (prompted_run hrun.before) hs
    · rintro s e s' ⟨⟨hr, hg⟩, hp, hf⟩ hs
      refine ⟨⟨recorded_step hr hs, gate_step hr hg hs⟩, ?_, follows_step hg hf hs⟩
      exact prompted_step hg hp hs
  refine halways.imp ?_
  rintro s ⟨⟨hr, -⟩, hp, hf⟩
  exact hf.executesPrompt hr hp

/-- In every run, each Approve click executes the batch of its own prompt, or none, exactly if each
click is one on the prompt that stands last in its thread. -/
theorem approved_as_described_iff (E : OrchestratorEnv)
    {tr : List (Orchestrator × OrchestratorEvent)} (h : (orchestratorMachine E).Trace tr s) :
    ApprovedAsDescribed E tr s ↔ Machine.Guarded (ClicksLast E) tr := by
  constructor
  · rintro hd ⟨s₀, e⟩ hmem
    cases e with
    | handle h' request circumstances =>
      intro happroves
      obtain ⟨before, later, rfl⟩ := List.append_of_mem hmem
      refine standsLast_iff.2 ?_
      intro batch hheld
      obtain ⟨approval, ha, rfl⟩ := (recorded_run h.before).approvals.lookup_of_content hheld
      obtain ⟨-, -, -, s₁, hs⟩ := h.prefix_of_mem hmem
      -- the click pops what is pending, so right behind it that batch is executed
      obtain ⟨t, slots, ht, hslots, -⟩ := executesBatch_click hs happroves ha
      exact (h.next_of_since (hd.described _ _ _ _ _ _ rfl) hs t _ slots ht hslots).1
    | run | post | actions | cancel => trivial
  · intro hg
    refine ⟨?_, ?_⟩
    · rintro before s₀ h' request circumstances later rfl
      exact executesPrompt_since h (hg _ (List.mem_append_right _ List.mem_cons_self))
    · intro s₀ h' request circumstances hmem happroves approval ha hprompt s₁ hs
      exact executesBatch_click hs happroves ha

theorem approved_as_described_approvedOnce : ∃ tr s, (orchestratorMachine fileWriter).Trace tr s ∧
    tr.map Prod.snd = approvedOnce ∧ ApprovedAsDescribed fileWriter tr s := by
  obtain ⟨tr, s, hrun, hevents, hclicks⟩ := Machine.Trace.of_guarded_check
    (M := orchestratorMachine fileWriter) approvedOnce (G := ClicksLast fileWriter)
    (fun _ _ => of_decide_eq_true) (by decide)
  exact ⟨tr, s, hrun, hevents, (approved_as_described_iff fileWriter hrun).2 hclicks⟩

/-- Two texts of a thread are handled at once and both end in a prompt. The prompt for the first
write is posted last. -/
def bothPrompted : List OrchestratorEvent :=
  [.handle 0 (saying "r-0" "Write a note.") {}, .handle 1 (saying "r-1" "Write the plan.") {},
    answersWrite 0 "notes.txt", answersWrite 1 "plan.txt", .post 1, .post 0]

/-- Approve is clicked on the prompt for the first write, and the second write is executed. -/
theorem other_batch_executed : ¬ ∀ tr s, (orchestratorMachine fileWriter).Trace tr s →
    ApprovedAsDescribed fileWriter tr s := by
  intro hall
  obtain ⟨tr, s, hrun, hevents, hp⟩ := Machine.Trace.of_check (M := orchestratorMachine fileWriter)
    (bothPrompted ++
      [.handle 2 (clicking "r-2" approvalActionApprove "t-1") { prompt := some 0 }])
    (p := fun _ s => (s.handlings.lookup 2).any fun t : Handling =>
      decide (t.phase.approvedSlots = some (1, [(writeCall "plan.txt", none)]))) (by decide)
  obtain ⟨before, last, rfl, -, hlast⟩ := List.map_eq_append_iff.1 hevents
  obtain ⟨⟨s₀, e⟩, rfl, rfl⟩ := List.map_eq_singleton_iff.1 hlast
  obtain ⟨t, ht, hslots⟩ := (Option.any_eq_true _ _).1 hp
  have hprompt := (((hall _ s hrun).described _ _ _ _ _ _ rfl).2 t _ _ ht
    (of_decide_eq_true hslots)).1
  contradiction

/-! ### A text supersedes a pending write -/

/-- Once a text was handled in the thread of a stored batch, no Approve click executes the batch. -/
def TextSupersedes (s : Orchestrator) : Prop :=
  ∀ threadKey batch calls description feedback threadKey' prompt calls',
    ¬ List.Sublist [.stored threadKey batch calls description, .message threadKey true feedback,
      .approved threadKey' prompt batch calls'] s.log

/-- No Approve click finds a batch that is still pending behind a text, taken as iteration feedback
in its thread. -/
def NoFeedbackSince (E : OrchestratorEnv) (s : Orchestrator) (e : OrchestratorEvent) : Prop :=
  ∀ threadKey prompt approval, FindsPending E s e threadKey prompt approval →
    ∀ calls description workflowId, ¬ List.Sublist
      [.stored threadKey approval.batch calls description,
        .message threadKey true (some workflowId)] s.log

/-- No text of the thread of the approved batch was handled since it was stored. -/
def Unsuperseded (before : List OrchestratorEntry) : OrchestratorEntry → Prop
  | .approved _ _ batch _ => ∀ threadKey calls description feedback,
    ¬ List.Sublist [.stored threadKey batch calls description,
      .message threadKey true feedback] before
  | _ => True

theorem unsuperseded_of_other {before : List OrchestratorEntry} {x : OrchestratorEntry}
    (hx : x.isApproved = false) : Unsuperseded before x := by
  cases x with
  | approved => contradiction
  | stored | message | dropped | iterate => trivial

theorem textSupersedes_iff : TextSupersedes s ↔ Legal Unsuperseded s.log := by
  constructor
  · intro ht before x after hlog
    cases x with
    | approved threadKey' prompt batch calls' =>
      intro threadKey calls description feedback hsub
      apply ht threadKey batch calls description feedback threadKey' prompt calls'
      exact (concat_sublist_iff [_, _]).2 ⟨before, after, hlog, hsub⟩
    | stored | message | dropped | iterate => trivial
  · intro hl threadKey batch calls description feedback threadKey' prompt calls' hsub
    obtain ⟨before, after, hlog, hpair⟩ := (concat_sublist_iff [_, _]).1 hsub
    exact hl before _ after hlog threadKey calls description feedback hpair

/-- A text that is no feedback leaves nothing pending of what was stored in its thread. -/
theorem superseded_of_message (hr : Recorded E s) {threadKey threadKey' : String}
    {batch : BatchId} {calls : List ToolCall} {description : String} {isText : Bool}
    (hsub : List.Sublist [.stored threadKey batch calls description,
      .message threadKey isText none] s.log) :
    approvals.content s.log threadKey' ≠ some batch := by
  obtain ⟨before, after, hlog, hstored⟩ := (concat_sublist_iff [_]).1 hsub
  have honce := once_of_legal hr.legal
  rw [hlog] at honce ⊢
  exact Slots.gone_of_put honce (List.singleton_sublist.1 hstored) rfl rfl threadKey'

/-- Only a text that was taken as feedback leaves a batch of its thread pending. -/
theorem unsuperseded_iff (hr : Recorded E s) {threadKey : String} {approval : StoredApproval}
    (ha : s.pendingApprovals.lookup threadKey = some approval) (prompt : Option BatchId)
    (calls' : List ToolCall) :
    Unsuperseded s.log (.approved threadKey prompt approval.batch calls') ↔
      ∀ calls description workflowId, ¬ List.Sublist
        [.stored threadKey approval.batch calls description,
          .message threadKey true (some workflowId)] s.log := by
  constructor
  · intro hu calls description workflowId
    exact hu threadKey calls description (some workflowId)
  · intro hfeedback threadKey' calls description feedback hsub
    -- the batch is stored once, so its thread is that of the click
    have hmem : .stored threadKey' approval.batch calls description ∈ s.log :=
      hsub.subset List.mem_cons_self
    have hstored := (once_of_legal hr.legal).eq_of_item hmem (hr.stored _ _ ha) rfl rfl
    obtain ⟨rfl, -, -, -⟩ := OrchestratorEntry.stored.inj hstored
    cases feedback with
    | none => exact superseded_of_message hr hsub (hr.approvals.content_of_lookup ha)
    | some workflowId => exact hfeedback calls description workflowId hsub

/-- In every run, no batch is executed after a text of its thread exactly if none is executed after
a text that was taken as iteration feedback. -/
theorem text_supersedes_iff (E : OrchestratorEnv)
    {tr : List (Orchestrator × OrchestratorEvent)} (h : (orchestratorMachine E).Trace tr s) :
    Machine.Always TextSupersedes tr s ↔ Machine.Guarded (NoFeedbackSince E) tr := by
  apply h.always_iff_guarded
  · intro threadKey batch calls description feedback threadKey' prompt calls' hsub
    simp [orchestratorMachine] at hsub
  · intro tr s e s' htr hp hs
    rw [textSupersedes_iff] at hp ⊢
    rw [legal_step (fun _ _ => unsuperseded_of_other) hp hs]
    apply forall₄_congr
    intro threadKey prompt approval hfinds
    obtain ⟨-, -, -, -, -, -, -, ha⟩ := id hfinds
    exact unsuperseded_iff (recorded_run htr) ha prompt _

theorem noFeedbackSince_of_none {e : OrchestratorEvent}
    (h : (approving E s e).isNone = true) : NoFeedbackSince E s e := by
  intro threadKey prompt approval hfinds
  rw [approving_eq_some_iff.2 ⟨threadKey, prompt, approval, hfinds, rfl⟩] at h
  contradiction

/-- A text is handled before Approve is clicked. -/
def superseded : List OrchestratorEvent :=
  [.handle 0 (saying "r-0" "Write a note.") {}, answersWrite 0 "notes.txt", .post 0,
    .handle 1 (saying "r-1" "Leave it.") {},
    .handle 2 (clicking "r-2" approvalActionApprove "t-1") { prompt := some 0 }]

theorem text_supersedes_superseded : ∃ tr s, (orchestratorMachine fileWriter).Trace tr s ∧
    tr.map Prod.snd = superseded ∧ Machine.Always TextSupersedes tr s := by
  obtain ⟨tr, s, hrun, hevents, hclicks⟩ := Machine.Trace.of_guarded_check
    (M := orchestratorMachine fileWriter) superseded (G := NoFeedbackSince fileWriter)
    (fun _ _ => noFeedbackSince_of_none) (by decide)
  exact ⟨tr, s, hrun, hevents, (text_supersedes_iff fileWriter hrun).2 hclicks⟩

/-- Iterate is clicked while a write is pending; the next text is the feedback, and the write is
approved behind it. -/
def approvedBehindFeedback : List OrchestratorEvent :=
  [.actions (.register FinalizationActions.fixBugWorkflow),
    .handle 0 (saying "r-0" "Write a note.") {}, answersWrite 0 "notes.txt", .post 0,
    .handle 1 (clicking "r-1" finalizationActionIterate "wf-1") {},
    .handle 2 (saying "r-2" "Leave it, and fix the tests.") {},
    .handle 3 (clicking "r-3" approvalActionApprove "t-1") { prompt := some 0 }]

theorem executed_behind_text : ¬ ∀ tr s, (orchestratorMachine fileWriter).Trace tr s →
    Machine.Always TextSupersedes tr s := by
  intro hall
  obtain ⟨tr, s, hrun, -, hp⟩ := Machine.Trace.of_check (M := orchestratorMachine fileWriter)
    approvedBehindFeedback (p := fun _ s => decide (List.Sublist
      [.stored "t-1" 0 [writeCall "notes.txt"] "*Writing a file*\n  • path: notes.txt",
        .message "t-1" true (some "wf-1"), .approved "t-1" (some 0) 0 [writeCall "notes.txt"]]
      s.log)) (by decide)
  exact (hall tr s hrun).2 _ _ _ _ _ _ _ _ (of_decide_eq_true hp)

end Orchestrator

end NemoClaw
