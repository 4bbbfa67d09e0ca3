import NemoClaw.Agent.Loop

/-! The approval gate of the loop. A batch that the loop executes by itself has no write that the
gate refuses; a batch with one is described and left to an approval. -/

namespace NemoClaw

namespace AgentRun

/-- The description of a blocked batch is that of its writes. -/
def Described (E : AgentEnv) (pending : PendingApproval) : Prop :=
  formatWriteDescription E (getWriteToolCalls E pending.toolCalls) = some pending.description

/-- The calls that are being executed passed the gate, or are the approved ones. -/
def Gated (E : AgentEnv) (approved : Option (List ToolCall)) (r : AgentRun) : Prop :=
  match r.phase with
  | .executing slots .nextRound =>
    needsWriteApproval E (getWriteToolCalls E (slots.map Prod.fst)) = false
  | .executing slots (.resume _) => approved = some (slots.map Prod.fst)
  | _ => True

/-- The tool calls that are being executed. -/
def executing (r : AgentRun) : List ToolCall :=
  match r.phase with
  | .executing slots _ => slots.map Prod.fst
  | _ => []

/-- The slots of an approved batch, while it is being executed. -/
def approvedSlots (r : AgentRun) : Option (List Slot) :=
  match r.phase with
  | .executing slots (.resume _) => some slots
  | _ => none

/-- No calls are being executed, and none wait for an approval. -/
def Quiet (r : AgentRun) : Prop :=
  match r.phase with
  | .executing _ _ | .blocked _ => False
  | _ => True

variable {E : AgentEnv} {r r' : AgentRun} {approved : Option (List ToolCall)}

theorem Quiet.gated (h : Quiet r) : Gated E approved r := by
  unfold Quiet at h
  unfold Gated
  split at h
  · contradiction
  · contradiction
  · rename_i hexecuting _
    split
    · rename_i slots hphase
      exact absurd hphase (hexecuting slots .nextRound)
    · rename_i slots surfacedTools hphase
      exact absurd hphase (hexecuting slots (.resume surfacedTools))
    · trivial

theorem Quiet.not_blocked (h : Quiet r) (pending : PendingApproval) :
    r.phase ≠ .blocked pending := by
  intro hphase
  unfold Quiet at h
  rw [hphase] at h
  exact h

theorem quiet_startRound : Quiet (startRound E r) := by
  unfold startRound
  split_ifs
  · dsimp only [Quiet]
    split_ifs
    · trivial
    · trivial
  · trivial

theorem quiet_start (requestId : String) (messages : List Message) (preSurfaced : List String) :
    Quiet (start E requestId messages preSurfaced) :=
  quiet_startRound

theorem quiet_continueTruncated (working : List Message) (chunks : List String) (left : ℕ) :
    Quiet (r.continueTruncated working chunks left) := by
  cases left with
  | zero => trivial
  | succ left => trivial

/-- What an answer with tool calls leads to. -/
theorem completed_cases (response : InferenceResponse) : Quiet (r.completed E response) ∨
    (∃ pending, r.completed E response = { r with phase := .blocked pending } ∧
      Described E pending) ∨
    r.completed E response =
        r.execute (.assistant response.content response.toolCalls) response.toolCalls .nextRound ∧
      needsWriteApproval E (getWriteToolCalls E response.toolCalls) = false := by
  unfold completed
  split_ifs
  · exact Or.inl (quiet_continueTruncated _ _ _)
  · exact Or.inl trivial
  · dsimp only
    split_ifs with hneeds
    · cases hdescription : formatWriteDescription E (getWriteToolCalls E response.toolCalls) with
      | none => exact Or.inl trivial
      | some description => exact Or.inr (Or.inl ⟨_, rfl, hdescription⟩)
    · exact Or.inr (Or.inr ⟨rfl, by simpa using hneeds⟩)

theorem quiet_continued (working : List Message) (chunks : List String) (left : ℕ)
    (response : InferenceResponse) : Quiet (r.continued working chunks left response) := by
  unfold continued
  split_ifs
  · exact quiet_continueTruncated _ _ _
  · trivial

theorem quiet_batchDone {slots : List Slot} (after : AfterBatch) :
    Quiet (r.batchDone E slots after) := by
  cases after with
  | nextRound => exact quiet_startRound
  | resume surfacedTools => exact quiet_startRound

/-- What a step of the loop leads to: nothing to be executed, a batch that was blocked, one that
passed the gate, or the batch that is being executed with one more result. -/
theorem step_cases {e : RunEvent} (hs : r.step E e = some r') : Quiet r' ∨
    (∃ pending, r'.phase = .blocked pending ∧ Described E pending) ∨
    (∃ slots, r'.phase = .executing slots .nextRound ∧
      needsWriteApproval E (getWriteToolCalls E (slots.map Prod.fst)) = false) ∨
    ∃ slots after i outcome call content, e = .toolReturned i outcome ∧
      r.phase = .executing slots after ∧ slots[i]? = some (call, none) ∧
        r'.phase = .executing (slots.set i (call, some content)) after := by
  rcases step_eq_some hs with ⟨response, parts, -, -, rfl⟩ | ⟨response, -, rfl⟩ |
    ⟨working, chunks, left, response, -, rfl⟩ | rfl |
    ⟨slots, after, i, outcome, hphase, he, hreturned⟩
  · exact Or.inl trivial
  · rcases completed_cases (E := E) (r := r) response with hquiet | ⟨pending, heq, hd⟩ |
      ⟨heq, hgate⟩
    · exact Or.inl hquiet
    · exact Or.inr (Or.inl ⟨pending, by rw [heq], hd⟩)
    · refine Or.inr (Or.inr (Or.inl ⟨_, by rw [heq]; rfl, ?_⟩))
      simpa [Function.comp_def] using hgate
  · exact Or.inl (quiet_continued _ _ _ _)
  · exact Or.inl trivial
  · unfold toolReturned at hreturned
    split at hreturned
    · rename_i call hslot
      simp only [Option.ite_none_right_eq_some, Option.map_eq_some_iff] at hreturned
      obtain ⟨-, content, -, rfl⟩ := hreturned
      split_ifs
      · exact Or.inl (quiet_batchDone after)
      · exact Or.inr (Or.inr (Or.inr
          ⟨slots, after, i, outcome, call, content, he, hphase, hslot, rfl⟩))
    · contradiction

/-- A write that the gate refuses is executed with the approved calls only. -/
theorem Gated.approved_of_write (h : Gated E approved r) {call : ToolCall}
    (hcall : call ∈ r.executing) (hwrite : E.tools.isWrite call = true)
    (hgate : E.approved call = false) : approved = some r.executing := by
  unfold executing at hcall ⊢
  unfold Gated at h
  split at hcall
  · rename_i slots after hphase
    rw [hphase] at h
    cases after with
    | nextRound =>
      have hpassed := List.any_eq_false.1 h call (List.mem_filter.2 ⟨hcall, hwrite⟩)
      simp [hgate] at hpassed
    | resume surfacedTools => exact h
  · simp at hcall

/-! ### Runs -/

theorem described_of_step {e : RunEvent} {pending : PendingApproval}
    (hs : r.step E e = some r') (hphase : r'.phase = .blocked pending) : Described E pending := by
  rcases step_cases hs with hquiet | ⟨pending', hblocked, hd⟩ | ⟨slots, hexecuting, -⟩ |
    ⟨slots, after, i, outcome, call, content, -, -, -, hexecuting⟩
  · exact absurd hphase (hquiet.not_blocked pending)
  · obtain rfl := RunPhase.blocked.inj (hphase.symm.trans hblocked)
    exact hd
  · rw [hexecuting] at hphase
    contradiction
  · rw [hexecuting] at hphase
    contradiction

theorem gated_resume (pending : PendingApproval) :
    Gated E (some pending.toolCalls) (resume pending) := by
  simp [Gated, resume, execute, Function.comp_def]

theorem gated_step {e : RunEvent} (h : Gated E approved r) (hs : r.step E e = some r') :
    Gated E approved r' := by
  rcases step_cases hs with hquiet | ⟨pending, hblocked, -⟩ | ⟨slots, hexecuting, hgate⟩ |
    ⟨slots, after, i, outcome, call, content, -, hphase, hslot, hexecuting⟩
  · exact hquiet.gated
  · unfold Gated
    rw [hblocked]
    trivial
  · unfold Gated
    rw [hexecuting]
    exact hgate
  · unfold Gated at h ⊢
    rw [hphase] at h
    rw [hexecuting]
    have hcalls := map_fst_set (some content) hslot
    cases after with
    | nextRound => exact (congrArg (needsWriteApproval E ∘ getWriteToolCalls E) hcalls).trans h
    | resume surfacedTools => exact h.trans (congrArg some hcalls.symm)

theorem phase_of_approvedSlots {slots : List Slot} (h : r.approvedSlots = some slots) :
    ∃ surfacedTools, r.phase = .executing slots (.resume surfacedTools) := by
  unfold approvedSlots at h
  split at h
  · rename_i slots' surfacedTools hphase
    obtain rfl := Option.some.inj h
    exact ⟨surfacedTools, hphase⟩
  · contradiction

/-- An approved batch goes on by one result. -/
theorem approvedSlots_step {e : RunEvent} {slots' : List Slot} (hs : r.step E e = some r')
    (hslots' : r'.approvedSlots = some slots') : ∃ slots i outcome call content,
      e = .toolReturned i outcome ∧ r.approvedSlots = some slots ∧
        slots[i]? = some (call, none) ∧ slots' = slots.set i (call, some content) := by
  obtain ⟨surfacedTools, hphase'⟩ := phase_of_approvedSlots hslots'
  rcases step_cases hs with hquiet | ⟨pending, hblocked, -⟩ | ⟨slots, hexecuting, -⟩ |
    ⟨slots, after, i, outcome, call, content, he, hphase, hslot, hexecuting⟩
  · unfold Quiet at hquiet
    rw [hphase'] at hquiet
    contradiction
  · rw [hblocked] at hphase'
    contradiction
  · rw [hexecuting] at hphase'
    simp at hphase'
  · obtain ⟨rfl, rfl⟩ := RunPhase.executing.inj (hphase'.symm.trans hexecuting)
    exact ⟨slots, i, outcome, call, content, he, by simp [approvedSlots, hphase], hslot, rfl⟩

/-- A result comes to a slot that has none. -/
theorem slot_of_toolReturned {slots : List Slot} {i : ℕ} {outcome : HandlerOutcome}
    (hs : r.step E (.toolReturned i outcome) = some r') (hslots : r.approvedSlots = some slots) :
    ∃ call, slots[i]? = some (call, none) := by
  obtain ⟨surfacedTools, hphase⟩ := phase_of_approvedSlots hslots
  simp only [step, hphase, toolReturned] at hs
  split at hs
  · rename_i call hslot
    exact ⟨call, hslot⟩
  · contradiction

end AgentRun

end NemoClaw
