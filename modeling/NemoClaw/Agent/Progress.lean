import Mathlib.Data.Prod.Lex
import NemoClaw.Lib.Coroutine
import NemoClaw.Agent.WriteGate

/-! Progress of the agent loop. Whatever the backend and the tools answer, a run goes on until it
returns, is blocked or raises, and each step brings it nearer to its end. -/

namespace NemoClaw

open Lib

namespace AgentRun

/-- The run has not ended. -/
def inProgress (r : AgentRun) : Bool :=
  match r.phase with
  | .returned _ | .blocked _ | .raised => false
  | _ => true

/-- The run raises: the backend fails it, or a write to be described has arguments that are not an
object. -/
def fails (E : AgentEnv) (r : AgentRun) : RunEvent → Bool
  | .answered (.error _) => true
  | .answered (.ok response) => decide (r.phase = .completing) &&
      needsWriteApproval E (getWriteToolCalls E response.toolCalls) &&
        (formatWriteDescription E (getWriteToolCalls E response.toolCalls)).isNone
  | .toolReturned _ _ => false

/-- The model asks for a write that the gate refuses. -/
def asksWrite (E : AgentEnv) (r : AgentRun) : RunEvent → Bool
  | .answered (.ok response) => decide (r.phase = .completing) &&
      needsWriteApproval E (getWriteToolCalls E response.toolCalls) &&
        (formatWriteDescription E (getWriteToolCalls E response.toolCalls)).isSome
  | .answered (.error _) | .toolReturned _ _ => false

/-- What holds of a run in progress. -/
def Live (E : AgentEnv) (r : AgentRun) : Prop :=
  match r.phase with
  | .summarizing => r.round < E.config.maxToolRounds ∧ (split E r.working).isSome = true
  | .completing | .continuing _ _ _ => r.round < E.config.maxToolRounds
  | .executing slots after => (∃ slot ∈ slots, slot.2 = none) ∧
      (after = .nextRound → r.round < E.config.maxToolRounds)
  | .blocked pending => pending.toolCalls ≠ []
  | .returned _ | .raised => True

def unfilled (slots : List Slot) : ℕ := slots.countP fun slot => slot.2.isNone

/-- The rounds that can follow a batch. -/
def roundsLeft (E : AgentEnv) (round : ℕ) : AfterBatch → ℕ
  | .nextRound => E.config.maxToolRounds - round
  | .resume _ => E.config.maxToolRounds + 1

/-- How far the run is from its end: the rounds to come, the stages of this one, and the awaits of
its last stage. -/
def left (E : AgentEnv) (r : AgentRun) : ℕ ×ₗ ℕ ×ₗ ℕ :=
  match r.phase with
  | .summarizing => toLex (E.config.maxToolRounds - r.round, toLex (3, 0))
  | .completing => toLex (E.config.maxToolRounds - r.round, toLex (2, 0))
  | .continuing _ _ left => toLex (E.config.maxToolRounds - r.round, toLex (1, left))
  | .executing slots after => toLex (roundsLeft E r.round after, toLex (1, unfilled slots))
  | .returned _ | .blocked _ | .raised => toLex (0, toLex (0, 0))

variable {E : AgentEnv} {r r' : AgentRun}

theorem left_lt {a b c a' b' c' : ℕ} :
    toLex (a, toLex (b, c)) < toLex (a', toLex (b', c')) ↔
      a < a' ∨ a = a' ∧ (b < b' ∨ b = b' ∧ c < c') := by
  rw [Prod.Lex.toLex_lt_toLex, Prod.Lex.toLex_lt_toLex]

theorem unfilled_set {slots : List Slot} {i : ℕ} {call : ToolCall} (content : String)
    (h : slots[i]? = some (call, none)) :
    unfilled (slots.set i (call, some content)) < unfilled slots := by
  obtain ⟨hi, heq⟩ := List.getElem?_eq_some_iff.1 h
  have hpos : 0 < unfilled slots :=
    List.countP_pos_iff.2 ⟨(call, none), List.mem_of_getElem? h, rfl⟩
  unfold unfilled at hpos ⊢
  rw [List.countP_set hi]
  simp only [heq, Option.isNone_none, Option.isNone_some, ↓reduceIte, Bool.false_eq_true]
  omega

/-! ### The stages of a run -/

theorem live_startRound : Live E (startRound E r) := by
  unfold startRound
  split_ifs with hround
  · dsimp only [Live]
    split_ifs with hcompact
    · exact ⟨hround, hcompact.2⟩
    · exact hround
  · trivial

theorem left_startRound {a b c : ℕ} (h : E.config.maxToolRounds - r.round < a) :
    left E (startRound E r) < toLex (a, toLex (b, c)) := by
  unfold startRound
  split_ifs with hround
  · dsimp only [left]
    split_ifs
    · exact left_lt.2 (by omega)
    · exact left_lt.2 (by omega)
  · exact left_lt.2 (by omega)

theorem live_continueTruncated (h : r.round < E.config.maxToolRounds) (working : List Message)
    (chunks : List String) (n : ℕ) : Live E (r.continueTruncated working chunks n) := by
  cases n with
  | zero => trivial
  | succ n => exact h

theorem left_continueTruncated (working : List Message) (chunks : List String) {n b c : ℕ}
    (h : 1 < b ∨ 1 = b ∧ n ≤ c) :
    left E (r.continueTruncated working chunks n) <
      toLex (E.config.maxToolRounds - r.round, toLex (b, c)) := by
  cases n with
  | zero => exact left_lt.2 (by omega)
  | succ n =>
    refine left_lt.2 (Or.inr ⟨rfl, ?_⟩)
    omega

theorem live_execute {calls : List ToolCall} (hcalls : calls ≠ []) (assistant : Message)
    (after : AfterBatch) (h : after = .nextRound → r.round < E.config.maxToolRounds) :
    Live E (r.execute assistant calls after) := by
  refine ⟨?_, h⟩
  obtain ⟨call, hcall⟩ := List.exists_mem_of_ne_nil calls hcalls
  exact ⟨(call, none), List.mem_map_of_mem hcall, rfl⟩

/-- A round after its answer. -/
theorem completed_live (h : r.round < E.config.maxToolRounds) (response : InferenceResponse) :
    Live E (r.completed E response) ∧
      left E (r.completed E response) <
        toLex (E.config.maxToolRounds - r.round, toLex (2, 0)) := by
  unfold completed
  split_ifs with hcalls
  · exact ⟨live_continueTruncated h _ _ _, left_continueTruncated _ _ (by omega)⟩
  · exact ⟨trivial, left_lt.2 (by omega)⟩
  · dsimp only
    split_ifs
    · split
      · exact ⟨trivial, left_lt.2 (by omega)⟩
      · exact ⟨hcalls, left_lt.2 (by omega)⟩
    · exact ⟨live_execute hcalls _ _ fun _ => h, left_lt.2 (Or.inr ⟨rfl, Or.inl (by omega)⟩)⟩

/-- The loop after the last result of a batch. -/
theorem batchDone_live (slots : List Slot) {after : AfterBatch}
    (h : after = .nextRound → r.round < E.config.maxToolRounds) (n : ℕ) :
    Live E (r.batchDone E slots after) ∧
      left E (r.batchDone E slots after) < toLex (roundsLeft E r.round after, toLex (1, n)) := by
  cases after with
  | nextRound =>
    have hround := h rfl
    refine ⟨live_startRound, left_startRound ?_⟩
    simp only [roundsLeft]
    omega
  | resume surfacedTools =>
    refine ⟨live_startRound, left_startRound ?_⟩
    simp only [roundsLeft]
    omega

theorem toolReturned_live {slots : List Slot} {after : AfterBatch} {i : ℕ}
    {outcome : HandlerOutcome} (h : after = .nextRound → r.round < E.config.maxToolRounds)
    (hs : r.toolReturned E slots after i outcome = some r') :
    Live E r' ∧ left E r' < toLex (roundsLeft E r.round after, toLex (1, unfilled slots)) := by
  unfold toolReturned at hs
  split at hs
  · rename_i call hslot
    simp only [Option.ite_none_right_eq_some, Option.map_eq_some_iff] at hs
    obtain ⟨-, content, -, rfl⟩ := hs
    split_ifs with hall
    · exact batchDone_live (r := { r with
        surface := surfaceAfter E r.surface call outcome
        found := r.found ++ outcome.names }) _ h _
    · have hnone : ∃ slot ∈ slots.set i (call, some content), slot.2 = none := by
        by_contra hnot
        apply hall
        rw [List.all_eq_true]
        intro slot hmem
        cases hcontent : slot.2 with
        | none => exact absurd ⟨slot, hmem, hcontent⟩ hnot
        | some text => rfl
      exact ⟨⟨hnone, h⟩, left_lt.2 (Or.inr ⟨rfl, Or.inr ⟨rfl, unfilled_set content hslot⟩⟩)⟩
  · contradiction

theorem live_start (requestId : String) (messages : List Message) (preSurfaced : List String) :
    Live E (start E requestId messages preSurfaced) :=
  live_startRound

theorem raised_live (hs : r' = { r with phase := .raised }) (h : r.inProgress = true) :
    Live E r' ∧ left E r' < left E r := by
  subst hs
  refine ⟨trivial, ?_⟩
  cases hphase : r.phase with
  | summarizing | completing | continuing | executing =>
    simp only [left, hphase]
    exact left_lt.2 (by omega)
  | returned | blocked | raised => simp [inProgress, hphase] at h

/-- Each step keeps a run alive, and brings it nearer to its end. -/
theorem step_live {e : RunEvent} (h : Live E r) (hs : r.step E e = some r') :
    Live E r' ∧ left E r' < left E r := by
  unfold step at hs
  split at hs
  · rename_i response hphase
    obtain ⟨parts, -, rfl⟩ := Option.map_eq_some_iff.1 hs
    simp only [Live, hphase] at h
    refine ⟨h.1, ?_⟩
    simp only [left, hphase]
    exact left_lt.2 (by omega)
  · rename_i response hphase
    obtain rfl := Option.some.inj hs
    simp only [Live, hphase] at h
    simp only [left, hphase]
    exact completed_live h response
  · rename_i working chunks n response hphase
    obtain rfl := Option.some.inj hs
    simp only [Live, hphase] at h
    simp only [hphase, left, continued]
    split_ifs
    · exact ⟨live_continueTruncated h _ _ _, left_continueTruncated _ _ (by omega)⟩
    · exact ⟨trivial, left_lt.2 (by omega)⟩
  · rename_i hphase
    exact raised_live (Option.some.inj hs).symm (by simp [inProgress, hphase])
  · rename_i hphase
    exact raised_live (Option.some.inj hs).symm (by simp [inProgress, hphase])
  · rename_i hphase
    exact raised_live (Option.some.inj hs).symm (by simp [inProgress, hphase])
  · rename_i slots after i outcome hphase
    simp only [Live, hphase] at h
    simp only [left, hphase]
    exact toolReturned_live h.2 hs
  · contradiction

/-- A run in progress awaits the backend, which may answer anything, or a call, which may raise. -/
theorem goes_on (h : Live E r) (hr : r.inProgress = true) :
    (∀ response, (r.step E (.answered response)).isSome = true) ∨
      ∃ i, ∀ error, (r.step E (.toolReturned i (.raised error))).isSome = true := by
  cases hphase : r.phase with
  | summarizing =>
    simp only [Live, hphase] at h
    refine Or.inl ?_
    intro response
    cases response with
    | error => simp [step, hphase]
    | ok response => simpa [step, hphase] using h.2
  | completing =>
    refine Or.inl ?_
    intro response
    cases response <;> simp [step, hphase]
  | continuing working chunks n =>
    refine Or.inl ?_
    intro response
    cases response <;> simp [step, hphase]
  | executing slots after =>
    simp only [Live, hphase] at h
    obtain ⟨i, call, hi, hturn⟩ := Pool.exists_turn E.tools.isConcurrencySafe h.1
    have hready : slotReady E slots i call = true := by
      rw [slotReady, Bool.or_eq_true, List.all_eq_true]
      refine hturn.imp id ?_
      rintro hlater ⟨⟨other, result⟩, j⟩ hmem
      have hdone := hlater j other result (List.mem_zipIdx_iff_getElem?.1 hmem)
      simpa using hdone
    refine Or.inr ⟨i, ?_⟩
    intro error
    simp [step, hphase, toolReturned, hi, hready, executeOne]
  | returned | blocked | raised => simp [inProgress, hphase] at hr

/-! ### How a run ends -/

/-- The run neither raises nor is blocked. -/
def Steady (r : AgentRun) : Prop := r.phase ≠ .raised ∧ ∀ pending, r.phase ≠ .blocked pending

/-- How a run goes on, given whether it raises and whether it is blocked. -/
def EndsAs (r : AgentRun) (raises blocks : Bool) : Prop :=
  (r.phase = .raised ↔ raises = true) ∧ ((∃ pending, r.phase = .blocked pending) ↔ blocks = true)

theorem Steady.endsAs (h : Steady r) : EndsAs r false false := by
  refine ⟨iff_of_false h.1 (by simp), iff_of_false ?_ (by simp)⟩
  rintro ⟨pending, hphase⟩
  exact h.2 pending hphase

theorem steady_startRound : Steady (startRound E r) := by
  unfold startRound
  split_ifs
  · dsimp only [Steady]
    split_ifs <;> simp
  · simp [Steady]

theorem steady_continueTruncated (working : List Message) (chunks : List String) (n : ℕ) :
    Steady (r.continueTruncated working chunks n) := by
  cases n <;> simp [Steady, continueTruncated, finish]

theorem steady_toolReturned {slots : List Slot} {after : AfterBatch} {i : ℕ}
    {outcome : HandlerOutcome} (hs : r.toolReturned E slots after i outcome = some r') :
    Steady r' := by
  unfold toolReturned at hs
  split at hs
  · simp only [Option.ite_none_right_eq_some, Option.map_eq_some_iff] at hs
    obtain ⟨-, content, -, rfl⟩ := hs
    split_ifs
    · cases after with
      | nextRound => exact steady_startRound
      | resume surfacedTools => exact steady_startRound
    · simp [Steady]
  · contradiction

theorem endsAs_completed (response : InferenceResponse) : EndsAs (r.completed E response)
    (needsWriteApproval E (getWriteToolCalls E response.toolCalls) &&
      (formatWriteDescription E (getWriteToolCalls E response.toolCalls)).isNone)
    (needsWriteApproval E (getWriteToolCalls E response.toolCalls) &&
      (formatWriteDescription E (getWriteToolCalls E response.toolCalls)).isSome) := by
  unfold completed
  split_ifs with hcalls hlength
  · rw [hcalls]
    exact (steady_continueTruncated _ _ _).endsAs
  · rw [hcalls]
    exact Steady.endsAs (by simp [Steady, finish])
  · dsimp only
    split_ifs with hneeds
    · rw [hneeds]
      cases hdescription : formatWriteDescription E (getWriteToolCalls E response.toolCalls) with
      | none => simp [EndsAs]
      | some description => simp [EndsAs]
    · rw [Bool.not_eq_true] at hneeds
      rw [hneeds]
      exact Steady.endsAs (by simp [Steady, execute])

/-- A step raises exactly if it fails, and is blocked exactly if the model asks for a write. -/
theorem step_endsAs {e : RunEvent} (hs : r.step E e = some r') :
    EndsAs r' (r.fails E e) (r.asksWrite E e) := by
  unfold step at hs
  split at hs
  · rename_i response hphase
    obtain ⟨parts, -, rfl⟩ := Option.map_eq_some_iff.1 hs
    simp [EndsAs, fails, asksWrite, hphase]
  · rename_i response hphase
    obtain rfl := Option.some.inj hs
    simp only [fails, asksWrite, hphase, decide_true, Bool.true_and]
    exact endsAs_completed response
  · rename_i working chunks n response hphase
    obtain rfl := Option.some.inj hs
    have hsteady : Steady (r.continued working chunks n response) := by
      unfold continued
      split_ifs
      · exact steady_continueTruncated _ _ _
      · simp [Steady, finish]
    simpa [fails, asksWrite, hphase] using hsteady.endsAs
  · obtain rfl := Option.some.inj hs
    simp [EndsAs, fails, asksWrite]
  · obtain rfl := Option.some.inj hs
    simp [EndsAs, fails, asksWrite]
  · obtain rfl := Option.some.inj hs
    simp [EndsAs, fails, asksWrite]
  · exact (steady_toolReturned hs).endsAs
  · contradiction

end AgentRun

end NemoClaw
