import NemoClaw.Lib.Budget
import NemoClaw.Orchestrator.Answers

/-! How often a request calls the backend. A round asks for its answer, and before it perhaps for
the summary of what came before; only the last round of a run asks for continuations. -/

namespace NemoClaw

open Lib

namespace AgentRun

/-- The calls of a run with so many rounds to come. -/
def roundCalls (E : AgentEnv) (rounds : ℕ) : ℕ :=
  2 * rounds + E.config.maxContinuationRetries

/-- The calls that the run may still make, the one it awaits among them. -/
def callsLeft (E : AgentEnv) (r : AgentRun) : ℕ :=
  match r.phase with
  | .summarizing => roundCalls E (E.config.maxToolRounds - r.round)
  | .completing => roundCalls E (E.config.maxToolRounds - r.round) - 1
  | .continuing _ _ left => left + 1
  | .executing _ .nextRound => roundCalls E (E.config.maxToolRounds - (r.round + 1))
  | .executing _ (.resume _) => roundCalls E E.config.maxToolRounds
  | .returned _ | .blocked _ | .raised => 0

def asksBackend (r : AgentRun) : Bool :=
  match r.phase with
  | .summarizing | .completing | .continuing _ _ _ => true
  | .executing _ _ | .returned _ | .blocked _ | .raised => false

/-- The backend answers. -/
def isAnswer : RunEvent → Bool
  | .answered _ => true
  | .toolReturned _ _ => false

variable {E : AgentEnv} {r r' : AgentRun}

theorem callsLeft_startRound :
    (startRound E r).callsLeft E ≤ roundCalls E (E.config.maxToolRounds - r.round) := by
  unfold startRound
  split_ifs
  · dsimp only [callsLeft]
    split_ifs
    · exact le_rfl
    · exact Nat.sub_le _ _
  · exact Nat.zero_le _

theorem callsLeft_continueTruncated (working : List Message) (chunks : List String) (n : ℕ) :
    (r.continueTruncated working chunks n).callsLeft E ≤ n := by
  cases n with
  | zero => exact le_rfl
  | succ n => exact le_rfl

/-- The answer of a round leaves it the continuations, or the rounds behind its batch. -/
theorem callsLeft_completed (hround : r.round < E.config.maxToolRounds)
    (response : InferenceResponse) : (r.completed E response).callsLeft E + 2 ≤
      roundCalls E (E.config.maxToolRounds - r.round) := by
  have hcontinue := callsLeft_continueTruncated (E := E) (r := r)
    (r.working ++ [.assistant response.content []]) [response.content]
    E.config.maxContinuationRetries
  unfold roundCalls
  unfold completed
  split_ifs
  · omega
  · simp only [finish, callsLeft]
    omega
  · dsimp only
    split_ifs
    · split
      · simp only [callsLeft]
        omega
      · simp only [callsLeft]
        omega
    · simp only [execute, callsLeft, roundCalls]
      omega

theorem callsLeft_batchDone (slots : List Slot) (after : AfterBatch) :
    (r.batchDone E slots after).callsLeft E ≤
      ({ r with phase := .executing slots after } : AgentRun).callsLeft E := by
  cases after with
  | nextRound => exact callsLeft_startRound
  | resume surfacedTools => exact callsLeft_startRound

theorem callsLeft_toolReturned {slots : List Slot} {after : AfterBatch} {i : ℕ}
    {outcome : HandlerOutcome} (hphase : r.phase = .executing slots after)
    (hs : r.toolReturned E slots after i outcome = some r') :
    r'.callsLeft E ≤ r.callsLeft E := by
  have hsame : ∀ slots', ({ r with phase := .executing slots' after } : AgentRun).callsLeft E =
      r.callsLeft E := by
    intro slots'
    unfold callsLeft
    rw [hphase]
    cases after <;> rfl
  unfold toolReturned at hs
  split at hs
  · rename_i call hslot
    simp only [Option.ite_none_right_eq_some, Option.map_eq_some_iff] at hs
    obtain ⟨-, content, -, rfl⟩ := hs
    split_ifs
    · refine (callsLeft_batchDone _ after).trans (le_of_eq ?_)
      exact hsame _
    · exact (hsame _).le
  · contradiction

/-- Each answer takes a call, and no step gives the run another one. -/
theorem callsLeft_step {e : RunEvent} (hlive : Live E r) (hs : r.step E e = some r') :
    r'.callsLeft E + (if isAnswer e then 1 else 0) ≤ r.callsLeft E := by
  unfold step at hs
  split at hs
  · rename_i response hphase
    obtain ⟨parts, -, rfl⟩ := Option.map_eq_some_iff.1 hs
    simp only [Live, hphase] at hlive
    simp only [callsLeft, hphase, isAnswer, ↓reduceIte, roundCalls]
    omega
  · rename_i response hphase
    obtain rfl := Option.some.inj hs
    simp only [Live, hphase] at hlive
    have hcompleted := callsLeft_completed hlive response
    have hleft : r.callsLeft E = roundCalls E (E.config.maxToolRounds - r.round) - 1 := by
      rw [callsLeft, hphase]
    rw [hleft]
    simp only [isAnswer, ↓reduceIte]
    omega
  · rename_i working chunks n response hphase
    obtain rfl := Option.some.inj hs
    have hleft : r.callsLeft E = n + 1 := by rw [callsLeft, hphase]
    rw [hleft]
    simp only [isAnswer, ↓reduceIte]
    unfold continued
    split_ifs
    · exact Nat.succ_le_succ (callsLeft_continueTruncated _ _ n)
    · exact Nat.succ_le_succ (Nat.zero_le n)
  · rename_i hphase
    obtain rfl := Option.some.inj hs
    simp only [Live, hphase] at hlive
    simp only [callsLeft, hphase, isAnswer, ↓reduceIte, roundCalls]
    omega
  · rename_i hphase
    obtain rfl := Option.some.inj hs
    simp only [Live, hphase] at hlive
    simp only [callsLeft, hphase, isAnswer, ↓reduceIte, roundCalls]
    omega
  · rename_i hphase
    obtain rfl := Option.some.inj hs
    simp only [callsLeft, hphase, isAnswer, ↓reduceIte]
    omega
  · rename_i slots after i outcome hphase
    exact callsLeft_toolReturned hphase hs
  · contradiction

/-- A call that is awaited is one of those that are left. -/
theorem one_le_callsLeft (hlive : Live E r) (hasks : r.asksBackend = true) :
    1 ≤ r.callsLeft E := by
  cases hphase : r.phase with
  | summarizing =>
    simp only [Live, hphase] at hlive
    simp only [callsLeft, hphase, roundCalls]
    omega
  | completing =>
    simp only [Live, hphase] at hlive
    simp only [callsLeft, hphase, roundCalls]
    omega
  | continuing working chunks left =>
    simp only [callsLeft, hphase]
    omega
  | executing | returned | blocked | raised => simp [asksBackend, hphase] at hasks

end AgentRun

/-- The calls that `_inference_with_repair` makes at most. -/
def repairCalls : ℕ := initialInferenceAttemptCount + maxContinuationRetries

/-- The calls that a request in this phase may still make. -/
def HandlingPhase.callsLeft (E : OrchestratorEnv) : HandlingPhase → ℕ
  | .running run | .resuming run _ => run.callsLeft E.agent
  | .inferring _ _ attempt => repairCalls - (attempt + 1) + 1
  | .finalizing | .replied _ | .raised | .cancelled => 0

/-- The request awaits the backend. -/
def HandlingPhase.asksBackend : HandlingPhase → Bool
  | .running run | .resuming run _ => run.asksBackend
  | .inferring _ _ _ => true
  | .finalizing | .replied _ | .raised | .cancelled => false

namespace Orchestrator

/-- The calls that one request makes at most. -/
def callBudget (E : OrchestratorEnv) : ℕ :=
  max (AgentRun.roundCalls E.agent E.agent.config.maxToolRounds) repairCalls

/-- The calls that a request may still make, or could if it came. -/
def callsLeft (E : OrchestratorEnv) (s : Orchestrator) (h : HandlerId) : ℕ :=
  (s.handlings.lookup h).elim (callBudget E) fun t => t.phase.callsLeft E

def asksBackend (s : Orchestrator) (h : HandlerId) : Bool :=
  (s.handlings.lookup h).any fun t => t.phase.asksBackend

/-- The backend answers a call of this request. -/
def answersCall (h : HandlerId) : OrchestratorEvent → Bool
  | .run h' e => decide (h' = h) && AgentRun.isAnswer e
  | .handle _ _ _ | .post _ | .actions _ | .cancel _ => false

variable {E : OrchestratorEnv} {s s' : Orchestrator} {h : HandlerId} {request : NormalizedRequest}

theorem callsLeft_setPhase (phase : HandlingPhase) :
    (s.setPhase h request phase).callsLeft E h = phase.callsLeft E := by
  rw [callsLeft, setPhase, AList.lookup_insert]
  rfl

theorem callsLeft_of_lookup (hlookup : s'.handlings.lookup h = s.handlings.lookup h) :
    s'.callsLeft E h = s.callsLeft E h := by
  rw [callsLeft, callsLeft, hlookup]

/-- A request behind a stage of its run has the calls that are left to the run. -/
theorem callsLeft_runsOn {run : AgentRun} {phase : HandlingPhase}
    (hs : RunsOn s h request run phase s') (hphase : phase.callsLeft E = run.callsLeft E.agent) :
    s'.callsLeft E h ≤ run.callsLeft E.agent := by
  cases hs with
  | ended prompt hlast =>
    rw [callsLeft_setPhase]
    obtain ⟨reply, rfl⟩ | rfl := hlast
    · exact Nat.zero_le _
    · exact Nat.zero_le _
  | stored =>
    rw [storeApproval, callsLeft_setPhase]
    exact Nat.zero_le _
  | goesOn => rw [callsLeft_setPhase, hphase]

/-- An answer takes one of the calls of `_inference_with_repair`. -/
theorem callsLeft_inferring (messages : List Message) (chunks : List String) (attempt : ℕ)
    (response : Except String InferenceResponse) :
    (s.inferring E h request messages chunks attempt response).callsLeft E h + 1 ≤
      (HandlingPhase.inferring messages chunks attempt).callsLeft E := by
  unfold inferring
  split
  · split
    · rw [respond, callsLeft_setPhase, HandlingPhase.callsLeft, HandlingPhase.callsLeft]
      omega
    · rename_i chunks' hrepair
      have hattempt : attempt + 1 < repairCalls := by
        unfold inferenceWithRepair at hrepair
        simp only at hrepair
        split_ifs at hrepair with _ _ hattempt
        exact hattempt
      rw [callsLeft_setPhase, HandlingPhase.callsLeft, HandlingPhase.callsLeft]
      omega
  · rw [callsLeft_setPhase, HandlingPhase.callsLeft, HandlingPhase.callsLeft]
    omega

theorem callsLeft_handleMessage (systemPrompt : String) :
    (s.handleMessage E h request systemPrompt).callsLeft E h ≤ callBudget E := by
  unfold handleMessage
  dsimp only
  split_ifs
  · rw [callsLeft_setPhase]
    exact Nat.zero_le _
  · rw [callsLeft_setPhase]
    exact le_max_right _ _
  · refine (callsLeft_runsOn (runsOn_running _ _) rfl).trans (le_trans ?_ (le_max_left _ _))
    exact AgentRun.callsLeft_startRound

/-- A request begins with its budget. -/
theorem callsLeft_handle (circumstances : Circumstances) :
    (s.handle E h request circumstances).callsLeft E h ≤ callBudget E := by
  unfold handle
  split
  · exact callsLeft_handleMessage _
  · split_ifs
    · unfold handleWriteApproval
      split
      · rw [callsLeft_setPhase]
        exact Nat.zero_le _
      · dsimp only
        split_ifs
        · rw [callsLeft_setPhase]
          exact Nat.zero_le _
        · rw [callsLeft_setPhase]
          exact le_max_left _ _
    · unfold handleWriteDenial
      split
      · rw [callsLeft_setPhase]
        exact Nat.zero_le _
      · rw [callsLeft_setPhase]
        exact Nat.zero_le _
    · rw [handleFinalizationAction, callsLeft_setPhase]
      exact Nat.zero_le _
    · exact callsLeft_handleMessage _

/-- Each answer to a request takes a call, and no step gives a request another one. -/
theorem callsLeft_step {e : OrchestratorEvent} (hp : Progressing E s)
    (hs : s.step E e = some s') :
    s'.callsLeft E h + (if answersCall h e then 1 else 0) ≤ s.callsLeft E h := by
  by_cases hhandler : e.handler = some h
  · cases e with
    | handle h' request circumstances =>
      obtain rfl := Option.some.inj hhandler
      simp only [step, Option.ite_none_right_eq_some] at hs
      obtain ⟨⟨hfresh, -⟩, hs⟩ := hs
      obtain rfl := Option.some.inj hs
      simp only [isFresh, Bool.and_eq_true, Option.isNone_iff_eq_none] at hfresh
      have hbudget : s.callsLeft E h' = callBudget E := by
        rw [callsLeft, hfresh.1.1]
        rfl
      rw [hbudget]
      exact callsLeft_handle circumstances
    | run h' e =>
      obtain rfl := Option.some.inj hhandler
      obtain ⟨request, phase, ht, hcase⟩ := run_cases hs
      have hphase : s.callsLeft E h' = phase.callsLeft E := by
        rw [callsLeft, ht]
        rfl
      rw [hphase]
      simp only [answersCall, decide_true, Bool.true_and]
      rcases hcase with ⟨run, run', rfl, hrun, rfl⟩ | ⟨run, run', approval, rfl, hrun, rfl⟩ |
        ⟨messages, chunks, attempt, response, rfl, rfl, rfl⟩
      · have hlive := (hp.live h' _ run ht rfl).1
        have hpays := AgentRun.callsLeft_step hlive hrun
        exact (Nat.add_le_add_right (callsLeft_runsOn (runsOn_running run' _) rfl) _).trans hpays
      · have hlive := (hp.live h' _ run ht rfl).1
        have hpays := AgentRun.callsLeft_step hlive hrun
        refine (Nat.add_le_add_right ?_ _).trans hpays
        exact callsLeft_runsOn (runsOn_resuming run' approval) rfl
      · exact callsLeft_inferring messages chunks attempt response
    | post h' => contradiction
    | actions e => contradiction
    | cancel h' =>
      obtain rfl := Option.some.inj hhandler
      obtain ⟨t, request, -, -, rfl⟩ := cancel_lookup hs
      rw [callsLeft_setPhase]
      exact Nat.zero_le _
  · have hsame : s'.callsLeft E h = s.callsLeft E h :=
      callsLeft_of_lookup (lookup_of_other hs hhandler)
    have hnone : answersCall h e = false := by
      cases e with
      | run h' e =>
        have hne : h' ≠ h := by
          rintro rfl
          exact hhandler rfl
        simp [answersCall, hne]
      | handle | post | actions | cancel => rfl
    rw [hsame, hnone]
    exact le_rfl

theorem one_le_callsLeft (hp : Progressing E s) (hasks : s.asksBackend h = true) :
    1 ≤ s.callsLeft E h := by
  obtain ⟨⟨request, phase⟩, ht, hasks⟩ := (Option.any_eq_true _ _).1 hasks
  have hphase : s.callsLeft E h = phase.callsLeft E := by
    rw [callsLeft, ht]
    rfl
  rw [hphase]
  cases phase with
  | running run => exact AgentRun.one_le_callsLeft (hp.live h _ run ht rfl).1 hasks
  | resuming run approval => exact AgentRun.one_le_callsLeft (hp.live h _ run ht rfl).1 hasks
  | inferring messages chunks attempt => exact Nat.succ_le_succ (Nat.zero_le _)
  | finalizing | replied | raised | cancelled => contradiction

/-- In any run each request makes at most two calls of the backend for each round of a run, and the
continuations of the last one; without tools it makes those of `_inference_with_repair`. -/
theorem inference_calls_bounded (E : OrchestratorEnv) (h : HandlerId)
    {tr : List (Orchestrator × OrchestratorEvent)} {s : Orchestrator}
    (htr : (orchestratorMachine E).Trace tr s) :
    Machine.charged (answersCall h) tr + (if s.asksBackend h then 1 else 0) ≤
      max (2 * E.agent.config.maxToolRounds + E.agent.config.maxContinuationRetries)
        (initialInferenceAttemptCount + maxContinuationRetries) := by
  have hp : Progressing E s :=
    htr.invariant progressing_initial fun s e s' hp hs => progressing_step hp hs
  have hspent : s.callsLeft E h + Machine.charged (answersCall h) tr ≤ callBudget E :=
    htr.charged_le (fun s => s.callsLeft E h) (Progressing E) progressing_initial
      fun s e s' hp hs => ⟨progressing_step hp hs, callsLeft_step hp hs⟩
  have hawaited : (if s.asksBackend h then 1 else 0) ≤ s.callsLeft E h := by
    split_ifs with hasks
    · exact one_le_callsLeft hp hasks
    · exact Nat.zero_le _
  have hbudget : callBudget E =
      max (2 * E.agent.config.maxToolRounds + E.agent.config.maxContinuationRetries)
        (initialInferenceAttemptCount + maxContinuationRetries) := rfl
  omega

/-- Every second message of a thread is summarized, and a run has one round. -/
def shortRuns : OrchestratorEnv :=
  { fileWriter with
    agent :=
      { fileWriter.agent with
        config :=
          { fileWriter.agent.config with
            maxToolRounds := 1
            compactionThresholdChars := 0
            compactionMinKeep := 0 } } }

/-- An answer that stops for this reason. -/
def answering (finishReason content : String) : RunEvent :=
  .answered (.ok { content := content, finishReason := finishReason, toolCalls := [] })

/-- The second message has its history summarized, and an answer in three parts. -/
def longAnswer : List OrchestratorEvent :=
  [.handle 0 (saying "r-1" "hello") {},
   .run 0 (answering "stop" "hi"),
   .handle 1 (saying "r-2" "tell me a story") {},
   .run 1 (answering "stop" "we greeted each other"),
   .run 1 (answering "length" "once "),
   .run 1 (answering "length" "upon "),
   .run 1 (answering "length" "a time")]

theorem inference_calls_bounded_longAnswer : ∃ tr s, (orchestratorMachine shortRuns).Trace tr s ∧
    tr.map Prod.snd = longAnswer ∧ Machine.charged (answersCall 1) tr = 4 ∧
      Machine.charged (answersCall 1) tr + (if s.asksBackend 1 then 1 else 0) ≤
        max (2 * 1 + 2) (1 + 2) := by
  obtain ⟨tr, s, hrun, hevents, hp⟩ := Machine.Trace.of_check
    (M := orchestratorMachine shortRuns) longAnswer
    (p := fun tr _ => Machine.charged (answersCall 1) tr == 4) (by decide)
  exact ⟨tr, s, hrun, hevents, beq_iff_eq.1 hp, inference_calls_bounded shortRuns 1 hrun⟩

end Orchestrator

end NemoClaw
