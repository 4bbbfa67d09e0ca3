import NemoClaw.Backends.InferenceHub
import NemoClaw.Lib.Simulation
import NemoClaw.Orchestrator.Budget

/-! The orchestrator over the backend for chat completions. What a request awaits from the backend
is a call of `complete`, with its attempts over HTTP and its pauses; its end is the answer. A
completion whose content, finish reason or tool calls hold something that is no text is left out:
the orchestrator is not modelled on it. -/

namespace NemoClaw

open Lib

namespace InferenceHub

variable {φ : Type*}

def asText : Json φ → Option String
  | .str s => some s
  | _ => none

def ReadToolCall.call (c : ReadToolCall φ) : Option ToolCall := do
  let id ← asText c.id
  let name ← asText c.name
  let arguments ← asText c.arguments
  return ⟨id, name, arguments⟩

/-- The response, if the server kept to the types of the API. -/
def Completion.response (c : Completion φ) : Option InferenceResponse := do
  let content ← asText c.content
  let finishReason ← asText c.finishReason
  let toolCalls ← (c.toolCalls.getD []).mapM ReadToolCall.call
  return ⟨content, finishReason, toolCalls⟩

/-- What the end of a call is for the orchestrator, which tells errors apart by their texts. -/
def answer (category : String → ErrorCategory) :
    Except (InferenceError φ) (Completion φ) → Option (Except String InferenceResponse)
  | .ok completion => completion.response.map .ok
  | .error error =>
    if category error.message = error.category then some (.error error.message) else none

/-- The attempts that a call makes at most. -/
def attemptBudget (B : Backend φ) : ℕ := max 1 B.maxRetries.toNat

namespace Call

/-- The attempts that are over. -/
def spent (c : Call φ) : ℕ := c.attempt - 1 + c.pause.toList.length

/-- The call keeps to its attempts. -/
def Within (B : Backend φ) (c : Call φ) : Prop :=
  1 ≤ c.attempt ∧ c.attempt + c.pause.toList.length ≤ attemptBudget B

variable {B : Backend φ} {c c' : Call φ} {e : CallEvent φ}

theorem within_start : Within B {} := ⟨le_rfl, le_max_left _ _⟩

theorem spent_lt (h : c.Within B) : c.spent < attemptBudget B := by
  obtain ⟨hone, hbound⟩ := h
  unfold spent
  omega

/-- An exchange puts the call to sleep or ends it, and behind the sleep the next attempt is due. -/
theorem step_cases (h : c.Within B) (hs : c.step B e = some c') :
    (∃ exchange, e = .exchanged exchange ∧
      ((c'.result = none ∧ c'.Within B ∧ c'.spent = c.spent + 1) ∨
        ∃ result, c'.result = some result)) ∨
      (e = .slept ∧ c'.result = none ∧ c'.Within B ∧ c'.spent = c.spent) := by
  obtain ⟨hone, hbound⟩ := h
  unfold step at hs
  split at hs
  · rename_i exchange hphase
    obtain rfl := Option.some.inj hs
    left
    refine ⟨exchange, rfl, ?_⟩
    rcases attempted_cases (B := B) (c := c) exchange with ⟨hagain, hnext⟩ | ⟨-, hresult, -⟩
    · left
      have hpause : c.pause = none := by rw [pause, hphase]
      have hleft := lt_of_triedAgain hagain
      rw [hnext]
      refine ⟨rfl, ⟨hone, ?_⟩, ?_⟩
      · simp only [pause, Option.toList_some, List.length_singleton, attemptBudget]
        omega
      · rw [spent, spent, hpause]
        rfl
    · exact .inr ⟨_, hresult⟩
  · rename_i retryAfter hphase
    obtain rfl := Option.some.inj hs
    have hpause : c.pause = some retryAfter := by rw [pause, hphase]
    rw [hpause] at hbound
    right
    refine ⟨rfl, rfl, ⟨Nat.le_add_left 1 _, hbound⟩, ?_⟩
    rw [spent, spent, hpause]
    exact (Nat.sub_add_cancel hone).symm
  · cases hs

end Call

end InferenceHub

/-- The orchestrator, and for each request its last call of `complete`. -/
structure Served (φ : Type*) where
  orchestrator : Orchestrator := {}
  calls : HandlerId → InferenceHub.Call φ := fun _ => {}

inductive ServedEvent (φ : Type*)
  | orchestrator (e : OrchestratorEvent)
  /-- the call that the request awaits goes on -/
  | call (h : HandlerId) (e : InferenceHub.CallEvent φ)

/-- The backend answers. -/
def OrchestratorEvent.isAnswer : OrchestratorEvent → Bool
  | .run _ e => AgentRun.isAnswer e
  | .handle _ _ _ | .post _ | .actions _ | .cancel _ => false

namespace Served

open InferenceHub

variable {φ : Type*} (E : OrchestratorEnv) (B : Backend φ)

/-- A call is over, or goes on. -/
def called (s : Served φ) (h : HandlerId) (c : Call φ) : Option (Served φ) :=
  match c.result with
  | none => some { s with calls := Function.update s.calls h c }
  | some result => (answer E.category result).bind fun response =>
      (s.orchestrator.step E (.run h (.answered response))).map fun orchestrator =>
        ⟨orchestrator, Function.update s.calls h {}⟩

def step (s : Served φ) : ServedEvent φ → Option (Served φ)
  | .orchestrator e =>
    if e.isAnswer then none
    else (s.orchestrator.step E e).map fun orchestrator => { s with orchestrator := orchestrator }
  | .call h e =>
    if s.orchestrator.asksBackend h then ((s.calls h).step B e).bind (s.called E h) else none

/-- The event of the orchestrator that a step is, if it is one. -/
def heard (s : Served φ) : ServedEvent φ → List OrchestratorEvent
  | .orchestrator e => [e]
  | .call h e =>
    (((s.calls h).step B e).bind Call.result).toList.flatMap fun result =>
      (answer E.category result).toList.map fun response => .run h (.answered response)

/-- An attempt of this request is over. -/
def posts (h : HandlerId) : ServedEvent φ → Bool
  | .call h' (.exchanged _) => decide (h' = h)
  | .call _ .slept | .orchestrator _ => false

/-- An attempt of the request is under way. -/
def sends (s : Served φ) (h : HandlerId) : Bool :=
  s.orchestrator.asksBackend h && (s.calls h).isSending

/-- The attempts that are left to a request. -/
def postsLeft (s : Served φ) (h : HandlerId) : ℕ :=
  s.orchestrator.callsLeft E h * attemptBudget B - (s.calls h).spent

structure Serving (s : Served φ) : Prop where
  progressing : Orchestrator.Progressing E s.orchestrator
  within : ∀ h, (s.calls h).Within B

end Served

def servedMachine {φ : Type*} (E : OrchestratorEnv) (B : InferenceHub.Backend φ) :
    Lib.Machine (Served φ) (ServedEvent φ) where
  init := {}
  step := Served.step E B

namespace Served

open InferenceHub

variable {φ : Type*} {E : OrchestratorEnv} {B : Backend φ} {s s' : Served φ} {h : HandlerId}

/-- While a request awaits the backend, all attempts of a call are left to it. -/
theorem budget_le (hp : Serving E B s) (hasks : s.orchestrator.asksBackend h = true) :
    attemptBudget B ≤ s.orchestrator.callsLeft E h * attemptBudget B :=
  Nat.le_mul_of_pos_left _ (Orchestrator.one_le_callsLeft hp.progressing hasks)

theorem within_update {c : Call φ} (hp : Serving E B s) (hc : c.Within B) (h' : HandlerId) :
    (Function.update s.calls h c h').Within B := by
  rcases eq_or_ne h' h with rfl | hne
  · rw [Function.update_self]
    exact hc
  · rw [Function.update_of_ne hne]
    exact hp.within h'

/-- The attempts of the others are not touched. -/
theorem postsLeft_update {c : Call φ} {h' : HandlerId} (hne : h ≠ h')
    {orchestrator : Orchestrator}
    (hcalls : orchestrator.callsLeft E h ≤ s.orchestrator.callsLeft E h) :
    postsLeft E B ⟨orchestrator, Function.update s.calls h' c⟩ h ≤ postsLeft E B s h := by
  unfold postsLeft
  dsimp only
  rw [Function.update_of_ne hne]
  exact Nat.sub_le_sub_right (Nat.mul_le_mul_right _ hcalls) _

/-- A call that goes on pays for an exchange with an attempt. -/
theorem postsLeft_goesOn {c : Call φ} {n : ℕ} (hp : Serving E B s)
    (hasks : s.orchestrator.asksBackend h = true) (hc : c.Within B)
    (hspent : c.spent = (s.calls h).spent + n) :
    postsLeft E B { s with calls := Function.update s.calls h c } h + n ≤ postsLeft E B s h := by
  have hbudget := budget_le hp hasks
  have hlt := Call.spent_lt hc
  unfold postsLeft
  dsimp only
  rw [Function.update_self]
  omega

/-- A call that ends gives up the attempts that are left to it. -/
theorem postsLeft_over {orchestrator : Orchestrator} (hp : Serving E B s)
    (hcalls : orchestrator.callsLeft E h + 1 ≤ s.orchestrator.callsLeft E h) :
    postsLeft E B ⟨orchestrator, Function.update s.calls h {}⟩ h + 1 ≤ postsLeft E B s h := by
  have hlt := Call.spent_lt (hp.within h)
  have hpaid := Nat.mul_le_mul_right (attemptBudget B) hcalls
  rw [Nat.succ_mul] at hpaid
  unfold postsLeft
  dsimp only
  rw [Function.update_self]
  omega

/-- How a call goes on. -/
theorem called_cases {c : Call φ} (hs : s.called E h c = some s') :
    (c.result = none ∧ s' = { s with calls := Function.update s.calls h c }) ∨
      ∃ result response orchestrator, c.result = some result ∧
        answer E.category result = some response ∧
          s.orchestrator.step E (.run h (.answered response)) = some orchestrator ∧
            s' = ⟨orchestrator, Function.update s.calls h {}⟩ := by
  unfold called at hs
  split at hs
  · rename_i hresult
    obtain rfl := Option.some.inj hs
    exact .inl ⟨hresult, rfl⟩
  · rename_i result hresult
    obtain ⟨response, hanswer, hs⟩ := Option.bind_eq_some_iff.1 hs
    obtain ⟨orchestrator, hstep, rfl⟩ := Option.map_eq_some_iff.1 hs
    exact .inr ⟨result, response, orchestrator, hresult, hanswer, hstep, rfl⟩

/-- A call is stepped only while its request awaits it. -/
theorem call_cases {e : CallEvent φ} (hs : s.step E B (.call h e) = some s') :
    s.orchestrator.asksBackend h = true ∧
      ∃ c, (s.calls h).step B e = some c ∧ s.called E h c = some s' := by
  simp only [step, Option.ite_none_right_eq_some] at hs
  exact ⟨hs.1, Option.bind_eq_some_iff.1 hs.2⟩

/-- The answer to a request is one of its calls. -/
theorem callsLeft_answered {response : Except String InferenceResponse}
    {orchestrator : Orchestrator} (hp : Serving E B s)
    (hstep : s.orchestrator.step E (.run h (.answered response)) = some orchestrator)
    (h' : HandlerId) :
    orchestrator.callsLeft E h' + (if h = h' then 1 else 0) ≤ s.orchestrator.callsLeft E h' := by
  have hpays := Orchestrator.callsLeft_step (h := h') hp.progressing hstep
  simpa [Orchestrator.answersCall, AgentRun.isAnswer] using hpays

/-- Each exchange of a request takes one of the attempts that are left to it, and no step gives it
another one. -/
theorem serving_step {e : ServedEvent φ} (hp : Serving E B s) (hs : s.step E B e = some s') :
    Serving E B s' ∧
      postsLeft E B s' h + (if posts h e then 1 else 0) ≤ postsLeft E B s h := by
  cases e with
  | orchestrator e =>
    simp only [step, Option.ite_none_left_eq_some] at hs
    obtain ⟨orchestrator, hstep, rfl⟩ := Option.map_eq_some_iff.1 hs.2
    have hpays := Orchestrator.callsLeft_step (h := h) hp.progressing hstep
    refine ⟨⟨Orchestrator.progressing_step hp.progressing hstep, hp.within⟩, ?_⟩
    have hcalls : orchestrator.callsLeft E h ≤ s.orchestrator.callsLeft E h := by omega
    exact Nat.sub_le_sub_right (Nat.mul_le_mul_right _ hcalls) _
  | call h' e =>
    obtain ⟨hasks, c, hcall, hs⟩ := call_cases hs
    rcases called_cases hs with ⟨hnone, rfl⟩ |
      ⟨result, response, orchestrator, hresult, -, hstep, rfl⟩
    · rcases Call.step_cases (hp.within h') hcall with
        ⟨exchange, rfl, ⟨-, hwithin, hspent⟩ | ⟨result, hsome⟩⟩ | ⟨rfl, -, hwithin, hspent⟩
      · refine ⟨⟨hp.progressing, within_update hp hwithin⟩, ?_⟩
        rcases eq_or_ne h' h with rfl | hne
        · have hpays := postsLeft_goesOn hp hasks hwithin hspent
          simpa [posts] using hpays
        · have hsame := postsLeft_update (B := B) (c := c) hne.symm
            (le_refl (s.orchestrator.callsLeft E h))
          simpa [posts, hne] using hsame
      · rw [hnone] at hsome
        cases hsome
      · refine ⟨⟨hp.progressing, within_update hp hwithin⟩, ?_⟩
        rcases eq_or_ne h' h with rfl | hne
        · exact postsLeft_goesOn hp hasks hwithin hspent
        · exact postsLeft_update hne.symm le_rfl
    · have hcalls := callsLeft_answered hp hstep h
      refine ⟨⟨Orchestrator.progressing_step hp.progressing hstep,
        within_update hp Call.within_start⟩, ?_⟩
      rcases eq_or_ne h' h with rfl | hne
      · rw [if_pos rfl] at hcalls
        refine le_trans (Nat.add_le_add_left ?_ _) (postsLeft_over hp hcalls)
        split_ifs <;> omega
      · rw [if_neg hne] at hcalls
        have hsame := postsLeft_update (B := B) (c := {}) hne.symm hcalls
        have hother : posts h (.call h' e) = false := by
          cases e with
          | exchanged exchange => simp [posts, hne]
          | slept => rfl
        rw [hother]
        exact hsame

/-- What the orchestrator goes through is a run of its own, answered by the ends of the calls. -/
theorem orchestrator_simulation : Machine.Simulation (servedMachine E B) (orchestratorMachine E)
    (fun s orchestrator => s.orchestrator = orchestrator) (heard E B) where
  init := rfl
  step := by
    intro s e s' orchestrator hR hs
    obtain rfl := hR
    change s.step E B e = some s' at hs
    cases e with
    | orchestrator e =>
      simp only [step, Option.ite_none_left_eq_some] at hs
      obtain ⟨orchestrator, hstep, rfl⟩ := Option.map_eq_some_iff.1 hs.2
      exact ⟨_, _, Machine.exec_one hstep, rfl⟩
    | call h e =>
      obtain ⟨-, c, hcall, hs⟩ := call_cases hs
      rcases called_cases hs with ⟨hnone, rfl⟩ |
        ⟨result, response, orchestrator, hresult, hanswer, hstep, rfl⟩
      · have hsilent : heard E B s (.call h e) = [] := by
          simp [heard, hcall, hnone]
        rw [hsilent]
        exact ⟨[], s.orchestrator, rfl, rfl⟩
      · have hevent : heard E B s (.call h e) = [.run h (.answered response)] := by
          simp [heard, hcall, hresult, hanswer]
        rw [hevent]
        exact ⟨_, _, Machine.exec_one hstep, rfl⟩

theorem serving_initial : Serving E B ({} : Served φ) :=
  ⟨Orchestrator.progressing_initial, fun _ => Call.within_start⟩

/-- An attempt that is under way is one of those that are left. -/
theorem one_le_postsLeft (hp : Serving E B s) (hsends : s.sends h = true) :
    1 ≤ postsLeft E B s h := by
  obtain ⟨hasks, -⟩ := (Bool.and_eq_true_iff).1 hsends
  have hbudget := budget_le hp hasks
  have hlt := Call.spent_lt (hp.within h)
  unfold postsLeft
  omega

/-- However the server answers, each request makes at most `max_retries` attempts over HTTP for each
call of the backend that its rounds, its summaries and its continuations take; and the orchestrator
hears of these calls only how they end. -/
theorem posts_bounded (E : OrchestratorEnv) (B : Backend φ) (h : HandlerId)
    {tr : List (Served φ × ServedEvent φ)} {s : Served φ} (htr : (servedMachine E B).Trace tr s) :
    Machine.charged (posts h) tr + (if s.sends h then 1 else 0) ≤
        max (2 * E.agent.config.maxToolRounds + E.agent.config.maxContinuationRetries)
          (initialInferenceAttemptCount + maxContinuationRetries) * max 1 B.maxRetries.toNat ∧
      ∃ tr', (orchestratorMachine E).Trace tr' s.orchestrator ∧
        tr'.map Prod.snd = Machine.image (heard E B) tr := by
  have hp : Serving E B s :=
    htr.invariant serving_initial fun s e s' hp hs => (serving_step (h := h) hp hs).1
  have hspent := htr.charged_le (c := posts h) (fun s => postsLeft E B s h) (Serving E B)
    serving_initial fun s e s' hp hs => serving_step hp hs
  have hawaited : (if s.sends h then 1 else 0) ≤ postsLeft E B s h := by
    split_ifs with hsends
    · exact one_le_postsLeft hp hsends
    · exact Nat.zero_le _
  have hbudget : postsLeft E B (servedMachine E B).init h =
      max (2 * E.agent.config.maxToolRounds + E.agent.config.maxContinuationRetries)
        (initialInferenceAttemptCount + maxContinuationRetries) * max 1 B.maxRetries.toNat := rfl
  obtain ⟨tr', orchestrator, htr', rfl, hevents⟩ := orchestrator_simulation.run htr
  refine ⟨?_, tr', htr', hevents⟩
  omega

/-- A message is answered at the second attempt of its first call. -/
def answeredLate : List (ServedEvent ℕ) :=
  [.orchestrator (.handle 0 (Orchestrator.saying "r-1" "hello") {}),
   .call 0 (.exchanged (.timedOut "")),
   .call 0 .slept,
   .call 0 (.exchanged (.answered
      { statusCode := 200
        json := .ok (.obj [("choices", .arr [.obj [("message", .obj [("content", .str "hi")])]])])
      }))]

theorem posts_bounded_answeredLate : ∃ tr s,
    (servedMachine Orchestrator.shortRuns threeAttempts).Trace tr s ∧
      tr.map Prod.snd = answeredLate ∧ Machine.charged (posts 0) tr = 2 ∧
        (Machine.charged (posts 0) tr + (if s.sends 0 then 1 else 0) ≤
            max (2 * 1 + 2) (1 + 2) * max 1 3 ∧
          ∃ tr', (orchestratorMachine Orchestrator.shortRuns).Trace tr' s.orchestrator ∧
            tr'.map Prod.snd = Machine.image (heard Orchestrator.shortRuns threeAttempts) tr) := by
  obtain ⟨tr, s, hrun, hevents, hp⟩ := Machine.Trace.of_check
    (M := servedMachine Orchestrator.shortRuns threeAttempts) answeredLate
    (p := fun tr _ => Machine.charged (posts 0) tr == 2) (by decide)
  exact ⟨tr, s, hrun, hevents, beq_iff_eq.1 hp,
    posts_bounded Orchestrator.shortRuns threeAttempts 0 hrun⟩

end Served

end NemoClaw
