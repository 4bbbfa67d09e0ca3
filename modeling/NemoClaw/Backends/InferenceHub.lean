import NemoClaw.Lib.Machine
import NemoClaw.Lib.Records
import NemoClaw.Lib.Retry
import NemoClaw.Orchestrator.Orchestrator

/-! The backend for chat completions (`backends/inference_hub.py`): what a single attempt over HTTP
comes to, and the loop of `complete` that tries it again. A `Retry-After` is a number here; one of
`nan`, which `float` takes and `asyncio.sleep` does not, is left out. -/

namespace NemoClaw

open Lib

namespace InferenceHub

variable {φ : Type*}

/-- A use of a JSON value that raises a `TypeError` or an `AttributeError`. -/
inductive Misuse (φ : Type*)
  | subscript (value : Json φ) (key : String)
  | first (value : Json φ)
  | get (value : Json φ)
  | iterate (value : Json φ)

/-- What the language makes of floats, and the texts of its errors. -/
structure Runtime (φ : Type*) where
  isZero : φ → Bool
  /-- `float(text)`, unless it raises -/
  readFloat : String → Option φ
  text : Misuse φ → String

/-- An exception while a response is read. -/
inductive ReadError
  /-- a `KeyError` or an `IndexError` -/
  | lookup
  | other (text : String)
  deriving DecidableEq

variable (R : Runtime φ)

def truthy : Json φ → Bool
  | .null => false
  | .bool b => b
  | .int n => decide (n ≠ 0)
  | .float x => !R.isZero x
  | .str s => decide (s ≠ "")
  | .arr items => !items.isEmpty
  | .obj fields => !fields.isEmpty

/-- `value[key]` -/
def subscript (value : Json φ) (key : String) : Except ReadError (Json φ) :=
  match value with
  | .obj fields => (lookupField fields key).elim (.error .lookup) .ok
  | _ => .error (.other (R.text (.subscript value key)))

/-- `value[0]` -/
def first (value : Json φ) : Except ReadError (Json φ) :=
  match value with
  | .arr items => items.head?.elim (.error .lookup) .ok
  | .str s => s.toList.head?.elim (.error .lookup) fun c => .ok (.str (String.singleton c))
  | .obj _ => .error .lookup
  | _ => .error (.other (R.text (.first value)))

/-- `value.get(key, default)` -/
def getOr (value : Json φ) (key : String) (default : Json φ) : Except String (Json φ) :=
  match value with
  | .obj fields => .ok ((lookupField fields key).getD default)
  | _ => .error (R.text (.get value))

/-- What `for item in value` goes through. -/
def iterate (value : Json φ) : Except ReadError (List (Json φ)) :=
  match value with
  | .arr items => .ok items
  | .str s => .ok (s.toList.map fun c => .str (String.singleton c))
  | .obj fields => .ok (fields.map fun field => .str field.1)
  | _ => .error (.other (R.text (.iterate value)))

/-! ### A response -/

/-- `ToolCall`, with fields that may be any JSON. -/
structure ReadToolCall (φ : Type*) where
  id : Json φ
  name : Json φ
  arguments : Json φ

structure TokenUsage (φ : Type*) where
  promptTokens : Json φ
  completionTokens : Json φ
  totalTokens : Json φ

/-- `InferenceResponse`, without its latency. -/
structure Completion (φ : Type*) where
  content : Json φ
  model : Json φ
  usage : TokenUsage φ
  finishReason : Json φ
  toolCalls : Option (List (ReadToolCall φ))
  rawResponse : Json φ

inductive Raw (φ : Type*)
  | text (text : String)
  | data (data : Json φ)

structure InferenceError (φ : Type*) where
  message : String
  category : ErrorCategory
  raw : Raw φ

/-- `_RetryableError` -/
structure RetryableError (φ : Type*) extends InferenceError φ where
  retryAfter : Option φ := none

structure Response (φ : Type*) where
  statusCode : ℕ
  /-- the header `retry-after` -/
  retryAfter : Option String := none
  text : String := ""
  /-- `response.json()`, or the text of its exception -/
  json : Except String (Json φ)

/-- What comes of a `POST`. -/
inductive Exchange (φ : Type*)
  | answered (response : Response φ)
  /-- an `httpx.TimeoutException` with this text -/
  | timedOut (text : String)
  /-- another exception with this text -/
  | failed (text : String)

/-- How `_send_request` ends. -/
inductive Attempt (φ : Type*)
  | completed (completion : Completion φ)
  | failed (error : InferenceError φ)
  | retryable (error : RetryableError φ)

def categorizeStatus (statusCode : ℕ) : ErrorCategory :=
  if statusCode = 401 ∨ statusCode = 403 then .authError
  else if statusCode = 429 then .rateLimit
  else if 500 ≤ statusCode then .modelError
  else .unknown

def parseRetryAfter (response : Response φ) : Option φ :=
  response.retryAfter.bind fun header => if header = "" then none else R.readFloat header

def parseToolCall (call : Json φ) : Except ReadError (ReadToolCall φ) := do
  let id ← subscript R call "id"
  let function ← subscript R call "function"
  let name ← subscript R function "name"
  let arguments ← (getOr R function "arguments" (.str "\x7b\x7d")).mapError .other
  return ⟨id, name, arguments⟩

/-- The part of `_parse_response` whose lookups may fail: content, finish reason and tool calls. -/
def parseChoice (data : Json φ) :
    Except ReadError (Json φ × Json φ × Option (List (ReadToolCall φ))) := do
  let choices ← subscript R data "choices"
  let choice ← first R choices
  let message ← subscript R choice "message"
  let content ← (getOr R message "content" .null).mapError .other
  let finishReason ← (getOr R choice "finish_reason" (.str "stop")).mapError .other
  let rawToolCalls ← (getOr R message "tool_calls" .null).mapError .other
  let content := if truthy R content then content else .str ""
  if truthy R rawToolCalls then
    let calls ← iterate R rawToolCalls
    let toolCalls ← calls.mapM (parseToolCall R)
    return (content, finishReason, some toolCalls)
  else
    return (content, finishReason, none)

def parseUsage (data : Json φ) : Except String (TokenUsage φ) := do
  let usage ← getOr R data "usage" (.obj [])
  let promptTokens ← getOr R usage "prompt_tokens" (.int 0)
  let completionTokens ← getOr R usage "completion_tokens" (.int 0)
  let totalTokens ← getOr R usage "total_tokens" (.int 0)
  return ⟨promptTokens, completionTokens, totalTokens⟩

/-- An exception that `_send_request` does not expect. -/
def unexpected (text : String) : Attempt φ :=
  .failed ⟨text, .unknown, .text text⟩

def parseResponse (data : Json φ) : Attempt φ :=
  match parseChoice R data with
  | .error .lookup => .failed ⟨"Malformed response from model", .modelError, .data data⟩
  | .error (.other text) => unexpected text
  | .ok (content, finishReason, toolCalls) =>
    match parseUsage R data, getOr R data "model" (.str "unknown") with
    | .ok usage, .ok model =>
      .completed
        { content := content
          model := model
          usage := usage
          finishReason := if truthy R finishReason then finishReason else .str "stop"
          toolCalls := toolCalls
          rawResponse := data }
    | .error text, _ | _, .error text => unexpected text

def sendRequest : Exchange φ → Attempt φ
  | .answered response =>
    if response.statusCode = 200 then
      match response.json with
      | .ok data => parseResponse R data
      | .error text => unexpected text
    else
      match categorizeStatus response.statusCode with
      | .authError =>
        .failed ⟨"Authentication failed (" ++ toString response.statusCode ++ ")", .authError,
          .text response.text⟩
      | .rateLimit =>
        .retryable ⟨⟨"Server returned " ++ toString response.statusCode, .rateLimit,
          .text response.text⟩, parseRetryAfter R response⟩
      | .modelError =>
        .retryable ⟨⟨"Server returned " ++ toString response.statusCode, .modelError,
          .text response.text⟩, parseRetryAfter R response⟩
      | _ =>
        .failed ⟨"Unexpected status " ++ toString response.statusCode, .unknown,
          .text response.text⟩
  | .timedOut text => .retryable ⟨⟨"Request timed out", .timeout, .text text⟩, none⟩
  | .failed text => unexpected text

/-! ### The loop of `complete` -/

/-- `AsyncRetrying` with a retry condition and `stop_after_attempt`, as it is documented. -/
structure AsyncRetrying where
  /-- another attempt follows the failed one with this number, for an exception that meets the
  condition or does not -/
  again : (retryable : Bool) → (maxAttempts : ℤ) → (attempt : ℕ) → Bool
  again_iff : ∀ retryable maxAttempts attempt, again retryable maxAttempts attempt = true ↔
    retryable = true ∧ (attempt : ℤ) < maxAttempts

structure Backend (φ : Type*) where
  runtime : Runtime φ
  maxRetries : ℤ
  retrying : AsyncRetrying

inductive CallPhase (φ : Type*)
  | sending
  /-- asleep, for as long as `Retry-After` says if it says so -/
  | waiting (retryAfter : Option φ)
  | completed (completion : Completion φ)
  | raised (error : InferenceError φ)

/-- A call of `complete`, with the number of its attempt. -/
structure Call (φ : Type*) where
  attempt : ℕ := 1
  phase : CallPhase φ := .sending

inductive CallEvent (φ : Type*)
  | exchanged (exchange : Exchange φ)
  | slept

namespace Call

/-- What follows an attempt. -/
def attempted (B : Backend φ) (c : Call φ) : Attempt φ → Call φ
  | .completed completion => { c with phase := .completed completion }
  | .failed error =>
    if B.retrying.again false B.maxRetries c.attempt then { c with phase := .waiting none }
    else { c with phase := .raised error }
  | .retryable error =>
    if B.retrying.again true B.maxRetries c.attempt then
      { c with phase := .waiting error.retryAfter }
    else { c with phase := .raised error.toInferenceError }

def step (B : Backend φ) (c : Call φ) (e : CallEvent φ) : Option (Call φ) :=
  match c.phase, e with
  | .sending, .exchanged exchange => some (c.attempted B (sendRequest B.runtime exchange))
  | .waiting _, .slept => some { attempt := c.attempt + 1 }
  | _, _ => none

/-- How `complete` has ended. -/
def result (c : Call φ) : Option (Except (InferenceError φ) (Completion φ)) :=
  match c.phase with
  | .completed completion => some (.ok completion)
  | .raised error => some (.error error)
  | .sending | .waiting _ => none

def isSending (c : Call φ) : Bool :=
  match c.phase with
  | .sending => true
  | .waiting _ | .completed _ | .raised _ => false

/-- What the call sleeps for, if it does. -/
def pause (c : Call φ) : Option (Option φ) :=
  match c.phase with
  | .waiting retryAfter => some retryAfter
  | .sending | .completed _ | .raised _ => none

end Call

def callMachine (B : Backend φ) : Machine (Call φ) (CallEvent φ) where
  init := {}
  step := Call.step B

/-! ### Its purpose -/

/-- The failures that may pass: a timeout, too many requests, an error of the server. -/
def isTransient : Exchange φ → Bool
  | .answered response => decide (response.statusCode = 429 ∨ 500 ≤ response.statusCode)
  | .timedOut _ => true
  | .failed _ => false

/-- A transient failure is tried again as long as there are attempts. -/
def triedAgain (B : Backend φ) (n : ℕ) (exchange : Exchange φ) : Bool :=
  isTransient exchange && decide ((n : ℤ) < B.maxRetries)

/-- What an exchange is as the last one. -/
def final (B : Backend φ) (exchange : Exchange φ) : Except (InferenceError φ) (Completion φ) :=
  match sendRequest B.runtime exchange with
  | .completed completion => .ok completion
  | .failed error => .error error
  | .retryable error => .error error.toInferenceError

/-- The header of a transient failure, read as a number. -/
def retryAfter (B : Backend φ) : Exchange φ → Option φ
  | .answered response => parseRetryAfter B.runtime response
  | .timedOut _ | .failed _ => none

def exchanges (tr : List (Call φ × CallEvent φ)) : List (Exchange φ) :=
  tr.filterMap fun p =>
    match p.2 with
    | .exchanged exchange => some exchange
    | .slept => none

/-- The pauses that were slept. -/
def pauses (tr : List (Call φ × CallEvent φ)) : List (Option φ) :=
  tr.filterMap fun p =>
    match p.2 with
    | .exchanged _ => none
    | .slept => p.1.pause

/-! ### A run -/

variable {R} {B : Backend φ} {c : Call φ}

/-- A body that is read is never tried again. -/
theorem parseResponse_ne_retryable (data : Json φ) (error : RetryableError φ) :
    parseResponse R data ≠ .retryable error := by
  intro h
  unfold parseResponse at h
  split at h
  · cases h
  · cases h
  · split at h
    · cases h
    · cases h
    · cases h

/-- What raises a `_RetryableError` is a transient failure, and its pause is that of the header. -/
theorem sendRequest_cases (exchange : Exchange φ) :
    (isTransient exchange = true ∧
      ∃ error, sendRequest B.runtime exchange = .retryable error ∧
        error.retryAfter = retryAfter B exchange) ∨
      (isTransient exchange = false ∧
        ∀ error, sendRequest B.runtime exchange ≠ .retryable error) := by
  cases exchange with
  | answered response =>
    by_cases hok : response.statusCode = 200
    · right
      refine ⟨by simp [isTransient, hok], ?_⟩
      intro error h
      simp only [sendRequest, hok, ↓reduceIte] at h
      split at h
      · exact parseResponse_ne_retryable _ error h
      · cases h
    · simp only [sendRequest, hok, ↓reduceIte, isTransient, categorizeStatus]
      by_cases hauth : response.statusCode = 401 ∨ response.statusCode = 403
      · right
        simp only [hauth, ↓reduceIte, decide_eq_false_iff_not]
        refine ⟨by omega, ?_⟩
        intro error h
        cases h
      · by_cases hlimit : response.statusCode = 429
        · left
          simp only [hlimit, ↓reduceIte]
          exact ⟨rfl, _, rfl, rfl⟩
        · by_cases hserver : 500 ≤ response.statusCode
          · left
            simp only [hauth, hlimit, hserver, ↓reduceIte]
            exact ⟨by simp, _, rfl, rfl⟩
          · right
            simp only [hauth, hlimit, hserver, ↓reduceIte]
            refine ⟨by simp, ?_⟩
            intro error h
            cases h
  | timedOut text => exact .inl ⟨rfl, _, rfl, rfl⟩
  | failed text =>
    right
    refine ⟨rfl, ?_⟩
    intro error h
    cases h

theorem again_true (n : ℕ) :
    B.retrying.again true B.maxRetries n = decide ((n : ℤ) < B.maxRetries) := by
  rw [Bool.eq_iff_iff, B.retrying.again_iff]
  simp

theorem again_false (n : ℕ) : B.retrying.again false B.maxRetries n = false := by
  rw [Bool.eq_false_iff]
  intro h
  exact Bool.false_ne_true ((B.retrying.again_iff _ _ _).1 h).1

theorem lt_of_triedAgain {n : ℕ} {exchange : Exchange φ} (h : triedAgain B n exchange = true) :
    (n : ℤ) < B.maxRetries := by
  simp only [triedAgain, Bool.and_eq_true, decide_eq_true_eq] at h
  exact h.2

/-- A call that has ended neither sends nor sleeps. -/
theorem ended_of_result {result : Except (InferenceError φ) (Completion φ)}
    (h : c.result = some result) : c.isSending = false ∧ c.pause = none := by
  cases hphase : c.phase with
  | sending => simp [Call.result, hphase] at h
  | waiting retryAfter => simp [Call.result, hphase] at h
  | completed completion => exact ⟨by rw [Call.isSending, hphase], by rw [Call.pause, hphase]⟩
  | raised error => exact ⟨by rw [Call.isSending, hphase], by rw [Call.pause, hphase]⟩

/-- An attempt is tried again behind a pause, or it is the last one. -/
theorem attempted_cases (exchange : Exchange φ) :
    (triedAgain B c.attempt exchange = true ∧
      c.attempted B (sendRequest B.runtime exchange) =
        { c with phase := .waiting (retryAfter B exchange) }) ∨
      (triedAgain B c.attempt exchange = false ∧
        (c.attempted B (sendRequest B.runtime exchange)).result = some (final B exchange) ∧
          (c.attempted B (sendRequest B.runtime exchange)).attempt = c.attempt) := by
  rcases sendRequest_cases (B := B) exchange with ⟨htransient, error, herror, hpause⟩ |
    ⟨htransient, hnot⟩
  · by_cases hleft : (c.attempt : ℤ) < B.maxRetries
    · left
      refine ⟨by simp [triedAgain, htransient, hleft], ?_⟩
      rw [herror, Call.attempted, again_true, decide_eq_true hleft, if_pos rfl, hpause]
    · right
      refine ⟨by simp [triedAgain, hleft], ?_⟩
      rw [final, herror, Call.attempted, again_true, decide_eq_false hleft, if_neg (by simp)]
      exact ⟨rfl, rfl⟩
  · right
    refine ⟨by simp [triedAgain, htransient], ?_⟩
    unfold final
    cases hattempt : sendRequest B.runtime exchange with
    | completed completion => exact ⟨rfl, rfl⟩
    | failed error =>
      rw [Call.attempted, again_false, if_neg (by simp)]
      exact ⟨rfl, rfl⟩
    | retryable error => exact absurd hattempt (hnot error)

/-- Where a call stands after these exchanges and pauses. -/
structure Standing (B : Backend φ) (xs : List (Exchange φ)) (ps : List (Option φ)) (c : Call φ) :
    Prop where
  settled : c.result = (Retry.settled (triedAgain B) 1 xs).map (final B)
  pauses : ps ++ c.pause.toList = (Retry.retried (triedAgain B) 1 xs).map (retryAfter B)
  attempt : c.attempt = if c.isSending then xs.length + 1 else xs.length
  bound : c.attempt + c.pause.toList.length ≤ max 1 B.maxRetries.toNat

namespace Standing

variable {xs : List (Exchange φ)} {ps : List (Option φ)}

theorem start : Standing B [] [] {} :=
  ⟨rfl, rfl, rfl, le_max_left _ _⟩

/-- Before an exchange all that came is tried again, and has been slept for. -/
theorem pending (h : Standing B xs ps c) (hphase : c.phase = .sending) :
    Retry.settled (triedAgain B) 1 xs = none ∧ ps = xs.map (retryAfter B) ∧
      c.attempt = 1 + xs.length := by
  have hsettled := h.settled
  have hslept := h.pauses
  have hattempt := h.attempt
  rw [Call.result, hphase] at hsettled
  rw [Call.pause, hphase, Option.toList_none, List.append_nil] at hslept
  rw [Call.isSending, hphase, if_pos rfl, Nat.add_comm] at hattempt
  have hpending := Option.map_eq_none_iff.1 hsettled.symm
  have hretried := Retry.retried_append hpending []
  rw [List.append_nil, Retry.retried, List.append_nil] at hretried
  rw [hretried] at hslept
  exact ⟨hpending, hslept, hattempt⟩

theorem exchanged (h : Standing B xs ps c) (hphase : c.phase = .sending) (exchange : Exchange φ) :
    Standing B (xs ++ [exchange]) ps (c.attempted B (sendRequest B.runtime exchange)) := by
  obtain ⟨hpending, rfl, hattempt⟩ := h.pending hphase
  have hbound := h.bound
  rw [Call.pause, hphase] at hbound
  rcases attempted_cases (B := B) (c := c) exchange with ⟨hagain, hnext⟩ | ⟨hlast, hresult, hsame⟩
  · rw [hattempt] at hagain
    have hleft := lt_of_triedAgain hagain
    rw [hnext]
    constructor
    · rw [Retry.settled_append hpending, Retry.settled, if_pos hagain]
      rfl
    · rw [Retry.retried_append hpending, Retry.retried, if_pos hagain, List.map_append]
      rfl
    · rw [List.length_append, List.length_singleton]
      exact hattempt.trans (Nat.add_comm 1 xs.length)
    · simp only [Call.pause, Option.toList_some, List.length_singleton, hattempt]
      omega
  · obtain ⟨hsending, hpause⟩ := ended_of_result hresult
    rw [hattempt] at hlast
    have hnot : ¬ triedAgain B (1 + xs.length) exchange = true := by
      rw [hlast]
      exact Bool.false_ne_true
    constructor
    · rw [Retry.settled_append hpending, Retry.settled, if_neg hnot, hresult]
      rfl
    · rw [Retry.retried_append hpending, Retry.retried, if_neg hnot, List.append_nil, hpause,
        Option.toList_none, List.append_nil]
    · rw [hsending, hsame, hattempt, List.length_append, List.length_singleton, Nat.add_comm]
      rfl
    · rw [hpause, hsame]
      exact hbound

theorem slept (h : Standing B xs ps c) {retryAfter : Option φ}
    (hphase : c.phase = .waiting retryAfter) :
    Standing B xs (ps ++ [retryAfter]) { attempt := c.attempt + 1 } := by
  have hsettled := h.settled
  have hpauses := h.pauses
  have hattempt := h.attempt
  have hbound := h.bound
  rw [Call.result, hphase] at hsettled
  rw [Call.pause, hphase] at hpauses hbound
  rw [Call.isSending, hphase] at hattempt
  constructor
  · exact hsettled
  · rw [← hpauses]
    simp [Call.pause]
  · rw [hattempt]
    rfl
  · exact hbound

end Standing

theorem standing {tr : List (Call φ × CallEvent φ)} (htr : (callMachine B).Trace tr c) :
    Standing B (exchanges tr) (pauses tr) c := by
  induction htr with
  | nil => exact .start
  | @snoc tr c e c' _ hs ih =>
    change Call.step B c e = some c' at hs
    unfold Call.step at hs
    split at hs
    · rename_i exchange hphase
      obtain rfl := Option.some.inj hs
      have hnext := ih.exchanged hphase exchange
      simpa [exchanges, pauses] using hnext
    · rename_i retryAfter hphase
      obtain rfl := Option.some.inj hs
      have hnext := ih.slept hphase
      simpa [exchanges, pauses, Call.pause, hphase] using hnext
    · cases hs

/-- However the server answers, `complete` ends as the first exchange that is no transient failure
or takes the last attempt; before each further attempt it sleeps for what the header of the failure
says. It makes one attempt at least, and `max_retries` at most. -/
theorem complete_settles (B : Backend φ) {tr : List (Call φ × CallEvent φ)} {c : Call φ}
    (htr : (callMachine B).Trace tr c) :
    c.result = (Retry.settled (triedAgain B) 1 (exchanges tr)).map (final B) ∧
      pauses tr ++ c.pause.toList =
        (Retry.retried (triedAgain B) 1 (exchanges tr)).map (retryAfter B) ∧
      (exchanges tr).length + (if c.isSending then 1 else 0) ≤ max 1 B.maxRetries.toNat ∧
      (max 1 B.maxRetries.toNat ≤ (exchanges tr).length → c.result.isSome) := by
  have h := standing htr
  refine ⟨h.settled, h.pauses, ?_, ?_⟩
  · have hattempt := h.attempt
    have hbound := h.bound
    split_ifs at hattempt ⊢ <;> omega
  · intro hspent
    have hlimit : ∀ n exchange, triedAgain B n exchange = true → n < B.maxRetries.toNat := by
      intro n exchange hagain
      have hlt := lt_of_triedAgain hagain
      omega
    have hsome : exchanges tr ≠ [] := by
      intro hnil
      rw [hnil, List.length_nil] at hspent
      omega
    rw [h.settled, Option.isSome_map]
    apply Retry.settled_isSome hlimit _ hsome
    omega

/-- A backend with three attempts. -/
def threeAttempts : Backend ℕ where
  runtime :=
    { isZero := fun x => decide (x = 0)
      readFloat := fun text => if text = "2" then some 2 else none
      text := fun _ => "unsupported operand" }
  maxRetries := 3
  retrying :=
    { again := fun retryable maxAttempts attempt =>
        retryable && decide ((attempt : ℤ) < maxAttempts)
      again_iff := by simp }

/-- The server is overloaded and then slow, before it answers. -/
def overloaded : List (CallEvent ℕ) :=
  [.exchanged (.answered
      { statusCode := 503
        retryAfter := some "2"
        json := .error "no JSON" }),
   .slept,
   .exchanged (.timedOut ""),
   .slept,
   .exchanged (.answered
      { statusCode := 200
        json := .ok (.obj [("choices", .arr [.obj [("message", .obj [("content", .str "hi")])]])])
      })]

theorem complete_settles_overloaded : ∃ tr c, (callMachine threeAttempts).Trace tr c ∧
    tr.map Prod.snd = overloaded ∧ pauses tr = [some 2, none] ∧
      (c.result = (Retry.settled (triedAgain threeAttempts) 1 (exchanges tr)).map
          (final threeAttempts) ∧
        pauses tr ++ c.pause.toList =
          (Retry.retried (triedAgain threeAttempts) 1 (exchanges tr)).map
            (retryAfter threeAttempts) ∧
        (exchanges tr).length + (if c.isSending then 1 else 0) ≤ max 1 3 ∧
        (max 1 3 ≤ (exchanges tr).length → c.result.isSome)) := by
  obtain ⟨tr, c, hrun, hevents, hp⟩ := Machine.Trace.of_check
    (M := callMachine threeAttempts) overloaded
    (p := fun tr _ => decide (pauses tr = [some 2, none])) (by decide)
  exact ⟨tr, c, hrun, hevents, of_decide_eq_true hp, complete_settles threeAttempts hrun⟩

end InferenceHub

end NemoClaw
