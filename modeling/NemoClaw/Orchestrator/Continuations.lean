import NemoClaw.Agent.ToolProtocol
import NemoClaw.Orchestrator.Orchestrator

/-! The two continuations of a truncated answer: `AgentLoop._continue_truncated` and
`Orchestrator._inference_with_repair`, with `repair_response` (`orchestrator/transcript_repair.py`)
in both. The loop joins what it is answered; the orchestrator repairs each answer, and a blank or
filtered one takes the place of all chunks before it. -/

namespace NemoClaw

/-- `str.isspace` of a character -/
def isSpace (c : Char) : Bool :=
  (0x09 ≤ c.toNat && c.toNat ≤ 0x0d) || (0x1c ≤ c.toNat && c.toNat ≤ 0x20) ||
    c.toNat = 0x85 || c.toNat = 0xa0 || c.toNat = 0x1680 ||
      (0x2000 ≤ c.toNat && c.toNat ≤ 0x200a) || c.toNat = 0x2028 || c.toNat = 0x2029 ||
        c.toNat = 0x202f || c.toNat = 0x205f || c.toNat = 0x3000

/-- `not content.strip()` -/
def isBlank (content : String) : Bool := content.toList.all isSpace

def filteredNotice : String := "My response was filtered. Could you rephrase your request?"

/-- The answers that are taken, of at most `n`: those up to the first that is not truncated. -/
def taken : ℕ → List InferenceResponse → List InferenceResponse
  | 0, _ | _, [] => []
  | n + 1, response :: responses =>
    response :: if response.finishReason = "length" then taken n responses else []

def contents (responses : List InferenceResponse) : List String :=
  responses.map InferenceResponse.content

/-- A blank or filtered answer. -/
def isFailed (response : InferenceResponse) : Bool :=
  isBlank response.content || decide (response.finishReason = "content_filter")

/-- The chunks stand in the text, in order and apart from each other. -/
def ContainsInOrder : List String → String → Prop
  | [], _ => True
  | chunk :: chunks, text =>
    ∃ before after, text = before ++ chunk ++ after ∧ ContainsInOrder chunks after

/-- Every non-empty chunk before a failed continuation stands in the text. -/
def KeepsChunks (answers : List InferenceResponse) (text : String) : Prop :=
  ∀ before failed after, answers = before ++ failed :: after → before ≠ [] →
    isFailed failed = true → ContainsInOrder ((contents before).filter fun c => c ≠ "") text

/-- `AgentLoop.run` with these answers of the backend, as far as it asks for them. -/
def AgentRun.answerAll (E : AgentEnv) (r : AgentRun) : List InferenceResponse → AgentRun
  | [] => r
  | response :: responses =>
    match r.step E (.answered (.ok response)) with
    | some r' => answerAll E r' responses
    | none => r

/-- The text that the run returned. -/
def AgentRun.text (r : AgentRun) : Option String :=
  match r.phase with
  | .returned result => some result.content
  | _ => none

/-- `_inference_with_repair` with these answers of the backend, as far as it asks for them. -/
def inferAll (E : AgentEnv) : List String → ℕ → List InferenceResponse → Option String
  | _, _, [] => none
  | chunks, attempt, response :: responses =>
    match inferenceWithRepair E chunks attempt response with
    | .inl text => some text
    | .inr chunks => inferAll E chunks (attempt + 1) responses

/-- What the repair puts in the place of these answers, when one has failed. -/
def standIn (answers : List InferenceResponse) : String :=
  if answers.any fun response => isBlank response.content then emptyResponseFallback
  else filteredNotice

/-- What the repair of each of these answers leads to behind the chunks. -/
def repairAll (chunks : List String) (answers : List InferenceResponse) : String :=
  if answers.any isFailed then standIn answers else String.join (chunks ++ contents answers)

/-- The first answer is not truncated, or none of those that the loop takes is blank or filtered, or
they happen to spell what stands in for the failed one. -/
def Continuable (responses : List InferenceResponse) : Prop :=
  let answers := taken (initialInferenceAttemptCount + maxContinuationRetries) responses
  (∀ response ∈ responses.head?, response.finishReason ≠ "length") ∨
    answers.any isFailed = false ∨ String.join (contents answers) = standIn answers

variable {E : AgentEnv} {r : AgentRun}

/-! ### The loop -/

theorem answerAll_of_returned {text : String} (h : r.text = some text)
    (responses : List InferenceResponse) : (r.answerAll E responses).text = some text := by
  cases responses with
  | nil => exact h
  | cons response responses =>
    unfold AgentRun.text at h
    split at h
    · rename_i result hphase
      simp only [AgentRun.answerAll, AgentRun.step, hphase]
      simpa [AgentRun.text, hphase] using h
    · contradiction

/-- A continuation joins what it takes. -/
theorem text_continueTruncated (working : List Message) (chunks : List String) {n : ℕ}
    {responses : List InferenceResponse} (hn : n ≤ responses.length) :
    ((r.continueTruncated working chunks n).answerAll E responses).text =
      some (String.join (chunks ++ contents (taken n responses))) := by
  induction n generalizing r working chunks responses with
  | zero =>
    rw [answerAll_of_returned rfl]
    simp [taken, contents]
  | succ n ih =>
    cases responses with
    | nil => simp at hn
    | cons response responses =>
      have hn : n ≤ responses.length := by simpa using hn
      rw [AgentRun.continueTruncated]
      simp only [AgentRun.answerAll, AgentRun.step, AgentRun.continued, taken, contents,
        List.map_cons]
      by_cases hlength : response.finishReason = "length"
      · simp only [hlength, if_true]
        rw [ih _ _ hn]
        simp [contents]
      · simp only [hlength, if_false]
        rw [answerAll_of_returned rfl]
        simp

/-- The text that a round in phase `completing` leads to. -/
theorem text_completed (hphase : r.phase = .completing) {response : InferenceResponse}
    {responses : List InferenceResponse} (hcalls : response.toolCalls = [])
    (hn : E.config.maxContinuationRetries ≤ responses.length) :
    (r.answerAll E (response :: responses)).text = some
      (if response.finishReason = "length" then
        String.join (response.content ::
          contents (taken E.config.maxContinuationRetries responses))
      else repairResponse E response) := by
  simp only [AgentRun.answerAll, AgentRun.step, hphase, AgentRun.completed, hcalls, if_true]
  by_cases hlength : response.finishReason = "length"
  · simp only [hlength, if_true]
    rw [text_continueTruncated _ _ hn]
    rfl
  · simp only [hlength, if_false]
    rw [answerAll_of_returned rfl]

/-! ### The orchestrator -/

/-- What one answer of the orchestrator's loop leads to. -/
theorem inferenceWithRepair_eq (hE : E.blank = isBlank) (chunks : List String) (attempt : ℕ)
    (response : InferenceResponse) :
    inferenceWithRepair E chunks attempt response =
      if isFailed response then .inl (standIn [response])
      else if response.finishReason = "length" ∧
          attempt + 1 < initialInferenceAttemptCount + maxContinuationRetries then
        .inr (chunks ++ [response.content])
      else .inl (String.join (chunks ++ [response.content])) := by
  by_cases hblank : isBlank response.content = true
  · simp [inferenceWithRepair, repair, repairResponse, hE, hblank, isFailed, standIn]
  · by_cases hlength : response.finishReason = "length"
    · simp [inferenceWithRepair, repair, repairResponse, hE, hblank, hlength, isFailed]
    · by_cases hfilter : response.finishReason = "content_filter"
      · simp [inferenceWithRepair, repair, repairResponse, hE, hblank, hfilter, isFailed, standIn,
          filteredNotice]
      · simp [inferenceWithRepair, repair, repairResponse, hE, hblank, hlength, hfilter, isFailed]

theorem standIn_cons {response : InferenceResponse} {responses : List InferenceResponse}
    (h : isFailed response = false) : standIn (response :: responses) = standIn responses := by
  have hblank : isBlank response.content = false := by
    simp only [isFailed, Bool.or_eq_false_iff] at h
    exact h.1
  simp [standIn, hblank]

/-- Nothing behind a failed answer changes what stands in for it. -/
theorem standIn_singleton_eq {response : InferenceResponse} (h : isFailed response = true)
    (responses : List InferenceResponse) :
    standIn [response] =
      standIn (response :: if response.finishReason = "length" then responses else []) := by
  by_cases hlength : response.finishReason = "length"
  · have hblank : isBlank response.content = true := by simpa [isFailed, hlength] using h
    simp [standIn, hblank]
  · rw [if_neg hlength]

/-- The orchestrator repairs each answer that it takes. -/
theorem inferAll_eq (hE : E.blank = isBlank) (chunks : List String) {n attempt : ℕ}
    (hattempt : attempt + n = initialInferenceAttemptCount + maxContinuationRetries) (hpos : 0 < n)
    {responses : List InferenceResponse} (hn : n ≤ responses.length) :
    inferAll E chunks attempt responses = some (repairAll chunks (taken n responses)) := by
  induction n generalizing chunks attempt responses with
  | zero => omega
  | succ n ih =>
    cases responses with
    | nil => simp at hn
    | cons response responses =>
      have hn : n ≤ responses.length := by simpa using hn
      rw [inferAll, inferenceWithRepair_eq hE]
      by_cases hfailed : isFailed response = true
      · simp only [hfailed, if_true, repairAll, taken, List.any_cons, Bool.true_or]
        rw [standIn_singleton_eq hfailed]
      · simp only [hfailed]
        by_cases hlength : response.finishReason = "length"
        · cases n with
          | zero =>
            have hlast : ¬ attempt + 1 < initialInferenceAttemptCount + maxContinuationRetries := by
              omega
            simp [hlength, hlast, repairAll, taken, hfailed, contents]
          | succ n =>
            have hmore : attempt + 1 < initialInferenceAttemptCount + maxContinuationRetries := by
              omega
            have hattempt : attempt + 1 + (n + 1) =
                initialInferenceAttemptCount + maxContinuationRetries := by
              omega
            have htaken : taken (n + 1 + 1) (response :: responses) =
                response :: taken (n + 1) responses := by
              rw [taken, if_pos hlength]
            simp only [hlength, hmore, and_self, if_true, Bool.false_eq_true, if_false]
            rw [ih _ hattempt (Nat.succ_pos n) hn, htaken, repairAll, repairAll, List.any_cons,
              standIn_cons (by simpa using hfailed)]
            simp [hfailed, contents]
        · simp [hlength, repairAll, taken, hfailed, contents]

/-! ### The two texts -/

theorem isBlank_append (a b : String) : isBlank (a ++ b) = (isBlank a && isBlank b) := by
  rw [isBlank, String.toList_append, List.all_append]
  rfl

theorem isBlank_standIn (answers : List InferenceResponse) : isBlank (standIn answers) = false := by
  unfold standIn
  split <;> decide

/-- Chunks that are joined stand in the text. -/
theorem containsInOrder_join (chunks more : List String) :
    ContainsInOrder (chunks.filter fun c => c ≠ "") (String.join (chunks ++ more)) := by
  induction chunks with
  | nil => exact trivial
  | cons chunk chunks ih =>
    by_cases hempty : chunk = ""
    · simpa [hempty] using ih
    · rw [List.filter_cons_of_pos (by simpa using hempty)]
      exact ⟨"", String.join (chunks ++ more), by simp, ih⟩

theorem keepsChunks_join (answers : List InferenceResponse) :
    KeepsChunks answers (String.join (contents answers)) := by
  intro before failed after hanswers _ _
  have hcontents : contents answers = contents before ++ contents (failed :: after) := by
    rw [hanswers, contents, List.map_append]
    rfl
  rw [hcontents]
  exact containsInOrder_join _ _

theorem keepsChunks_singleton (response : InferenceResponse) (text : String) :
    KeepsChunks [response] text := by
  intro before failed after hanswers hbefore _
  cases before with
  | nil => contradiction
  | cons _ _ => simp at hanswers

/-- The answer that is not truncated is repaired in both. -/
theorem repairResponse_eq (hE : E.blank = isBlank) {response : InferenceResponse}
    (hlength : response.finishReason ≠ "length") :
    repairResponse E response = repairAll [] [response] := by
  by_cases hblank : isBlank response.content = true
  · simp [repairResponse, repairAll, isFailed, standIn, hE, hblank]
  · by_cases hfilter : response.finishReason = "content_filter"
    · simp [repairResponse, repairAll, isFailed, standIn, hE, hblank, hfilter, filteredNotice]
    · simp [repairResponse, repairAll, isFailed, hE, hblank, hlength, hfilter, contents]

theorem isBlank_repairAll_singleton (response : InferenceResponse) :
    isBlank (repairAll [] [response]) = false := by
  unfold repairAll
  split
  · exact isBlank_standIn _
  · rename_i hfailed
    simp only [List.any_cons, List.any_nil, isFailed, Bool.or_false, Bool.or_eq_true, not_or,
      Bool.not_eq_true] at hfailed
    simpa [contents] using hfailed.1

/-- The joined chunks are what the repair leads to when no answer has failed, or by accident. -/
theorem joined_agrees_iff (response : InferenceResponse) (answers : List InferenceResponse) :
    let text := String.join (response.content :: contents answers)
    (text = repairAll [] (response :: answers) ∧ isBlank text = false ∧
      KeepsChunks (response :: answers) text ↔
        (response :: answers).any isFailed = false ∨
          String.join (contents (response :: answers)) = standIn (response :: answers)) := by
  intro text
  have hkeeps : KeepsChunks (response :: answers) text := keepsChunks_join (response :: answers)
  constructor
  · rintro ⟨htext, -, -⟩
    by_cases hfailed : (response :: answers).any isFailed = true
    · rw [repairAll, if_pos hfailed] at htext
      exact Or.inr htext
    · exact Or.inl (by simpa using hfailed)
  · rintro (hfailed | hjoin)
    · refine ⟨by rw [repairAll, hfailed]; rfl, ?_, hkeeps⟩
      have hresponse : isFailed response = false := by
        simp only [List.any_cons, Bool.or_eq_false_iff] at hfailed
        exact hfailed.1
      simp only [isFailed, Bool.or_eq_false_iff] at hresponse
      simp [text, isBlank_append, hresponse.1]
    · have htext : text = standIn (response :: answers) := hjoin
      refine ⟨?_, by rw [htext, isBlank_standIn], hkeeps⟩
      rw [repairAll]
      split
      · exact htext
      · rfl

/-- The two continuations answer alike, with a text that is not blank and keeps the chunks, as long
as no continuation fails. -/
theorem continuations_agree_iff (E : AgentEnv) (r : AgentRun) (responses : List InferenceResponse)
    (hblank : E.blank = isBlank)
    (hretries : E.config.maxContinuationRetries = maxContinuationRetries)
    (hphase : r.phase = .completing) (hcalls : ∀ response ∈ responses, response.toolCalls = [])
    (hlong : maxContinuationRetries < responses.length) :
    ∃ text text', (r.answerAll E responses).text = some text ∧
      inferAll E [] 0 responses = some text' ∧
      (text = text' ∧ isBlank text = false ∧
        KeepsChunks (taken (initialInferenceAttemptCount + maxContinuationRetries) responses) text ↔
          Continuable responses) := by
  have hn : initialInferenceAttemptCount + maxContinuationRetries ≤ responses.length := by
    rw [initialInferenceAttemptCount]
    omega
  have hinfer := inferAll_eq hblank [] (Nat.zero_add _) (by decide) hn
  cases responses with
  | nil => simp at hlong
  | cons response responses =>
    have hrest : E.config.maxContinuationRetries ≤ responses.length := by
      rw [hretries]
      simpa [Nat.lt_succ_iff] using hlong
    have hloop := text_completed (E := E) hphase (hcalls response List.mem_cons_self) hrest
    refine ⟨_, _, hloop, hinfer, ?_⟩
    by_cases hlength : response.finishReason = "length"
    · have htaken : taken (initialInferenceAttemptCount + maxContinuationRetries)
          (response :: responses) = response :: taken maxContinuationRetries responses := by
        rw [Nat.add_comm, initialInferenceAttemptCount, taken, if_pos hlength]
      rw [if_pos hlength, hretries, htaken, Continuable, htaken]
      have hfirst : ¬ ∀ first ∈ (response :: responses).head?, first.finishReason ≠ "length" := by
        simpa using hlength
      simp only [hfirst, false_or]
      exact joined_agrees_iff response _
    · have htaken : taken (initialInferenceAttemptCount + maxContinuationRetries)
          (response :: responses) = [response] := by
        simp [taken, hlength, initialInferenceAttemptCount, maxContinuationRetries]
      rw [if_neg hlength, htaken, repairResponse_eq hblank hlength]
      refine ⟨fun _ => Or.inl (by simpa using hlength), fun _ => ⟨rfl, ?_, ?_⟩⟩
      · exact isBlank_repairAll_singleton response
      · exact keepsChunks_singleton _ _

/-! ### A long answer -/

def storyTeller : AgentEnv := { AgentRun.fileReader with blank := isBlank }

def askedForStory : AgentRun :=
  { requestId := "r-1", working := [.user "Tell me a story."], surface := [], phase := .completing }

/-- The model goes on where it was cut. -/
def wholeStory : List InferenceResponse :=
  [{ content := "The first half, ", finishReason := "length" }, { content := "the second half." },
    { content := "" }]

/-- The model says nothing more when it is asked to go on. -/
def halfStory : List InferenceResponse :=
  [{ content := "The first half, ", finishReason := "length" }, { content := "" },
    { content := "" }]

theorem continuations_agree_iff_wholeStory : ∃ text text',
    (askedForStory.answerAll storyTeller wholeStory).text = some text ∧
      inferAll storyTeller [] 0 wholeStory = some text' ∧
      (text = text' ∧ isBlank text = false ∧
        KeepsChunks (taken (initialInferenceAttemptCount + maxContinuationRetries) wholeStory)
          text ↔ Continuable wholeStory) :=
  continuations_agree_iff storyTeller askedForStory wholeStory rfl rfl rfl (by decide) (by decide)

/-- The loop returns the first half, and the orchestrator the fallback without it. -/
theorem continuations_differ_halfStory :
    (askedForStory.answerAll storyTeller halfStory).text = some "The first half, " ∧
      inferAll storyTeller [] 0 halfStory = some emptyResponseFallback ∧
      ¬ KeepsChunks (taken (initialInferenceAttemptCount + maxContinuationRetries) halfStory)
        emptyResponseFallback := by
  refine ⟨by decide, by decide, ?_⟩
  intro hkeeps
  have hchunk : ContainsInOrder ["The first half, "] emptyResponseFallback :=
    hkeeps [{ content := "The first half, ", finishReason := "length" }] { content := "" } []
      (by decide) (by decide) (by decide)
  obtain ⟨before, after, htext, -⟩ := hchunk
  have hmem : 'T' ∈ emptyResponseFallback.toList := by
    simp [htext]
  exact absurd hmem (by decide)

end NemoClaw
