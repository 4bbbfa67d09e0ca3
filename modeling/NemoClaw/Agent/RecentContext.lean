import Mathlib.Data.Rat.Floor
import NemoClaw.Agent.ToolProtocol

/-! What a compaction keeps. The number of messages to summarize is taken over exact rationals,
and the summary is any text the model answers with, if it answers. -/

namespace NemoClaw

/-- `int(n * ratio)`, which rounds towards zero. -/
def ratioCount (ratio : ℚ) (n : ℕ) : ℤ :=
  if 0 ≤ n * ratio then ⌊n * ratio⌋ else ⌈n * ratio⌉

def AgentEnv.withCompressRatio (E : AgentEnv) (ratio : ℚ) : AgentEnv :=
  { E with compressed := ratioCount ratio }

/-- `ContextCompactor.compact`; the inference call behind `_summarize` may raise. -/
def compact {ε : Type*} (E : AgentEnv) (summarize : List Message → Except ε String)
    (messages : List Message) : Except ε (List Message) :=
  match split E messages with
  | none => .ok messages
  | some (toCompress, toKeep) => (summarize toCompress).map (compacted messages toKeep)

/-- The synthetic pair that stands for the head. -/
def summaryPair (summary : String) : List Message :=
  [.user ("[Previous conversation summary]\n" ++ summary),
    .assistant "Understood, I have the context from our previous conversation." []]

variable {E : AgentEnv} {messages toCompress toKeep : List Message}

/-- Of enough messages at least two are summarized, and what is left is not below the floor. -/
theorem compressCount_mem {n : ℕ} (hlen : E.config.compactionMinKeep + minCompressCount ≤ n) :
    2 ≤ compressCount E n ∧ compressCount E n + E.config.compactionMinKeep ≤ n := by
  unfold minCompressCount at hlen
  unfold compressCount minCompressCount
  omega

theorem systemMessage_append (messages : List Message) :
    (systemMessage messages).toList ++ conversationOf messages = messages := by
  cases messages with
  | nil => rfl
  | cons m rest =>
    cases hm : m.isSystem with
    | true => simp [systemMessage, conversationOf, Option.filter, hm]
    | false => simp [systemMessage, conversationOf, Option.filter, hm]

/-- Enough is summarized and enough is kept. -/
theorem length_of_split (hkeep : 0 ≤ E.config.compactionMinKeep)
    (h : split E messages = some (toCompress, toKeep)) :
    2 ≤ toCompress.length ∧ E.config.compactionMinKeep ≤ toKeep.length := by
  simp only [split, Option.ite_none_left_eq_some, Option.some.injEq, List.splitAt_eq,
    Prod.mk.injEq] at h
  obtain ⟨-, hlen, rfl, rfl⟩ := h
  obtain ⟨hhead, htail⟩ := compressCount_mem (not_lt.1 hlen)
  rw [List.length_take, List.length_drop]
  omega

theorem length_compacted (summary : String) :
    (compacted messages toKeep summary).length =
      (systemMessage messages).toList.length + 2 + toKeep.length := by
  simp only [compacted, List.length_append, List.length_cons]
  omega

/-- A compaction leaves the list as it is, or it puts the system message and the summary of a head
of at least two messages before all the others, which are at least as many as are to be kept,
whatever the ratio. -/
theorem compact_keeps_recent {ε : Type*} (E : AgentEnv) (ratio : ℚ)
    (hkeep : 0 ≤ E.config.compactionMinKeep) (summarize : List Message → Except ε String)
    (messages result : List Message)
    (h : compact (E.withCompressRatio ratio) summarize messages = .ok result) :
    result = messages ∨ ∃ head tail summary,
      result = (systemMessage messages).toList ++ summaryPair summary ++ tail ∧
      summarize head = .ok summary ∧ head ++ tail = conversationOf messages ∧
      2 ≤ head.length ∧ E.config.compactionMinKeep ≤ tail.length ∧
      result.length ≤ messages.length := by
  unfold compact at h
  split at h
  · exact Or.inl (Except.ok.inj h).symm
  · rename_i head tail hsplit
    cases hsummary : summarize head with
    | error e =>
      rw [hsummary] at h
      cases h
    | ok summary =>
      rw [hsummary] at h
      obtain rfl := Except.ok.inj h
      obtain ⟨happend, -⟩ := split_eq_some hsplit
      obtain ⟨hhead, htail⟩ := length_of_split (E := E.withCompressRatio ratio) hkeep hsplit
      refine Or.inr ⟨head, tail, summary, ?_, hsummary, happend, hhead, htail, ?_⟩
      · simp [compacted, summaryPair]
      · have hlen := congrArg List.length (systemMessage_append messages)
        rw [← happend, List.length_append, List.length_append] at hlen
        rw [length_compacted]
        omega

/-- Three questions with their answers. -/
def threeQuestions : List Message :=
  [.system "You are a helper.", .user "one?", .assistant "1" [], .user "two?", .assistant "2" [],
    .user "three?", .assistant "3" []]

theorem compact_keeps_recent_threeQuestions :
    let result := [.system "You are a helper."] ++ summaryPair "One is 1." ++
      [.user "two?", .assistant "2" [], .user "three?", .assistant "3" []]
    result = threeQuestions ∨ ∃ head tail summary,
      result = (systemMessage threeQuestions).toList ++ summaryPair summary ++ tail ∧
      (.ok "One is 1." : Except String String) = .ok summary ∧
      head ++ tail = conversationOf threeQuestions ∧ 2 ≤ head.length ∧ 4 ≤ (tail.length : ℤ) ∧
      result.length ≤ threeQuestions.length :=
  compact_keeps_recent AgentRun.fileReader (1 / 2) (by decide) (fun _ => .ok "One is 1.")
    threeQuestions _ (by decide +kernel)

/-- The loop compacts by `compact`. -/
theorem AgentRun.working_of_summarizing {r r' : AgentRun} {response : InferenceResponse}
    (hphase : r.phase = .summarizing) (hs : r.step E (.answered (.ok response)) = some r') :
    (compact E (fun _ => .ok response.content) r.working : Except String (List Message)) =
      .ok r'.working := by
  simp only [step, hphase] at hs
  obtain ⟨parts, hparts, rfl⟩ := Option.map_eq_some_iff.1 hs
  rw [compact, hparts]
  rfl

end NemoClaw
