import NemoClaw.Lib.Turns
import NemoClaw.Agent.Loop

/-! The requests of an agent loop under the tool-calling protocol: every tool message behind the
assistant message that asks for it, every tool call answered. The loop keeps its messages in turns
as long as no compaction cuts them in front of a tool message. -/

namespace NemoClaw

open Lib

/-- An assistant message asks for its tool calls, and a tool message answers one. -/
def toolTurns : Turns Message String where
  asks
    | .assistant _ toolCalls => toolCalls.map ToolCall.id
    | .system _ | .user _ | .tool _ _ => []
  answers
    | .tool toolCallId _ => some toolCallId
    | .system _ | .user _ | .assistant _ _ => none

/-- Each tool message stands behind an assistant message that asks for it, with only tool messages
between, and each tool call is answered before the next message that is no tool message. -/
def WellFormedRequest (messages : List Message) : Prop := toolTurns.WellFormed messages

/-- A history of system and user messages and assistants' texts. -/
structure History where
  messages : List Message
  texts : ∀ m ∈ messages, m.isText = true

namespace AgentRun

/-- The request of the round, while it is in flight, is well formed. -/
def RequestsWellFormed (r : AgentRun) : Prop :=
  r.phase = .completing → WellFormedRequest r.working

/-- No compaction cuts the conversation in front of a tool message. -/
def CutsAtTurn (E : AgentEnv) (r : AgentRun) : ConversationEvent → Prop
  | .run (.answered (.ok _)) => r.phase = .summarizing →
    ∀ toCompress m toKeep, split E r.working = some (toCompress, m :: toKeep) →
      m.isTool = false
  | _ => True

/-- What the loop keeps of its messages in each phase. -/
def InTurns (r : AgentRun) : Prop :=
  match r.phase with
  | .summarizing | .completing => WellFormedRequest r.working
  | .executing slots _ => ∃ messages content,
    r.working = messages ++ [.assistant content (slots.map Prod.fst)] ∧ WellFormedRequest messages
  | .blocked pending => WellFormedRequest pending.workingMessages ∧
    ∃ content, pending.assistantMessage = .assistant content pending.toolCalls
  | .continuing _ _ _ | .returned _ | .raised => True

variable {E : AgentEnv} {r r' : AgentRun}

theorem answers_eq_none_iff {m : Message} : toolTurns.answers m = none ↔ m.isTool = false := by
  cases m <;> simp [toolTurns, Message.isTool]

theorem wellFormed_texts {messages : List Message} (h : ∀ m ∈ messages, m.isText = true) :
    WellFormedRequest messages := by
  apply Turns.wellFormed_of_plain
  intro m hm
  have htext := h m hm
  cases m with
  | system | user => exact ⟨rfl, rfl⟩
  | tool => contradiction
  | assistant content toolCalls =>
    cases toolCalls with
    | nil => exact ⟨rfl, rfl⟩
    | cons => contradiction

/-! ### Truncation and compaction -/

theorem wellFormed_truncate {messages : List Message} (h : WellFormedRequest messages) :
    WellFormedRequest (truncateToolResults E messages) := by
  have hkind : ∀ m, toolTurns.asks (truncateToolResult E m) = toolTurns.asks m ∧
      toolTurns.answers (truncateToolResult E m) = toolTurns.answers m := by
    intro m
    cases m with
    | system | user | assistant => exact ⟨rfl, rfl⟩
    | tool toolCallId content =>
      simp only [truncateToolResult]
      split
      · exact ⟨rfl, rfl⟩
      · exact ⟨rfl, rfl⟩
  exact Turns.wellFormed_map (fun m => (hkind m).1) (fun m => (hkind m).2) h

/-- The conversation without its system message. -/
theorem wellFormed_conversationOf {messages : List Message} (h : WellFormedRequest messages) :
    WellFormedRequest (conversationOf messages) := by
  unfold conversationOf
  split_ifs with hsystem
  · cases messages with
    | nil => exact h
    | cons m rest =>
      refine Turns.wellFormed_of_append [m] h ?_
      intro x hx
      obtain ⟨tail, rfl⟩ := List.head?_eq_some_iff.1 hx
      cases m with
      | system => exact Turns.answers_eq_none_of_plain_before [] h rfl rfl
      | user | assistant | tool => simp [systemMessage, Message.isSystem] at hsystem
  · exact h

/-- A compacted list is in turns exactly if it was not cut in front of a tool message. -/
theorem wellFormed_compacted_iff {messages toCompress toKeep : List Message}
    (h : WellFormedRequest messages) (hsplit : split E messages = some (toCompress, toKeep))
    (summary : String) : WellFormedRequest (compacted messages toKeep summary) ↔
      ∀ m, toKeep.head? = some m → m.isTool = false := by
  obtain ⟨happend, -⟩ := split_eq_some hsplit
  have hhead : WellFormedRequest ((systemMessage messages).toList ++
      [.user ("[Previous conversation summary]\n" ++ summary),
        .assistant "Understood, I have the context from our previous conversation." []]) := by
    apply wellFormed_texts
    intro m hm
    rcases List.mem_append.1 hm with hm | hm
    · obtain ⟨-, hsystem⟩ := Option.filter_eq_some_iff.1 (Option.mem_toList.1 hm)
      cases m with
      | system => rfl
      | user | assistant | tool => contradiction
    · simp only [List.mem_cons, List.not_mem_nil, or_false] at hm
      rcases hm with rfl | rfl
      · rfl
      · rfl
  have heq : compacted messages toKeep summary = ((systemMessage messages).toList ++
      [.user ("[Previous conversation summary]\n" ++ summary),
        .assistant "Understood, I have the context from our previous conversation." []]) ++
          toKeep := by
    simp [compacted]
  rw [heq]
  constructor
  · intro hcompacted m hm
    obtain ⟨tail, rfl⟩ := List.head?_eq_some_iff.1 hm
    rw [← answers_eq_none_iff]
    change toolTurns.WellFormed _ at hcompacted
    exact Turns.answers_eq_none_of_plain_before ((systemMessage messages).toList ++
      [.user ("[Previous conversation summary]\n" ++ summary)]) (by simpa using hcompacted) rfl rfl
  · intro hcut
    apply Turns.wellFormed_append hhead
    refine Turns.wellFormed_of_append toCompress ?_ fun m hm =>
      answers_eq_none_iff.2 (hcut m hm)
    rw [happend]
    exact wellFormed_conversationOf h

/-! ### Batches of tool calls -/

/-- The results of a batch answer its calls. -/
theorem wellFormed_batch {messages : List Message} (h : WellFormedRequest messages)
    (content : String) (slots : List Slot) :
    WellFormedRequest (messages ++ [.assistant content (slots.map Prod.fst)] ++
      toolResults E slots) := by
  rw [List.append_assoc]
  apply Turns.wellFormed_append h
  apply Turns.wellFormed_turn rfl
  · intro m hm
    obtain ⟨slot, hslot, rfl⟩ := List.mem_map.1 hm
    refine ⟨slot.1.id, ?_, rfl⟩
    exact List.mem_map_of_mem (List.mem_map_of_mem hslot)
  · intro id hid
    simp only [toolTurns, List.mem_map, exists_exists_and_eq_and] at hid
    obtain ⟨slot, hslot, rfl⟩ := hid
    exact ⟨_, List.mem_map_of_mem hslot, rfl⟩

theorem inTurns_startRound (h : WellFormedRequest r.working) : InTurns (startRound E r) := by
  unfold startRound
  split_ifs
  · dsimp only
    split
    · exact wellFormed_truncate h
    · exact wellFormed_truncate h
  · trivial

theorem inTurns_execute {content : String} {calls : List ToolCall} (after : AfterBatch)
    (h : WellFormedRequest r.working) :
    InTurns (r.execute (.assistant content calls) calls after) := by
  refine ⟨r.working, content, ?_, h⟩
  simp [execute, Function.comp_def]

theorem inTurns_batchDone {slots : List Slot} (after : AfterBatch)
    (h : WellFormedRequest (r.working ++ toolResults E slots)) :
    InTurns (r.batchDone E slots after) := by
  cases after with
  | nextRound => exact inTurns_startRound h
  | resume surfacedTools => exact inTurns_startRound h

theorem inTurns_continueTruncated (working : List Message) (chunks : List String) (left : ℕ) :
    InTurns (r.continueTruncated working chunks left) := by
  cases left with
  | zero => trivial
  | succ left => trivial

theorem inTurns_completed (h : WellFormedRequest r.working) (response : InferenceResponse) :
    InTurns (r.completed E response) := by
  unfold completed
  split_ifs
  · exact inTurns_continueTruncated _ _ _
  · trivial
  · dsimp only
    split_ifs
    · split
      · trivial
      · exact ⟨h, response.content, rfl⟩
    · exact inTurns_execute .nextRound h

theorem inTurns_toolReturned {slots : List Slot} {after : AfterBatch} {i : ℕ}
    {outcome : HandlerOutcome} {messages : List Message} {content : String}
    (hworking : r.working = messages ++ [.assistant content (slots.map Prod.fst)])
    (h : WellFormedRequest messages)
    (hs : r.toolReturned E slots after i outcome = some r') : InTurns r' := by
  unfold toolReturned at hs
  split at hs
  · rename_i call hslot
    simp only [Option.ite_none_right_eq_some, Option.map_eq_some_iff] at hs
    obtain ⟨-, output, -, rfl⟩ := hs
    have hcalls := map_fst_set (some output) hslot
    split_ifs
    · apply inTurns_batchDone
      change WellFormedRequest (r.working ++ _)
      rw [hworking, ← hcalls]
      exact wellFormed_batch h content _
    · exact ⟨messages, content, by rw [hcalls]; exact hworking, h⟩
  · contradiction

/-! ### Runs -/

theorem inTurns_start (requestId : String) {messages : List Message} (preSurfaced : List String)
    (h : WellFormedRequest messages) : InTurns (start E requestId messages preSurfaced) :=
  inTurns_startRound h

theorem requestsWellFormed_of_inTurns (h : r.InTurns) : r.RequestsWellFormed := by
  intro hphase
  unfold InTurns at h
  rw [hphase] at h
  exact h

/-- The answer to a summary request starts the round with a list that is in turns exactly if the
compaction did not cut it in front of a tool message. -/
theorem summarized_iff {response : InferenceResponse} (h : r.InTurns)
    (hphase : r.phase = .summarizing)
    (hs : r.step E (.answered (.ok response)) = some r') :
    (r'.RequestsWellFormed → CutsAtTurn E r (.run (.answered (.ok response)))) ∧
      (CutsAtTurn E r (.run (.answered (.ok response))) → r'.InTurns) := by
  have hworking : WellFormedRequest r.working := by
    unfold InTurns at h
    rw [hphase] at h
    exact h
  simp only [step, hphase, Option.map_eq_some_iff] at hs
  obtain ⟨⟨toCompress, toKeep⟩, hsplit, rfl⟩ := hs
  have hiff := wellFormed_compacted_iff hworking hsplit response.content
  constructor
  · intro hwf _ toCompress' m toKeep' hsplit'
    obtain ⟨-, rfl⟩ := Prod.mk.inj (Option.some.inj (hsplit.symm.trans hsplit'))
    exact hiff.1 (hwf rfl) m rfl
  · intro hcut
    refine hiff.2 ?_
    intro m hm
    obtain ⟨rest, rfl⟩ := List.head?_eq_some_iff.1 hm
    exact hcut hphase toCompress m rest hsplit

theorem inTurns_step {e : RunEvent} (h : r.InTurns) (hphase : r.phase ≠ .summarizing)
    (hs : r.step E e = some r') : r'.InTurns := by
  unfold InTurns at h
  rcases step_eq_some hs with ⟨response, parts, hsummarizing, -, -⟩ | ⟨response, hcompleting, rfl⟩ |
    ⟨working, chunks, left, response, -, rfl⟩ | rfl |
    ⟨slots, after, i, outcome, hexecuting, -, hreturned⟩
  · exact absurd hsummarizing hphase
  · rw [hcompleting] at h
    exact inTurns_completed h response
  · unfold continued
    split_ifs
    · exact inTurns_continueTruncated _ _ _
    · trivial
  · trivial
  · rw [hexecuting] at h
    obtain ⟨messages, content, hworking, hmessages⟩ := h
    exact inTurns_toolReturned hworking hmessages hreturned

theorem conversation_step {requestId : String} {messages : List Message}
    {preSurfaced : List String} {e : ConversationEvent} (h : r.InTurns)
    (hs : (conversationMachine E requestId messages preSurfaced).step r e = some r') :
    (r'.RequestsWellFormed → CutsAtTurn E r e) ∧ (CutsAtTurn E r e → r'.InTurns) := by
  cases e with
  | approve =>
    refine ⟨fun _ => trivial, fun _ => ?_⟩
    simp only [conversationMachine] at hs
    split at hs
    · rename_i pending hphase
      obtain rfl := Option.some.inj hs
      unfold InTurns at h
      rw [hphase] at h
      obtain ⟨hworking, content, hassistant⟩ := h
      unfold resume
      rw [hassistant]
      exact inTurns_execute _ hworking
    · contradiction
  | run e =>
    by_cases hphase : r.phase = .summarizing
    · cases e with
      | answered response =>
        cases response with
        | ok response => exact summarized_iff h hphase hs
        | error =>
          refine ⟨fun _ => trivial, fun _ => ?_⟩
          simp only [conversationMachine, step, hphase] at hs
          obtain rfl := Option.some.inj hs
          trivial
      | toolReturned => simp [conversationMachine, step, hphase] at hs
    · refine ⟨fun _ => ?_, fun _ => inTurns_step h hphase hs⟩
      unfold CutsAtTurn
      split
      · exact fun hsummarizing => absurd hsummarizing hphase
      · trivial

/-- In a run of the loop on a history of texts, with the runs that approvals resume, every request
of a round is well formed exactly if no compaction cuts in front of a tool message. -/
theorem requests_wellFormed_iff (E : AgentEnv) (requestId : String) (history : History)
    (preSurfaced : List String) {tr : List (AgentRun × ConversationEvent)}
    (h : (conversationMachine E requestId history.messages preSurfaced).Trace tr r) :
    Machine.Always RequestsWellFormed tr r ↔ Machine.Guarded (CutsAtTurn E) tr :=
  h.always_iff_guarded_of_invariant
    (inTurns_start requestId preSurfaced (wellFormed_texts history.texts))
    (fun _ => requestsWellFormed_of_inTurns) fun _ _ _ hi hs => conversation_step hi hs

/-! ### A round of four calls -/

def readFile : ToolSpec where
  name := "read_file"
  displayName := "Reading file"

/-- An agent that reads files, with the default settings of the compactor and a low threshold. -/
def fileReader : AgentEnv where
  config :=
    { maxToolRounds := 10
      maxContinuationRetries := 2
      microCompactionChars := 10000
      compactionThresholdChars := 20
      compactionMinKeep := 4 }
  tools := ⟨[readFile, toolSearch], by decide, by decide⟩
  compressed n := (n / 2 : ℕ)
  blank content := content = ""
  approved _ := true
  errorPayload error tool := "\x7b\"error\": \"" ++ error ++ "\", \"tool\": \"" ++ tool ++ "\"\x7d"
  writeArguments _ := some []

def compareFiles : History where
  messages := [.system "You are a helper.", .user "Compare the files."]
  texts := by decide

def readCall (id : String) : ToolCall := ⟨id, "read_file", "\x7b\x7d"⟩

/-- The model reads four files, and the conversation is compacted before it sees them. -/
def fourReads : List ConversationEvent :=
  [.run (.answered (.ok { content := "", toolCalls := ["c-1", "c-2", "c-3", "c-4"].map readCall })),
    .run (.toolReturned 0 (.returned "one")), .run (.toolReturned 1 (.returned "two")),
    .run (.toolReturned 2 (.returned "three")), .run (.toolReturned 3 (.returned "four")),
    .run (.answered (.ok { content := "Four files were read." }))]

theorem requests_wellFormed_iff_fourReads : ∃ tr r,
    (conversationMachine fileReader "r-1" compareFiles.messages []).Trace tr r ∧
      (Machine.Always RequestsWellFormed tr r ↔ Machine.Guarded (CutsAtTurn fileReader) tr) := by
  obtain ⟨tr, r, h, -, -⟩ := Machine.Trace.of_check
    (M := conversationMachine fileReader "r-1" compareFiles.messages []) fourReads
    (p := fun _ _ => true) (by decide)
  exact ⟨tr, r, h, requests_wellFormed_iff fileReader "r-1" compareFiles [] h⟩

/-- The request after the compaction has tool messages without their assistant message. -/
theorem tool_message_orphaned : ¬ ∀ tr r,
    (conversationMachine fileReader "r-1" compareFiles.messages []).Trace tr r →
      Machine.Always RequestsWellFormed tr r := by
  intro hall
  obtain ⟨tr, r, h, -, hr⟩ := Machine.Trace.of_check
    (M := conversationMachine fileReader "r-1" compareFiles.messages []) fourReads
    (p := fun _ r => decide (r.phase = .completing) && decide (r.working =
      compacted compareFiles.messages [.tool "c-1" "one", .tool "c-2" "two", .tool "c-3" "three",
        .tool "c-4" "four"] "Four files were read.")) (by decide)
  simp only [Bool.and_eq_true, decide_eq_true_eq] at hr
  obtain ⟨hphase, hworking⟩ := hr
  have hwf : toolTurns.WellFormed r.working := (hall tr r h).2 hphase
  rw [hworking] at hwf
  have hnone := Turns.answers_eq_none_of_plain_before [Message.system "You are a helper.",
    Message.user "[Previous conversation summary]\nFour files were read."] hwf rfl rfl
  simp [toolTurns] at hnone

end AgentRun

end NemoClaw
