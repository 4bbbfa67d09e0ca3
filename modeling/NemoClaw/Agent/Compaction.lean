import Mathlib.Algebra.GroupWithZero.Nat
import NemoClaw.Agent.Models

/-! The context compactor (`agent/compaction.py`). The summary itself is the model's. -/

namespace NemoClaw

/-- What the agent loop needs from outside: its configuration and tools, the approval gate, and
what Python makes of floats, JSON and blank texts. -/
structure AgentEnv where
  config : AgentLoopConfig
  tools : ToolRegistry
  /-- `int(n * compress_ratio)` -/
  compressed : ℕ → ℤ
  /-- `not content.strip()` -/
  blank : String → Bool
  /-- the gate's answer to a write call -/
  approved : ToolCall → Bool
  /-- `json.dumps` of the error payload of a tool -/
  errorPayload : String → String → String
  /-- the truthy items of the arguments object, as texts; `none` when the arguments are JSON but
  not an object -/
  writeArguments : String → Option (List (String × String))

/-- `_MIN_MESSAGES_FOR_COMPACTION` -/
def minMessagesForCompaction : ℕ := 2

/-- `_MIN_COMPRESS_COUNT` -/
def minCompressCount : ℤ := 2

def truncationNotice (length : ℕ) : String :=
  "\n\n[Truncated — original: " ++ toString length ++ " chars]"

/-- One message of `truncate_tool_results`. -/
def truncateToolResult (E : AgentEnv) : Message → Message
  | .tool toolCallId content =>
    if E.config.microCompactionChars < content.length then
      .tool toolCallId
        (sliceText content E.config.microCompactionChars ++ truncationNotice content.length)
    else .tool toolCallId content
  | m => m

def truncateToolResults (E : AgentEnv) (messages : List Message) : List Message :=
  messages.map (truncateToolResult E)

def shouldCompact (E : AgentEnv) (messages : List Message) : Bool :=
  E.config.compactionThresholdChars < ((messages.map fun m => m.content.length).sum : ℕ)

/-- The system message, if the list begins with one. -/
def systemMessage (messages : List Message) : Option Message :=
  messages.head?.filter Message.isSystem

/-- The messages that are eligible for compaction. -/
def conversationOf (messages : List Message) : List Message :=
  if (systemMessage messages).isSome then messages.tail else messages

/-- Of `n` messages, how many `compact` summarizes: what `keep_count` leaves. -/
def compressCount (E : AgentEnv) (n : ℕ) : ℤ :=
  n - max E.config.compactionMinKeep (n - max minCompressCount (E.compressed n))

/-- The messages that `compact` summarizes and those it keeps, unless there are too few. -/
def split (E : AgentEnv) (messages : List Message) : Option (List Message × List Message) :=
  let conversation := conversationOf messages
  if messages.length < minMessagesForCompaction then none
  else if (conversation.length : ℤ) < E.config.compactionMinKeep + minCompressCount then none
  else some (conversation.splitAt (compressCount E conversation.length).toNat)

/-- `compact` after its inference call: a synthetic pair stands for the head. -/
def compacted (messages toKeep : List Message) (summary : String) : List Message :=
  (systemMessage messages).toList ++
    .user ("[Previous conversation summary]\n" ++ summary) ::
      .assistant "Understood, I have the context from our previous conversation." [] :: toKeep

/-- The head has two messages at least, and head and tail are the conversation. -/
theorem split_eq_some {E : AgentEnv} {messages toCompress toKeep : List Message}
    (h : split E messages = some (toCompress, toKeep)) :
    toCompress ++ toKeep = conversationOf messages ∧
      ((2 ≤ toCompress.length) ∨ toKeep = []) := by
  simp only [split, Option.ite_none_left_eq_some, Option.some.injEq, List.splitAt_eq,
    Prod.mk.injEq] at h
  obtain ⟨-, hlen, rfl, rfl⟩ := h
  refine ⟨List.take_append_drop _ _, ?_⟩
  have hcount : 2 ≤ compressCount E (conversationOf messages).length := by
    unfold compressCount minCompressCount at *
    omega
  by_cases hle : (compressCount E (conversationOf messages).length).toNat ≤
      (conversationOf messages).length
  · refine Or.inl ?_
    rw [List.length_take]
    omega
  · exact Or.inr (List.drop_eq_nil_of_le (by omega))

end NemoClaw
