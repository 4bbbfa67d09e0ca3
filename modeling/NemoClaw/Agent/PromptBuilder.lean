import NemoClaw.Lib.Dict
import NemoClaw.Agent.Models

/-! The prompt builder (`agent/prompt_builder.py`): the history of each thread. The text of the
system prompt, which has the time in it, comes from outside. -/

namespace NemoClaw

open Lib

/-- A slice `xs[n:]`; a negative bound counts from the end. -/
def sliceFrom {α : Type*} (xs : List α) (n : ℤ) : List α :=
  if 0 ≤ n then xs.drop n.toNat else xs.drop (xs.length - n.natAbs)

/-- `LayeredPromptBuilder` -/
structure PromptBuilder where
  threadHistory : Dict String (List Message) := ∅

namespace PromptBuilder

variable (b : PromptBuilder) (maxHistory : ℤ)

/-- The last messages, as many as the history may have. -/
def capped (messages : List Message) : List Message :=
  if maxHistory < messages.length then sliceFrom messages (-maxHistory) else messages

def historyWithUserMessage (threadKey userText : String) : List Message :=
  capped maxHistory ((b.threadHistory.lookup threadKey).getD [] ++ [.user userText])

def messagesForInference (systemPrompt threadKey userText : String) : List Message :=
  .system systemPrompt :: b.historyWithUserMessage maxHistory threadKey userText

def commitTurn (threadKey userText assistantContent : String) : PromptBuilder :=
  { b with threadHistory := b.threadHistory.insert threadKey (capped maxHistory
      (b.historyWithUserMessage maxHistory threadKey userText ++
        [.assistant assistantContent []])) }

end PromptBuilder

end NemoClaw
