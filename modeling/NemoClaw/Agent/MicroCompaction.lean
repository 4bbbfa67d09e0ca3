import Mathlib.Data.Int.Order.Basic
import Mathlib.Logic.Function.Iterate
import NemoClaw.Lib.Cuts
import NemoClaw.Lib.Digits
import NemoClaw.Agent.ToolProtocol

/-! Micro-compaction round after round. A truncated result is longer than the limit by its notice,
so the next round truncates it again and writes a notice of its own, with the length that it finds.
-/

namespace NemoClaw

open Lib

/-- A tool result that is not truncated, or one that its notice makes as long as it was. -/
def Settled (E : AgentEnv) : Message → Prop
  | .tool _ content => (content.length : ℤ) ≤ E.config.microCompactionChars ∨
      (sliceText content E.config.microCompactionChars).length +
        (truncationNotice content.length).length = content.length
  | _ => True

instance (E : AgentEnv) (m : Message) : Decidable (Settled E m) := by
  cases m <;> unfold Settled <;> infer_instance

section Notice

variable {limit : ℤ} {content : String} {text text' : List Char}

theorem truncationNotice_eq (n : ℕ) : truncationNotice n =
    "\n\n[Truncated — original: " ++ toString n ++ " chars]" :=
  rfl

theorem noticeStart_toList : "\n\n[Truncated — original: ".toList =
    "\n\n[Truncated — original".toList ++ [':', ' '] := by
  decide

theorem noticeEnd_length : " chars]".length = 7 := by
  decide

/-- The length in the notice behind a text can be read. -/
theorem length_of_notice {m n : ℕ}
    (h : text ++ (truncationNotice m).toList = text' ++ (truncationNotice n).toList) : m = n := by
  have hnotice : ∀ n, (truncationNotice n).toList =
      "\n\n[Truncated — original".toList ++
        ':' :: (' ' :: (toString n).toList ++ " chars]".toList) := by
    intro n
    simp only [truncationNotice_eq, String.toList_append, noticeStart_toList, List.append_assoc,
      List.cons_append, List.nil_append]
  have htail : ∀ n : ℕ, ':' ∉ ' ' :: (toString n).toList ++ " chars]".toList := by
    intro n
    have hdigits := notMem_toString (c := ':') (by decide) n
    have hend : ':' ∉ " chars]".toList := by decide
    simp only [List.cons_append, List.mem_cons, List.mem_append, not_or]
    exact ⟨by decide, hdigits, hend⟩
  have hlast := congrArg (Cuts.afterLast ':') h
  rw [hnotice, hnotice, ← List.append_assoc, ← List.append_assoc, Cuts.afterLast_append (htail m),
    Cuts.afterLast_append (htail n)] at hlast
  exact toString_injective (List.append_cancel_right (List.cons.inj hlast).2)

/-- How many items `xs[:n]` has at most. -/
def sliceLength (n : ℤ) (length : ℕ) : ℕ := if 0 ≤ n then n.toNat else length - n.natAbs

theorem sliceTo_eq_take {α : Type*} (xs : List α) (n : ℤ) :
    sliceTo xs n = xs.take (sliceLength n xs.length) := by
  unfold sliceTo sliceLength
  split_ifs <;> rfl

/-- Of a long text the slice is as long as it can be. -/
theorem length_sliceTo {α : Type*} {xs : List α} (h : limit < xs.length) :
    (sliceTo xs limit).length = sliceLength limit xs.length := by
  rw [sliceTo_eq_take, List.length_take, min_eq_left]
  unfold sliceLength
  split_ifs
  · omega
  · omega

/-- The slice of a truncated text is that of the text, if the lengths agree. -/
theorem sliceTo_append {α : Type*} {xs ys : List α} (hlong : limit < xs.length)
    (hlen : (sliceTo xs limit ++ ys).length = xs.length) :
    sliceTo (sliceTo xs limit ++ ys) limit = sliceTo xs limit := by
  rw [sliceTo_eq_take (_ ++ _), hlen, ← length_sliceTo hlong, List.take_left]

theorem length_sliceText (content : String) (limit : ℤ) :
    (sliceText content limit).length = (sliceTo content.toList limit).length := by
  rw [sliceText, String.length_ofList]

end Notice

section Rounds

variable {E : AgentEnv} {messages : List Message} {toolCallId content : String}

theorem truncateToolResult_of_lt (h : E.config.microCompactionChars < content.length) :
    truncateToolResult E (.tool toolCallId content) = .tool toolCallId
      (sliceText content E.config.microCompactionChars ++ truncationNotice content.length) :=
  if_pos h

theorem truncateToolResult_of_le (h : content.length ≤ E.config.microCompactionChars) :
    truncateToolResult E (.tool toolCallId content) = .tool toolCallId content :=
  if_neg (not_lt.2 h)

/-- A truncated result is over the limit. -/
theorem lt_length_truncated (h : E.config.microCompactionChars < content.length) :
    E.config.microCompactionChars < (sliceText content E.config.microCompactionChars ++
      truncationNotice content.length).length := by
  have hslice := length_sliceText content E.config.microCompactionChars
  rw [length_sliceTo (by rwa [String.length_toList])] at hslice
  rw [String.length_append, hslice]
  have hnotice : 0 < (truncationNotice content.length).length := by
    simp only [truncationNotice_eq, String.length_append, noticeEnd_length]
    omega
  unfold sliceLength
  split_ifs
  · omega
  · omega

/-- A second round changes nothing exactly if the first left a result of the same length. -/
theorem truncateToolResult_idem_iff (m : Message) :
    truncateToolResult E (truncateToolResult E m) = truncateToolResult E m ↔ Settled E m := by
  cases m with
  | tool toolCallId content =>
    rcases le_or_gt (content.length : ℤ) E.config.microCompactionChars with hle | hlong
    · rw [truncateToolResult_of_le hle, truncateToolResult_of_le hle]
      exact iff_of_true rfl (Or.inl hle)
    · rw [truncateToolResult_of_lt hlong, truncateToolResult_of_lt (lt_length_truncated hlong)]
      have hlist : E.config.microCompactionChars < content.toList.length := by
        rwa [String.length_toList]
      constructor
      · intro h
        have htext := congrArg String.toList (Message.tool.inj h).2
        rw [String.toList_append, String.toList_append] at htext
        refine Or.inr ?_
        rw [← String.length_append]
        exact length_of_notice htext
      · intro h
        have hlen := h.resolve_left (not_le.2 hlong)
        rw [← String.length_append] at hlen
        have hslice : sliceText (sliceText content E.config.microCompactionChars ++
            truncationNotice content.length) E.config.microCompactionChars =
              sliceText content E.config.microCompactionChars := by
          have happend : (sliceText content E.config.microCompactionChars ++
              truncationNotice content.length).toList =
                sliceTo content.toList E.config.microCompactionChars ++
                  (truncationNotice content.length).toList := by
            rw [String.toList_append, sliceText, String.toList_ofList]
          rw [sliceText, happend, sliceTo_append hlist]
          · rfl
          · rw [← happend, String.length_toList, String.length_toList, hlen]
        rw [hslice, hlen]
  | system content => exact iff_of_true rfl trivial
  | user content => exact iff_of_true rfl trivial
  | assistant content toolCalls => exact iff_of_true rfl trivial

/-- Further rounds leave a settled result as the first leaves it. -/
theorem iterate_of_settled {m : Message} (h : Settled E m) (n : ℕ) :
    (truncateToolResult E)^[n + 1] m = truncateToolResult E m := by
  induction n with
  | zero => rfl
  | succ n ih =>
    rw [Function.iterate_succ_apply', ih]
    exact (truncateToolResult_idem_iff m).2 h

/-- A round more changes nothing, and a truncated result is, after any number of rounds, the start
of the tool's output and a notice of its length. -/
structure StaysTruncated (E : AgentEnv) (messages : List Message) : Prop where
  idempotent : truncateToolResults E (truncateToolResults E messages) =
    truncateToolResults E messages
  rounds : ∀ toolCallId content, .tool toolCallId content ∈ messages →
    E.config.microCompactionChars < content.length → ∀ n,
      (truncateToolResult E)^[n + 1] (.tool toolCallId content) = .tool toolCallId
        (sliceText content E.config.microCompactionChars ++ truncationNotice content.length)

theorem staysTruncated_iff_settled :
    StaysTruncated E messages ↔ ∀ m ∈ messages, Settled E m := by
  constructor
  · intro h m hm
    have hidem := h.idempotent
    simp only [truncateToolResults, List.map_map, List.map_inj_left] at hidem
    exact (truncateToolResult_idem_iff m).1 (hidem m hm)
  · intro h
    constructor
    · simp only [truncateToolResults, List.map_map]
      exact List.map_congr_left fun m hm => (truncateToolResult_idem_iff m).2 (h m hm)
    · intro toolCallId content hm hlong n
      rw [iterate_of_settled (h _ hm), truncateToolResult_of_lt hlong]

end Rounds

namespace AgentRun

/-- The results of the batch that are there. -/
def results (slots : List Slot) : List Message :=
  slots.filterMap fun slot => slot.2.map fun content => .tool slot.1.id content

/-- The messages that a run holds besides its working list. -/
def besides (r : AgentRun) : List Message :=
  match r.phase with
  | .continuing working _ _ => working
  | .executing slots _ => results slots
  | .returned result => result.workingMessages
  | .blocked pending => pending.workingMessages ++ [pending.assistantMessage]
  | .summarizing | .completing | .raised => []

/-- The tool messages of a run. -/
def Holds (r : AgentRun) (m : Message) : Prop :=
  m.isTool = true ∧ (m ∈ r.working ∨ m ∈ r.besides)

/-- The output of a tool that a step brings. -/
def output (E : AgentEnv) (r : AgentRun) : ConversationEvent → Option Message
  | .run (.toolReturned i outcome) =>
    match r.phase with
    | .executing slots _ =>
      match slots[i]? with
      | some (call, none) => (executeOne E call outcome).map (.tool call.id)
      | _ => none
    | _ => none
  | .run (.answered _) | .approve => none

/-- The messages of the run that the loop is called with, and the outputs of its tools. -/
def Original (E : AgentEnv) (messages : List Message)
    (tr : List (AgentRun × ConversationEvent)) (m : Message) : Prop :=
  m ∈ messages ∨ ∃ p ∈ tr, output E p.1 p.2 = some m

variable {E : AgentEnv} {r r' : AgentRun} {m : Message}

theorem mem_truncateToolResults {messages : List Message} :
    m ∈ truncateToolResults E messages ↔ ∃ o ∈ messages, truncateToolResult E o = m :=
  List.mem_map

theorem isTool_truncateToolResult (m : Message) :
    (truncateToolResult E m).isTool = m.isTool := by
  cases m with
  | tool toolCallId content =>
    simp only [truncateToolResult]
    split_ifs
    · rfl
    · rfl
  | system content => rfl
  | user content => rfl
  | assistant content toolCalls => rfl

/-- At the head of a round every tool message is one of the list, as it was or truncated. -/
theorem holds_startRound (h : (startRound E r).Holds m) :
    ∃ o ∈ r.working, o.isTool = true ∧ (m = o ∨ m = truncateToolResult E o) := by
  obtain ⟨htool, hm⟩ := h
  unfold startRound at hm
  split_ifs at hm
  · have hworking : m ∈ truncateToolResults E r.working := by
      refine hm.resolve_right fun hbesides => ?_
      unfold besides at hbesides
      dsimp only at hbesides
      split_ifs at hbesides
      · simp at hbesides
      · simp at hbesides
    obtain ⟨o, ho, rfl⟩ := mem_truncateToolResults.1 hworking
    rw [isTool_truncateToolResult] at htool
    exact ⟨o, ho, htool, Or.inr rfl⟩
  · exact ⟨m, hm.elim id id, htool, Or.inl rfl⟩

theorem holds_continueTruncated {working : List Message} {chunks : List String} {left : ℕ}
    (h : (r.continueTruncated working chunks left).Holds m) : m ∈ r.working ∨ m ∈ working := by
  obtain ⟨htool, hm⟩ := h
  cases left with
  | zero => exact Or.inl (hm.elim id id)
  | succ left =>
    refine hm.imp id fun hbesides => ?_
    refine (List.mem_append.1 hbesides).resolve_right fun hprompt => ?_
    rw [List.mem_singleton.1 hprompt] at htool
    contradiction

theorem holds_execute {assistant : Message} {calls : List ToolCall} {after : AfterBatch}
    (h : (r.execute assistant calls after).Holds m) : m ∈ r.working ∨ m = assistant := by
  rcases h.2 with hworking | hresults
  · exact (List.mem_append.1 hworking).imp id List.mem_singleton.1
  · simp [besides, execute, results] at hresults

theorem holds_completed {response : InferenceResponse} (h : (r.completed E response).Holds m) :
    m ∈ r.working := by
  have htool := h.1
  unfold completed at h
  split_ifs at h
  · refine (holds_continueTruncated h).elim id fun hm => ?_
    refine (List.mem_append.1 hm).resolve_right fun hanswer => ?_
    rw [List.mem_singleton.1 hanswer] at htool
    contradiction
  · exact h.2.elim id id
  · dsimp only at h
    have hassistant : m ≠ .assistant response.content response.toolCalls := by
      rintro rfl
      contradiction
    split_ifs at h
    · split at h
      · exact h.2.resolve_right List.not_mem_nil
      · refine h.2.elim id fun hpending => ?_
        exact (List.mem_append.1 hpending).resolve_right fun hm =>
          hassistant (List.mem_singleton.1 hm)
    · exact (holds_execute h).resolve_right hassistant

theorem holds_continued {working : List Message} {chunks : List String} {left : ℕ}
    {response : InferenceResponse} (h : (r.continued working chunks left response).Holds m) :
    m ∈ r.working ∨ m ∈ working := by
  have htool := h.1
  unfold continued at h
  split_ifs at h
  · refine (holds_continueTruncated h).imp id fun hm => ?_
    refine (List.mem_append.1 hm).resolve_right fun hanswer => ?_
    rw [List.mem_singleton.1 hanswer] at htool
    contradiction
  · exact Or.inl (h.2.elim id id)

theorem holds_compacted {toCompress toKeep : List Message} {summary : String}
    (hsplit : split E r.working = some (toCompress, toKeep)) (htool : m.isTool = true)
    (h : m ∈ compacted r.working toKeep summary) : m ∈ r.working := by
  unfold compacted at h
  rcases List.mem_append.1 h with hsystem | hm
  · unfold systemMessage at hsystem
    obtain ⟨hhead, -⟩ := Option.filter_eq_some_iff.1 (Option.mem_toList.1 hsystem)
    exact List.mem_of_mem_head? hhead
  · have hkeep : m ∈ toKeep := by
      rcases List.mem_cons.1 hm with rfl | hm
      · contradiction
      rcases List.mem_cons.1 hm with rfl | hm
      · contradiction
      exact hm
    have hconversation : m ∈ conversationOf r.working := by
      rw [← (split_eq_some hsplit).1]
      exact List.mem_append_right _ hkeep
    unfold conversationOf at hconversation
    split_ifs at hconversation
    · exact List.mem_of_mem_tail hconversation
    · exact hconversation

/-- The results after a tool has returned are those that were there and the new one. -/
theorem mem_results_set {slots : List Slot} {i : ℕ} {call : ToolCall} {content : String}
    (h : m ∈ results (slots.set i (call, some content))) :
    m ∈ results slots ∨ m = .tool call.id content := by
  obtain ⟨slot, hslot, hresult⟩ := List.mem_filterMap.1 h
  rcases List.mem_or_eq_of_mem_set hslot with hslot | rfl
  · exact Or.inl (List.mem_filterMap.2 ⟨slot, hslot, hresult⟩)
  · exact Or.inr (Option.some.inj hresult).symm

/-- The messages of a finished batch are its results. -/
theorem mem_toolResults {slots : List Slot} (hdone : ∀ slot ∈ slots, slot.2.isSome = true)
    (h : m ∈ toolResults E slots) : m ∈ results slots := by
  obtain ⟨⟨call, content⟩, hslot, rfl⟩ := List.mem_map.1 h
  obtain ⟨content, rfl⟩ := Option.isSome_iff_exists.1 (hdone _ hslot)
  exact List.mem_filterMap.2 ⟨(call, some content), hslot, rfl⟩

theorem holds_batchDone {slots : List Slot} {after : AfterBatch}
    (h : (r.batchDone E slots after).Holds m) :
    ∃ o ∈ r.working ++ toolResults E slots, o.isTool = true ∧
      (m = o ∨ m = truncateToolResult E o) := by
  cases after with
  | nextRound => exact holds_startRound h
  | resume surfacedTools => exact holds_startRound h

/-- A tool that returns brings its output, and behind the last one of a batch the tool messages are
truncated. -/
theorem toolReturned_holds {slots : List Slot} {after : AfterBatch} {i : ℕ}
    {outcome : HandlerOutcome} (hphase : r.phase = .executing slots after)
    (hreturned : r.toolReturned E slots after i outcome = some r') (h : r'.Holds m) :
    ∃ o, (r.Holds o ∨ output E r (.run (.toolReturned i outcome)) = some o) ∧
      (m = o ∨ m = truncateToolResult E o) := by
  have hbesides : r.besides = results slots := by
    unfold besides
    rw [hphase]
  unfold toolReturned at hreturned
  split at hreturned
  · rename_i call hslot
    simp only [Option.ite_none_right_eq_some, Option.map_eq_some_iff] at hreturned
    obtain ⟨-, content, hcontent, rfl⟩ := hreturned
    have houtput : output E r (.run (.toolReturned i outcome)) =
        some (.tool call.id content) := by
      simp only [output, hphase, hslot, hcontent, Option.map_some]
    have horigin : ∀ o, o.isTool = true →
        o ∈ r.working ∨ o ∈ results (slots.set i (call, some content)) →
          r.Holds o ∨ output E r (.run (.toolReturned i outcome)) = some o := by
      rintro o ho (hworking | hresults)
      · exact Or.inl ⟨ho, Or.inl hworking⟩
      · rcases mem_results_set hresults with hold | rfl
        · exact Or.inl ⟨ho, Or.inr (by rwa [hbesides])⟩
        · exact Or.inr houtput
    split_ifs at h with hdone
    · obtain ⟨o, ho, htool, hm⟩ := holds_batchDone h
      refine ⟨o, horigin o htool ((List.mem_append.1 ho).imp id ?_), hm⟩
      exact mem_toolResults (by simpa using hdone)
    · exact ⟨m, horigin m h.1 h.2, Or.inl rfl⟩
  · contradiction

/-- A step of a run brings no tool message but the output of a tool, and truncates what it has at
most once. -/
theorem step_holds {requestId : String} {messages : List Message} {preSurfaced : List String}
    {e : ConversationEvent}
    (hs : (conversationMachine E requestId messages preSurfaced).step r e = some r')
    (h : r'.Holds m) :
    ∃ o, (r.Holds o ∨ output E r e = some o) ∧ (m = o ∨ m = truncateToolResult E o) := by
  have htool := h.1
  cases e with
  | approve =>
    simp only [conversationMachine] at hs
    split at hs
    · rename_i pending hphase
      obtain rfl := Option.some.inj hs
      refine ⟨m, Or.inl ⟨htool, Or.inr ?_⟩, Or.inl rfl⟩
      unfold besides
      rw [hphase]
      exact List.mem_append.2 ((holds_execute h).imp id List.mem_singleton.2)
    · contradiction
  | run e =>
    rcases step_eq_some hs with ⟨response, parts, hsummarizing, hsplit, rfl⟩ |
      ⟨response, hcompleting, rfl⟩ | ⟨working, chunks, left, response, hphase, rfl⟩ | rfl |
      ⟨slots, after, i, outcome, hphase, rfl, hreturned⟩
    · have hm := h.2.resolve_right List.not_mem_nil
      exact ⟨m, Or.inl ⟨htool, Or.inl (holds_compacted hsplit htool hm)⟩, Or.inl rfl⟩
    · exact ⟨m, Or.inl ⟨htool, Or.inl (holds_completed h)⟩, Or.inl rfl⟩
    · refine ⟨m, Or.inl ⟨htool, (holds_continued h).imp id fun hm => ?_⟩, Or.inl rfl⟩
      unfold besides
      rwa [hphase]
    · exact ⟨m, Or.inl ⟨htool, Or.inl (h.2.resolve_right List.not_mem_nil)⟩, Or.inl rfl⟩
    · exact toolReturned_holds hphase hreturned h

/-- Whatever the rounds of a run made of it, a tool message comes from an original by
truncations. -/
theorem trace_holds {requestId : String} {messages : List Message} {preSurfaced : List String}
    {tr : List (AgentRun × ConversationEvent)}
    (h : (conversationMachine E requestId messages preSurfaced).Trace tr r) :
    ∀ m, r.Holds m → ∃ o, Original E messages tr o ∧ ∃ n, m = (truncateToolResult E)^[n] o := by
  induction h with
  | nil =>
    intro m hm
    obtain ⟨o, ho, -, rfl | rfl⟩ := holds_startRound hm
    · exact ⟨m, Or.inl ho, 0, rfl⟩
    · exact ⟨o, Or.inl ho, 1, rfl⟩
  | @snoc tr r e r' _ hs ih =>
    intro m hm
    have hlater : ∀ o, Original E messages tr o → Original E messages (tr ++ [(r, e)]) o := by
      rintro o (ho | ⟨p, hp, ho⟩)
      · exact Or.inl ho
      · exact Or.inr ⟨p, List.mem_append_left _ hp, ho⟩
    obtain ⟨o, ho, hm⟩ := step_holds hs hm
    have horiginal : ∃ o', Original E messages (tr ++ [(r, e)]) o' ∧
        ∃ n, o = (truncateToolResult E)^[n] o' := by
      rcases ho with ho | ho
      · obtain ⟨o', ho', n, hn⟩ := ih o ho
        exact ⟨o', hlater o' ho', n, hn⟩
      · exact ⟨o, Or.inr ⟨(r, e), by simp, ho⟩, 0, rfl⟩
    obtain ⟨o', ho', n, rfl⟩ := horiginal
    rcases hm with rfl | rfl
    · exact ⟨o', ho', n, rfl⟩
    · exact ⟨o', ho', n + 1, (Function.iterate_succ_apply' _ n o').symm⟩

theorem isTool_iterate (m : Message) (n : ℕ) :
    ((truncateToolResult E)^[n] m).isTool = m.isTool := by
  induction n with
  | zero => rfl
  | succ n ih => rw [Function.iterate_succ_apply', isTool_truncateToolResult, ih]

/-- Truncation is stable over the rounds exactly for results that are not truncated or whose notice
makes them as long as they were. A run on such results and outputs has only the originals, and the
starts of originals with a notice of the original's length. -/
theorem staysTruncated_iff (E : AgentEnv) :
    (∀ messages, StaysTruncated E messages ↔ ∀ m ∈ messages, Settled E m) ∧
      ∀ requestId messages preSurfaced tr r,
        (conversationMachine E requestId messages preSurfaced).Trace tr r →
        (∀ o, Original E messages tr o → Settled E o) → ∀ m, r.Holds m →
          ∃ toolCallId content, Original E messages tr (.tool toolCallId content) ∧
            (m = .tool toolCallId content ∨
              E.config.microCompactionChars < content.length ∧ m = .tool toolCallId
                (sliceText content E.config.microCompactionChars ++
                  truncationNotice content.length)) := by
  refine ⟨fun _ => staysTruncated_iff_settled, ?_⟩
  intro requestId messages preSurfaced tr r h hsettled m hm
  obtain ⟨o, ho, n, rfl⟩ := trace_holds h m hm
  have htool := hm.1
  rw [isTool_iterate] at htool
  cases o with
  | tool toolCallId content =>
    refine ⟨toolCallId, content, ho, ?_⟩
    cases n with
    | zero => exact Or.inl rfl
    | succ n =>
      rw [iterate_of_settled (hsettled _ ho)]
      rcases le_or_gt (content.length : ℤ) E.config.microCompactionChars with hle | hlong
      · exact Or.inl (truncateToolResult_of_le hle)
      · exact Or.inr ⟨hlong, truncateToolResult_of_lt hlong⟩
  | system content => contradiction
  | user content => contradiction
  | assistant content toolCalls => contradiction

/-- An agent that keeps four characters of each result. -/
def thrifty : AgentEnv :=
  { fileReader with config := { fileReader.config with microCompactionChars := 4 } }

/-- With its notice the result is as long as it was. -/
def longRead : List Message :=
  [.user "Read on.", .assistant "" [readCall "c-1"],
    .tool "c-1" "The file says this, and not much more."]

/-- The model reads another file, and both results go into the next round. -/
def readsOn : List ConversationEvent :=
  [.run (.answered (.ok { content := "", toolCalls := [readCall "c-2"] })),
    .run (.toolReturned 0 (.returned "two"))]

theorem staysTruncated_iff_longRead :
    (StaysTruncated thrifty longRead ↔ ∀ m ∈ longRead, Settled thrifty m) ∧
    ∃ tr r, (conversationMachine thrifty "r-1" longRead []).Trace tr r ∧
      tr.map Prod.snd = readsOn ∧
      r.working = [.user "Read on.", .assistant "" [readCall "c-1"],
        .tool "c-1" "The \n\n[Truncated — original: 38 chars]", .assistant "" [readCall "c-2"],
        .tool "c-2" "two"] ∧
      ∀ m, r.Holds m → ∃ toolCallId content,
        Original thrifty longRead tr (.tool toolCallId content) ∧
          (m = .tool toolCallId content ∨
            thrifty.config.microCompactionChars < content.length ∧ m = .tool toolCallId
              (sliceText content thrifty.config.microCompactionChars ++
                truncationNotice content.length)) := by
  refine ⟨(staysTruncated_iff thrifty).1 _, ?_⟩
  obtain ⟨tr, r, h, hevents, hp⟩ := Machine.Trace.of_check
    (M := conversationMachine thrifty "r-1" longRead []) readsOn
    (p := fun tr r => decide (r.working = [.user "Read on.", .assistant "" [readCall "c-1"],
        .tool "c-1" "The \n\n[Truncated — original: 38 chars]", .assistant "" [readCall "c-2"],
        .tool "c-2" "two"]) &&
      tr.all fun q => (output thrifty q.1 q.2).all fun m => decide (Settled thrifty m)) (by decide)
  rw [Bool.and_eq_true, decide_eq_true_eq] at hp
  obtain ⟨hworking, houtputs⟩ := hp
  refine ⟨tr, r, h, hevents, hworking,
    (staysTruncated_iff thrifty).2 "r-1" longRead [] tr r h ?_⟩
  rintro o (ho | ⟨q, hq, ho⟩)
  · have hall : ∀ m ∈ longRead, Settled thrifty m := by decide
    exact hall o ho
  · have hsettled := List.all_eq_true.1 houtputs q hq
    rw [ho] at hsettled
    exact of_decide_eq_true hsettled

/-- The second round truncates the notice of the first. -/
theorem notice_truncated : ¬ StaysTruncated thrifty [.tool "c-1" "0123456789"] := by
  intro h
  have hsettled := staysTruncated_iff_settled.1 h _ (List.mem_singleton_self _)
  exact absurd hsettled (by decide)

end AgentRun

end NemoClaw
