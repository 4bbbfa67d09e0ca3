import NemoClaw.Lib.Chunks
import NemoClaw.Lib.Cuts
import NemoClaw.Orchestrator.Continuations

/-! The text of a Slack message (`connectors/slack/connector.py`): a text that is too long for one
section is split at paragraphs, lines or spaces. -/

namespace NemoClaw

open Lib Cuts

/-- A boundary of a kind in the window. One at the start of the window does not count. -/
def boundary (mark window : List Char) : Option ℕ := (lastIndex mark window).filter (0 < ·)

/-- Where `_split_text_for_slack` splits. -/
def splitAt (limit : ℕ+) (remaining : List Char) : ℕ :=
  let window := remaining.take limit
  ((boundary ['\n', '\n'] window).or
    ((boundary ['\n'] window).or (boundary [' '] window))).getD limit

theorem boundary_eq_some {mark window : List Char} {i : ℕ} (h : boundary mark window = some i) :
    mark <+: window.drop i ∧ 0 < i := by
  obtain ⟨hlast, hpos⟩ := Option.filter_eq_some_iff.1 h
  exact ⟨drop_lastIndex hlast, by simpa using hpos⟩

/-- It splits in front of a line end or a space, or at the limit of a window that has none behind
its first letter. -/
theorem splitAt_cases (limit : ℕ+) (remaining : List Char) :
    (0 < splitAt limit remaining ∧ ∃ c, isSpace c = true ∧
      [c] <+: (remaining.take limit).drop (splitAt limit remaining)) ∨
    (splitAt limit remaining = limit ∧ '\n' ∉ (remaining.take limit).tail ∧
      ' ' ∉ (remaining.take limit).tail) := by
  have hboundary : ∀ {c : Char} {mark : List Char} {i : ℕ}, isSpace c = true →
      boundary (c :: mark) (remaining.take limit) = some i →
        0 < i ∧ ∃ c, isSpace c = true ∧ [c] <+: (remaining.take limit).drop i := by
    intro c mark i hc hi
    obtain ⟨hbegins, hpos⟩ := boundary_eq_some hi
    exact ⟨hpos, c, hc, List.IsPrefix.trans ⟨mark, rfl⟩ hbegins⟩
  unfold splitAt
  dsimp only
  cases hparagraph : boundary ['\n', '\n'] (remaining.take limit) with
  | some i => exact Or.inl (hboundary (by decide) hparagraph)
  | none =>
    cases hline : boundary ['\n'] (remaining.take limit) with
    | some i => exact Or.inl (hboundary (by decide) hline)
    | none =>
      cases hspace : boundary [' '] (remaining.take limit) with
      | some i => exact Or.inl (hboundary (by decide) hspace)
      | none =>
        exact Or.inr ⟨rfl, notMem_tail_of_lastIndex hline, notMem_tail_of_lastIndex hspace⟩

/-- The `while` loop of `_split_text_for_slack`. -/
def slackCutter (limit : ℕ+) : Cutter Char where
  blank := isSpace
  limit := limit
  cut := splitAt limit
  pos remaining := by
    rcases splitAt_cases limit remaining with ⟨hpos, -⟩ | ⟨heq, -⟩
    · exact hpos
    · rw [heq]
      exact limit.pos
  le remaining := by
    rcases splitAt_cases limit remaining with ⟨-, c, -, hbegins⟩ | ⟨heq, -⟩
    · have hlen := hbegins.length_le
      rw [List.length_drop, List.length_take, List.length_singleton] at hlen
      omega
    · rw [heq]

/-- `_split_text_for_slack` -/
def splitTextForSlack (text : String) (limit : ℕ+) : List String :=
  if text.length ≤ limit then [text]
  else ((slackCutter limit).chunks text.toList).map String.ofList

def visible (text : List Char) : List Char := text.filter fun c => !isSpace c

/-- The `i`-th letter and the one before it are no blanks. -/
def InsideRun (remaining : List Char) (i : ℕ) : Prop :=
  ∃ l before after r, remaining = l ++ before :: after :: r ∧ i = l.length + 1 ∧
    isSpace before = false ∧ isSpace after = false

/-- The chunks are short and hold all that is visible of the text, and none is cut in a word as
long as there is a line end or a space to cut at. -/
structure LosesNothing (text : String) (limit : ℕ+) : Prop where
  ne_nil : splitTextForSlack text limit ≠ []
  bounded : ∀ chunk ∈ splitTextForSlack text limit, chunk ≠ "" ∧ chunk.length ≤ limit
  visible : visible ((splitTextForSlack text limit).flatMap String.toList) = visible text.toList
  cuts : ∀ remaining, (slackCutter limit).Rest text.toList remaining → limit < remaining.length →
    InsideRun remaining (splitAt limit remaining) →
      '\n' ∉ (remaining.take limit).tail ∧ ' ' ∉ (remaining.take limit).tail

/-- In front of a blank no word is cut. -/
theorem not_insideRun {remaining : List Char} {i n : ℕ} {c : Char} (hc : isSpace c = true)
    (h : [c] <+: (remaining.take n).drop i) : ¬ InsideRun remaining i := by
  rintro ⟨l, before, after, r, rfl, rfl, -, hafter⟩
  rw [List.drop_take] at h
  have hdrop := h.trans (List.take_prefix _ _)
  have happend : l ++ before :: after :: r = (l ++ [before]) ++ after :: r := by simp
  rw [happend, List.drop_left' (by simp)] at hdrop
  obtain rfl := (List.cons_prefix_cons.1 hdrop).1
  rw [hc] at hafter
  contradiction

theorem splitTextForSlack_of_lt {text : String} {limit : ℕ+} (h : limit < text.length) :
    splitTextForSlack text limit =
      ((slackCutter limit).chunks text.toList).map String.ofList := if_neg (not_le.2 h)

/-- The chunks of a text are not empty, and short. -/
theorem bounded_of_mem_split {text chunk : String} {limit : ℕ+} (hne : text ≠ "")
    (h : chunk ∈ splitTextForSlack text limit) : chunk ≠ "" ∧ chunk.length ≤ limit := by
  rcases le_or_gt text.length limit with hle | hlong
  · have hsplit : splitTextForSlack text limit = [text] := if_pos hle
    rw [hsplit, List.mem_singleton] at h
    rw [h]
    exact ⟨hne, hle⟩
  · rw [splitTextForSlack_of_lt hlong] at h
    obtain ⟨piece, hpiece, rfl⟩ := List.mem_map.1 h
    obtain ⟨hpiece, hlen⟩ := Cutter.length_le_of_mem_chunks hpiece
    refine ⟨?_, by rwa [String.length_ofList]⟩
    intro hempty
    exact hpiece (by simpa using congrArg String.toList hempty)

theorem losesNothing_iff (text : String) (limit : ℕ+) : LosesNothing text limit ↔
    text ≠ "" ∧ (text.length ≤ limit ∨ ∃ c ∈ text.toList, isSpace c = false) := by
  have hcuts : ∀ remaining : List Char, InsideRun remaining (splitAt limit remaining) →
      '\n' ∉ (remaining.take limit).tail ∧ ' ' ∉ (remaining.take limit).tail := by
    intro remaining hinside
    rcases splitAt_cases limit remaining with ⟨-, c, hc, hbegins⟩ | ⟨-, hnone⟩
    · exact absurd hinside (not_insideRun hc hbegins)
    · exact hnone
  rcases le_or_gt text.length limit with hle | hlong
  · have hsplit : splitTextForSlack text limit = [text] := if_pos hle
    constructor
    · intro h
      exact ⟨(h.bounded text (by simp [hsplit])).1, Or.inl hle⟩
    · rintro ⟨hne, -⟩
      exact ⟨by simp [hsplit], by simp [hsplit, hne, hle], by simp [hsplit],
        fun remaining _ _ => hcuts remaining⟩
  · have hsplit := splitTextForSlack_of_lt hlong
    have hlength : (slackCutter limit).limit < text.toList.length := by
      rwa [String.length_toList]
    constructor
    · intro h
      refine ⟨?_, Or.inr ?_⟩
      · rintro rfl
        simp at hlong
      · by_contra hblank
        refine h.ne_nil ?_
        rw [hsplit, Cutter.chunks_eq_nil hlength]
        · rfl
        · intro c hc
          by_contra hvisible
          exact hblank ⟨c, hc, Bool.eq_false_of_not_eq_true hvisible⟩
    · rintro ⟨-, hvisible⟩
      have hex := hvisible.resolve_left (not_le.2 hlong)
      have hne : text ≠ "" := by
        rintro rfl
        simp at hlong
      refine ⟨?_, fun chunk => bounded_of_mem_split hne, ?_, fun remaining _ _ => hcuts remaining⟩
      · rw [hsplit, Ne, List.map_eq_nil_iff]
        exact Cutter.chunks_ne_nil hex
      · rw [hsplit, List.flatMap_map]
        have hkept : NemoClaw.visible ((slackCutter limit).chunks text.toList).flatten =
            NemoClaw.visible text.toList :=
          Cutter.filter_chunks (C := slackCutter limit) text.toList
        simpa [List.flatMap_id'] using hkept

/-- Nothing is left of a long text of spaces. -/
theorem blank_text_lost : "    " ≠ "" ∧ ¬ LosesNothing "    " 3 :=
  ⟨by decide, fun h => h.ne_nil (by decide +kernel)⟩

/-! ### Text blocks -/

def slackSectionTextLimit : ℕ+ := 2900

def slackMaxTextblockChunks : ℕ := 40

def truncatedNotice : String := ":warning: _Response truncated — too long to display in full._"

structure TextBlock where
  text : String
  markdown : Bool

inductive Section
  | mrkdwn (text : String)
  | plainText (text : String)
  deriving DecidableEq, Repr

def capChunks (chunks : List String) : List String :=
  if slackMaxTextblockChunks < chunks.length then
    chunks.take (slackMaxTextblockChunks - 1) ++ [truncatedNotice]
  else chunks

/-- `_render_block` for a text block, with what `_to_slack_markdown` makes of its text. -/
def renderTextBlock (toSlackMarkdown : String → String) (block : TextBlock) : List Section :=
  let text := if block.markdown then toSlackMarkdown block.text else block.text
  (capChunks (splitTextForSlack text slackSectionTextLimit)).map
    (if block.markdown then .mrkdwn else .plainText)

theorem length_capChunks_le (chunks : List String) :
    (capChunks chunks).length ≤ slackMaxTextblockChunks := by
  unfold capChunks
  split_ifs with h
  · rw [List.length_append, List.length_take, List.length_singleton]
    unfold slackMaxTextblockChunks
    omega
  · exact not_lt.1 h

/-- A text block takes a bounded part of a message. -/
theorem length_renderTextBlock_le (toSlackMarkdown : String → String) (block : TextBlock) :
    (renderTextBlock toSlackMarkdown block).length ≤ slackMaxTextblockChunks := by
  unfold renderTextBlock
  rw [List.length_map]
  exact length_capChunks_le _

end NemoClaw
