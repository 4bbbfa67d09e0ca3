import NemoClaw.Lib.Digits
import NemoClaw.Lib.Lines
import NemoClaw.Agent.Edits
import NemoClaw.Orchestrator.Continuations

/-! Paging through a file with `read_file`: each header announces the last line of its page, and the
next page begins behind it. The registry cuts a page at `max_result_chars`. -/

namespace NemoClaw

open Lib

/-! ### `splitlines` and `rstrip` -/

def isLineBreak (c : Char) : Bool :=
  (0x0a ≤ c.toNat && c.toNat ≤ 0x0d) || (0x1c ≤ c.toNat && c.toNat ≤ 0x1e) ||
    c.toNat = 0x85 || c.toNat = 0x2028 || c.toNat = 0x2029

def splitKeepEnds : List Char → List (List Char)
  | [] => []
  | '\r' :: '\n' :: l => ['\r', '\n'] :: splitKeepEnds l
  | c :: l =>
    if isLineBreak c then [c] :: splitKeepEnds l
    else
      match splitKeepEnds l with
      | [] => [[c]]
      | line :: lines => (c :: line) :: lines

def pythonText : FileText where
  splitlines text := (splitKeepEnds text.toList).map String.ofList
  rstrip line := String.ofList (line.toList.rdropWhile isSpace)

theorem isSpace_of_isLineBreak {c : Char} (h : isLineBreak c = true) : isSpace c = true := by
  unfold isLineBreak at h
  unfold isSpace
  grind

theorem exists_ends_of_mem_splitKeepEnds {text line : List Char} (h : line ∈ splitKeepEnds text) :
    ∃ body ends, line = body ++ ends ∧ (∀ c ∈ body, isLineBreak c = false) ∧
      ∀ c ∈ ends, isLineBreak c = true := by
  fun_induction splitKeepEnds text generalizing line with
  | case1 => simp at h
  | case2 l ih =>
    rcases List.mem_cons.1 h with rfl | h
    · refine ⟨[], ['\r', '\n'], rfl, by simp, ?_⟩
      exact List.forall_mem_cons.2 ⟨by decide, List.forall_mem_singleton.2 (by decide)⟩
    · exact ih h
  | case3 c l _ hc ih =>
    rcases List.mem_cons.1 h with rfl | h
    · exact ⟨[], [c], rfl, by simp, by simpa using hc⟩
    · exact ih h
  | case4 c l _ hc heq ih =>
    obtain rfl := List.mem_singleton.1 h
    exact ⟨[c], [], rfl, by simpa using hc, by simp⟩
  | case5 c l _ hc line' lines heq ih =>
    rcases List.mem_cons.1 h with rfl | h
    · obtain ⟨body, ends, rfl, hbody, hends⟩ := @ih line' (by simp [heq])
      refine ⟨c :: body, ends, rfl, ?_, hends⟩
      rw [List.forall_mem_cons]
      exact ⟨by simpa using hc, hbody⟩
    · exact ih (by simp [heq, h])

theorem splitKeepEnds_of_noBreak {text : List Char} (h : ∀ c ∈ text, isLineBreak c = false)
    (hne : text ≠ []) : splitKeepEnds text = [text] := by
  fun_induction splitKeepEnds text with
  | case1 => exact absurd rfl hne
  | case2 l ih => exact absurd (h '\r' (by simp)) (by decide)
  | case3 c l _ hc ih => exact absurd hc (by simp [h c (by simp)])
  | case4 c l _ hc heq ih =>
    cases l with
    | nil => rfl
    | cons a l =>
      rw [ih (fun c hc => h c (List.mem_cons_of_mem _ hc)) (by simp)] at heq
      simp at heq
  | case5 c l _ hc line' lines heq ih =>
    cases l with
    | nil => simp [splitKeepEnds] at heq
    | cons a l =>
      rw [ih (fun c hc => h c (List.mem_cons_of_mem _ hc)) (by simp)] at heq
      obtain ⟨rfl, rfl⟩ := List.cons.inj heq
      rfl

theorem notMem_rstrip {text line : String} (h : line ∈ pythonText.splitlines text) :
    '\n' ∉ (pythonText.rstrip line).toList := by
  obtain ⟨line, hline, rfl⟩ := List.mem_map.1 h
  obtain ⟨body, ends, rfl, hbody, hends⟩ := exists_ends_of_mem_splitKeepEnds hline
  have hstrip : (body ++ ends).rdropWhile isSpace = body.rdropWhile isSpace := by
    unfold List.rdropWhile
    rw [List.reverse_append, List.dropWhile_append_of_pos fun c hc =>
      isSpace_of_isLineBreak (hends c (List.mem_reverse.1 hc))]
  intro hmem
  simp only [pythonText, String.toList_ofList, hstrip] at hmem
  exact absurd (hbody '\n' ((List.rdropWhile_prefix _ _).subset hmem)) (by decide)

/-! ### The header of a page -/

inductive PageHeader where
  | showing (first last total : ℕ)
  | all (total : ℕ)

namespace PageHeader

def text : PageHeader → String
  | showing first last total =>
    "(showing lines " ++ toString first ++ "–" ++ toString last ++ " of " ++ toString total ++ ")"
  | all total => "(" ++ toString total ++ " lines total)"

def last : PageHeader → ℕ
  | showing _ last _ | all last => last

def total : PageHeader → ℕ
  | showing _ _ total | all total => total

end PageHeader

/-- The first line of a reply is the header. -/
def Announces (reply : String) (header : PageHeader) : Prop :=
  ∃ body, reply.toList = header.text.toList ++ '\n' :: body

theorem digits_append_inj {c : Char} (hc : c.isDigit = false) {m n : ℕ} {r s : List Char}
    (h : (toString m).toList ++ c :: r = (toString n).toList ++ c :: s) : m = n ∧ r = s := by
  have hbefore := congrArg (Cuts.before c) h
  rw [Cuts.before_append (notMem_toString hc m), Cuts.before_append (notMem_toString hc n)]
    at hbefore
  obtain rfl := toString_injective hbefore
  exact ⟨rfl, by simpa using h⟩

theorem toList_showing (first last total : ℕ) :
    (PageHeader.showing first last total).text.toList = '(' :: ("showing".toList ++ ' ' ::
      ("lines ".toList ++ ((toString first).toList ++ '–' :: ((toString last).toList ++ ' ' ::
        ("of ".toList ++ ((toString total).toList ++ [')'])))))) := by
  have htext : (PageHeader.showing first last total).text = "(showing lines " ++ toString first ++
    "–" ++ toString last ++ " of " ++ toString total ++ ")" := rfl
  rw [htext]
  simp

theorem toList_all (total : ℕ) : (PageHeader.all total).text.toList =
    '(' :: ((toString total).toList ++ ' ' :: "lines total)".toList) := by
  have htext : (PageHeader.all total).text = "(" ++ toString total ++ " lines total)" := rfl
  rw [htext]
  simp

/-- No header begins with another. -/
theorem PageHeader.eq_of_prefix {g h : PageHeader} (hbegins : g.text.toList <+: h.text.toList) :
    g = h := by
  obtain ⟨rest, heq⟩ := hbegins
  have hshowing : ∀ {n : ℕ} {r s : List Char},
      (toString n).toList ++ ' ' :: r ≠ "showing".toList ++ ' ' :: s := by
    intro n r s heq
    have hbefore := congrArg (Cuts.before ' ') heq
    rw [Cuts.before_append (notMem_toString (by decide) n), Cuts.before_append (by decide)]
      at hbefore
    exact absurd (hbefore ▸ List.mem_cons_self) (notMem_toString (c := 's') (by decide) n)
  cases g with
  | showing first last total =>
    cases h with
    | showing first' last' total' =>
      rw [toList_showing, toList_showing] at heq
      simp only [List.cons_append, List.append_assoc, List.cons.injEq, true_and,
        List.append_cancel_left_eq] at heq
      obtain ⟨hfirst, heq⟩ := digits_append_inj (by decide) heq
      obtain ⟨hlast, heq⟩ := digits_append_inj (by decide) heq
      rw [List.append_cancel_left_eq] at heq
      obtain ⟨htotal, -⟩ := digits_append_inj (by decide) heq
      rw [hfirst, hlast, htotal]
    | all total' =>
      rw [toList_showing, toList_all] at heq
      simp only [List.cons_append, List.append_assoc, List.cons.injEq, true_and] at heq
      exact absurd heq.symm hshowing
  | all total =>
    cases h with
    | showing first' last' total' =>
      rw [toList_showing, toList_all] at heq
      simp only [List.cons_append, List.append_assoc, List.cons.injEq, true_and] at heq
      exact absurd heq hshowing
    | all total' =>
      rw [toList_all, toList_all] at heq
      simp only [List.cons_append, List.append_assoc, List.cons.injEq, true_and] at heq
      obtain ⟨htotal, -⟩ := digits_append_inj (by decide) heq
      rw [htotal]

theorem notMem_header {c : Char} (hdigit : c.isDigit = false)
    (hmark : c ∉ "(showing lines– of total)".toList) (h : PageHeader) : c ∉ h.text.toList := by
  have hdigits : ∀ n, c ∉ Nat.toDigits 10 n := fun n => toList_toString n ▸ notMem_toString hdigit n
  simp only [String.reduceToList, List.mem_cons, not_or] at hmark
  cases h with
  | showing first last total =>
    rw [toList_showing]
    simp [hmark, hdigits]
  | all total =>
    rw [toList_all]
    simp [hmark, hdigits]

/-! ### The lines of a page -/

/-- The lines with the numbers from `i` on. -/
def numberedLines (T : FileText) (i : ℕ) (lines : List String) : List String :=
  lines.mapIdx fun j line => Workspace.numbered T (i + j) line

variable {T : FileText} {i j charLimit count : ℕ} {line line' : String} {lines : List String}

theorem numberedLines_cons : numberedLines T i (line :: lines) =
    Workspace.numbered T i line :: numberedLines T (i + 1) lines := by
  have hnumber : (fun j line => Workspace.numbered T (i + (j + 1)) line) =
      fun j line => Workspace.numbered T (i + 1 + j) line := by
    funext j line
    rw [Nat.add_assoc, Nat.add_comm 1 j]
  rw [numberedLines, List.mapIdx_cons, Nat.add_zero, hnumber, numberedLines]

theorem numberedLines_append {lines' : List String} : numberedLines T i (lines ++ lines') =
    numberedLines T i lines ++ numberedLines T (i + lines.length) lines' := by
  have hnumber : ∀ j, i + (j + lines.length) = i + lines.length + j := fun j => by omega
  simp only [numberedLines, List.mapIdx_append, hnumber]

theorem length_numberedLines : (numberedLines T i lines).length = lines.length :=
  List.length_mapIdx

theorem mem_numberedLines {x : String} : x ∈ numberedLines T i lines ↔
    ∃ j line, lines[j]? = some line ∧ Workspace.numbered T (i + j) line = x := by
  rw [numberedLines, List.mem_mapIdx]
  constructor
  · rintro ⟨j, hj, rfl⟩
    exact ⟨j, lines[j], List.getElem?_eq_getElem hj, rfl⟩
  · rintro ⟨j, line, hline, rfl⟩
    obtain ⟨hj, rfl⟩ := List.getElem?_eq_some_iff.1 hline
    exact ⟨j, hj, rfl⟩

theorem toList_numbered : (Workspace.numbered T i line).toList =
    (toString i).toList.leftpad 6 ' ' ++ '|' :: (T.rstrip line).toList := by
  simp [Workspace.numbered]

theorem notMem_leftpad {c : Char} (hc : c.isDigit = false) (hspace : c ≠ ' ') (i : ℕ) :
    c ∉ (toString i).toList.leftpad 6 ' ' := by
  rw [List.leftpad, List.mem_append, List.mem_replicate]
  exact not_or.2 ⟨fun h => hspace h.2, notMem_toString hc i⟩

theorem bar_mem_numbered : '|' ∈ (Workspace.numbered T i line).toList := by
  simp [toList_numbered]

/-- A numbered line tells its number, however it is cut behind the bar. -/
theorem number_of_prefix
    (h : (Workspace.numbered T i line).toList <+: (Workspace.numbered T j line').toList) :
    i = j := by
  obtain ⟨rest, h⟩ := h
  rw [toList_numbered, toList_numbered, List.append_assoc, List.cons_append] at h
  have hbefore := congrArg (Cuts.before '|') h
  rw [Cuts.before_append (notMem_leftpad (by decide) (by decide) i),
    Cuts.before_append (notMem_leftpad (by decide) (by decide) j)] at hbefore
  have hdigits : ∀ n : ℕ, ((toString n).toList.leftpad 6 ' ').filter (· ≠ ' ') =
      (toString n).toList := by
    intro n
    have hfilter : (toString n).toList.filter (· ≠ ' ') = (toString n).toList :=
      List.filter_eq_self.2 fun c hc => by
        simpa using ne_of_mem_of_not_mem hc (notMem_toString (by decide) n)
    rw [List.leftpad, List.filter_append, hfilter]
    simp
  refine toString_injective ?_
  rw [← hdigits i, hbefore, hdigits j]

theorem nodup_numberedLines : (numberedLines T i lines).Nodup := by
  induction lines generalizing i with
  | nil => simp [numberedLines]
  | cons line lines ih =>
    rw [numberedLines_cons, List.nodup_cons]
    refine ⟨fun hmem => ?_, ih⟩
    obtain ⟨j, line', -, heq⟩ := mem_numberedLines.1 hmem
    have hbegins : (Workspace.numbered T (i + 1 + j) line').toList <+:
        (Workspace.numbered T i line).toList := by rw [heq]
    have hnumber := number_of_prefix hbegins
    omega

def charNotice (charLimit : ℕ) : String := "... (truncated at " ++ toString charLimit ++ " chars)"

/-- The characters of lines, each with a line end. -/
def size (lines : List String) : ℕ := (lines.map fun line => line.length + 1).sum

/-- The character limit cuts nothing, or all lines from one on. -/
theorem numberLines_cases (T : FileText) (charLimit i count : ℕ) (lines : List String) :
    Workspace.numberLines T charLimit i count lines = numberedLines T i lines ∨
      charLimit < count + size (numberedLines T i lines) ∧ ∃ k < lines.length,
        Workspace.numberLines T charLimit i count lines =
          (numberedLines T i lines).take k ++ [charNotice charLimit] := by
  induction lines generalizing i count with
  | nil => exact Or.inl rfl
  | cons line lines ih =>
    simp only [Workspace.numberLines, numberedLines_cons, size, List.map_cons, List.sum_cons]
    split_ifs with hlimit
    · exact Or.inr ⟨by omega, 0, by simp, rfl⟩
    · rcases ih (i + 1) (count + (Workspace.numbered T i line).length + 1) with
        heq | ⟨hlt, k, hk, heq⟩
      · exact Or.inl (by rw [heq])
      · refine Or.inr ⟨by unfold size at hlt; omega, k + 1, by simpa using hk, ?_⟩
        rw [heq, List.take_succ_cons, List.cons_append]

theorem numberLines_ne_nil (h : lines ≠ []) :
    Workspace.numberLines T charLimit i count lines ≠ [] := by
  cases lines with
  | nil => contradiction
  | cons line lines =>
    simp only [Workspace.numberLines]
    split_ifs <;> simp

/-- The header that announces the lines from `start + 1` to `stop`. -/
def pageHeader (start stop total : ℕ) : PageHeader :=
  if 0 < start ∨ stop < total then .showing (start + 1) (min stop total) total else .all total

theorem numberAndTruncate_eq (h : lines ≠ []) (start total : ℕ) :
    Workspace.numberAndTruncate T lines start total charLimit = "\n".intercalate
      ((pageHeader start (start + lines.length) total).text ::
        Workspace.numberLines T charLimit (start + 1) 0 lines) := by
  have hheader : (pageHeader start (start + lines.length) total).text =
      if 0 < start ∨ start + lines.length < total then
        "(showing lines " ++ toString (start + 1) ++ "–" ++
          toString (min (start + lines.length) total) ++ " of " ++ toString total ++ ")"
      else "(" ++ toString total ++ " lines total)" := by
    unfold pageHeader
    split_ifs <;> rfl
  rw [String.intercalate_cons_of_ne_nil (numberLines_ne_nil h), hheader]
  rfl

/-! ### The lines of a reply -/

/-- The lines of a reply below its header. -/
def shownLines (reply : String) : List String :=
  (reply.toList.splitOn '\n').tail.map String.ofList

section Reply

variable {header g : PageHeader} {body : List String} {text x : String} {m : ℕ}

def omittedNotice (n : ℕ) : String := "... (truncated, " ++ toString n ++ " chars omitted)"

theorem omittedNotice_eq (n : ℕ) :
    omittedNotice n = "... (truncated, " ++ toString n ++ " chars omitted)" :=
  rfl

theorem truncateOutput_of_le (h : text.length ≤ m) : truncateOutput text m = text :=
  if_pos (Int.ofNat_le.2 h)

theorem toList_truncateOutput (h : m < text.length) : (truncateOutput text m).toList =
    text.toList.take m ++ '\n' :: (omittedNotice (text.length - m)).toList := by
  have hnot : ¬ ((text.length : ℤ) ≤ m) := by omega
  have hsub : (text.length : ℤ) - m = (text.length - m : ℕ) := by omega
  have hnotice : ∀ n : ℕ, ("\n... (truncated, " ++ toString (n : ℤ) ++ " chars omitted)").toList =
      '\n' :: (omittedNotice n).toList := by
    intro n
    have htoString : toString (n : ℤ) = toString n := rfl
    have hstart : "\n... (truncated, ".toList = '\n' :: "... (truncated, ".toList := by decide
    rw [htoString, omittedNotice_eq, String.toList_append, String.toList_append, hstart,
      String.toList_append, String.toList_append]
    rfl
  rw [truncateOutput, if_neg hnot, hsub]
  simp only [String.append_assoc] at hnotice ⊢
  rw [String.toList_append, hnotice]
  simp [sliceText, sliceTo]

theorem notMem_notice {c : Char} {before after : String} (hdigit : c.isDigit = false)
    (hbefore : c ∉ before.toList) (hafter : c ∉ after.toList) (n : ℕ) :
    c ∉ (before ++ toString n ++ after).toList := by
  rw [String.toList_append, String.toList_append, List.mem_append, List.mem_append]
  exact not_or.2 ⟨not_or.2 ⟨hbefore, notMem_toString hdigit n⟩, hafter⟩

/-- A page without a line end in its lines. -/
def pageText (header : PageHeader) (body : List String) : String :=
  "\n".intercalate (header.text :: body)

theorem splitOn_pageText (hbody : ∀ x ∈ body, '\n' ∉ x.toList) :
    (pageText header body).toList.splitOn '\n' = (header.text :: body).map String.toList := by
  rw [pageText, String.toList_intercalate]
  refine List.splitOn_intercalate '\n' (fun line hline => ?_) (by simp)
  obtain ⟨x, hx, rfl⟩ := List.mem_map.1 hline
  rcases List.mem_cons.1 hx with rfl | hx
  · exact notMem_header (by decide) (by decide) header
  · exact hbody x hx

theorem shownLines_pageText (hbody : ∀ x ∈ body, '\n' ∉ x.toList) :
    shownLines (pageText header body) = body := by
  simp [shownLines, splitOn_pageText hbody]

theorem announces_pageText (hne : body ≠ []) : Announces (pageText header body) header := by
  rw [pageText, String.intercalate_cons_of_ne_nil hne]
  exact ⟨("\n".intercalate body).toList, by simp⟩

theorem splitOn_truncateOutput (h : m < text.length) :
    (truncateOutput text m).toList.splitOn '\n' =
      (text.toList.take m).splitOn '\n' ++ [(omittedNotice (text.length - m)).toList] := by
  have hnotice : '\n' ∉ (omittedNotice (text.length - m)).toList :=
    notMem_notice (by decide) (by decide) (by decide) _
  rw [toList_truncateOutput h, List.splitOn_append_cons_self, List.splitOn_eq_singleton hnotice]

/-- The header of a reply that is cut is a prefix of the header. -/
theorem eq_of_announces (hbody : ∀ x ∈ body, '\n' ∉ x.toList)
    (h : Announces (truncateOutput (pageText header body) m) g) : g = header := by
  obtain ⟨rest, hrest⟩ := h
  have hg := notMem_header (c := '\n') (by decide) (by decide) g
  have hsplit := congrArg (List.splitOn '\n') hrest
  rw [List.splitOn_append_cons_self_of_not_mem hg] at hsplit
  refine PageHeader.eq_of_prefix ?_
  by_cases hm : (pageText header body).length ≤ m
  · rw [truncateOutput_of_le hm, splitOn_pageText hbody, List.map_cons] at hsplit
    rw [(List.cons.inj hsplit).1]
  · obtain ⟨lines, y, q, rest', htext, hcut, hq⟩ :=
      splitOn_of_prefix '\n' (List.take_prefix m (pageText header body).toList)
    rw [splitOn_truncateOutput (not_le.1 hm), hcut] at hsplit
    rw [splitOn_pageText hbody, List.map_cons] at htext
    cases lines with
    | nil =>
      rw [← (List.cons.inj hsplit).1, (List.cons.inj htext).1]
      exact hq
    | cons line lines => rw [← (List.cons.inj hsplit).1, (List.cons.inj htext).1]

/-- A line of a reply with a bar is a prefix of a line of the page. -/
theorem prefix_of_mem_shownLines (hbody : ∀ x ∈ body, '\n' ∉ x.toList) (hbar : '|' ∈ x.toList)
    (h : x ∈ shownLines (truncateOutput (pageText header body) m)) :
    ∃ y ∈ body, x.toList <+: y.toList := by
  by_cases hm : (pageText header body).length ≤ m
  · rw [truncateOutput_of_le hm, shownLines_pageText hbody] at h
    exact ⟨x, h, List.prefix_refl _⟩
  · obtain ⟨line, hline, rfl⟩ := List.mem_map.1 h
    rw [String.toList_ofList] at hbar ⊢
    have hmem := List.mem_of_mem_tail hline
    rw [splitOn_truncateOutput (not_le.1 hm), List.mem_append, List.mem_singleton] at hmem
    rcases hmem with hmem | rfl
    · obtain ⟨y, hy, hbegins⟩ := prefix_of_mem_splitOn (List.take_prefix _ _) hmem
      rw [splitOn_pageText hbody] at hy
      obtain ⟨z, hz, rfl⟩ := List.mem_map.1 hy
      rcases List.mem_cons.1 hz with rfl | hz
      · exact absurd (hbegins.subset hbar) (notMem_header (by decide) (by decide) header)
      · exact ⟨z, hz, hbegins⟩
    · exact absurd hbar (notMem_notice (by decide) (by decide) (by decide) _)

/-- The last line of a page that is cut is not shown. -/
theorem last_notMem_shownLines {init : List String} (hm : m < (pageText header body).length)
    (hbody : ∀ x ∈ body, '\n' ∉ x.toList) (hbar : '|' ∈ x.toList) (hlast : body = init ++ [x])
    (hinit : ∀ y ∈ init, ¬ x.toList <+: y.toList) :
    x ∉ shownLines (truncateOutput (pageText header body) m) := by
  intro h
  obtain ⟨line, hline, rfl⟩ := List.mem_map.1 h
  rw [String.toList_ofList] at hbar hinit
  have hmem := List.mem_of_mem_tail hline
  rw [splitOn_truncateOutput hm, List.mem_append, List.mem_singleton] at hmem
  rcases hmem with hmem | rfl
  · have hne : (pageText header body).toList.take m ≠ (pageText header body).toList := by
      rw [Ne, List.take_eq_self_iff, String.length_toList]
      exact not_le.2 hm
    have hsplit : (pageText header body).toList.splitOn '\n' =
        (header.text :: init).map String.toList ++ [line] := by
      rw [splitOn_pageText hbody, hlast]
      simp
    refine notMem_splitOn_of_prefix (List.take_prefix _ _) hne hsplit (fun y hy => ?_) hmem
    obtain ⟨z, hz, rfl⟩ := List.mem_map.1 hy
    rcases List.mem_cons.1 hz with rfl | hz
    · exact fun hbegins => notMem_header (by decide) (by decide) header (hbegins.subset hbar)
    · exact hinit z hz
  · exact absurd hbar (notMem_notice (by decide) (by decide) (by decide) _)

theorem head?_truncateOutput (hm : 0 < m) :
    (truncateOutput text m).toList.head? = text.toList.head? := by
  rcases le_or_gt text.length m with h | h
  · rw [truncateOutput_of_le h]
  · obtain ⟨c, l, hcons⟩ := List.exists_cons_of_length_pos (l := text.toList)
      (by rw [String.length_toList]; omega)
    obtain ⟨m, rfl⟩ := Nat.exists_eq_succ_of_ne_zero hm.ne'
    rw [toList_truncateOutput h, hcons]
    rfl

theorem head?_of_announces (h : Announces text g) : text.toList.head? = some '(' := by
  obtain ⟨rest, hrest⟩ := h
  rw [hrest]
  cases g with
  | showing first last total =>
    rw [toList_showing]
    rfl
  | all total =>
    rw [toList_all]
    rfl

theorem length_pageText : (pageText header body).length = header.text.length + size body := by
  unfold pageText
  generalize header.text = x
  induction body generalizing x with
  | nil => simp [size]
  | cons y body ih =>
    have hline : "\n".length = 1 := by decide
    rw [String.intercalate_cons_cons, String.length_append, String.length_append, ih, hline]
    simp only [size, List.map_cons, List.sum_cons]
    omega

end Reply

/-! ### A page -/

/-- `_DEFAULT_MAX_RESULT_CHARS`, that `read_file` has -/
def readMaxResultChars : ℕ := 8000

def pageReply (page : List String) (start total : ℕ) : String :=
  truncateOutput (Workspace.numberAndTruncate pythonText page start total Workspace.readCharLimit)
    readMaxResultChars

/-- A page with nothing cut. -/
def wholePage (page : List String) (start total : ℕ) : String :=
  pageText (pageHeader start (start + page.length) total)
    (numberedLines pythonText (start + 1) page)

/-- The characters of its header and its numbered lines. -/
def pageSize (page : List String) (start total : ℕ) : ℕ :=
  (pageHeader start (start + page.length) total).text.length +
    size (numberedLines pythonText (start + 1) page)

section Page

variable {page : List String} {start total : ℕ}

theorem pageHeader_last (hpos : page ≠ []) (hle : start + page.length ≤ total) :
    (pageHeader start (start + page.length) total).last = start + page.length := by
  have hlen := List.length_pos_iff.2 hpos
  unfold pageHeader
  split_ifs with hpart
  · exact min_eq_left hle
  · simp only [PageHeader.last]
    omega

theorem pageHeader_total : (pageHeader start (start + page.length) total).total = total := by
  unfold pageHeader
  split_ifs <;> rfl

theorem notMem_numbered (hline : '\n' ∉ (pythonText.rstrip line).toList) :
    '\n' ∉ (Workspace.numbered pythonText i line).toList := by
  rw [toList_numbered, List.mem_append, List.mem_cons]
  exact not_or.2 ⟨notMem_leftpad (by decide) (by decide) i, not_or.2 ⟨by decide, hline⟩⟩

theorem mem_numberLines {x : String}
    (hx : x ∈ Workspace.numberLines T charLimit i count lines) :
    x ∈ numberedLines T i lines ∨ x = charNotice charLimit := by
  rcases numberLines_cases T charLimit i count lines with heq | ⟨-, k, -, heq⟩
  · exact Or.inl (heq ▸ hx)
  · rw [heq, List.mem_append, List.mem_singleton] at hx
    exact hx.imp_left List.mem_of_mem_take

theorem newline_notMem_numberedLines
    (hlines : ∀ line ∈ page, '\n' ∉ (pythonText.rstrip line).toList) {x : String}
    (hx : x ∈ numberedLines pythonText i page) : '\n' ∉ x.toList := by
  obtain ⟨j, line, hline, rfl⟩ := mem_numberedLines.1 hx
  exact notMem_numbered (hlines line (List.mem_of_getElem? hline))

theorem newline_notMem_numberLines
    (hlines : ∀ line ∈ page, '\n' ∉ (pythonText.rstrip line).toList) :
    ∀ x ∈ Workspace.numberLines pythonText charLimit i count page, '\n' ∉ x.toList := by
  intro x hx
  rcases mem_numberLines hx with hx | rfl
  · exact newline_notMem_numberedLines hlines hx
  · exact notMem_notice (by decide) (by decide) (by decide) _

/-- Nothing of a page that fits is cut. -/
theorem pageReply_of_fits (hne : page ≠ [])
    (hfits : pageSize page start total ≤ readMaxResultChars) :
    pageReply page start total = wholePage page start total := by
  have hwhole : Workspace.numberLines pythonText Workspace.readCharLimit (start + 1) 0 page =
      numberedLines pythonText (start + 1) page := by
    rcases numberLines_cases pythonText Workspace.readCharLimit (start + 1) 0 page with
      heq | ⟨hlt, -⟩
    · exact heq
    · simp only [Workspace.readCharLimit, readMaxResultChars, pageSize] at hlt hfits
      omega
  rw [pageReply, numberAndTruncate_eq hne, hwhole]
  exact truncateOutput_of_le (length_pageText.trans_le hfits)

theorem announced_eq (start total : ℕ) (hne : page ≠ [])
    (hlines : ∀ line ∈ page, '\n' ∉ (pythonText.rstrip line).toList) {g : PageHeader}
    (h : Announces (pageReply page start total) g) :
    g = pageHeader start (start + page.length) total := by
  rw [pageReply, numberAndTruncate_eq hne] at h
  exact eq_of_announces (newline_notMem_numberLines hlines) h

/-- A page shows no lines with other numbers. -/
theorem exists_of_mem_pageReply (hne : page ≠ [])
    (hlines : ∀ line ∈ page, '\n' ∉ (pythonText.rstrip line).toList)
    (h : Workspace.numbered pythonText i line ∈ shownLines (pageReply page start total)) :
    ∃ j < page.length, i = start + 1 + j := by
  rw [pageReply, numberAndTruncate_eq hne] at h
  obtain ⟨y, hy, hbegins⟩ :=
    prefix_of_mem_shownLines (newline_notMem_numberLines hlines) bar_mem_numbered h
  rcases mem_numberLines hy with hy | rfl
  · obtain ⟨j, line', hline', rfl⟩ := mem_numberedLines.1 hy
    exact ⟨j, (List.getElem?_eq_some_iff.1 hline').1, number_of_prefix hbegins⟩
  · exact absurd (hbegins.subset bar_mem_numbered)
      (notMem_notice (by decide) (by decide) (by decide) _)

/-- A page that shows its last line fits. -/
theorem fits_of_mem_pageReply {init : List String} (hpage : page = init ++ [line])
    (hlines : ∀ line ∈ page, '\n' ∉ (pythonText.rstrip line).toList)
    (h : Workspace.numbered pythonText (start + 1 + init.length) line ∈
      shownLines (pageReply page start total)) :
    pageSize page start total ≤ readMaxResultChars := by
  have hne : page ≠ [] := by simp [hpage]
  have hbody : ∀ x ∈ Workspace.numberLines pythonText Workspace.readCharLimit (start + 1) 0 page,
      '\n' ∉ x.toList := newline_notMem_numberLines hlines
  rw [pageReply, numberAndTruncate_eq hne] at h
  rcases numberLines_cases pythonText Workspace.readCharLimit (start + 1) 0 page with
    heq | ⟨-, k, hk, heq⟩
  · rw [heq] at h hbody
    by_contra hlong
    have hlast : numberedLines pythonText (start + 1) page =
        numberedLines pythonText (start + 1) init ++
          [Workspace.numbered pythonText (start + 1 + init.length) line] := by
      rw [hpage, numberedLines_append, numberedLines_cons]
      rfl
    refine last_notMem_shownLines ((not_le.1 hlong).trans_eq length_pageText.symm) hbody
      bar_mem_numbered hlast (fun y hy hbegins => ?_) h
    obtain ⟨j, line', hline', rfl⟩ := mem_numberedLines.1 hy
    have hj := (List.getElem?_eq_some_iff.1 hline').1
    have hnumber := number_of_prefix hbegins
    omega
  · obtain ⟨y, hy, hbegins⟩ := prefix_of_mem_shownLines hbody bar_mem_numbered h
    rw [heq, List.mem_append, List.mem_singleton] at hy
    rcases hy with hy | rfl
    · obtain ⟨j, hj, rfl⟩ := List.mem_take_iff_getElem.1 hy
      simp only [numberedLines, List.getElem_mapIdx] at hbegins
      have hnumber := number_of_prefix hbegins
      rw [hpage, List.length_append, List.length_singleton] at hk
      omega
    · exact absurd (hbegins.subset bar_mem_numbered)
        (notMem_notice (by decide) (by decide) (by decide) _)

end Page

/-! ### Paging -/

/-- The lines that a page has at most. -/
def pageLines (limit : Option ℤ) : ℤ := (limit.filter (· ≠ 0)).getD Workspace.readLineLimit

def pageFrom (limit : Option ℤ) (lines : List String) (start : ℕ) : List String :=
  slice lines start (start + pageLines limit)

/-- The readings of a file from an offset on, until a header announces the last line. -/
inductive Reading (read : ℕ → String) : ℕ → List String → Prop where
  | empty {offset : ℕ} (h : read offset = "File is empty.") : Reading read offset [read offset]
  | last {offset : ℕ} {header : PageHeader} (h : Announces (read offset) header)
      (hlast : header.last = header.total) : Reading read offset [read offset]
  | next {offset : ℕ} {header : PageHeader} {replies : List String}
      (h : Announces (read offset) header) (hlast : header.last ≠ header.total)
      (hrest : Reading read (header.last + 1) replies) :
      Reading read offset (read offset :: replies)

namespace Workspace

def fileLines (content : String) : List String := pythonText.splitlines (readText content)

/-- `execute` of `read_file` -/
def readPage (W : Workspace) (path : String) (limit : Option ℤ) (offset : ℕ) : String :=
  NemoClaw.truncateOutput (W.readFile pythonText path (some offset) limit).text readMaxResultChars

/-- Reading ends, and each line is shown once with its number. -/
def ShowsEachOnce (W : Workspace) (path : String) (limit : Option ℤ) (content : String) : Prop :=
  ∃ replies, Reading (W.readPage path limit) 1 replies ∧
    ∀ i line, (fileLines content)[i]? = some line →
      (replies.flatMap shownLines).count (numbered pythonText (i + 1) line) = 1

/-- The pages of a file are not cut. -/
def PagesFit (limit : Option ℤ) (content : String) : Prop :=
  fileLines content = [] ∨ 0 < pageLines limit ∧ ∀ start < (fileLines content).length,
    pageLines limit ∣ start →
      pageSize (pageFrom limit (fileLines content) start) start (fileLines content).length ≤
        readMaxResultChars

end Workspace

section Pages

variable {limit : Option ℤ} {start : ℕ}

theorem pageLines_ne_zero (limit : Option ℤ) : pageLines limit ≠ 0 := by
  cases limit with
  | none => decide
  | some limit =>
    by_cases h : limit = 0
    · simp [pageLines, Option.filter_some, h, Workspace.readLineLimit]
    · simp [pageLines, Option.filter_some, h]

/-- A page is the lines from its start on, as many as it has. -/
theorem pageFrom_eq_take (limit : Option ℤ) (lines : List String) (start : ℕ) :
    pageFrom limit lines start =
      (lines.drop start).take (pageFrom limit lines start).length := by
  unfold pageFrom slice
  rw [List.drop_take]
  simp

theorem length_pageFrom (lines : List String) (start : ℕ) (h : 0 < pageLines limit) :
    (pageFrom limit lines start).length =
      min (pageLines limit).toNat (lines.length - start) := by
  unfold pageFrom slice
  rw [if_neg (by omega), List.length_drop, List.length_take]
  omega

/-- A page of a negative limit is before the last line. -/
theorem length_pageFrom_lt (h : pageLines limit < 0) (hstart : start < lines.length) :
    start + (pageFrom limit lines start).length < lines.length := by
  unfold pageFrom slice
  rw [List.length_drop, List.length_take]
  split_ifs <;> omega

end Pages

namespace Workspace

variable {W : Workspace} {path : String} {resolved file : PurePath} {content : String}
  {limit : Option ℤ} {start : ℕ}

theorem readPage_of_file (hresolve : W.safeResolve path = .ok resolved)
    (hopen : W.openFile [] resolved = some (file, content)) (limit : Option ℤ) (start : ℕ) :
    W.readPage path limit (start + 1) =
      if pageFrom limit (fileLines content) start = [] then
        NemoClaw.truncateOutput (if fileLines content = [] then "File is empty."
          else "No lines in range " ++ toString (start + 1) ++ "–" ++
            toString (start + pageLines limit) ++ ".") readMaxResultChars
      else pageReply (pageFrom limit (fileLines content) start) start
        (fileLines content).length := by
  have hstart : ((some ((start + 1 : ℕ) : ℤ)).getD 0 - 1).toNat = start := by simp
  unfold readPage readFile
  simp only [hresolve, hopen, hstart]
  by_cases hpage : pageFrom limit (fileLines content) start = []
  · rw [if_pos hpage]
    unfold pageFrom fileLines pageLines at hpage
    rw [if_pos hpage, reply, fileLines, pageLines]
  · rw [if_neg hpage]
    unfold pageFrom fileLines pageLines at hpage
    rw [if_neg hpage, pageReply, pageFrom, fileLines, pageLines]

theorem rstrip_of_mem_pageFrom {line : String}
    (h : line ∈ pageFrom limit (fileLines content) start) :
    '\n' ∉ (pythonText.rstrip line).toList := by
  rw [pageFrom_eq_take] at h
  exact notMem_rstrip (List.mem_of_mem_drop (List.mem_of_mem_take h))

theorem add_length_pageFrom_le (limit : Option ℤ) {lines : List String} (h : start ≤ lines.length) :
    start + (pageFrom limit lines start).length ≤ lines.length := by
  have hlen := congrArg List.length (pageFrom_eq_take limit lines start)
  rw [List.length_take, List.length_drop] at hlen
  omega

theorem head?_pageReply {page : List String} (hne : page ≠ []) (start total : ℕ) :
    (pageReply page start total).toList.head? = some '(' := by
  rw [pageReply, numberAndTruncate_eq hne, head?_truncateOutput (by decide)]
  exact head?_of_announces (announces_pageText (numberLines_ne_nil hne))

variable {replies : List String}

theorem not_reading_of_noLines {read : ℕ → String} {offset : ℕ}
    (h : (read offset).toList.head? = some 'N') : ¬ Reading read offset replies := by
  rintro (hempty | ⟨hannounced, -⟩ | ⟨hannounced, -, -⟩)
  · rw [hempty] at h
    exact absurd h (by decide)
  · exact absurd (h.symm.trans (head?_of_announces hannounced)) (by decide)
  · exact absurd (h.symm.trans (head?_of_announces hannounced)) (by decide)

/-- A reading begins with the page of its offset, and it goes on behind it. -/
theorem reading_cases (hresolve : W.safeResolve path = .ok resolved)
    (hopen : W.openFile [] resolved = some (file, content))
    (hread : Reading (W.readPage path limit) (start + 1) replies)
    (hstart : start < (fileLines content).length) :
    pageFrom limit (fileLines content) start ≠ [] ∧ ∃ rest,
      replies = pageReply (pageFrom limit (fileLines content) start) start
        (fileLines content).length :: rest ∧
      (rest = [] ∧ start + (pageFrom limit (fileLines content) start).length =
          (fileLines content).length ∨
        start + (pageFrom limit (fileLines content) start).length < (fileLines content).length ∧
          Reading (W.readPage path limit)
            (start + (pageFrom limit (fileLines content) start).length + 1) rest) := by
  have hlines : fileLines content ≠ [] := List.length_pos_iff.1 (by omega)
  have hreply := readPage_of_file hresolve hopen limit start
  have hle := add_length_pageFrom_le limit hstart.le
  by_cases hpage : pageFrom limit (fileLines content) start = []
  · rw [if_pos hpage, if_neg hlines] at hreply
    refine absurd hread (not_reading_of_noLines ?_)
    rw [hreply, head?_truncateOutput (by decide)]
    simp
  · rw [if_neg hpage] at hreply
    refine ⟨hpage, ?_⟩
    have hheader := fun g => @announced_eq _ start (fileLines content).length hpage
      (fun line hline => rstrip_of_mem_pageFrom hline) g
    have hlast := pageHeader_last hpage hle
    cases hread with
    | empty h =>
      have hhead := head?_pageReply hpage start (fileLines content).length
      rw [← hreply, h] at hhead
      exact absurd hhead (by decide)
    | last h hend =>
      rw [hreply] at h
      obtain rfl := hheader _ h
      rw [hlast, pageHeader_total] at hend
      exact ⟨[], by rw [hreply], Or.inl ⟨rfl, hend⟩⟩
    | next h hend hrest =>
      rw [hreply] at h
      obtain rfl := hheader _ h
      rw [hlast, pageHeader_total] at hend
      rw [hlast] at hrest
      exact ⟨_, by rw [hreply], Or.inr ⟨by omega, hrest⟩⟩

/-- A reading from an offset on shows no lines before it. -/
theorem le_of_mem_reading (hresolve : W.safeResolve path = .ok resolved)
    (hopen : W.openFile [] resolved = some (file, content)) {i : ℕ} {line : String}
    (hread : Reading (W.readPage path limit) (start + 1) replies)
    (hstart : start < (fileLines content).length)
    (h : numbered pythonText (i + 1) line ∈ replies.flatMap shownLines) : start ≤ i := by
  induction replies generalizing start with
  | nil => simp at h
  | cons reply replies ih =>
    obtain ⟨hpage, rest, heq, hrest⟩ := reading_cases hresolve hopen hread hstart
    obtain ⟨rfl, rfl⟩ := List.cons.inj heq
    rw [List.flatMap_cons, List.mem_append] at h
    rcases h with h | h
    · obtain ⟨j, -, hj⟩ := exists_of_mem_pageReply hpage (fun _ => rstrip_of_mem_pageFrom) h
      omega
    · rcases hrest with ⟨rfl, -⟩ | ⟨hlt, hrest⟩
      · simp at h
      · have hle := ih hrest hlt h
        omega

theorem pageLines_pos_of_reading (hresolve : W.safeResolve path = .ok resolved)
    (hopen : W.openFile [] resolved = some (file, content))
    (hread : Reading (W.readPage path limit) (start + 1) replies)
    (hstart : start < (fileLines content).length) : 0 < pageLines limit := by
  by_contra hnot
  have hneg : pageLines limit < 0 := lt_of_le_of_ne (not_lt.1 hnot) (pageLines_ne_zero limit)
  induction replies generalizing start with
  | nil => cases hread
  | cons reply replies ih =>
    have hlt := length_pageFrom_lt hneg hstart
    obtain ⟨-, rest, heq, ⟨-, hend⟩ | ⟨-, hrest⟩⟩ := reading_cases hresolve hopen hread hstart
    · omega
    · obtain ⟨-, rfl⟩ := List.cons.inj heq
      exact ih hrest hlt

/-- If all lines from the offset on are shown, then all pages from there on fit. -/
theorem fits_of_reading (hresolve : W.safeResolve path = .ok resolved)
    (hopen : W.openFile [] resolved = some (file, content))
    (hread : Reading (W.readPage path limit) (start + 1) replies)
    (hstart : start < (fileLines content).length)
    (hshown : ∀ i line, start ≤ i → (fileLines content)[i]? = some line →
      numbered pythonText (i + 1) line ∈ replies.flatMap shownLines)
    {k : ℕ} (hk : start ≤ k) (hlt : k < (fileLines content).length)
    (hdvd : pageLines limit ∣ (k : ℤ) - start) :
    pageSize (pageFrom limit (fileLines content) k) k (fileLines content).length ≤
      readMaxResultChars := by
  induction replies generalizing start with
  | nil => cases hread
  | cons reply replies ih =>
    have hpos := pageLines_pos_of_reading hresolve hopen hread hstart
    have hlen := length_pageFrom (fileLines content) start hpos
    obtain ⟨hpage, rest, heq, hrest⟩ := reading_cases hresolve hopen hread hstart
    obtain ⟨rfl, rfl⟩ := List.cons.inj heq
    have hrestle : ∀ {i line}, numbered pythonText (i + 1) line ∈ replies.flatMap shownLines →
        start + (pageFrom limit (fileLines content) start).length ≤ i := by
      intro i line hmem
      rcases hrest with ⟨rfl, -⟩ | ⟨hlt, hrest⟩
      · simp at hmem
      · exact le_of_mem_reading hresolve hopen hrest hlt hmem
    simp only [List.flatMap_cons, List.mem_append] at hshown
    rcases hk.eq_or_lt with rfl | hk
    · obtain ⟨init, line, hinit⟩ := (List.eq_nil_or_concat _).resolve_left hpage
      rw [List.concat_eq_append] at hinit
      have hline : (fileLines content)[start + init.length]? = some line := by
        have hget := congrArg (fun page => page[init.length]?)
          (pageFrom_eq_take limit (fileLines content) start)
        simp only [hinit, List.length_append, List.length_singleton] at hget
        rw [List.getElem?_take_of_lt (by omega), List.getElem?_drop] at hget
        simpa using hget.symm
      rcases hshown _ line (by omega) hline with hmem | hmem
      · refine fits_of_mem_pageReply hinit (fun _ => rstrip_of_mem_pageFrom) ?_
        rwa [Nat.add_right_comm]
      · have hle := hrestle hmem
        rw [hinit, List.length_append, List.length_singleton] at hle
        omega
    · have hstep : pageLines limit ≤ (k : ℤ) - start := Int.le_of_dvd (by omega) hdvd
      rcases hrest with ⟨-, hend⟩ | ⟨hlt', hrest⟩
      · omega
      · refine ih hrest hlt' (fun i line hi hline => ?_) (by omega) ?_
        · refine (hshown i line (by omega) hline).resolve_left fun hmem => ?_
          obtain ⟨j, hj, heq⟩ :=
            exists_of_mem_pageReply hpage (fun _ => rstrip_of_mem_pageFrom) hmem
          omega
        · have hsub : (k : ℤ) - (start + (pageFrom limit (fileLines content) start).length : ℕ) =
              (k - start) - pageLines limit := by omega
          rw [hsub]
          exact Int.dvd_sub hdvd (Int.dvd_refl _)

/-- If the pages fit, then the reading from the start of a page on shows all lines from there. -/
theorem exists_reading (hresolve : W.safeResolve path = .ok resolved)
    (hopen : W.openFile [] resolved = some (file, content)) (hpos : 0 < pageLines limit)
    (hfits : ∀ start < (fileLines content).length, pageLines limit ∣ start →
      pageSize (pageFrom limit (fileLines content) start) start (fileLines content).length ≤
        readMaxResultChars)
    (hstart : start < (fileLines content).length) (hdvd : pageLines limit ∣ start) :
    ∃ replies, Reading (W.readPage path limit) (start + 1) replies ∧
      replies.flatMap shownLines =
        numberedLines pythonText (start + 1) ((fileLines content).drop start) := by
  induction hleft : (fileLines content).length - start using Nat.strong_induction_on
    generalizing start with
  | _ left ih =>
    have hlen := length_pageFrom (fileLines content) start hpos
    have htake := pageFrom_eq_take limit (fileLines content) start
    have hreply := readPage_of_file hresolve hopen limit start
    have hpage : pageFrom limit (fileLines content) start ≠ [] :=
      List.length_pos_iff.1 (by omega)
    have hle := add_length_pageFrom_le limit hstart.le
    have hlast := pageHeader_last hpage hle
    rw [if_neg hpage, pageReply_of_fits hpage (hfits start hstart hdvd)] at hreply
    have hannounced : Announces (W.readPage path limit (start + 1))
        (pageHeader start (start + (pageFrom limit (fileLines content) start).length)
          (fileLines content).length) := by
      rw [hreply]
      exact announces_pageText (List.ne_nil_of_length_pos
        (by rw [length_numberedLines]; exact List.length_pos_iff.2 hpage))
    have hshown : shownLines (W.readPage path limit (start + 1)) =
        numberedLines pythonText (start + 1) (pageFrom limit (fileLines content) start) := by
      rw [hreply]
      exact shownLines_pageText fun x hx =>
        newline_notMem_numberedLines (fun _ => rstrip_of_mem_pageFrom) hx
    by_cases hend : start + (pageFrom limit (fileLines content) start).length =
        (fileLines content).length
    · refine ⟨_, .last hannounced (by rw [hlast, pageHeader_total, hend]), ?_⟩
      rw [List.flatMap_singleton, hshown, htake, List.take_of_length_le]
      rw [List.length_drop]
      omega
    · have hdvd' : pageLines limit ∣
          (start + (pageFrom limit (fileLines content) start).length : ℕ) := by
        have hfull : ((pageFrom limit (fileLines content) start).length : ℤ) =
            pageLines limit := by omega
        rw [Int.natCast_add, hfull]
        exact Int.dvd_add hdvd (Int.dvd_refl _)
      obtain ⟨rest, hrest, hall⟩ := ih _ (by omega) (by omega) hdvd' rfl
      refine ⟨_, .next hannounced (by rwa [hlast, pageHeader_total]) (hlast ▸ hrest), ?_⟩
      have hsplit : pageFrom limit (fileLines content) start ++ (fileLines content).drop
          (start + (pageFrom limit (fileLines content) start).length) =
            (fileLines content).drop start := by
        rw [← List.drop_drop]
        nth_rewrite 1 [htake]
        exact List.take_append_drop _ _
      rw [List.flatMap_cons, hshown, hall, Nat.add_right_comm, ← numberedLines_append, hsplit]

/-- Paging shows each line once exactly if no page is cut. -/
theorem showsEachOnce_iff (hresolve : W.safeResolve path = .ok resolved)
    (hopen : W.openFile [] resolved = some (file, content)) (limit : Option ℤ) :
    W.ShowsEachOnce path limit content ↔ PagesFit limit content := by
  by_cases hlines : fileLines content = []
  · refine iff_of_true ⟨_, .empty ?_, fun i line h => ?_⟩ (Or.inl hlines)
    · have hpage : pageFrom limit (fileLines content) 0 = [] := by simp [hlines, pageFrom, slice]
      rw [readPage_of_file hresolve hopen limit 0, if_pos hpage, if_pos hlines]
      exact truncateOutput_of_le (by decide)
    · simp [hlines] at h
  · have hstart : 0 < (fileLines content).length := List.length_pos_iff.2 hlines
    constructor
    · rintro ⟨replies, hread, hshown⟩
      refine Or.inr ⟨pageLines_pos_of_reading hresolve hopen hread hstart,
        fun start hlt hdvd => fits_of_reading hresolve hopen hread hstart
          (fun i line _ hline => ?_) (Nat.zero_le _) hlt (by simpa using hdvd)⟩
      exact List.count_pos_iff.1 (by rw [hshown i line hline]; exact Nat.one_pos)
    · rintro (hnil | ⟨hpos, hfits⟩)
      · exact absurd hnil hlines
      · obtain ⟨replies, hread, hall⟩ :=
          exists_reading hresolve hopen hpos hfits hstart (by simp)
        refine ⟨replies, hread, fun i line hline => ?_⟩
        rw [hall]
        refine List.count_eq_one_of_mem nodup_numberedLines (mem_numberedLines.2 ?_)
        exact ⟨i, line, by simpa using hline, by rw [Nat.zero_add, Nat.add_comm]⟩

theorem showsEachOnce_iff_notes :
    (notes "a\nb").ShowsEachOnce "notes.txt" (some 1) "a\nb" ↔ PagesFit (some 1) "a\nb" := by
  have hresolve : (notes "a\nb").safeResolve "notes.txt" = .ok ["ws", "notes.txt"] := by
    decide +kernel
  have hopen : (notes "a\nb").openFile [] ["ws", "notes.txt"] =
      some (["ws", "notes.txt"], "a\nb") := by
    decide +kernel
  exact showsEachOnce_iff hresolve hopen (some 1)

/-- A file of one line. -/
theorem fileLines_replicate {n : ℕ} (hn : n ≠ 0) :
    fileLines (String.ofList (List.replicate n 'a')) = [String.ofList (List.replicate n 'a')] := by
  have hcr : '\r' ∉ List.replicate n 'a' := fun h =>
    absurd (List.eq_of_mem_replicate h) (by decide)
  have hbreak : ∀ c ∈ List.replicate n 'a', isLineBreak c = false := by
    intro c hc
    rw [List.eq_of_mem_replicate hc]
    decide
  have hne : List.replicate n 'a' ≠ [] := by simpa using hn
  simp only [fileLines, readText, pythonText, String.toList_ofList,
    universalNewlines_of_notMem hcr, splitKeepEnds_of_noBreak hbreak hne, List.map_cons,
    List.map_nil]

theorem lt_pageSize_replicate (n : ℕ) :
    n < pageSize [String.ofList (List.replicate n 'a')] 0 1 := by
  have hstrip : pythonText.rstrip (String.ofList (List.replicate n 'a')) =
      String.ofList (List.replicate n 'a') := by
    simp only [pythonText, String.toList_ofList]
    rw [List.rdropWhile_eq_self_iff.2 fun hne => ?_]
    rw [List.getLast_replicate]
    decide
  rw [pageSize, numberedLines_cons]
  simp only [size, List.map_cons, List.sum_cons, numbered, hstrip, String.length_append,
    String.length_ofList, List.length_replicate]
  omega

def longLine : String := String.ofList (List.replicate 8000 'a')

/-- The end of a long line is never shown. -/
theorem long_line_lost : ¬ (notes longLine).ShowsEachOnce "notes.txt" none longLine := by
  rintro ⟨replies, hread, hshown⟩
  have hresolve : (notes longLine).safeResolve "notes.txt" = .ok ["ws", "notes.txt"] := by
    decide +kernel
  have hopen : (notes longLine).openFile [] ["ws", "notes.txt"] =
      some (["ws", "notes.txt"], longLine) := by
    have hwalk : (notes longLine).tree.walk true (notes longLine).depth [] ["ws", "notes.txt"] =
        some ["ws", "notes.txt"] := by
      decide +kernel
    have hget : (notes longLine).tree.get ["ws", "notes.txt"] = some (.file longLine) :=
      (if_neg (by decide)).trans (AList.lookup_insert _)
    rw [openFile, hwalk, Option.bind_some, hget]
  have hlines : fileLines longLine = [longLine] := fileLines_replicate (by decide)
  have hstart : 0 < (fileLines longLine).length := by rw [hlines]; exact Nat.one_pos
  have hfits := fits_of_reading hresolve hopen hread hstart (fun i line _ hline =>
    List.count_pos_iff.1 (by rw [hshown i line hline]; exact Nat.one_pos)) le_rfl hstart (by simp)
  have hpage : pageFrom none [longLine] 0 = [longLine] := rfl
  rw [hlines, hpage] at hfits
  exact absurd hfits (not_le.2 (lt_pageSize_replicate 8000))

end Workspace

end NemoClaw
