import NemoClaw.Lib.Occurrences
import NemoClaw.Agent.FileTools

/-! Edits of the tool `edit_file`. It looks for the old string in the text that `read_text` makes of
a file and writes that text back, and it counts the places of the old string that do not overlap. -/

namespace NemoClaw

open Lib Cuts

variable {content old new pre suf : List Char}

theorem notMem_universalNewlines (content : List Char) : '\r' ∉ universalNewlines content := by
  fun_induction universalNewlines content with
  | case1 => simp
  | case2 l ih => simp [ih]
  | case3 l _ ih => simp [ih]
  | case4 c l _ hc ih =>
    have hne : '\r' ≠ c := fun heq => hc heq.symm
    simp [hne, ih]

theorem universalNewlines_of_notMem (h : '\r' ∉ content) : universalNewlines content = content := by
  fun_induction universalNewlines content with
  | case1 => rfl
  | case2 l ih => simp at h
  | case3 l _ ih => simp at h
  | case4 c l _ _ ih => rw [ih fun hmem => h (List.mem_cons_of_mem _ hmem)]

/-- An edit of the text with other line ends is no edit of the file: a `\r` is missing. -/
theorem ne_of_mem_cr (hcr : '\r' ∈ pre ++ old ++ suf) {pre' suf' : List Char}
    (htext : universalNewlines (pre ++ old ++ suf) = pre' ++ old ++ suf') :
    pre' ++ new ++ suf' ≠ pre ++ new ++ suf := by
  intro heq
  have hnot := notMem_universalNewlines (pre ++ old ++ suf)
  rw [htext] at hnot
  have hcount := congrArg (List.count '\r') heq
  simp only [List.mem_append, not_or] at hcr hnot
  simp only [List.count_append, List.count_eq_zero.2 hnot.1.1, List.count_eq_zero.2 hnot.2]
    at hcount
  rcases hcr with (hpre | hold) | hsuf
  · have hpos := List.count_pos_iff.2 hpre
    omega
  · exact hnot.1.2 hold
  · have hpos := List.count_pos_iff.2 hsuf
    omega

namespace Workspace

variable {W : Workspace} {path oldString newString : String} {resolved file : PurePath}
  {text : String}

/-- The edit is made. -/
def Applied (W : Workspace) (path oldString newString : String) : Prop :=
  (W.editFile path oldString newString).text = "Applied edit to " ++ path

theorem error_ne_applied {reply : String} (h : reply.toList.head? = some 'E') (path : String) :
    reply ≠ "Applied edit to " ++ path := by
  rintro rfl
  simp at h

theorem get_of_openFile (hresolve : W.safeResolve path = .ok resolved)
    (hopen : W.openFile [] resolved = some (file, text)) :
    W.tree.get resolved = some (.file text) := by
  obtain rfl := eq_of_openFile hresolve hopen
  exact (openFile_eq_some hopen).2

/-- An edit is made exactly if the places of the old string in the text overlap. -/
theorem editFile_of_lone (hresolve : W.safeResolve path = .ok resolved)
    (hopen : W.openFile [] resolved = some (file, text)) (newString : String)
    (hlone : Lone oldString.toList (universalNewlines text.toList)) :
    W.Applied path oldString newString ∧
      (W.editFile path oldString newString).tree.get resolved =
        some (.file (String.ofList (replaceFirst oldString.toList newString.toList
          (universalNewlines text.toList)))) := by
  have hcount := occurrences_eq_one_iff.2 hlone
  obtain ⟨written, hwritten, hget⟩ := FileTree.exists_writeText (get_of_openFile hresolve hopen)
    (String.ofList (replaceFirst oldString.toList newString.toList (universalNewlines text.toList)))
  unfold Applied editFile
  simp only [hresolve, hopen, readText, String.toList_ofList, hcount, hwritten]
  exact ⟨rfl, hget⟩

theorem editFile_of_not_lone (hresolve : W.safeResolve path = .ok resolved)
    (hopen : W.openFile [] resolved = some (file, text)) (newString : String)
    (hlone : ¬ Lone oldString.toList (universalNewlines text.toList)) :
    ¬ W.Applied path oldString newString ∧
      (W.editFile path oldString newString).tree = W.tree := by
  have hcount := mt occurrences_eq_one_iff.1 hlone
  unfold Applied editFile
  simp only [hresolve, hopen, readText, String.toList_ofList]
  split_ifs with hzero hmany
  · exact ⟨error_ne_applied (by simp [reply]) path, rfl⟩
  · exact ⟨error_ne_applied (by simp [reply]) path, rfl⟩
  · omega

/-- What an edit should do to a file. -/
structure ExactReplacement (W : Workspace) (path oldString newString : String) (file : PurePath)
    (text : String) : Prop where
  applied : W.Applied path oldString newString ↔
    oldString ≠ "" ∧ OccursOnce oldString.toList text.toList
  written : W.Applied path oldString newString → ∀ pre suf,
    text.toList = pre ++ oldString.toList ++ suf →
      (W.editFile path oldString newString).tree.get file =
        some (.file (String.ofList (pre ++ newString.toList ++ suf)))
  unchanged : ¬ W.Applied path oldString newString →
    (W.editFile path oldString newString).tree = W.tree

/-- The places of the old string and the line ends of the file lead to no wrong edit. -/
def Editable (oldString text : String) : Prop :=
  if '\r' ∈ text.toList then
    ¬ Lone oldString.toList (universalNewlines text.toList) ∧
      ¬ (oldString ≠ "" ∧ OccursOnce oldString.toList text.toList)
  else (oldString = "" → text ≠ "") ∧
    (Lone oldString.toList text.toList → OccursOnce oldString.toList text.toList)

/-- The workspace `/ws` with one file. -/
def notes (text : String) : Workspace where
  tree :=
    { kinds := ((∅ : Dict PurePath FileKind).insert ["ws"] .dir).insert ["ws", "notes.txt"]
        (.file text)
      parent := by
        intro p name h
        rw [AList.lookup_isSome, AList.mem_insert, AList.mem_insert] at h
        rcases h with h | h | h
        · have hpath : p ++ [name] = ["ws"] ++ ["notes.txt"] := h
          obtain ⟨rfl, rfl⟩ := List.append_singleton_inj.1 hpath
          exact ⟨by decide, Or.inr ((AList.lookup_insert_ne (by decide)).trans
            (AList.lookup_insert _))⟩
        · have hpath : p ++ [name] = [] ++ ["ws"] := h
          obtain ⟨rfl, rfl⟩ := List.append_singleton_inj.1 hpath
          exact ⟨by decide, Or.inl rfl⟩
        · exact absurd h (AList.notMem_empty _) }
  depth := 1
  workspaceRoot := ["ws"]
  root := ["ws"]
  resolved := rfl
  isDir := rfl

end Workspace

end NemoClaw
