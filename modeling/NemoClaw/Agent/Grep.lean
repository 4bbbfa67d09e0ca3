import NemoClaw.Lib.Digits
import NemoClaw.Lib.Occurrences
import NemoClaw.Lib.Quotas
import NemoClaw.Agent.SearchTools

/-! The two implementations of `grep` (`tools/search.py`): what `rg` prints for a literal pattern,
and what the loops over the files of a glob print. `rg` counts its matches for each file and
searches at any depth, the loops count them together and search what the glob selects. -/

namespace NemoClaw

open Lib

/-- A matching line: the entry under which its file is found, its number, and how it is printed. -/
structure GrepMatch where
  entry : PurePath
  line : ℕ
  text : String
  deriving DecidableEq, Repr

/-- What a literal pattern finds. -/
def contains (pattern line : String) : Bool := decide (pattern.toList <:+: line.toList)

/-- The lines that match, with their numbers. -/
def matchingLines (search : String → Bool) (lines : List String) : List (String × ℕ) :=
  (lines.zipIdx 1).filter fun l => search l.1

/-- The lines of a file that match, each in the words of `print`. -/
def matchesOf (search : String → Bool) (f : PurePath) (print : ℕ → String → String)
    (lines : List String) : List GrepMatch :=
  ((lines.zipIdx 1).filter fun l => search l.1).map fun l =>
    { entry := f, line := l.2, text := print l.2 l.1 }

/-- A glob of the form `*.ext`, or none. -/
def IsExtensionGlob (includeGlob : String) : Prop :=
  includeGlob = "" ∨ ∃ ext : List Char, includeGlob = String.ofList ('*' :: '.' :: ext) ∧
    ext ≠ [] ∧ ∀ c ∈ ext, c ∉ ['/', '*', '?', '[', ']', '\x7b', '\x7d', '\\']

/-! ### `rg` -/

/-- The lines of a file, each ended by a newline but for the last. -/
def newlineLines (content : String) : List String :=
  let lines := content.toList.splitOn '\n'
  (if lines.getLast? = some [] then lines.dropLast else lines).map String.ofList

/-- What `--glob` makes of a name. The glob is `*.ext`, or empty. -/
def globMatches (includeGlob name : String) : Bool :=
  decide (includeGlob.toList.tail <:+ name.toList)

def isFile (t : FileTree) (p : PurePath) : Bool :=
  match t.get p with
  | some (.file _) => true
  | _ => false

/-- The files that `rg` searches, in a tree without ignored, hidden and binary files: the one that
it is given, or those at any depth of the directory that the glob takes. -/
def rgFiles (t : FileTree) (includeGlob : String) (searchDir : PurePath) : List PurePath :=
  if isFile t searchDir then [searchDir]
  else ((t.below searchDir).map fun s => searchDir ++ s).filter fun f =>
    isFile t f && globMatches includeGlob (f.getLast?.getD "")

/-- A line as `rg` prints it. The path is left out if `rg` is given the file itself. -/
def rgLine (searchDir f : PurePath) (line : ℕ) (content : String) : String :=
  (if f = searchDir then "" else "/" ++ joinPath f ++ ":") ++ toString line ++ ":" ++ content

def rgPrinted (t : FileTree) (pattern : String) (searchDir f : PurePath) : List GrepMatch :=
  match t.get f with
  | some (.file content) =>
    matchesOf (contains pattern) f (rgLine searchDir f) (newlineLines content)
  | _ => []

/-- The lines that match, in all files. -/
def matchCount (t : FileTree) (pattern includeGlob : String) (searchDir : PurePath) : ℕ :=
  ((rgFiles t includeGlob searchDir).flatMap (rgPrinted t pattern searchDir)).length

/-- `rg` with `--max-count limit` finds these lines and prints them, the files in an order of its
own. It does not take a negative limit. -/
def Ripgrep.Finds (rg : Ripgrep) (t : FileTree) (limit : ℤ) (includeGlob pattern : String)
    (searchDir : PurePath) (found : List GrepMatch) : Prop :=
  found.Perm
      (Quotas.each limit.toNat (rgPrinted t pattern searchDir) (rgFiles t includeGlob searchDir)) ∧
    ∃ stderr hits, rg.run t limit includeGlob pattern searchDir =
      .exited (if limit < 0 then 2 else if found = [] then 1 else 0)
        (String.join (found.map fun m => m.text ++ "\n")) stderr hits

namespace Workspace

variable (W : Workspace) (S : SearchEnv)

/-- `output.replace(root_prefix, "")`, on a line. -/
def unrooted (text : String) : String :=
  String.ofList (Cuts.replaceAll ("/" ++ joinPath W.root ++ "/").toList [] 0 text.toList)

def unrootedMatch (m : GrepMatch) : GrepMatch := { m with text := W.unrooted m.text }

/-- The matching lines of a file, as `_grep_with_rg` returns them. -/
def rgReported (pattern includeGlob : String) (searchDir f : PurePath) : List GrepMatch :=
  if f ∈ rgFiles W.tree includeGlob searchDir then
    (rgPrinted W.tree pattern searchDir f).map W.unrootedMatch
  else []

/-! ### `_grep_with_re` -/

/-- The files of a glob, in order. -/
def reFiles (includeGlob : String) (searchDir : PurePath) : List PurePath :=
  match parsePattern S.text.repr (globPattern includeGlob) with
  | .error _ => []
  | .ok parts =>
    (W.globFiles S.text (W.searchPath searchDir) parts).map fun r => W.searchPath searchDir ++ r

/-- A line as `_grep_with_re` prints it. -/
def reLine (f : PurePath) (line : ℕ) (content : String) : String :=
  joinPath (f.drop W.root.length) ++ ":" ++ toString line ++ ":" ++ S.text.rstrip content

/-- The matching lines of a file of the glob, as `_grep_with_re` returns them. -/
def reReported (search : String → Bool) (searchDir f : PurePath) : List GrepMatch :=
  match W.openFile (W.searchPath searchDir) (f.drop (W.searchPath searchDir).length) with
  | none => []
  | some (_, content) => matchesOf search f (W.reLine S f) (S.text.lines content)

/-- What the loops find. Without a limit to reach, they end behind the first file, and behind a
match in it. -/
def reFound (pattern includeGlob : String) (searchDir : PurePath) (limit : ℤ) : List GrepMatch :=
  match S.text.compile pattern with
  | .error _ => []
  | .ok search =>
    if 0 < limit then
      Quotas.overall limit.toNat (W.reReported S search searchDir)
        (W.reFiles S includeGlob searchDir)
    else
      Quotas.overall 1 (W.reReported S search searchDir)
        ((W.reFiles S includeGlob searchDir).take 1)

/-- The two agree: on the lines, if their number is within the limit, and else on the limit. -/
def GrepsAgree (pattern includeGlob : String) (searchDir : PurePath) (limit : ℤ)
    (found : List GrepMatch) : Prop :=
  (matchCount W.tree pattern includeGlob searchDir ≤ limit → ∀ m,
      m ∈ found.map W.unrootedMatch ↔ m ∈ W.reFound S pattern includeGlob searchDir limit) ∧
    (limit < matchCount W.tree pattern includeGlob searchDir →
      (found.map W.unrootedMatch).length ≤ limit ∧
        (W.reFound S pattern includeGlob searchDir limit).length ≤ limit)

/-- The lines with a match that `rg` finds in a file, with their numbers. -/
def rgLines (pattern includeGlob : String) (searchDir f : PurePath) : List (String × ℕ) :=
  if f ∈ rgFiles W.tree includeGlob searchDir then
    match W.tree.get f with
    | some (.file content) => matchingLines (contains pattern) (newlineLines content)
    | _ => []
  else []

/-- The lines with a match that the loops find in a file, or behind a link to one. -/
def reLines (pattern : String) (searchDir f : PurePath) : List (String × ℕ) :=
  match W.openFile (W.searchPath searchDir) (f.drop (W.searchPath searchDir).length) with
  | none => []
  | some (_, content) => matchingLines (contains pattern) (S.text.lines content)

/-- It is one line of the file, and both print it alike. -/
def PrintedAlike (searchDir f : PurePath) (l l' : String × ℕ) : Prop :=
  l.2 = l'.2 ∧ W.unrooted (rgLine searchDir f l.2 l.1) = W.reLine S f l'.2 l'.1

/-- The lines of `rg`, if there is room for all of them, are those of the loops. -/
structure SameMatches (pattern includeGlob : String) (searchDir : PurePath) (limit : ℤ) : Prop where
  /-- the glob selects every file in which `rg` finds a line -/
  selected : ∀ f ∈ rgFiles W.tree includeGlob searchDir,
    W.rgLines pattern includeGlob searchDir f ≠ [] → f ∈ W.reFiles S includeGlob searchDir
  /-- the lines of `rg` come first among those of the loops, and are printed alike -/
  alike : ∀ f ∈ W.reFiles S includeGlob searchDir, ∃ first,
    first <+: W.reLines S pattern searchDir f ∧
      List.Forall₂ (W.PrintedAlike S searchDir f) (W.rgLines pattern includeGlob searchDir f) first
  /-- the loops end before any other line -/
  nothingElse : ∀ f ∈ W.reFiles S includeGlob searchDir,
    (W.rgLines pattern includeGlob searchDir f).length <
        (W.reLines S pattern searchDir f).length →
      matchCount W.tree pattern includeGlob searchDir = limit ∧
        ∀ g ∈ rgFiles W.tree includeGlob searchDir,
          W.rgLines pattern includeGlob searchDir g ≠ [] → g ≤ f

end Workspace

/-! ### The files and their lines -/

/-- The order of the lines of a file. -/
def GrepMatch.Above (m m' : GrepMatch) : Prop := m.line < m'.line

instance : Std.Irrefl GrepMatch.Above := ⟨fun m => lt_irrefl m.line⟩

instance : Std.Antisymm GrepMatch.Above := ⟨fun _ _ h h' => absurd h (lt_asymm h')⟩

variable {pattern includeGlob : String} {searchDir f : PurePath} {m : GrepMatch}
  {search : String → Bool} {print : ℕ → String → String} {lines : List String}

theorem entry_of_mem_matchesOf (h : m ∈ matchesOf search f print lines) : m.entry = f := by
  obtain ⟨l, -, rfl⟩ := List.mem_map.1 h
  rfl

theorem matchesOf_sorted : (matchesOf search f print lines).Pairwise GrepMatch.Above := by
  have hnumbers : (lines.zipIdx 1).Pairwise fun l l' => l.2 < l'.2 := by
    rw [← List.pairwise_map (f := Prod.snd), List.zipIdx_map_snd]
    exact List.pairwise_lt_range'
  rw [matchesOf, List.pairwise_map]
  exact hnumbers.filter _

theorem map_matchesOf {print' : ℕ → String → String} {g : GrepMatch → GrepMatch}
    (h : ∀ n, ∀ line ∈ lines, search line = true →
      g { entry := f, line := n, text := print n line } =
        { entry := f, line := n, text := print' n line }) :
    (matchesOf search f print lines).map g = matchesOf search f print' lines := by
  unfold matchesOf
  rw [List.map_map]
  refine List.map_congr_left fun l hl => ?_
  obtain ⟨hmem, hsearch⟩ := List.mem_filter.1 hl
  exact h l.2 l.1 (List.fst_mem_of_mem_zipIdx hmem) hsearch

theorem entry_of_mem_rgPrinted {t : FileTree} (h : m ∈ rgPrinted t pattern searchDir f) :
    m.entry = f := by
  unfold rgPrinted at h
  split at h
  · exact entry_of_mem_matchesOf h
  · exact absurd h List.not_mem_nil

theorem rgPrinted_sorted (t : FileTree) (pattern : String) (searchDir f : PurePath) :
    (rgPrinted t pattern searchDir f).Pairwise GrepMatch.Above := by
  unfold rgPrinted
  split
  · exact matchesOf_sorted
  · exact List.Pairwise.nil

theorem nodup_rgFiles (t : FileTree) (includeGlob : String) (searchDir : PurePath) :
    (rgFiles t includeGlob searchDir).Nodup := by
  unfold rgFiles
  split_ifs
  · exact List.nodup_singleton _
  · exact ((FileTree.nodup_below t searchDir).map (List.append_right_injective _)).filter _

namespace Workspace

variable {W : Workspace} {S : SearchEnv} {limit : ℤ}

theorem grouped_rgReported (W : Workspace) (pattern includeGlob : String) (searchDir : PurePath) :
    Quotas.Grouped GrepMatch.entry GrepMatch.Above
      (W.rgReported pattern includeGlob searchDir) where
  key_eq f m hm := by
    unfold rgReported at hm
    split_ifs at hm
    · obtain ⟨m', hm', rfl⟩ := List.mem_map.1 hm
      exact (entry_of_mem_rgPrinted hm' : m'.entry = f)
    · exact absurd hm List.not_mem_nil
  sorted f := by
    unfold rgReported
    split_ifs
    · exact List.pairwise_map.2 (rgPrinted_sorted W.tree pattern searchDir f)
    · exact List.Pairwise.nil

theorem grouped_reReported (W : Workspace) (S : SearchEnv) (search : String → Bool)
    (searchDir : PurePath) :
    Quotas.Grouped GrepMatch.entry GrepMatch.Above (W.reReported S search searchDir) where
  key_eq f m hm := by
    unfold reReported at hm
    split at hm
    · exact absurd hm List.not_mem_nil
    · exact entry_of_mem_matchesOf hm
  sorted f := by
    unfold reReported
    split
    · exact List.Pairwise.nil
    · exact matchesOf_sorted

theorem select_wild (d : PurePath) (glob : String) (cur : List String) :
    W.select S.text d [.wild glob] cur =
      ((W.scandir d cur).filter fun name => glob = "*" || S.text.fnmatch glob name).map
        fun name => cur ++ [name] := by
  simp [select]

theorem nodup_select_wild (d : PurePath) (glob : String) (cur : List String) :
    (W.select S.text d [.wild glob] cur).Nodup := by
  rw [select_wild]
  refine List.Nodup.map (fun name name' heq => ?_) (List.Nodup.filter _ ?_)
  · exact (List.append_singleton_inj.1 heq).2
  · unfold scandir
    split
    · exact List.nodup_nil
    · exact FileTree.nodup_names W.tree _

theorem select_deep (d : PurePath) (glob : String) :
    W.select S.text d [.deep, .wild glob] [] =
      ([] :: W.walkBelow d [] true).flatMap fun cur => W.select S.text d [.wild glob] cur := by
  rw [select, if_neg (by simp), List.flatMap_cons]

theorem nodup_select_deep (d : PurePath) (glob : String) :
    (W.select S.text d [.deep, .wild glob] []).Nodup := by
  have hbelow : ([] :: W.walkBelow d [] true).Nodup := by
    refine List.nodup_cons.2 ⟨fun hmem => ?_, ?_⟩
    · obtain ⟨p, s, -, hs, -, -, heq⟩ := mem_walkBelow.1 hmem
      exact hs heq.symm
    · unfold walkBelow
      split
      · exact List.nodup_nil
      · refine List.Nodup.map (List.append_right_injective []) (List.Nodup.filter _ ?_)
        exact FileTree.nodup_below W.tree _
  rw [select_deep, List.nodup_flatMap]
  refine ⟨fun cur _ => nodup_select_wild d glob cur, ?_⟩
  refine hbelow.imp fun {cur cur'} hne r hr hr' => hne ?_
  -- what is selected in a directory tells the directory
  have hdrop : ∀ {cur}, r ∈ W.select S.text d [.wild glob] cur → r.dropLast = cur := by
    intro cur hmem
    rw [select_wild] at hmem
    obtain ⟨name, -, rfl⟩ := List.mem_map.1 hmem
    exact List.dropLast_concat
  rw [← hdrop hr, ← hdrop hr']

theorem globFiles_sorted {d : PurePath} {parts : List GlobPart}
    (hnodup : (W.select S.text d parts []).Nodup) :
    (W.globFiles S.text d parts).Pairwise (· < ·) := by
  unfold globFiles
  refine List.Pairwise.filter _ ?_
  have hsorted := (List.sortedLE_mergeSort (l := W.select S.text d parts [])).pairwise
  refine hsorted.imp₂ (fun {_ _} hle hne => lt_of_le_of_ne hle hne) ?_
  exact (List.mergeSort_perm _ _).nodup_iff.2 hnodup

theorem parsePattern_extension {repr : String → String} {ext : List Char}
    (hext : ∀ c ∈ ext, c ≠ '/') : parsePattern repr (String.ofList ('*' :: '.' :: ext)) =
      .ok [.wild (String.ofList ('*' :: '.' :: ext))] := by
  have hslash : '/' ∉ '*' :: '.' :: ext := by
    intro h
    rcases List.mem_cons.1 h with h | h
    · contradiction
    rcases List.mem_cons.1 h with h | h
    · contradiction
    exact hext _ h rfl
  have hchars : ∀ {t : String}, String.ofList ('*' :: '.' :: ext) = t →
      t.toList.take 2 = ['*', '.'] := by
    rintro _ rfl
    rw [String.toList_ofList]
    rfl
  have hparts : pathParts (String.ofList ('*' :: '.' :: ext)) =
      [String.ofList ('*' :: '.' :: ext)] := by
    rw [pathParts, String.toList_ofList, List.splitOn_eq_singleton hslash, List.map_singleton,
      List.filter_singleton, cond_eq_ite, if_pos]
    rw [Bool.and_eq_true, decide_eq_true_eq, decide_eq_true_eq]
    exact ⟨fun heq => absurd (hchars heq) (by decide),
      fun heq => absurd (hchars heq) (by decide)⟩
  have hlast : (String.ofList ('*' :: '.' :: ext)).toList.getLast? ≠ some '/' := by
    rw [String.toList_ofList]
    intro h
    exact hslash (List.mem_of_getLast? h)
  have hpart : globPart (String.ofList ('*' :: '.' :: ext)) =
      .wild (String.ofList ('*' :: '.' :: ext)) := by
    rw [globPart, if_neg fun heq => absurd (hchars heq) (by decide),
      if_neg fun heq => absurd (hchars heq) (by decide), if_pos]
    exact Or.inl (by rw [String.toList_ofList]; exact List.mem_cons_self)
  rw [parsePattern, if_neg, hparts, if_neg (List.cons_ne_nil _ _), if_neg hlast,
    List.map_singleton, hpart]
  · rfl
  · rw [isAbs, String.toList_ofList]
    simp

theorem parsePattern_glob (repr : String → String) (h : IsExtensionGlob includeGlob) :
    (includeGlob = "" ∧
      parsePattern repr (globPattern includeGlob) = .ok [.deep, .wild "*"]) ∨
    (includeGlob ≠ "" ∧
      parsePattern repr (globPattern includeGlob) = .ok [.wild includeGlob]) := by
  rcases h with rfl | ⟨ext, rfl, -, hext⟩
  · exact Or.inl ⟨rfl, rfl⟩
  · have hne : String.ofList ('*' :: '.' :: ext) ≠ "" := by
      intro heq
      simpa using congrArg String.toList heq
    refine Or.inr ⟨hne, ?_⟩
    rw [globPattern, if_neg hne]
    refine parsePattern_extension fun c hc heq => hext c hc ?_
    rw [heq]
    exact List.mem_cons_self

theorem reFiles_eq {parts : List GlobPart} (searchDir : PurePath)
    (hparse : parsePattern S.text.repr (globPattern includeGlob) = .ok parts) :
    W.reFiles S includeGlob searchDir = (W.globFiles S.text (W.searchPath searchDir) parts).map
      fun r => W.searchPath searchDir ++ r := by
  rw [reFiles, hparse]

theorem reFiles_sorted (hglob : IsExtensionGlob includeGlob) (searchDir : PurePath) :
    (W.reFiles S includeGlob searchDir).Pairwise (· < ·) := by
  obtain ⟨parts, hparse, hnodup⟩ : ∃ parts,
      parsePattern S.text.repr (globPattern includeGlob) = .ok parts ∧
        (W.select S.text (W.searchPath searchDir) parts []).Nodup := by
    rcases parsePattern_glob S.text.repr hglob with ⟨-, hparse⟩ | ⟨-, hparse⟩
    · exact ⟨_, hparse, nodup_select_deep _ _⟩
    · exact ⟨_, hparse, nodup_select_wild _ _ _⟩
  rw [reFiles_eq searchDir hparse]
  exact List.pairwise_map.2 ((globFiles_sorted hnodup).imp fun hlt => List.append_left_lt hlt)

/-! ### The loops -/

theorem addLines_take {file found : List Hit} (h : found.length < max limit.toNat 1) :
    addLines limit file found = (found ++ file).take (max limit.toNat 1) := by
  induction file generalizing found with
  | nil => rw [List.append_nil, List.take_of_length_le h.le, addLines]
  | cons first file ih =>
    rw [addLines]
    have hlength : (found ++ [first]).length = found.length + 1 := List.length_append
    split_ifs with hlimit
    · have heq : found.length + 1 = max limit.toNat 1 := by omega
      rw [List.append_cons found first file, ← heq, ← hlength, List.take_left]
    · rw [ih (by omega), List.append_assoc, List.singleton_append]

/-- With a limit to reach, the loops find the first lines of all files. -/
theorem addFiles_take {files : List (List Hit)} {found : List Hit} (hlimit : 0 < limit)
    (h : found.length < limit.toNat) :
    addFiles limit files found = (found ++ files.flatten).take limit.toNat := by
  have hmax : max limit.toNat 1 = limit.toNat := by omega
  induction files generalizing found with
  | nil => rw [List.flatten_nil, List.append_nil, List.take_of_length_le h.le, addFiles]
  | cons file files ih =>
    rw [addFiles, addLines_take (by omega), hmax, List.flatten_cons, ← List.append_assoc]
    rw [List.length_take]
    split_ifs with hreached
    · exact (List.take_append_of_le_length (by omega)).symm
    · rw [List.take_of_length_le (by omega), ih (by omega)]

theorem addFiles_nonpos {file : List Hit} {files : List (List Hit)} (hlimit : limit ≤ 0) :
    addFiles limit (file :: files) [] = file.take 1 := by
  have hmax : max limit.toNat 1 = 1 := by omega
  rw [addFiles, addLines_take (by simp), hmax, if_pos (by omega), List.nil_append]

theorem text_hits (searchDir : PurePath) (r : List String) :
    (W.hits S search (W.searchPath searchDir) r).map Hit.text =
      (W.reReported S search searchDir (W.searchPath searchDir ++ r)).map GrepMatch.text := by
  unfold hits reReported
  rw [List.drop_left]
  cases W.openFile (W.searchPath searchDir) r with
  | none => rfl
  | some opened => simp [matchesOf, reLine]

theorem reFound_eq (hcompile : S.text.compile pattern = .ok search) :
    W.reFound S pattern includeGlob searchDir limit =
      if 0 < limit then
        Quotas.overall limit.toNat (W.reReported S search searchDir)
          (W.reFiles S includeGlob searchDir)
      else
        Quotas.overall 1 (W.reReported S search searchDir)
          ((W.reFiles S includeGlob searchDir).take 1) := by
  rw [reFound, hcompile]

theorem text_addFiles (W : Workspace) (searchDir : PurePath) (limit : ℤ) {parts : List GlobPart}
    (hcompile : S.text.compile pattern = .ok search)
    (hparse : parsePattern S.text.repr (globPattern includeGlob) = .ok parts) :
    (addFiles limit ((W.globFiles S.text (W.searchPath searchDir) parts).map
      (W.hits S search (W.searchPath searchDir))) []).map Hit.text =
        (W.reFound S pattern includeGlob searchDir limit).map GrepMatch.text := by
  have htexts : ∀ files : List (List String),
      (files.flatMap (W.hits S search (W.searchPath searchDir))).map Hit.text =
        ((files.map fun r => W.searchPath searchDir ++ r).flatMap
          (W.reReported S search searchDir)).map GrepMatch.text := by
    intro files
    rw [List.map_flatMap, List.map_flatMap, List.flatMap_map]
    exact List.flatMap_congr fun r _ => text_hits searchDir r
  rw [reFound_eq hcompile, reFiles_eq searchDir hparse]
  unfold Quotas.overall
  split_ifs with hlimit
  · rw [addFiles_take hlimit (by simpa using hlimit), List.nil_append, ← List.flatMap_def,
      List.map_take, List.map_take, htexts]
  · cases W.globFiles S.text (W.searchPath searchDir) parts with
    | nil => rfl
    | cons r files =>
      rw [List.map_cons, addFiles_nonpos (not_lt.1 hlimit), List.map_cons, List.take_succ_cons,
        List.take_zero, List.flatMap_singleton, List.map_take, List.map_take, text_hits]

/-- What the loops find is what the fallback returns. -/
theorem text_grepWithRe (hglob : IsExtensionGlob includeGlob)
    (hcompile : S.text.compile pattern = .ok search) :
    (W.grepWithRe S pattern searchDir includeGlob limit).text =
      if W.reFound S pattern includeGlob searchDir limit = [] then "No matches found."
      else "\n".intercalate
        ((W.reFound S pattern includeGlob searchDir limit).map GrepMatch.text) := by
  obtain ⟨parts, hparse⟩ : ∃ parts,
      parsePattern S.text.repr (globPattern includeGlob) = .ok parts := by
    rcases parsePattern_glob S.text.repr hglob with ⟨-, hparse⟩ | ⟨-, hparse⟩
    · exact ⟨_, hparse⟩
    · exact ⟨_, hparse⟩
  have htext := text_addFiles W searchDir limit hcompile hparse
  unfold grepWithRe
  rw [hcompile, hparse]
  dsimp only
  have hempty : addFiles limit ((W.globFiles S.text (W.searchPath searchDir) parts).map
      (W.hits S search (W.searchPath searchDir))) [] = [] ↔
        W.reFound S pattern includeGlob searchDir limit = [] := by
    rw [← List.map_eq_nil_iff (f := Hit.text), htext, List.map_eq_nil_iff]
  split_ifs with h h' h'
  · rfl
  · exact absurd (hempty.1 h) h'
  · exact absurd (hempty.2 h') h
  · exact congrArg "\n".intercalate htext

theorem unrooted_lines (hroot : '\n' ∉ (joinPath W.root).toList) (found : List GrepMatch) :
    W.unrooted (String.join (found.map fun m => m.text ++ "\n")) =
      String.join ((found.map W.unrootedMatch).map fun m => m.text ++ "\n") := by
  have hmark : ("/" ++ joinPath W.root ++ "/").toList ≠ [] := by simp
  have hsep : '\n' ∉ ("/" ++ joinPath W.root ++ "/").toList := by simp [hroot]
  induction found with
  | nil => simp [unrooted, Cuts.replaceAll]
  | cons m found ih =>
    have hline : ∀ rest : List Char,
        Cuts.replaceAll ("/" ++ joinPath W.root ++ "/").toList [] 0
            (m.text.toList ++ '\n' :: rest) =
          Cuts.replaceAll ("/" ++ joinPath W.root ++ "/").toList [] 0 m.text.toList ++
            '\n' :: Cuts.replaceAll ("/" ++ joinPath W.root ++ "/").toList [] 0 rest :=
      fun rest => Cuts.replaceAll_append_cons hmark hsep (Nat.zero_le _)
    rw [List.map_cons, List.map_cons, List.map_cons, String.join_cons, String.join_cons, ← ih]
    refine String.toList_injective ?_
    simpa [unrooted, unrootedMatch] using
      hline (String.join (found.map fun m => m.text ++ "\n")).toList

theorem text_grepWithRg {rg : Ripgrep} {found : List GrepMatch} (hlimit : 0 ≤ limit)
    (hroot : '\n' ∉ (joinPath W.root).toList)
    (hrg : rg.Finds W.tree limit includeGlob pattern searchDir found) :
    (W.grepWithRg S rg pattern searchDir includeGlob limit).text =
      if found = [] then "No matches found."
      else String.join ((found.map W.unrootedMatch).map fun m => m.text ++ "\n") := by
  obtain ⟨-, stderr, hits, hrun⟩ := hrg
  unfold grepWithRg
  rw [hrun, if_neg (not_lt.2 hlimit)]
  by_cases hfound : found = []
  · rw [if_pos hfound, if_pos hfound]
    rfl
  · rw [if_neg hfound, if_neg hfound]
    exact unrooted_lines hroot found

/-! ### When they agree -/

theorem flatMap_rgReported (W : Workspace) (pattern includeGlob : String) (searchDir : PurePath) :
    (rgFiles W.tree includeGlob searchDir).flatMap (W.rgReported pattern includeGlob searchDir) =
      ((rgFiles W.tree includeGlob searchDir).flatMap
        (rgPrinted W.tree pattern searchDir)).map W.unrootedMatch := by
  rw [List.map_flatMap]
  refine List.flatMap_congr fun f hf => ?_
  rw [rgReported, if_pos hf]

theorem reFound_zero (hcompile : S.text.compile pattern = .ok search) :
    W.reFound S pattern includeGlob searchDir 0 = [] ↔
      ∀ f ∈ (W.reFiles S includeGlob searchDir).head?, W.reReported S search searchDir f = [] := by
  rw [reFound_eq hcompile, if_neg (lt_irrefl 0), Quotas.overall]
  cases W.reFiles S includeGlob searchDir with
  | nil => simp
  | cons f files => simp

theorem rgReported_eq (W : Workspace) (pattern includeGlob : String) (searchDir f : PurePath) :
    W.rgReported pattern includeGlob searchDir f =
      (W.rgLines pattern includeGlob searchDir f).map fun l =>
        ⟨f, l.2, W.unrooted (rgLine searchDir f l.2 l.1)⟩ := by
  unfold rgReported rgLines rgPrinted
  split_ifs
  · split
    · rw [matchesOf, List.map_map]
      rfl
    · rfl
  · rfl

theorem reReported_eq (W : Workspace) (S : SearchEnv) (pattern : String)
    (searchDir f : PurePath) : W.reReported S (contains pattern) searchDir f =
      (W.reLines S pattern searchDir f).map fun l => ⟨f, l.2, W.reLine S f l.2 l.1⟩ := by
  unfold reReported reLines
  split <;> rfl

theorem map_prefix_map_iff {α β γ : Type*} {g : α → γ} {h : β → γ} {xs : List α} {ys : List β} :
    xs.map g <+: ys.map h ↔
      ∃ zs, zs <+: ys ∧ List.Forall₂ (fun x y => g x = h y) xs zs := by
  constructor
  · intro hprefix
    refine ⟨ys.take xs.length, List.take_prefix _ _, ?_⟩
    have heq := List.prefix_iff_eq_take.1 hprefix
    rw [List.length_map, ← List.map_take] at heq
    rw [← List.forall₂_map_right_iff (R := fun x z => g x = z), ← List.forall₂_map_left_iff,
      List.forall₂_eq_eq_eq]
    exact heq
  · rintro ⟨zs, hzs, hall⟩
    have heq : xs.map g = zs.map h := by
      rw [← List.forall₂_eq_eq_eq, List.forall₂_map_left_iff, List.forall₂_map_right_iff]
      exact hall
    rw [heq]
    exact hzs.map h

/-- What the two print of the files, for what they find in the lines. -/
theorem sameMatches_iff_reported : W.SameMatches S pattern includeGlob searchDir limit ↔
    (∀ f ∈ rgFiles W.tree includeGlob searchDir,
      W.rgReported pattern includeGlob searchDir f ≠ [] →
        f ∈ W.reFiles S includeGlob searchDir) ∧
    (∀ f ∈ W.reFiles S includeGlob searchDir, W.rgReported pattern includeGlob searchDir f <+:
      W.reReported S (contains pattern) searchDir f) ∧
    ∀ f ∈ W.reFiles S includeGlob searchDir,
      (W.rgReported pattern includeGlob searchDir f).length <
          (W.reReported S (contains pattern) searchDir f).length →
        matchCount W.tree pattern includeGlob searchDir = limit ∧
          ∀ g ∈ rgFiles W.tree includeGlob searchDir,
            W.rgReported pattern includeGlob searchDir g ≠ [] → g ≤ f := by
  have halike : ∀ f, W.rgReported pattern includeGlob searchDir f <+:
      W.reReported S (contains pattern) searchDir f ↔ ∃ first,
        first <+: W.reLines S pattern searchDir f ∧ List.Forall₂ (W.PrintedAlike S searchDir f)
          (W.rgLines pattern includeGlob searchDir f) first := by
    intro f
    rw [rgReported_eq, reReported_eq, map_prefix_map_iff]
    simp only [GrepMatch.mk.injEq, true_and]
    rfl
  have hnone : ∀ f, W.rgReported pattern includeGlob searchDir f ≠ [] ↔
      W.rgLines pattern includeGlob searchDir f ≠ [] := by
    intro f
    rw [rgReported_eq, ne_eq, List.map_eq_nil_iff]
  simp only [halike, hnone]
  simp only [rgReported_eq, reReported_eq, List.length_map]
  constructor
  · rintro ⟨hselected, halike, hmore⟩
    exact ⟨hselected, halike, hmore⟩
  · rintro ⟨hselected, halike, hmore⟩
    exact ⟨hselected, halike, hmore⟩

/-- With room for all lines of `rg`, the two find the same. -/
theorem mem_reFound_iff (hglob : IsExtensionGlob includeGlob)
    (hcompile : S.text.compile pattern = .ok (contains pattern)) (hlimit : 0 < limit)
    (hroom : matchCount W.tree pattern includeGlob searchDir ≤ limit) :
    (∀ m, m ∈ (rgFiles W.tree includeGlob searchDir).flatMap
        (W.rgReported pattern includeGlob searchDir) ↔
          m ∈ W.reFound S pattern includeGlob searchDir limit) ↔
      W.SameMatches S pattern includeGlob searchDir limit := by
  have hcount : ((rgFiles W.tree includeGlob searchDir).flatMap
      (W.rgReported pattern includeGlob searchDir)).length =
        matchCount W.tree pattern includeGlob searchDir := by
    rw [flatMap_rgReported, List.length_map, matchCount]
  have hreached : matchCount W.tree pattern includeGlob searchDir = limit.toNat ↔
      (matchCount W.tree pattern includeGlob searchDir : ℤ) = limit := by omega
  have hout : ∀ g ∉ rgFiles W.tree includeGlob searchDir,
      W.rgReported pattern includeGlob searchDir g = [] := fun g hg => if_neg hg
  rw [reFound_eq hcompile, if_pos hlimit, Quotas.mem_overall_iff (nodup_rgFiles _ _ _)
    (reFiles_sorted hglob searchDir) (grouped_rgReported W pattern includeGlob searchDir)
    (grouped_reReported W S (contains pattern) searchDir) hout (by omega), hcount, hreached]
  exact sameMatches_iff_reported.symm

/-- Both keep to the limit, if `rg` reaches it in one file. -/
theorem length_found_le_iff {rg : Ripgrep} {found : List GrepMatch} (hlimit : 0 < limit)
    (hrg : rg.Finds W.tree limit includeGlob pattern searchDir found)
    (hmany : limit < matchCount W.tree pattern includeGlob searchDir) :
    found.length ≤ limit ↔
      ∀ f ∈ rgFiles W.tree includeGlob searchDir, ∀ g ∈ rgFiles W.tree includeGlob searchDir,
        rgPrinted W.tree pattern searchDir f ≠ [] →
          rgPrinted W.tree pattern searchDir g ≠ [] → f = g := by
  have hcount : limit.toNat < ((rgFiles W.tree includeGlob searchDir).flatMap
      (rgPrinted W.tree pattern searchDir)).length := by
    rw [← matchCount]
    omega
  have hlengths := Quotas.length_each_le_iff (nodup_rgFiles W.tree includeGlob searchDir) hcount
  rw [← hrg.1.length_eq, or_iff_right (by omega)] at hlengths
  rw [← hlengths]
  omega

theorem mem_found_iff {rg : Ripgrep} {found : List GrepMatch}
    (hrg : rg.Finds W.tree limit includeGlob pattern searchDir found)
    (hroom : matchCount W.tree pattern includeGlob searchDir ≤ limit) (m : GrepMatch) :
    m ∈ found.map W.unrootedMatch ↔ m ∈ (rgFiles W.tree includeGlob searchDir).flatMap
      (W.rgReported pattern includeGlob searchDir) := by
  have hcount : ((rgFiles W.tree includeGlob searchDir).flatMap
      (rgPrinted W.tree pattern searchDir)).length ≤ limit.toNat := by
    rw [← matchCount]
    omega
  rw [flatMap_rgReported, ← Quotas.each_of_length_le hcount]
  exact (hrg.1.map _).mem_iff

theorem length_reFound_le (hlimit : 0 < limit) :
    (W.reFound S pattern includeGlob searchDir limit).length ≤ limit := by
  unfold reFound
  split
  · exact hlimit.le
  · rw [if_pos hlimit]
    refine (Int.ofNat_le.2 Quotas.length_overall_le).trans ?_
    omega

theorem not_grepsAgree_neg {found : List GrepMatch} (hlimit : limit < 0) :
    ¬ W.GrepsAgree S pattern includeGlob searchDir limit found := by
  rintro ⟨-, hmany⟩
  have hlength := (hmany (by omega)).2
  omega

theorem grepsAgree_zero_iff {rg : Ripgrep} {found : List GrepMatch}
    (hrg : rg.Finds W.tree 0 includeGlob pattern searchDir found) :
    W.GrepsAgree S pattern includeGlob searchDir 0 found ↔
      W.reFound S pattern includeGlob searchDir 0 = [] := by
  have hfound : found = [] := by simpa [Quotas.each] using hrg.1.length_eq
  rw [hfound]
  constructor
  · rintro ⟨hroom, hmany⟩
    rcases Nat.eq_zero_or_pos (matchCount W.tree pattern includeGlob searchDir) with hnone | hsome
    · refine List.eq_nil_iff_forall_not_mem.2 fun m hm => ?_
      exact List.not_mem_nil ((hroom (by omega) m).2 hm)
    · have hlength := (hmany (by omega)).2
      exact List.length_eq_zero_iff.1 (by omega)
  · intro hnone
    rw [GrepsAgree, hnone]
    exact ⟨fun _ _ => Iff.rfl, fun _ => ⟨le_rfl, le_rfl⟩⟩

/-! ### Trees without links -/

theorem isFile_iff {t : FileTree} {p : PurePath} :
    isFile t p = true ↔ ∃ content, t.get p = some (.file content) := by
  unfold isFile
  cases t.get p with
  | none => simp
  | some kind => cases kind <;> simp

/-- What a wildcard selects in a directory. -/
theorem mem_select_wild {d p : PurePath} {glob : String} {cur r : List String}
    (hdir : W.openDir d cur = some p) : r ∈ W.select S.text d [.wild glob] cur ↔
      ∃ name, r = cur ++ [name] ∧ W.tree.get (p ++ [name]) ≠ none ∧
        (glob = "*" || S.text.fnmatch glob name) = true := by
  simp only [select_wild, List.mem_map, List.mem_filter, mem_scandir, hdir, Option.some.injEq,
    exists_eq_left']
  constructor
  · rintro ⟨name, ⟨hget, hmatch⟩, rfl⟩
    exact ⟨name, rfl, hget, hmatch⟩
  · rintro ⟨name, rfl, hget, hmatch⟩
    exact ⟨name, ⟨hget, hmatch⟩, rfl⟩

/-- What is selected below a directory at any depth. -/
theorem mem_select_deep {d : PurePath} {r : List String} (hdir : W.openDir d [] = some d) :
    r ∈ W.select S.text d [.deep, .wild "*"] [] ↔ r ≠ [] ∧ W.tree.get (d ++ r) ≠ none := by
  have hopen : ∀ cur, cur ∈ [] :: W.walkBelow d [] true → W.openDir d cur = some (d ++ cur) := by
    intro cur hcur
    rcases List.mem_cons.1 hcur with rfl | hcur
    · rwa [List.append_nil]
    · obtain ⟨p, s, hp, -, -, hget, rfl⟩ := mem_walkBelow.1 hcur
      obtain rfl := Option.some.inj (hdir.symm.trans hp)
      exact openDir_append hdir (hget rfl)
  rw [select_deep, List.mem_flatMap]
  constructor
  · rintro ⟨cur, hcur, hr⟩
    obtain ⟨name, rfl, hget, -⟩ := (mem_select_wild (hopen cur hcur)).1 hr
    exact ⟨by simp, by rwa [← List.append_assoc]⟩
  · rintro ⟨hne, hget⟩
    obtain ⟨cur, name, rfl⟩ : ∃ cur name, r = cur ++ [name] :=
      ⟨_, _, (List.dropLast_append_getLast hne).symm⟩
    rw [← List.append_assoc] at hget
    have hcur : cur ∈ [] :: W.walkBelow d [] true := by
      by_cases hnil : cur = []
      · exact List.mem_cons.2 (Or.inl hnil)
      · have hparent := (FileTree.get_parent hget).2
        exact List.mem_cons_of_mem _
          (mem_walkBelow.2 ⟨d, cur, hdir, hnil, by simp [hparent], fun _ => hparent, rfl⟩)
    exact ⟨cur, hcur, (mem_select_wild (hopen cur hcur)).2 ⟨name, rfl, hget, by simp⟩⟩

variable {path : String}

theorem searchPath_dir (hresolve : W.safeResolve path = .ok searchDir)
    (hdir : W.tree.get searchDir = some .dir) : W.searchPath searchDir = searchDir := by
  have hwalk : W.tree.walk true W.depth [] searchDir = some searchDir :=
    FileTree.walk_canonical (safeResolve_eq_ok hresolve).2 (by simp [hdir])
  have hopen : W.openDir [] searchDir = some searchDir := openDir_eq_some.2 ⟨hwalk, hdir⟩
  rw [searchPath, if_pos (by simp [hopen])]

theorem mem_rgFiles (hdir : W.tree.get searchDir = some .dir) :
    f ∈ rgFiles W.tree includeGlob searchDir ↔ ∃ s name content, f = searchDir ++ (s ++ [name]) ∧
      W.tree.get f = some (.file content) ∧ globMatches includeGlob name = true := by
  have hnot : isFile W.tree searchDir = false := by simp [isFile, hdir]
  rw [rgFiles, if_neg (by simp [hnot]), List.mem_filter, Bool.and_eq_true, isFile_iff,
    List.mem_map]
  constructor
  · rintro ⟨⟨s, hs, rfl⟩, ⟨content, hget⟩, hmatch⟩
    obtain ⟨hne, -⟩ := FileTree.mem_below.1 hs
    obtain ⟨s, name, rfl⟩ : ∃ s' name, s = s' ++ [name] :=
      ⟨_, _, (List.dropLast_append_getLast hne).symm⟩
    exact ⟨s, name, content, rfl, hget, by simpa [← List.append_assoc] using hmatch⟩
  · rintro ⟨s, name, content, rfl, hget, hmatch⟩
    refine ⟨⟨s ++ [name], FileTree.mem_below.2 ⟨by simp, by simp [hget]⟩, rfl⟩, ⟨content, hget⟩, ?_⟩
    simpa [← List.append_assoc] using hmatch

/-- In a directory the system reads the files below it under their own paths. -/
theorem openFile_below {d : PurePath} {r : List String} {content : String}
    (hdir : W.tree.get d = some .dir) (hget : W.tree.get (d ++ r) = some (.file content)) :
    W.openFile d r = some (d ++ r, content) := by
  have hne : r ≠ [] := by
    rintro rfl
    rw [List.append_nil, hdir] at hget
    simp at hget
  obtain ⟨cur, name, rfl⟩ : ∃ cur name, r = cur ++ [name] :=
    ⟨_, _, (List.dropLast_append_getLast hne).symm⟩
  rw [← List.append_assoc] at hget ⊢
  have hentry : W.tree.get (d ++ cur ++ [name]) ≠ none := by rw [hget]; simp
  have hlink : ∀ absolute target,
      W.tree.get (d ++ cur ++ [name]) ≠ some (.link absolute target) := by rw [hget]; simp
  exact openFile_concat.2 ⟨d ++ cur, openDir_append (openDir_nil.2 ⟨rfl, hdir⟩)
    (FileTree.get_parent hentry).2, FileTree.follow_of_get hentry hlink, hget⟩

/-- Without links, what is read below a directory is a file below it. -/
theorem isFile_of_openFile {d : PurePath} {r : List String} (hfree : LinkFree W d)
    (hdir : W.tree.get d = some .dir) (hget : W.tree.get (d ++ r) ≠ none)
    (hopen : (W.openFile d r).isSome = true) :
    ∃ content, W.tree.get (d ++ r) = some (.file content) := by
  obtain ⟨⟨q, content⟩, hopen⟩ := Option.isSome_iff_exists.1 hopen
  cases hkind : W.tree.get (d ++ r) with
  | none => exact absurd hkind hget
  | some kind =>
    cases kind with
    | file content => exact ⟨content, rfl⟩
    | link absolute target => exact absurd hkind (hfree _ (List.prefix_append d r) _ _)
    | dir =>
      have hdir' := openDir_append (openDir_nil.2 ⟨rfl, hdir⟩) hkind
      rw [List.nil_append, openDir_of_openFile hopen] at hdir'
      contradiction

/-- Without links the files of the glob are files that `rg` searches: all of them, or with a glob
those that are directly in the directory. -/
theorem mem_reFiles_iff (hglob : IsExtensionGlob includeGlob)
    (hfnmatch : ∀ name, S.text.fnmatch includeGlob name = globMatches includeGlob name)
    (hresolve : W.safeResolve path = .ok searchDir) (hdir : W.tree.get searchDir = some .dir)
    (hfree : LinkFree W searchDir) : f ∈ W.reFiles S includeGlob searchDir ↔
      f ∈ rgFiles W.tree includeGlob searchDir ∧ (includeGlob = "" ∨ f.dropLast = searchDir) := by
  have hopen : W.openDir searchDir [] = some searchDir := openDir_nil.2 ⟨rfl, hdir⟩
  rw [mem_rgFiles hdir]
  rcases parsePattern_glob S.text.repr hglob with ⟨rfl, hparse⟩ | ⟨hne, hparse⟩
  · rw [reFiles_eq searchDir hparse, searchPath_dir hresolve hdir, and_iff_left (Or.inl rfl)]
    simp only [List.mem_map, mem_globFiles, mem_select_deep hopen]
    constructor
    · rintro ⟨r, ⟨⟨hr, hget⟩, hread⟩, rfl⟩
      obtain ⟨content, hfile⟩ := isFile_of_openFile hfree hdir hget hread
      obtain ⟨s, name, rfl⟩ : ∃ s name, r = s ++ [name] :=
        ⟨_, _, (List.dropLast_append_getLast hr).symm⟩
      exact ⟨s, name, content, rfl, hfile, by simp [globMatches]⟩
    · rintro ⟨s, name, content, rfl, hfile, -⟩
      exact ⟨s ++ [name], ⟨⟨by simp, by simp [hfile]⟩, by simp [openFile_below hdir hfile]⟩, rfl⟩
  · rw [reFiles_eq searchDir hparse, searchPath_dir hresolve hdir, or_iff_right hne]
    simp only [List.mem_map, mem_globFiles, mem_select_wild hopen, hfnmatch]
    have hstar : ∀ name, (decide (includeGlob = "*") || globMatches includeGlob name) =
        globMatches includeGlob name := by
      intro name
      by_cases heq : includeGlob = "*"
      · simp [heq, globMatches]
      · simp [heq]
    simp only [hstar]
    constructor
    · rintro ⟨_, ⟨⟨name, rfl, hget, hmatch⟩, hread⟩, rfl⟩
      obtain ⟨content, hfile⟩ := isFile_of_openFile hfree hdir hget hread
      exact ⟨⟨[], name, content, rfl, hfile, hmatch⟩, by simp⟩
    · rintro ⟨⟨s, name, content, rfl, hfile, hmatch⟩, hlast⟩
      obtain rfl : s = [] := by simpa [← List.append_assoc] using hlast
      rw [List.nil_append] at hfile
      exact ⟨[name], ⟨⟨name, rfl, by simp [hfile], hmatch⟩,
        by simp [openFile_below hdir hfile]⟩, rfl⟩

/-- A file whose matching lines both print alike: no other character ends a line, nothing is
stripped, and the path of the root is nowhere in what is printed. -/
structure PlainFor (W : Workspace) (S : SearchEnv) (pattern : String) (f : PurePath)
    (content : String) : Prop where
  lines : S.text.lines content = newlineLines content
  rstrip : ∀ line ∈ newlineLines content, contains pattern line = true → S.text.rstrip line = line
  rootless : ∀ n, ∀ line ∈ newlineLines content, contains pattern line = true →
    ¬ ("/" ++ joinPath W.root ++ "/").toList <:+: (W.reLine S f n line).toList

theorem joinPath_append {p q : PurePath} (hp : p ≠ []) (hq : q ≠ []) :
    joinPath (p ++ q) = joinPath p ++ "/" ++ joinPath q :=
  String.intercalate_append_of_ne_nil hp hq

theorem unrooted_rgLine {f : PurePath} {n : ℕ} {line : String} (hroot : W.root ≠ [])
    (hf : W.root <+: f) (hne : f ≠ W.root) (hsearch : f ≠ searchDir)
    (hstrip : S.text.rstrip line = line)
    (hrootless : ¬ ("/" ++ joinPath W.root ++ "/").toList <:+: (W.reLine S f n line).toList) :
    W.unrooted (rgLine searchDir f n line) = W.reLine S f n line := by
  obtain ⟨rel, rfl⟩ := hf
  have hrel : rel ≠ [] := by
    rintro rfl
    exact hne (List.append_nil _)
  have hline : (rgLine searchDir (W.root ++ rel) n line).toList =
      ("/" ++ joinPath W.root ++ "/").toList ++ (W.reLine S (W.root ++ rel) n line).toList := by
    rw [← String.toList_append, rgLine, if_neg hsearch, reLine, hstrip, List.drop_left,
      joinPath_append hroot hrel]
    simp only [String.append_assoc]
  rw [unrooted, hline, Cuts.replaceAll_mark_append (by simp), List.nil_append,
    Cuts.replaceAll_of_absent (by simp) hrootless, String.ofList_toList]

theorem rgReported_eq_of_plain {content : String} (hroot : W.root ≠ [])
    (hresolve : W.safeResolve path = .ok searchDir) (hdir : W.tree.get searchDir = some .dir)
    (hf : f ∈ rgFiles W.tree includeGlob searchDir) (hget : W.tree.get f = some (.file content))
    (hplain : PlainFor W S pattern f content) :
    W.rgReported pattern includeGlob searchDir f =
      W.reReported S (contains pattern) searchDir f := by
  obtain ⟨s, name, -, rfl, -, -⟩ := (mem_rgFiles hdir).1 hf
  have hne : s ++ [name] ≠ [] := by simp
  have hlonger := List.length_pos_iff.2 hne
  have hin := (safeResolve_eq_ok hresolve).1
  rw [rgReported, if_pos hf, rgPrinted, hget, reReported, searchPath_dir hresolve hdir,
    List.drop_left, openFile_below hdir hget]
  dsimp only
  rw [hplain.lines]
  refine map_matchesOf fun n line hline hsearch => congrArg (GrepMatch.mk _ n) ?_
  refine unrooted_rgLine hroot (hin.trans (List.prefix_append _ _)) (fun heq => ?_) (fun heq => ?_)
    (hplain.rstrip line hline hsearch) (hplain.rootless n line hline hsearch)
  · have hlength := congrArg List.length heq
    have hle := hin.length_le
    rw [List.length_append] at hlength
    omega
  · exact hne (List.append_right_eq_self.1 heq)

/-- In a directory without links and of plain files, the limit is what the two agree on exactly when
the glob is empty or all matches are directly in the directory. -/
theorem sameMatches_iff_of_plain (hroot : W.root ≠ []) (hglob : IsExtensionGlob includeGlob)
    (hfnmatch : ∀ name, S.text.fnmatch includeGlob name = globMatches includeGlob name)
    (hresolve : W.safeResolve path = .ok searchDir) (hdir : W.tree.get searchDir = some .dir)
    (hfree : LinkFree W searchDir)
    (hplain : ∀ f ∈ rgFiles W.tree includeGlob searchDir, ∀ content,
      W.tree.get f = some (.file content) → PlainFor W S pattern f content) :
    W.SameMatches S pattern includeGlob searchDir limit ↔ includeGlob = "" ∨
      ∀ f ∈ rgFiles W.tree includeGlob searchDir,
        rgPrinted W.tree pattern searchDir f ≠ [] → f.dropLast = searchDir := by
  have halike : ∀ f ∈ rgFiles W.tree includeGlob searchDir,
      W.rgReported pattern includeGlob searchDir f =
        W.reReported S (contains pattern) searchDir f := by
    intro f hf
    obtain ⟨s, name, content, rfl, hget, -⟩ := (mem_rgFiles hdir).1 hf
    exact rgReported_eq_of_plain hroot hresolve hdir hf hget (hplain _ hf content hget)
  have hmem := fun f => mem_reFiles_iff (f := f) hglob hfnmatch hresolve hdir hfree
  have hprinted : ∀ f ∈ rgFiles W.tree includeGlob searchDir,
      W.rgReported pattern includeGlob searchDir f ≠ [] ↔
        rgPrinted W.tree pattern searchDir f ≠ [] := by
    intro f hf
    rw [rgReported, if_pos hf, ne_eq, List.map_eq_nil_iff]
  rw [sameMatches_iff_reported]
  constructor
  · rintro ⟨hselected, -, -⟩
    refine or_iff_not_imp_left.2 fun hne f hf hmatch => ?_
    exact ((hmem f).1 (hselected f hf ((hprinted f hf).2 hmatch))).2.resolve_left hne
  · intro h
    refine ⟨fun f hf hmatch => (hmem f).2 ⟨hf, h.imp_right fun hall => ?_⟩, fun f hf => ?_,
      fun f hf hlt => ?_⟩
    · exact hall f hf ((hprinted f hf).1 hmatch)
    · rw [halike f ((hmem f).1 hf).1]
    · rw [halike f ((hmem f).1 hf).1] at hlt
      exact absurd hlt (lt_irrefl _)

/-! ### Two files -/

theorem prefix_of_mem_rgFiles {t : FileTree} (h : f ∈ rgFiles t includeGlob searchDir) :
    searchDir <+: f := by
  unfold rgFiles at h
  split_ifs at h
  · rw [List.mem_singleton.1 h]
  · obtain ⟨s, -, rfl⟩ := List.mem_map.1 (List.mem_filter.1 h).1
    exact List.prefix_append _ _

/-- An `rg` that finds what it is to find, file after file. -/
def inOrder : Ripgrep where
  run t limit includeGlob pattern searchDir :=
    let found := Quotas.each limit.toNat (rgPrinted t pattern searchDir)
      (rgFiles t includeGlob searchDir)
    .exited (if limit < 0 then 2 else if found = [] then 1 else 0)
      (String.join (found.map fun m => m.text ++ "\n")) "" (rgFiles t includeGlob searchDir)
  within t limit includeGlob pattern searchDir code stdout stderr hits h p hp := by
    obtain ⟨-, -, -, rfl⟩ := RgOutcome.exited.inj h
    exact prefix_of_mem_rgFiles hp

theorem finds_inOrder (t : FileTree) (limit : ℤ) (includeGlob pattern : String)
    (searchDir : PurePath) : inOrder.Finds t limit includeGlob pattern searchDir
      (Quotas.each limit.toNat (rgPrinted t pattern searchDir)
        (rgFiles t includeGlob searchDir)) :=
  ⟨List.Perm.refl _, "", _, rfl⟩

/-- Literal patterns, and no character but a newline that ends a line. -/
def literalText : SearchEnv where
  text :=
    { splitlines := fun s => [s]
      rstrip := id
      lines := newlineLines
      strip := id
      repr := fun s => "'" ++ s ++ "'"
      compile := fun pattern => .ok (contains pattern)
      compile_empty := by
        refine congrArg Except.ok (funext fun line => ?_)
        exact decide_eq_true List.nil_infix
      fnmatch := globMatches }
  rg := none

/-- `/ws` is a workspace with two files. -/
def sources : Workspace where
  tree :=
    { kinds := ((((∅ : Dict PurePath FileKind).insert ["ws"] .dir).insert ["ws", "a.py"]
        (.file "x")).insert ["ws", "b.py"] (.file "x"))
      parent := by
        intro p name h
        have hin : ∀ part, p ++ [name] = ["ws"] ++ [part] → p = ["ws"] ∧ name = part :=
          fun part heq => List.append_singleton_inj.1 heq
        rw [AList.lookup_isSome, AList.mem_insert, AList.mem_insert, AList.mem_insert] at h
        rcases h with h | h | h | h
        · obtain ⟨rfl, rfl⟩ := hin "b.py" h
          exact ⟨by decide, Or.inr rfl⟩
        · obtain ⟨rfl, rfl⟩ := hin "a.py" h
          exact ⟨by decide, Or.inr rfl⟩
        · have hpath : p ++ [name] = [] ++ ["ws"] := h
          obtain ⟨rfl, rfl⟩ := List.append_singleton_inj.1 hpath
          exact ⟨by decide, Or.inl rfl⟩
        · exact absurd h (AList.notMem_empty _) }
  depth := 1
  workspaceRoot := ["ws"]
  root := ["ws"]
  resolved := rfl
  isDir := rfl

theorem isExtensionGlob_py : IsExtensionGlob "*.py" :=
  Or.inr ⟨['p', 'y'], rfl, List.cons_ne_nil _ _, by simp⟩

theorem linkFree_sources : LinkFree sources ["ws"] := by
  intro p hp absolute target hlink
  have hne : p ≠ [] := by
    rintro rfl
    exact absurd (List.prefix_nil.1 hp) (by decide)
  rw [FileTree.get, if_neg hne] at hlink
  have hentry : (⟨p, .link absolute target⟩ : Sigma fun _ : PurePath => FileKind) ∈
      [⟨["ws", "b.py"], .file "x"⟩, ⟨["ws", "a.py"], .file "x"⟩, ⟨["ws"], .dir⟩] :=
    AList.mem_lookup_iff.1 hlink
  simp at hentry

theorem plainFor_sources {content : String} (hf : f ∈ rgFiles sources.tree "*.py" ["ws"])
    (hget : sources.tree.get f = some (.file content)) :
    PlainFor sources literalText "x" f content where
  lines := rfl
  rstrip _ _ _ := rfl
  rootless n line hline _ hin := by
    have hslash : '/' ∈ (sources.reLine literalText f n line).toList := hin.subset (by decide)
    have hcase : f = ["ws", "b.py"] ∨ f = ["ws", "a.py"] := by
      have hmem : f ∈ [["ws", "b.py"], ["ws", "a.py"]] := hf
      simpa using hmem
    have hcontent : content = "x" := by
      rcases hcase with rfl | rfl
      · exact (FileKind.file.inj (Option.some.inj hget)).symm
      · exact (FileKind.file.inj (Option.some.inj hget)).symm
    subst hcontent
    obtain rfl := List.mem_singleton.1 (show line ∈ ["x"] from hline)
    simp only [reLine, String.toList_append, List.mem_append] at hslash
    rcases hslash with (((hslash | hslash) | hslash) | hslash) | hslash
    · rcases hcase with rfl | rfl
      · exact absurd hslash (by decide)
      · exact absurd hslash (by decide)
    · exact absurd hslash (by decide)
    · exact absurd hslash (notMem_toString (by decide) n)
    · exact absurd hslash (by decide)
    · exact absurd hslash (by decide)

/-- The exact condition under which the two agree. -/
theorem grepsAgree_iff (rg : Ripgrep) {found : List GrepMatch} (hglob : IsExtensionGlob includeGlob)
    (hcompile : S.text.compile pattern = .ok (contains pattern))
    (hrg : rg.Finds W.tree limit includeGlob pattern searchDir found) :
    W.GrepsAgree S pattern includeGlob searchDir limit found ↔ 0 ≤ limit ∧
      (limit = 0 → ∀ f ∈ (W.reFiles S includeGlob searchDir).head?,
        W.reReported S (contains pattern) searchDir f = []) ∧
      (0 < limit → matchCount W.tree pattern includeGlob searchDir ≤ limit →
        W.SameMatches S pattern includeGlob searchDir limit) ∧
      (0 < limit → limit < matchCount W.tree pattern includeGlob searchDir →
        ∀ f ∈ rgFiles W.tree includeGlob searchDir, ∀ g ∈ rgFiles W.tree includeGlob searchDir,
          rgPrinted W.tree pattern searchDir f ≠ [] →
            rgPrinted W.tree pattern searchDir g ≠ [] → f = g) := by
  rcases lt_trichotomy limit 0 with hneg | rfl | hpos
  · exact iff_of_false (not_grepsAgree_neg hneg) fun h => absurd h.1 (not_le.2 hneg)
  · rw [grepsAgree_zero_iff hrg, reFound_zero hcompile]
    constructor
    · intro hnone
      exact ⟨le_rfl, fun _ => hnone, fun h => absurd h (lt_irrefl 0),
        fun h => absurd h (lt_irrefl 0)⟩
    · rintro ⟨-, hnone, -, -⟩
      exact hnone rfl
  · constructor
    · rintro ⟨hroom, hmany⟩
      refine ⟨hpos.le, fun h => absurd h hpos.ne', fun _ hle => ?_, fun _ hlt => ?_⟩
      · refine (mem_reFound_iff hglob hcompile hpos hle).1 fun m => ?_
        exact (mem_found_iff hrg hle m).symm.trans (hroom hle m)
      · rw [← length_found_le_iff hpos hrg hlt, ← List.length_map (f := W.unrootedMatch)]
        exact (hmany hlt).1
    · rintro ⟨-, -, hsame, hone⟩
      refine ⟨fun hle m => ?_, fun hlt => ⟨?_, length_reFound_le hpos⟩⟩
      · exact (mem_found_iff hrg hle m).trans
          ((mem_reFound_iff hglob hcompile hpos hle).2 (hsame hpos hle) m)
      · rw [List.length_map, length_found_le_iff hpos hrg hlt]
        exact hone hpos hlt

theorem grepsAgree_iff_sources :
    sources.GrepsAgree literalText "x" "*.py" ["ws"] 50 (Quotas.each 50
      (rgPrinted sources.tree "x" ["ws"]) (rgFiles sources.tree "*.py" ["ws"])) := by
  refine (grepsAgree_iff inOrder isExtensionGlob_py rfl
    (finds_inOrder sources.tree 50 "*.py" "x" ["ws"])).2 ⟨by decide, by decide, ?_, ?_⟩
  · intro _ _
    have hresolve : sources.safeResolve "." = .ok ["ws"] := rfl
    refine (sameMatches_iff_of_plain (by decide) isExtensionGlob_py (fun _ => rfl) hresolve rfl
      linkFree_sources fun f hf content => plainFor_sources hf).2 (Or.inr ?_)
    decide +kernel
  · decide +kernel

/-- A limit for each file is no limit for all. -/
theorem grep_two_files : ∃ found, inOrder.Finds sources.tree 1 "*.py" "x" ["ws"] found ∧
    ¬ sources.GrepsAgree literalText "x" "*.py" ["ws"] 1 found := by
  refine ⟨_, finds_inOrder sources.tree 1 "*.py" "x" ["ws"], ?_⟩
  rintro ⟨-, h⟩
  exact absurd (h (by decide +kernel)).1 (by decide +kernel)

end Workspace

end NemoClaw
