import Mathlib.Data.List.Lex
import Mathlib.Data.String.Basic
import NemoClaw.Agent.FileTools

/-! The globs of `pathlib`, which the search tools of the coding agent take from the model. They are
a second language of paths: along a pattern `..` and links are followed, and nothing checks where
they lead. What a pattern selects is where its parts lead. -/

namespace NemoClaw

open Lib

inductive GlobPart
  | up
  /-- the end of a pattern that ends in a slash -/
  | slash
  /-- `**` -/
  | deep
  | literal (name : String)
  | wild (pattern : String)
  deriving DecidableEq, Repr

def globPart (part : String) : GlobPart :=
  if part = ".." then .up
  else if part = "**" then .deep
  else if '*' ∈ part.toList ∨ '?' ∈ part.toList ∨ '[' ∈ part.toList then .wild part
  else .literal part

/-- One `**` stands for several in a row. -/
def collapse : List GlobPart → List GlobPart
  | [] => []
  | part :: parts =>
    if part = .deep ∧ parts.head? = some .deep then collapse parts else part :: collapse parts

inductive GlobError
  | notImplementedError (text : String)
  | valueError (text : String)

/-- `_parse_pattern` -/
def parsePattern (repr : String → String) (pattern : String) : Except GlobError (List GlobPart) :=
  if isAbs pattern then .error (.notImplementedError "Non-relative patterns are unsupported")
  else if pathParts pattern = [] then
    .error (.valueError ("Unacceptable pattern: " ++ repr pattern))
  else
    .ok (collapse ((pathParts pattern).map globPart) ++
      if pattern.toList.getLast? = some '/' then [.slash] else [])

/-- Python's `re`, `fnmatch` and text functions. -/
structure SearchText extends FileText where
  /-- `splitlines()` -/
  lines : String → List String
  strip : String → String
  repr : String → String
  /-- `re.compile(pattern).search` -/
  compile : String → Except String (String → Bool)
  compile_empty : compile "" = .ok fun _ => true
  /-- what a part of a glob matches -/
  fnmatch : String → String → Bool

namespace Workspace

variable (W : Workspace) (T : SearchText)

def lexists (d : PurePath) (cur : List String) : Bool :=
  match cur.getLast? with
  | none => (W.tree.get d).isSome
  | some last =>
    match W.tree.walk true W.depth d cur.dropLast with
    | none => false
    | some p =>
      if IsName last then (W.tree.get (p ++ [last])).isSome else W.tree.get p = some .dir

def scandir (d : PurePath) (cur : List String) : List String :=
  match W.openDir d cur with
  | none => []
  | some p => W.tree.names p

/-- What `**` finds below: no link is followed. -/
def walkBelow (d : PurePath) (cur : List String) (dirOnly : Bool) : List (List String) :=
  match W.openDir d cur with
  | none => []
  | some p =>
    ((W.tree.below p).filter fun s => !dirOnly || W.tree.get (p ++ s) = some .dir).map (cur ++ ·)

/-- The paths from the directory `d` that a pattern selects, behind `cur`. The argument `exists` of
the selectors only spares them a look at the tree. -/
def select (d : PurePath) : List GlobPart → List String → List (List String)
  | [], cur => if W.lexists d cur then [cur] else []
  | .up :: parts, cur => select d parts (cur ++ [".."])
  | .slash :: parts, cur => if (W.openDir d cur).isSome then select d parts cur else []
  | .literal name :: parts, cur => select d parts (cur ++ [name])
  | .wild pattern :: parts, cur =>
    (((W.scandir d cur).filter fun name => pattern = "*" || T.fnmatch pattern name).map
      fun name => cur ++ [name]).flatMap fun entry =>
        if parts = [] then [entry]
        else if (W.openDir d entry).isSome then select d parts entry else []
  | .deep :: parts, cur =>
    if parts = [] then
      (if (W.openDir d cur).isSome then [cur] else []) ++ W.walkBelow d cur false
    else select d parts cur ++ (W.walkBelow d cur true).flatMap fun entry => select d parts entry

/-- `sorted(d.glob(pattern))`, the regular files of it. -/
def globFiles (d : PurePath) (parts : List GlobPart) : List (List String) :=
  ((W.select T d parts []).mergeSort fun a b => decide (a ≤ b)).filter fun r =>
    (W.openFile d r).isSome

/-- The entry at the end of a path. -/
def entryAt (d : PurePath) (r : List String) : Option PurePath :=
  r.getLast?.bind fun last => (W.tree.walk true W.depth d r.dropLast).map fun p => p ++ [last]

/-! ### Where patterns lead -/

/-- The system enters a directory by this name. -/
def Enters (W : Workspace) (d : PurePath) (name : String) (e : PurePath) : Prop :=
  W.tree.follow true W.depth d name = some e ∧ W.tree.get e = some .dir

/-- The system reads a file under this name. -/
def ReadsAt (W : Workspace) (d : PurePath) (name : String) (file : PurePath) (content : String) :
    Prop :=
  W.tree.follow true W.depth d name = some file ∧ W.tree.get file = some (.file content)

/-- From a directory, the parts of a pattern lead to an entry of another. -/
inductive Leads (W : Workspace) (T : SearchText) :
    PurePath → List GlobPart → PurePath → String → Prop
  | literal {d name} : W.tree.get (d ++ [name]) ≠ none → Leads W T d [.literal name] d name
  | literal_cons {d name d' parts e n} : W.Enters d name d' → Leads W T d' parts e n →
      Leads W T d (.literal name :: parts) e n
  | wild {d pattern name} : (pattern = "*" || T.fnmatch pattern name) = true →
      W.tree.get (d ++ [name]) ≠ none → Leads W T d [.wild pattern] d name
  | wild_cons {d pattern name d' parts e n} :
      (pattern = "*" || T.fnmatch pattern name) = true → W.tree.get (d ++ [name]) ≠ none →
      W.Enters d name d' → Leads W T d' parts e n → Leads W T d (.wild pattern :: parts) e n
  | up {d parts e n} : Leads W T d.dropLast parts e n → Leads W T d (.up :: parts) e n
  | slash {d parts e n} : Leads W T d parts e n → Leads W T d (.slash :: parts) e n
  | deep {d s n} : W.tree.get (d ++ s ++ [n]) ≠ none → Leads W T d [.deep] (d ++ s) n
  | deep_cons {d s parts e n} : W.tree.get (d ++ s) = some .dir → Leads W T (d ++ s) parts e n →
      Leads W T d (.deep :: parts) e n

variable {W T} {d e p q : PurePath} {cur r : List String} {name : String} {parts : List GlobPart}
  {content : String}

theorem openFile_iff : W.openFile d r = some (q, content) ↔
    W.tree.walk true W.depth d r = some q ∧ W.tree.get q = some (.file content) := by
  constructor
  · exact openFile_eq_some
  · rintro ⟨hwalk, hget⟩
    simp [openFile, hwalk, hget]

/-- The last part of a walk is looked up in a directory. -/
theorem walk_concat_iff : W.tree.walk true W.depth d (cur ++ [name]) = some e ↔
    ∃ p, W.openDir d cur = some p ∧ W.tree.follow true W.depth p name = some e := by
  rw [FileTree.walk_concat, Option.bind_eq_some_iff]
  refine exists_congr fun p => and_congr_left fun hfollow => ?_
  rw [openDir_eq_some]
  exact (and_iff_left (FileTree.get_of_follow hfollow)).symm

/-- A directory is reached through a directory. -/
theorem openDir_concat : W.openDir d (cur ++ [name]) = some e ↔
    ∃ p, W.openDir d cur = some p ∧ W.Enters p name e := by
  rw [openDir_eq_some, walk_concat_iff, ← exists_and_right]
  exact exists_congr fun _ => and_assoc

/-- A file is read under a name in a directory. -/
theorem openFile_concat : W.openFile d (cur ++ [name]) = some (q, content) ↔
    ∃ p, W.openDir d cur = some p ∧ W.ReadsAt p name q content := by
  rw [openFile_iff, walk_concat_iff, ← exists_and_right]
  exact exists_congr fun _ => and_assoc

/-- The name under which a file is read is the name of an entry. -/
theorem get_of_readsAt (h : W.ReadsAt p name q content) : W.tree.get (p ++ [name]) ≠ none := by
  rcases FileTree.follow_cases h.1 with ⟨-, hprefix, hdir⟩ | ⟨absolute, target, _, hlink, -, -⟩ |
    ⟨-, rfl, hget, -⟩
  · have hq : W.tree.get q = some .dir := by
      by_cases heq : q = p
      · rw [heq, hdir rfl]
      · exact FileTree.get_above (by simp [hdir rfl]) hprefix heq
    rw [h.2] at hq
    simp at hq
  · simp [hlink]
  · exact hget rfl

theorem openDir_append {s : List String} (h : W.openDir d cur = some p)
    (hget : W.tree.get (p ++ s) = some .dir) : W.openDir d (cur ++ s) = some (p ++ s) := by
  rw [openDir_eq_some] at h ⊢
  rw [FileTree.walk_append, h.1]
  exact ⟨FileTree.walk_below hget, hget⟩

theorem mem_scandir : name ∈ W.scandir d cur ↔
    ∃ p, W.openDir d cur = some p ∧ W.tree.get (p ++ [name]) ≠ none := by
  unfold scandir
  cases W.openDir d cur with
  | none => simp
  | some p => simp [FileTree.mem_names]

theorem mem_walkBelow {dirOnly : Bool} : r ∈ W.walkBelow d cur dirOnly ↔
    ∃ p s, W.openDir d cur = some p ∧ s ≠ [] ∧ W.tree.get (p ++ s) ≠ none ∧
      (dirOnly = true → W.tree.get (p ++ s) = some .dir) ∧ r = cur ++ s := by
  unfold walkBelow
  cases hdir : W.openDir d cur with
  | none => simp
  | some p =>
    simp only [List.mem_map, List.mem_filter, FileTree.mem_below, Bool.or_eq_true,
      Bool.not_eq_true', decide_eq_true_eq, Option.some.injEq]
    constructor
    · rintro ⟨s, ⟨⟨hne, hget⟩, hkind⟩, rfl⟩
      exact ⟨p, s, rfl, hne, hget, fun honly => hkind.resolve_left (by simp [honly]), rfl⟩
    · rintro ⟨_, s, rfl, hne, hget, hkind, rfl⟩
      refine ⟨s, ⟨⟨hne, hget⟩, ?_⟩, rfl⟩
      cases dirOnly with
      | false => exact Or.inl rfl
      | true => exact Or.inr (hkind rfl)

/-- A file is no directory. -/
theorem openDir_of_openFile (h : W.openFile d r = some (q, content)) : W.openDir d r = none := by
  rw [Option.eq_none_iff_forall_ne_some]
  intro p hp
  rw [openFile_iff] at h
  rw [openDir_eq_some, h.1] at hp
  obtain ⟨heq, hget⟩ := hp
  obtain rfl := Option.some.inj heq
  rw [h.2] at hget
  simp at hget

theorem ne_nil_of_leads {n : String} (h : Leads W T d parts e n) : parts ≠ [] := by
  cases h <;> simp

theorem enters_up : W.Enters p ".." e ↔ W.tree.get p = some .dir ∧ e = p.dropLast := by
  constructor
  · intro h
    have hdir := FileTree.get_of_follow h.1
    exact ⟨hdir, Option.some.inj (h.1.symm.trans (FileTree.follow_up hdir))⟩
  · rintro ⟨hdir, rfl⟩
    refine ⟨FileTree.follow_up hdir, ?_⟩
    by_cases heq : p.dropLast = p
    · rw [heq, hdir]
    · exact FileTree.get_above (by simp [hdir]) (List.dropLast_prefix p) heq

/-- At the end of a pattern, `**` selects what stands in a directory below, when it is no
directory. -/
theorem leads_deep (h : r ∈ W.select T d [.deep] cur) (hnot : ¬ (W.openDir d r).isSome = true) :
    ∃ p e n r', W.openDir d cur = some p ∧ Leads W T p [.deep] e n ∧ r = r' ++ [n] ∧
      W.openDir d r' = some e := by
  rw [select, if_pos rfl] at h
  rcases List.mem_append.1 h with h | h
  · split_ifs at h with hcur
    · obtain rfl := List.mem_singleton.1 h
      exact absurd hcur hnot
    · simp at h
  · obtain ⟨p, s, hdir, hs, hget, -, rfl⟩ := mem_walkBelow.1 h
    obtain ⟨s', n, rfl⟩ : ∃ s' n, s = s' ++ [n] :=
      ⟨_, _, (List.dropLast_append_getLast hs).symm⟩
    rw [← List.append_assoc] at hget
    refine ⟨p, p ++ s', n, cur ++ s', hdir, .deep hget, (List.append_assoc _ _ _).symm, ?_⟩
    exact openDir_append hdir (FileTree.get_parent hget).2

/-- Before more parts, `**` leads to the directory itself or one below. -/
theorem leads_deep_cons (h : r ∈ W.select T d (.deep :: parts) cur) (hne : parts ≠ [])
    (hrest : ∀ cur, r ∈ W.select T d parts cur → ∃ p e n r', W.openDir d cur = some p ∧
      Leads W T p parts e n ∧ r = r' ++ [n] ∧ W.openDir d r' = some e) :
    ∃ p e n r', W.openDir d cur = some p ∧ Leads W T p (.deep :: parts) e n ∧ r = r' ++ [n] ∧
      W.openDir d r' = some e := by
  rw [select, if_neg hne] at h
  rcases List.mem_append.1 h with h | h
  · obtain ⟨p, e, n, r', hdir, hleads, hr⟩ := hrest cur h
    have hget : W.tree.get (p ++ []) = some .dir := by
      rw [List.append_nil]
      exact (openDir_eq_some.1 hdir).2
    refine ⟨p, e, n, r', hdir, .deep_cons hget ?_, hr⟩
    rwa [List.append_nil]
  · obtain ⟨entry, hentry, h⟩ := List.mem_flatMap.1 h
    obtain ⟨p, s, hdir, -, -, hget, rfl⟩ := mem_walkBelow.1 hentry
    obtain ⟨p', e, n, r', hdir', hleads, hr⟩ := hrest _ h
    obtain rfl := Option.some.inj ((openDir_append hdir (hget rfl)).symm.trans hdir')
    exact ⟨p, e, n, r', hdir, .deep_cons (hget rfl) hleads, hr⟩

/-- Every file that a pattern selects is one that its parts lead to. -/
theorem leads_of_mem_select (h : r ∈ W.select T d parts cur) (hne : parts ≠ [])
    (hfile : W.openFile d r = some (q, content)) : ∃ p e n r', W.openDir d cur = some p ∧
      Leads W T p parts e n ∧ r = r' ++ [n] ∧ W.openDir d r' = some e := by
  have hlast : ∀ cur', r ∈ W.select T d [] cur' → r = cur' := by
    intro cur'
    simp only [select]
    split_ifs <;> simp
  have hnot : ¬ (W.openDir d r).isSome = true := by simp [openDir_of_openFile hfile]
  induction parts generalizing cur with
  | nil => exact absurd rfl hne
  | cons part parts ih =>
    cases part with
    | up =>
      by_cases hparts : parts = []
      · subst hparts
        obtain rfl := hlast _ h
        obtain ⟨p, -, hread⟩ := openFile_concat.1 hfile
        exact absurd (FileTree.get_parent (get_of_readsAt hread)).1 (by decide)
      · obtain ⟨p', e, n, r', hdir, hleads, hr⟩ := ih h hparts
        obtain ⟨p, hp, henters⟩ := openDir_concat.1 hdir
        obtain ⟨-, rfl⟩ := enters_up.1 henters
        exact ⟨p, e, n, r', hp, .up hleads, hr⟩
    | slash =>
      rw [select] at h
      split_ifs at h with hcur
      · by_cases hparts : parts = []
        · subst hparts
          obtain rfl := hlast _ h
          exact absurd hcur hnot
        · obtain ⟨p, e, n, r', hdir, hleads, hr⟩ := ih h hparts
          exact ⟨p, e, n, r', hdir, .slash hleads, hr⟩
      · simp at h
    | deep =>
      by_cases hparts : parts = []
      · subst hparts
        exact leads_deep h hnot
      · exact leads_deep_cons h hparts fun _ h => ih h hparts
    | literal name =>
      by_cases hparts : parts = []
      · subst hparts
        obtain rfl := hlast _ h
        obtain ⟨p, hdir, hread⟩ := openFile_concat.1 hfile
        exact ⟨p, p, name, cur, hdir, .literal (get_of_readsAt hread), rfl, hdir⟩
      · obtain ⟨p', e, n, r', hdir, hleads, hr⟩ := ih h hparts
        obtain ⟨p, hp, henters⟩ := openDir_concat.1 hdir
        exact ⟨p, e, n, r', hp, .literal_cons henters hleads, hr⟩
    | wild pattern =>
      rw [select] at h
      obtain ⟨entry, hentry, hr⟩ := List.mem_flatMap.1 h
      obtain ⟨name, hname, rfl⟩ := List.mem_map.1 hentry
      obtain ⟨hscan, hmatch⟩ := List.mem_filter.1 hname
      obtain ⟨p, hdir, hget⟩ := mem_scandir.1 hscan
      split_ifs at hr with hparts hcur
      · subst hparts
        obtain rfl := List.mem_singleton.1 hr
        exact ⟨p, p, name, cur, hdir, .wild hmatch hget, rfl, hdir⟩
      · obtain ⟨p', e, n, r', hdir', hleads, hr⟩ := ih hr hparts
        obtain ⟨p'', hp, henters⟩ := openDir_concat.1 hdir'
        obtain rfl := Option.some.inj (hdir.symm.trans hp)
        exact ⟨p, e, n, r', hdir, .wild_cons hmatch hget henters hleads, hr⟩
      · simp at hr

/-- Every file that the parts of a pattern lead to is selected. -/
theorem mem_select_of_leads {n : String} (h : Leads W T p parts e n)
    (hdir : W.openDir d cur = some p) :
    ∃ r', r' ++ [n] ∈ W.select T d parts cur ∧ W.openDir d r' = some e := by
  induction h generalizing cur with
  | @literal p name hget =>
    refine ⟨cur, ?_, hdir⟩
    have hexists : W.lexists d (cur ++ [name]) = true := by
      simp [lexists, (openDir_eq_some.1 hdir).1, (FileTree.get_parent hget).1,
        Option.isSome_iff_ne_none, hget]
    simp [select, hexists]
  | @literal_cons p name p' parts e n henters _ ih =>
    exact ih (openDir_concat.2 ⟨p, hdir, henters⟩)
  | @wild p pattern name hmatch hget =>
    refine ⟨cur, ?_, hdir⟩
    rw [select]
    refine List.mem_flatMap.2 ⟨cur ++ [name], List.mem_map.2 ⟨name, ?_, rfl⟩, by simp⟩
    exact List.mem_filter.2 ⟨mem_scandir.2 ⟨p, hdir, hget⟩, hmatch⟩
  | @wild_cons p pattern name p' parts e n hmatch hget henters hleads ih =>
    have hentry := openDir_concat.2 ⟨p, hdir, henters⟩
    obtain ⟨r', hr', he⟩ := ih hentry
    refine ⟨r', ?_, he⟩
    rw [select]
    refine List.mem_flatMap.2 ⟨cur ++ [name], List.mem_map.2 ⟨name, ?_, rfl⟩, ?_⟩
    · exact List.mem_filter.2 ⟨mem_scandir.2 ⟨p, hdir, hget⟩, hmatch⟩
    · rwa [if_neg (ne_nil_of_leads hleads), if_pos (by simp [hentry])]
  | @up p parts e n _ ih =>
    exact ih (openDir_concat.2 ⟨p, hdir, enters_up.2 ⟨(openDir_eq_some.1 hdir).2, rfl⟩⟩)
  | @slash p parts e n _ ih =>
    obtain ⟨r', hr', he⟩ := ih hdir
    refine ⟨r', ?_, he⟩
    rwa [select, if_pos (by simp [hdir])]
  | @deep p s n hget =>
    refine ⟨cur ++ s, ?_, openDir_append hdir (FileTree.get_parent hget).2⟩
    rw [select, if_pos rfl]
    refine List.mem_append_right _ (mem_walkBelow.2 ⟨p, s ++ [n], hdir, by simp, ?_, by simp, ?_⟩)
    · rwa [← List.append_assoc]
    · exact List.append_assoc _ _ _
  | @deep_cons p s parts e n hget hleads ih =>
    obtain ⟨r', hr', he⟩ := ih (openDir_append hdir hget)
    refine ⟨r', ?_, he⟩
    rw [select, if_neg (ne_nil_of_leads hleads)]
    by_cases hs : s = []
    · subst hs
      rw [List.append_nil] at hr'
      exact List.mem_append_left _ hr'
    · refine List.mem_append_right _ (List.mem_flatMap.2 ⟨cur ++ s, ?_, hr'⟩)
      exact mem_walkBelow.2 ⟨p, s, hdir, hs, by simp [hget], fun _ => hget, rfl⟩

theorem mem_globFiles : r ∈ W.globFiles T d parts ↔
    r ∈ W.select T d parts [] ∧ (W.openFile d r).isSome = true := by
  simp [globFiles, List.mem_mergeSort]

theorem entryAt_concat {n : String} (h : W.openDir d r = some e) :
    W.entryAt d (r ++ [n]) = some (e ++ [n]) := by
  simp [entryAt, (openDir_eq_some.1 h).1]

theorem openDir_nil : W.openDir d [] = some p ↔ d = p ∧ W.tree.get d = some .dir := by
  rw [openDir_eq_some]
  simp only [FileTree.walk, List.foldlM_nil, Option.pure_def, Option.some.injEq]
  exact and_congr_right fun h => by rw [h]

theorem leads_of_mem_globFiles (h : r ∈ W.globFiles T d parts) (hne : parts ≠ []) :
    ∃ e n q content, W.tree.get d = some .dir ∧ Leads W T d parts e n ∧
      W.ReadsAt e n q content ∧ W.entryAt d r = some (e ++ [n]) ∧
        W.openFile d r = some (q, content) := by
  obtain ⟨hmem, hfile⟩ := mem_globFiles.1 h
  obtain ⟨⟨q, content⟩, hopen⟩ := Option.isSome_iff_exists.1 hfile
  obtain ⟨p, e, n, r', hdir, hleads, rfl, he⟩ := leads_of_mem_select hmem hne hopen
  obtain ⟨rfl, hget⟩ := openDir_nil.1 hdir
  obtain ⟨e', he', hread⟩ := openFile_concat.1 hopen
  obtain rfl := Option.some.inj (he.symm.trans he')
  exact ⟨e, n, q, content, hget, hleads, hread, entryAt_concat he, hopen⟩

theorem mem_globFiles_of_leads {n : String} (hget : W.tree.get d = some .dir)
    (h : Leads W T d parts e n) (hread : W.ReadsAt e n q content) :
    ∃ r ∈ W.globFiles T d parts, W.entryAt d r = some (e ++ [n]) ∧
      W.openFile d r = some (q, content) := by
  obtain ⟨r', hmem, he⟩ := mem_select_of_leads h (openDir_nil.2 ⟨rfl, hget⟩)
  have hopen := openFile_concat.2 ⟨e, he, hread⟩
  exact ⟨r' ++ [n], mem_globFiles.2 ⟨hmem, by simp [hopen]⟩, entryAt_concat he, hopen⟩

theorem collapse_ne_nil {parts : List GlobPart} (h : parts ≠ []) : collapse parts ≠ [] := by
  induction parts with
  | nil => exact absurd rfl h
  | cons part parts ih =>
    rw [collapse]
    split_ifs with hdeep
    · refine ih fun hnil => ?_
      rw [hnil] at hdeep
      simp at hdeep
    · simp

theorem ne_nil_of_parsePattern {repr : String → String} {pattern : String}
    (h : parsePattern repr pattern = .ok parts) : parts ≠ [] := by
  unfold parsePattern at h
  split_ifs at h with habs hnil hslash
  · obtain rfl := Except.ok.inj h
    simp
  · obtain rfl := Except.ok.inj h
    rw [List.append_nil]
    exact collapse_ne_nil (by simpa using hnil)

/-- The root is no file, so a file's entry that is in the root is in a directory of it. -/
theorem root_prefix_of_entry {n : String} (hread : W.ReadsAt e n q content)
    (h : W.root <+: e ++ [n]) : W.root <+: e := by
  rcases List.prefix_concat_iff.1 h with heq | h
  · have hdir : W.tree.get (e ++ [n]) = some .dir := by rw [← heq, W.isDir]
    have hfollow : W.tree.follow true W.depth e n = some (e ++ [n]) :=
      FileTree.follow_of_get (by simp [hdir]) (by simp [hdir])
    obtain rfl := Option.some.inj (hfollow.symm.trans hread.1)
    have hfile := hread.2
    rw [hdir] at hfile
    simp at hfile
  · exact h

/-! ### Plain patterns -/

theorem mem_of_mem_collapse {part : GlobPart} (h : part ∈ collapse parts) : part ∈ parts := by
  induction parts with
  | nil => exact h
  | cons first parts ih =>
    rw [collapse] at h
    split_ifs at h
    · exact List.mem_cons_of_mem _ (ih h)
    · rcases List.mem_cons.1 h with rfl | h
      · exact List.mem_cons_self
      · exact List.mem_cons_of_mem _ (ih h)

theorem mem_of_parsePattern {repr : String → String} {pattern : String} {part : GlobPart}
    (h : parsePattern repr pattern = .ok parts) (hmem : part ∈ parts) :
    part = .slash ∨ ∃ s ∈ pathParts pattern, part = globPart s := by
  unfold parsePattern at h
  split_ifs at h with habs hnil hslash
  · obtain rfl := Except.ok.inj h
    rcases List.mem_append.1 hmem with hmem | hmem
    · obtain ⟨s, hs, rfl⟩ := List.mem_map.1 (mem_of_mem_collapse hmem)
      exact Or.inr ⟨s, hs, rfl⟩
    · exact Or.inl (List.mem_singleton.1 hmem)
  · obtain rfl := Except.ok.inj h
    rw [List.append_nil] at hmem
    obtain ⟨s, hs, rfl⟩ := List.mem_map.1 (mem_of_mem_collapse hmem)
    exact Or.inr ⟨s, hs, rfl⟩

/-- A part that keeps to what is below. -/
def Descends : GlobPart → Prop
  | .up => False
  | .literal name => IsName name
  | _ => True

theorem descends_of_parsePattern {repr : String → String} {pattern : String} {part : GlobPart}
    (h : parsePattern repr pattern = .ok parts) (hup : ".." ∉ pathParts pattern)
    (hmem : part ∈ parts) : Descends part := by
  rcases mem_of_parsePattern h hmem with rfl | ⟨s, hs, rfl⟩
  · trivial
  · have hne : s ≠ ".." := by
      rintro rfl
      exact hup hs
    unfold globPart
    rw [if_neg hne]
    split_ifs
    · trivial
    · trivial
    · have hname := (List.mem_filter.1 hs).2
      rw [Bool.and_eq_true, decide_eq_true_eq, decide_eq_true_eq] at hname
      exact ⟨hne, hname.2, hname.1⟩

/-- There are no links in a directory, at any depth. -/
def LinkFree (W : Workspace) (d : PurePath) : Prop :=
  ∀ p, d <+: p → ∀ absolute target, W.tree.get p ≠ some (.link absolute target)

/-- Without links, what is found under a name is the entry of that name. -/
theorem eq_of_follow {root : PurePath} (hfree : LinkFree W root) (hd : root <+: d)
    (hname : IsName name) (h : W.tree.follow true W.depth d name = some e) : e = d ++ [name] := by
  rcases FileTree.follow_cases h with ⟨hnot, -, -⟩ | ⟨absolute, target, _, hlink, -, -⟩ |
    ⟨-, heq, -, -⟩
  · exact absurd hname hnot
  · exact absurd hlink (hfree _ (hd.trans (List.prefix_append _ _)) absolute target)
  · exact heq

/-- Without links, parts that descend lead to what is below. -/
theorem prefix_of_leads {root : PurePath} {n : String} (hfree : LinkFree W root)
    (h : Leads W T d parts e n) (hparts : ∀ part ∈ parts, Descends part) (hd : root <+: d) :
    root <+: e := by
  induction h with
  | literal _ => exact hd
  | @literal_cons d name d' parts e n henters _ ih =>
    have hname : IsName name := hparts _ List.mem_cons_self
    obtain rfl := eq_of_follow hfree hd hname henters.1
    exact ih (fun part hpart => hparts part (List.mem_cons_of_mem _ hpart))
      (hd.trans (List.prefix_append _ _))
  | wild _ _ => exact hd
  | @wild_cons d pattern name d' parts e n _ hget henters _ ih =>
    obtain rfl := eq_of_follow hfree hd (FileTree.get_parent hget).1 henters.1
    exact ih (fun part hpart => hparts part (List.mem_cons_of_mem _ hpart))
      (hd.trans (List.prefix_append _ _))
  | up _ _ => exact (hparts _ List.mem_cons_self).elim
  | slash _ ih => exact ih (fun part hpart => hparts part (List.mem_cons_of_mem _ hpart)) hd
  | deep _ => exact hd.trans (List.prefix_append _ _)
  | deep_cons _ _ ih =>
    exact ih (fun part hpart => hparts part (List.mem_cons_of_mem _ hpart))
      (hd.trans (List.prefix_append _ _))

/-- The entry to which a pattern leads has a name. -/
theorem isName_of_readsAt (h : W.ReadsAt p name q content) : IsName name :=
  (FileTree.get_parent (get_of_readsAt h)).1

end Workspace

end NemoClaw
