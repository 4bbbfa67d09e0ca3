import NemoClaw.Agent.Globs

/-! The search tools of the coding agent (`tools/search.py`), and with them the calls of all its
file tools. The replies of the file tools and of `rg` show nothing of what is outside of the
workspace; for a glob it comes down to where its parts lead. -/

namespace NemoClaw

open Lib

inductive RgOutcome
  | timedOut
  /-- `hits`: the files that the lines of standard output are from -/
  | exited (code : ℤ) (stdout stderr : String) (hits : List PurePath)

/-- The `rg` binary. Without `--follow` it searches the file it is given, or what stands below the
directory it is given, and follows no link; `--glob` leaves files out. -/
structure Ripgrep where
  run : FileTree → (limit : ℤ) → (includeGlob pattern : String) → PurePath → RgOutcome
  within : ∀ t limit includeGlob pattern searchDir code stdout stderr hits,
    run t limit includeGlob pattern searchDir = .exited code stdout stderr hits →
      ∀ p ∈ hits, searchDir <+: p

structure SearchEnv where
  text : SearchText
  /-- `shutil.which("rg")` -/
  rg : Option Ripgrep

namespace Workspace

variable (W : Workspace) (S : SearchEnv)

def globSearch (pattern : String) (limit : ℤ) : ToolReply :=
  match parsePattern S.text.repr pattern with
  -- no tool catches it; the agent loop makes its text the reply
  | .error (.notImplementedError text) => W.reply text
  | .error (.valueError text) => W.reply ("Error: " ++ text)
  | .ok parts =>
    let files := W.globFiles S.text W.root parts
    let results := files.take limit.toNat
    if results = [] then W.reply "No files matched."
    else
      { text := "\n".intercalate (results.map joinPath) ++
          if limit < files.length then
            "\n... (" ++ toString (files.length - limit) ++ " more files)"
          else ""
        names := results.filterMap (W.entryAt W.root)
        tree := W.tree }

/-- A line that matches, with its file and the entry under which it was found. -/
structure Hit where
  file : PurePath
  entry : Option PurePath
  text : String

/-- The lines of a file that match. -/
def hits (search : String → Bool) (d : PurePath) (r : List String) : List Hit :=
  match W.openFile d r with
  | none => []
  | some (file, content) =>
    (((S.text.lines content).zipIdx 1).filter fun l => search l.1).map fun l =>
      { file := file
        entry := W.entryAt d r
        text := joinPath ((d ++ r).drop W.root.length) ++ ":" ++ toString l.2 ++ ":" ++
          S.text.rstrip l.1 }

/-- The loop over the lines of a file. -/
def addLines (limit : ℤ) : List Hit → List Hit → List Hit
  | [], found => found
  | hit :: hits, found =>
    if limit ≤ (found ++ [hit]).length then found ++ [hit]
    else addLines limit hits (found ++ [hit])

/-- The loop over the files. -/
def addFiles (limit : ℤ) : List (List Hit) → List Hit → List Hit
  | [], found => found
  | file :: files, found =>
    if limit ≤ (addLines limit file found).length then addLines limit file found
    else addFiles limit files (addLines limit file found)

def searchPath (resolved : PurePath) : PurePath :=
  if (W.openDir [] resolved).isSome then resolved else resolved.dropLast

def globPattern (includeGlob : String) : String := if includeGlob = "" then "**/*" else includeGlob

def grepWithRe (pattern : String) (searchDir : PurePath) (includeGlob : String) (limit : ℤ) :
    ToolReply :=
  match S.text.compile pattern with
  | .error exc => W.reply ("Error: invalid regex: " ++ exc)
  | .ok search =>
    let d := W.searchPath searchDir
    match parsePattern S.text.repr (globPattern includeGlob) with
    | .error (.notImplementedError text) | .error (.valueError text) => W.reply text
    | .ok parts =>
      let found := addFiles limit ((W.globFiles S.text d parts).map (W.hits S search d)) []
      if found = [] then W.reply "No matches found."
      else
        { text := "\n".intercalate (found.map Hit.text)
          contents := found.map Hit.file
          names := found.filterMap Hit.entry
          tree := W.tree }

def grepWithRg (rg : Ripgrep) (pattern : String) (searchDir : PurePath) (includeGlob : String)
    (limit : ℤ) : ToolReply :=
  match rg.run W.tree limit includeGlob pattern searchDir with
  | .timedOut => W.reply "Error: grep timed out after 30s"
  | .exited code stdout stderr hits =>
    if code = 1 then W.reply "No matches found."
    else if 1 < code then
      W.reply ("Error: rg exited with code " ++ toString code ++ ": " ++ S.text.strip stderr)
    else
      { text := String.ofList (Cuts.replaceAll ("/" ++ joinPath W.root ++ "/").toList [] 0
          stdout.toList)
        contents := hits
        names := hits
        tree := W.tree }

def grepOutputMaxBytes : ℕ := 32768

/-- The output is cut to size; the reply keeps what it was made of. -/
def truncateOutput (reply : ToolReply) : ToolReply :=
  if grepOutputMaxBytes < reply.text.length then
    { reply with
      text := String.ofList (reply.text.toList.take grepOutputMaxBytes) ++ "\n... (truncated)" }
  else reply

def grep (pattern path includeGlob : String) (limit : ℤ) : ToolReply :=
  match W.safeResolve path with
  | .error exc => W.reply ("Error: " ++ exc)
  | .ok resolved =>
    truncateOutput <| match S.rg with
      | some rg => W.grepWithRg S rg pattern resolved includeGlob limit
      | none => W.grepWithRe S pattern resolved includeGlob limit

variable {W S} {d e p q : PurePath} {r : List String} {content : String}

/-- Every file that the parts of a pattern lead to from the root is in a directory of the root. -/
def GlobInside (W : Workspace) (S : SearchEnv) (pattern : String) : Prop :=
  ∀ parts, parsePattern S.text.repr pattern = .ok parts → ∀ e n q content,
    Leads W S.text W.root parts e n → W.ReadsAt e n q content → W.root <+: e

theorem confined_globSearch_iff (pattern : String) :
    (∀ limit, Confined W (W.globSearch S pattern limit)) ↔ GlobInside W S pattern := by
  unfold globSearch GlobInside
  cases hparse : parsePattern S.text.repr pattern with
  | error exc =>
    refine iff_of_true (fun limit => ?_) (by simp)
    cases exc <;> exact confined_reply W _
  | ok parts =>
    have hne := ne_nil_of_parsePattern hparse
    simp only [Except.ok.injEq, forall_eq']
    constructor
    · intro hall e n q content hleads hread
      obtain ⟨r, hr, hentry, -⟩ := mem_globFiles_of_leads W.isDir hleads hread
      have hlimit := hall (W.globFiles S.text W.root parts).length
      rw [Int.toNat_natCast, List.take_length, if_neg (List.ne_nil_of_mem hr)] at hlimit
      exact root_prefix_of_entry hread
        (hlimit.names _ (List.mem_filterMap.2 ⟨r, hr, hentry⟩))
    · intro hinside limit
      by_cases hresults : (W.globFiles S.text W.root parts).take limit.toNat = []
      · rw [if_pos hresults]
        exact confined_reply W _
      · rw [if_neg hresults]
        refine ⟨by simp, fun p hp => ?_, fun _ _ => rfl⟩
        obtain ⟨r, hr, hentry⟩ := List.mem_filterMap.1 hp
        obtain ⟨e, n, q, content, -, hleads, hread, hentry', -⟩ :=
          leads_of_mem_globFiles (List.mem_of_mem_take hr) hne
        obtain rfl := Option.some.inj (hentry'.symm.trans hentry)
        exact (hinside e n q content hleads hread).trans (List.prefix_append _ _)

/-! ### `grep` -/

theorem mem_addLines {limit : ℤ} {file found : List Hit} {hit : Hit}
    (h : hit ∈ addLines limit file found) : hit ∈ found ∨ hit ∈ file := by
  induction file generalizing found with
  | nil => exact Or.inl h
  | cons first file ih =>
    rw [addLines] at h
    have hstep : hit ∈ found ++ [first] → hit ∈ found ∨ hit ∈ first :: file := by
      intro hmem
      rcases List.mem_append.1 hmem with hmem | hmem
      · exact Or.inl hmem
      · exact Or.inr (List.mem_cons.2 (Or.inl (List.mem_singleton.1 hmem)))
    split_ifs at h
    · exact hstep h
    · rcases ih h with h | h
      · exact hstep h
      · exact Or.inr (List.mem_cons_of_mem _ h)

theorem mem_addFiles {limit : ℤ} {files : List (List Hit)} {found : List Hit} {hit : Hit}
    (h : hit ∈ addFiles limit files found) : hit ∈ found ∨ ∃ file ∈ files, hit ∈ file := by
  induction files generalizing found with
  | nil => exact Or.inl h
  | cons file files ih =>
    rw [addFiles] at h
    have hstep : hit ∈ addLines limit file found → hit ∈ found ∨ ∃ f ∈ file :: files, hit ∈ f :=
      fun hmem => (mem_addLines hmem).imp_right fun hmem => ⟨file, List.mem_cons_self, hmem⟩
    split_ifs at h
    · exact hstep h
    · rcases ih h with h | ⟨f, hf, h⟩
      · exact hstep h
      · exact Or.inr ⟨f, List.mem_cons_of_mem _ hf, h⟩

theorem addLines_eq {limit : ℤ} {file found : List Hit}
    (h : (found ++ file).length < limit) : addLines limit file found = found ++ file := by
  induction file generalizing found with
  | nil => simp [addLines]
  | cons first file ih =>
    rw [List.length_append, List.length_cons] at h
    rw [addLines, if_neg (by rw [List.length_append, List.length_singleton]; omega), ih]
    · simp
    · rw [List.length_append, List.length_append, List.length_singleton]
      omega

theorem addFiles_eq {limit : ℤ} {files : List (List Hit)} {found : List Hit}
    (h : (found ++ files.flatten).length < limit) :
    addFiles limit files found = found ++ files.flatten := by
  induction files generalizing found with
  | nil => simp [addFiles]
  | cons file files ih =>
    rw [List.flatten_cons, ← List.append_assoc] at h ⊢
    have hfile : (found ++ file).length < limit := by
      rw [List.length_append] at h
      omega
    rw [addFiles, addLines_eq hfile, if_neg (by omega), ih h]

theorem of_mem_hits {search : String → Bool} {hit : Hit} (h : hit ∈ W.hits S search d r) :
    ∃ content, W.openFile d r = some (hit.file, content) ∧ hit.entry = W.entryAt d r ∧
      S.text.lines content ≠ [] := by
  unfold hits at h
  split at h
  · simp at h
  · rename_i file content hopen
    obtain ⟨line, hline, rfl⟩ := List.mem_map.1 h
    refine ⟨content, hopen, rfl, fun hnil => ?_⟩
    rw [hnil] at hline
    simp at hline

/-- With a pattern that matches every line, a file with a line has a hit. -/
theorem exists_mem_hits (hopen : W.openFile d r = some (q, content))
    (hlines : S.text.lines content ≠ []) :
    ∃ hit ∈ W.hits S (fun _ => true) d r, hit.file = q ∧ hit.entry = W.entryAt d r := by
  obtain ⟨line, lines, hcons⟩ := List.exists_cons_of_ne_nil hlines
  simp [hits, hopen, hcons]

/-- Every file with a line that the parts of an include glob lead to is in the root, and so is the
directory in which it is found. -/
def GrepInside (W : Workspace) (S : SearchEnv) (d : PurePath) (includeGlob : String) : Prop :=
  W.tree.get d = some .dir → ∀ parts,
    parsePattern S.text.repr (globPattern includeGlob) = .ok parts → ∀ e n q content,
      Leads W S.text d parts e n → W.ReadsAt e n q content → S.text.lines content ≠ [] →
        W.root <+: e ∧ W.root <+: q

/-- What the loops find is in the root if everything is that the parts lead to. -/
theorem inside_of_mem_addFiles {includeGlob : String} {parts : List GlobPart}
    (hinside : GrepInside W S d includeGlob)
    (hparse : parsePattern S.text.repr (globPattern includeGlob) = .ok parts)
    {search : String → Bool} {limit : ℤ} {hit : Hit}
    (h : hit ∈ addFiles limit ((W.globFiles S.text d parts).map (W.hits S search d)) []) :
    W.root <+: hit.file ∧ ∀ p, hit.entry = some p → W.root <+: p := by
  obtain ⟨file, hfile, hhit⟩ := (mem_addFiles h).resolve_left (by simp)
  obtain ⟨r, hr, rfl⟩ := List.mem_map.1 hfile
  obtain ⟨content, hopen, hname, hlines⟩ := of_mem_hits hhit
  obtain ⟨e, n, q, content', hget, hleads, hread, hentry, hopen'⟩ :=
    leads_of_mem_globFiles hr (ne_nil_of_parsePattern hparse)
  obtain ⟨rfl, rfl⟩ := Prod.mk.inj (Option.some.inj (hopen'.symm.trans hopen))
  obtain ⟨he, hroot⟩ := hinside hget parts hparse e n _ _ hleads hread hlines
  refine ⟨hroot, fun p hp => ?_⟩
  obtain rfl := Option.some.inj (hp.symm.trans (hname.trans hentry))
  exact he.trans (List.prefix_append _ _)

/-- A file with a line that the parts lead to is among what a search for every line finds. -/
theorem exists_hit_of_leads {parts : List GlobPart} {n : String}
    (hget : W.tree.get d = some .dir) (hleads : Leads W S.text d parts e n)
    (hread : W.ReadsAt e n q content) (hlines : S.text.lines content ≠ []) :
    ∃ hit ∈ ((W.globFiles S.text d parts).map (W.hits S (fun _ => true) d)).flatten,
      hit.file = q ∧ hit.entry = some (e ++ [n]) := by
  obtain ⟨r, hr, hentry, hopen⟩ := mem_globFiles_of_leads hget hleads hread
  obtain ⟨hit, hhit, hfile, hname⟩ := exists_mem_hits hopen hlines
  exact ⟨hit, List.mem_flatten.2 ⟨_, List.mem_map.2 ⟨r, hr, rfl⟩, hhit⟩, hfile,
    hname.trans hentry⟩

theorem confined_grepWithRe_iff (searchDir : PurePath) (includeGlob : String) :
    (∀ pattern limit, Confined W (W.grepWithRe S pattern searchDir includeGlob limit)) ↔
      GrepInside W S (W.searchPath searchDir) includeGlob := by
  unfold grepWithRe
  dsimp only
  generalize W.searchPath searchDir = d
  cases hparse : parsePattern S.text.repr (globPattern includeGlob) with
  | error exc =>
    refine iff_of_true (fun pattern limit => ?_) ?_
    · split
      · exact confined_reply W _
      · cases exc <;> exact confined_reply W _
    · simp [GrepInside, hparse]
  | ok parts =>
    constructor
    · intro hall hget parts' hparse' e n q content hleads hread hlines
      obtain rfl := Except.ok.inj (hparse.symm.trans hparse')
      obtain ⟨hit, hhit, hfile, hentry⟩ := exists_hit_of_leads hget hleads hread hlines
      -- a limit that the lines do not reach
      have hlimit := hall ""
        (([] ++ ((W.globFiles S.text d parts).map (W.hits S (fun _ => true) d)).flatten).length + 1)
      rw [S.text.compile_empty] at hlimit
      dsimp only at hlimit
      rw [addFiles_eq (by omega), List.nil_append, if_neg (List.ne_nil_of_mem hhit)] at hlimit
      exact ⟨root_prefix_of_entry hread
        (hlimit.names _ (List.mem_filterMap.2 ⟨hit, hhit, hentry⟩)),
        hlimit.contents _ (List.mem_map.2 ⟨hit, hhit, hfile⟩)⟩
    · intro hinside pattern limit
      split
      · exact confined_reply W _
      · dsimp only
        split_ifs
        · exact confined_reply W _
        · refine ⟨fun p hp => ?_, fun p hp => ?_, fun _ _ => rfl⟩
          · obtain ⟨hit, hhit, rfl⟩ := List.mem_map.1 hp
            exact (inside_of_mem_addFiles hinside hparse hhit).1
          · obtain ⟨hit, hhit, hentry⟩ := List.mem_filterMap.1 hp
            exact (inside_of_mem_addFiles hinside hparse hhit).2 p hentry

theorem confined_grepWithRg (rg : Ripgrep) (pattern : String) {searchDir : PurePath}
    (includeGlob : String) (limit : ℤ) (h : W.root <+: searchDir) :
    Confined W (W.grepWithRg S rg pattern searchDir includeGlob limit) := by
  unfold grepWithRg
  split
  · exact confined_reply W _
  · rename_i code stdout stderr hits hrun
    have hroot : ∀ p ∈ hits, W.root <+: p := fun p hp =>
      h.trans (rg.within _ _ _ _ _ _ _ _ _ hrun p hp)
    split_ifs
    · exact confined_reply W _
    · exact confined_reply W _
    · exact ⟨hroot, hroot, fun _ _ => rfl⟩

theorem confined_truncateOutput {reply : ToolReply} :
    Confined W (truncateOutput reply) ↔ Confined W reply := by
  unfold truncateOutput
  split_ifs
  · exact ⟨fun h => ⟨h.contents, h.names, h.tree⟩, fun h => ⟨h.contents, h.names, h.tree⟩⟩
  · exact Iff.rfl

theorem confined_grep_iff (path includeGlob : String) :
    (∀ pattern limit, Confined W (W.grep S pattern path includeGlob limit)) ↔
      (S.rg = none → ∀ resolved, W.safeResolve path = .ok resolved →
        GrepInside W S (W.searchPath resolved) includeGlob) := by
  unfold grep
  cases hresolve : W.safeResolve path with
  | error exc => exact iff_of_true (fun _ _ => confined_reply W _) (by simp)
  | ok resolved =>
    simp only [Except.ok.injEq, forall_eq', confined_truncateOutput]
    cases S.rg with
    | none => simpa using confined_grepWithRe_iff resolved includeGlob
    | some rg =>
      refine iff_of_true (fun pattern limit => ?_) (by simp)
      exact confined_grepWithRg rg pattern includeGlob limit (safeResolve_eq_ok hresolve).1

/-! ### Workspaces without links -/

theorem globInside_of_linkFree {pattern : String} (hfree : LinkFree W W.root)
    (hup : ".." ∉ pathParts pattern) : GlobInside W S pattern := by
  intro parts hparse e n q content hleads _
  exact prefix_of_leads hfree hleads (fun _ => descends_of_parsePattern hparse hup)
    (List.prefix_refl _)

theorem grepInside_of_linkFree {includeGlob : String} (hfree : LinkFree W W.root)
    (hup : ".." ∉ pathParts includeGlob) (hd : W.root <+: d) :
    GrepInside W S d includeGlob := by
  intro _ parts hparse e n q content hleads hread _
  have hup' : ".." ∉ pathParts (globPattern includeGlob) := by
    unfold globPattern
    split_ifs
    · decide
    · exact hup
  have he := prefix_of_leads hfree hleads (fun _ => descends_of_parsePattern hparse hup') hd
  refine ⟨he, ?_⟩
  rw [eq_of_follow hfree he (isName_of_readsAt hread) hread.1]
  exact he.trans (List.prefix_append _ _)

theorem root_prefix_searchPath {path : String} {resolved : PurePath}
    (h : W.safeResolve path = .ok resolved) : W.root <+: W.searchPath resolved := by
  obtain ⟨hroot, hcanonical⟩ := safeResolve_eq_ok h
  unfold searchPath
  split_ifs with hdir
  · exact hroot
  · by_cases heq : W.root = resolved
    · have hget : W.tree.get resolved = some .dir := by rw [← heq, W.isDir]
      have hopen : W.openDir [] resolved = some resolved :=
        openDir_eq_some.2 ⟨FileTree.walk_canonical hcanonical (by simp [hget]), hget⟩
      simp [hopen] at hdir
    · obtain ⟨s, rfl⟩ := hroot
      have hs : s ≠ [] := by
        rintro rfl
        exact heq (List.append_nil _).symm
      rw [List.dropLast_append_of_ne_nil hs]
      exact List.prefix_append _ _

end Workspace

/-! ### The calls -/

inductive FileCall
  | readFile (path : String) (offset limit : Option ℤ)
  | writeFile (path content : String)
  | editFile (path oldString newString : String)
  | listDirectory (path : String) (limit : ℤ)
  | grep (pattern path includeGlob : String) (limit : ℤ)
  | globSearch (pattern : String) (limit : ℤ)
  deriving DecidableEq, Repr

namespace FileCall

open Workspace

variable (W : Workspace) (S : SearchEnv)

def run : FileCall → ToolReply
  | .readFile path offset limit => W.readFile S.text.toFileText path offset limit
  | .writeFile path content => W.writeFile path content
  | .editFile path oldString newString => W.editFile path oldString newString
  | .listDirectory path limit => W.listDirectory path limit
  | .grep pattern path includeGlob limit => W.grep S pattern path includeGlob limit
  | .globSearch pattern limit => W.globSearch S pattern limit

/-- The same search for another expression and with another limit. -/
def ask (pattern : String) (limit : ℤ) : FileCall → FileCall
  | .grep _ path includeGlob _ => .grep pattern path includeGlob limit
  | .globSearch glob _ => .globSearch glob limit
  | call => call

/-- The globs of a call lead to nothing outside of the root. -/
def Inside : FileCall → Prop
  | .grep _ path includeGlob _ => S.rg = none → ∀ resolved, W.safeResolve path = .ok resolved →
      GrepInside W S (W.searchPath resolved) includeGlob
  | .globSearch pattern _ => GlobInside W S pattern
  | _ => True

/-- The globs of a call have no `..`. -/
def Plain : FileCall → Prop
  | .grep _ _ includeGlob _ => ".." ∉ pathParts includeGlob
  | .globSearch pattern _ => ".." ∉ pathParts pattern
  | _ => True

variable {W S}

theorem confined_of_linkFree {call : FileCall} (hfree : LinkFree W W.root) (h : call.Plain) :
    Confined W (call.run W S) := by
  cases call with
  | readFile path offset limit => exact confined_readFile W _ path offset limit
  | writeFile path content => exact confined_writeFile W path content
  | editFile path oldString newString => exact confined_editFile W path oldString newString
  | listDirectory path limit => exact confined_listDirectory W path limit
  | grep pattern path includeGlob limit =>
    refine (confined_grep_iff path includeGlob).2 (fun _ resolved hresolve => ?_) pattern limit
    exact grepInside_of_linkFree hfree h (root_prefix_searchPath hresolve)
  | globSearch pattern limit =>
    exact (confined_globSearch_iff pattern).2 (globInside_of_linkFree hfree h) limit

/-! ### A file beside the workspace -/

/-- `/ws` is a workspace and `/key.txt` a file beside it. -/
def besideTree : FileTree where
  kinds := (((∅ : Dict PurePath FileKind).insert ["ws"] .dir).insert ["key.txt"] (.file "k"))
  parent p name h := by
    have hroot : ∀ part, p ++ [name] = [part] → p = [] ∧ name = part := fun part heq =>
      List.append_singleton_inj.1 (heq : p ++ [name] = [] ++ [part])
    rw [AList.lookup_isSome, AList.mem_insert, AList.mem_insert] at h
    rcases h with h | h | h
    · obtain ⟨rfl, rfl⟩ := hroot _ h
      exact ⟨by decide, Or.inl rfl⟩
    · obtain ⟨rfl, rfl⟩ := hroot _ h
      exact ⟨by decide, Or.inl rfl⟩
    · exact absurd h (AList.notMem_empty _)

def beside : Workspace where
  tree := besideTree
  depth := 1
  workspaceRoot := ["ws"]
  root := ["ws"]
  resolved := by decide
  isDir := by decide

/-- One line of text, and no `rg`. -/
def plainText : SearchEnv where
  text :=
    { splitlines := fun s => [s]
      rstrip := id
      lines := fun s => [s]
      strip := id
      repr := fun s => "'" ++ s ++ "'"
      compile := fun _ => .ok fun _ => true
      compile_empty := rfl
      fnmatch := fun _ _ => true }
  rg := none

end FileCall

end NemoClaw
