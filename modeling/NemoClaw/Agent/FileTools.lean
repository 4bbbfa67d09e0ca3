import Mathlib.Data.List.Sort
import NemoClaw.Lib.Cuts
import NemoClaw.Lib.Files

/-! The file tools of the coding agent (`tools/files.py`) on a tree of files with symbolic links. A
reply keeps, beside its text, the files whose contents and the entries whose names the text was made
of, each by its path without links. -/

namespace NemoClaw

open Lib

/-- A workspace in a tree. Links that nest deeper than `depth` are not followed. -/
structure Workspace where
  tree : FileTree
  depth : ℕ
  workspaceRoot : List String
  /-- `Path(workspace_root).resolve()` -/
  root : PurePath
  resolved : tree.walk false depth [] workspaceRoot = some root
  isDir : tree.get root = some .dir

/-- Python's text functions. -/
structure FileText where
  /-- `splitlines(keepends=True)` -/
  splitlines : String → List String
  rstrip : String → String

/-- What `read_text` makes of the line ends of a file. -/
def universalNewlines : List Char → List Char
  | [] => []
  | '\r' :: '\n' :: l => '\n' :: universalNewlines l
  | '\r' :: l => '\n' :: universalNewlines l
  | c :: l => c :: universalNewlines l

def readText (content : String) : String := String.ofList (universalNewlines content.toList)

structure ToolReply where
  text : String
  contents : List PurePath := []
  names : List PurePath := []
  tree : FileTree

/-- `Path(s).parts` of a relative path. -/
def pathParts (s : String) : List String :=
  ((s.toList.splitOn '/').map String.ofList).filter fun part => part ≠ "" && part ≠ "."

def isAbs (s : String) : Bool := s.toList.head? = some '/'

/-- `l[start:stop]` -/
def slice {α : Type} (l : List α) (start : ℕ) (stop : ℤ) : List α :=
  (l.take (if stop < 0 then (l.length + stop).toNat else stop.toNat)).drop start

def joinPath (parts : List String) : String := "/".intercalate parts

namespace Workspace

variable (W : Workspace)

def reply (text : String) : ToolReply := { text := text, tree := W.tree }

/-- `_safe_resolve`. A path that the system cannot follow is an error here; the tools come to theirs
when they open it. -/
def safeResolve (relativePath : String) : Except String PurePath :=
  if isAbs relativePath then .error ("Absolute paths are not allowed: " ++ relativePath)
  else if ".." ∈ pathParts relativePath then
    .error ("Path traversal ('..') is not allowed: " ++ relativePath)
  else
    match W.tree.walk false W.depth [] (W.workspaceRoot ++ pathParts relativePath) with
    | none => .error ("Too many levels of symbolic links: " ++ relativePath)
    | some resolved =>
      if (W.root ≠ [] ∧ W.root <+: resolved) ∨ resolved = W.root then .ok resolved
      else .error ("Path escapes workspace: " ++ relativePath)

/-- The file that the system opens at a path, with its content. -/
def openFile (cur : PurePath) (parts : List String) : Option (PurePath × String) :=
  (W.tree.walk true W.depth cur parts).bind fun p =>
    match W.tree.get p with
    | some (.file content) => some (p, content)
    | _ => none

/-- The directory that the system opens at a path. -/
def openDir (cur : PurePath) (parts : List String) : Option PurePath :=
  (W.tree.walk true W.depth cur parts).filter fun p => W.tree.get p = some .dir

/-! ### `_number_and_truncate` -/

def numbered (T : FileText) (i : ℕ) (line : String) : String :=
  String.ofList ((toString i).toList.leftpad 6 ' ') ++ "|" ++ T.rstrip line

def numberLines (T : FileText) (charLimit : ℕ) : ℕ → ℕ → List String → List String
  | _, _, [] => []
  | i, charCount, line :: lines =>
    let charCount := charCount + (numbered T i line).length + 1
    if charLimit < charCount then ["... (truncated at " ++ toString charLimit ++ " chars)"]
    else numbered T i line :: numberLines T charLimit (i + 1) charCount lines

def numberAndTruncate (T : FileText) (lines : List String) (start total charLimit : ℕ) : String :=
  let stop := start + lines.length
  let header :=
    if 0 < start ∨ stop < total then
      "(showing lines " ++ toString (start + 1) ++ "–" ++ toString (min stop total) ++ " of " ++
        toString total ++ ")"
    else "(" ++ toString total ++ " lines total)"
  header ++ "\n" ++ "\n".intercalate (numberLines T charLimit (start + 1) 0 lines)

/-! ### The tools -/

def readLineLimit : ℤ := 200

def readCharLimit : ℕ := 32768

def readFile (T : FileText) (path : String) (offset limit : Option ℤ) : ToolReply :=
  match W.safeResolve path with
  | .error exc => W.reply ("Error: " ++ exc)
  | .ok resolved =>
    match W.openFile [] resolved with
    | none => W.reply ("Error: file not found: " ++ path)
    | some (file, content) =>
      let lines := T.splitlines (readText content)
      let start := ((offset.getD 0) - 1).toNat
      let stop := start + ((limit.filter (· ≠ 0)).getD readLineLimit)
      let selected := slice lines start stop
      if selected = [] then
        W.reply (if lines = [] then "File is empty."
          else "No lines in range " ++ toString (start + 1) ++ "–" ++ toString stop ++ ".")
      else
        { text := numberAndTruncate T selected start lines.length readCharLimit
          contents := [file]
          tree := W.tree }

def writeFile (path content : String) : ToolReply :=
  match W.safeResolve path with
  | .error exc => W.reply ("Error: " ++ exc)
  | .ok resolved =>
    match W.tree.mkdirs [] resolved.dropLast with
    | none => W.reply ("Error writing " ++ path)
    | some made =>
      match made.writeText resolved content with
      | none => { text := "Error writing " ++ path, tree := made }
      | some written =>
        { text := "Wrote " ++ toString content.length ++ " bytes to " ++ path, tree := written }

def editFile (path oldString newString : String) : ToolReply :=
  match W.safeResolve path with
  | .error exc => W.reply ("Error: " ++ exc)
  | .ok resolved =>
    match W.openFile [] resolved with
    | none => W.reply ("Error: file not found: " ++ path)
    | some (_, content) =>
      let text := readText content
      let count := Cuts.occurrences oldString.toList 0 text.toList
      if count = 0 then W.reply ("Error: old_string not found in " ++ path)
      else if 1 < count then
        W.reply ("Error: old_string appears " ++ toString count ++ " times in " ++ path ++
          ". Provide more context to make it unique.")
      else
        let newText := String.ofList
          (Cuts.replaceFirst oldString.toList newString.toList text.toList)
        match W.tree.writeText resolved newText with
        | none => W.reply ("Error writing " ++ path)
        | some written => { text := "Applied edit to " ++ path, tree := written }

def sortedNames (dir : PurePath) : List String :=
  (W.tree.names dir).mergeSort fun a b => decide (a ≤ b)

def listDirectory (path : String) (limit : ℤ) : ToolReply :=
  match W.safeResolve path with
  | .error exc => W.reply ("Error: " ++ exc)
  | .ok resolved =>
    match W.openDir [] resolved with
    | none => W.reply ("Error: not a directory: " ++ path)
    | some dir =>
      let entries := W.sortedNames dir
      let shown := slice entries 0 limit
      let lines := shown.map fun name =>
        joinPath ((resolved ++ [name]).drop W.root.length) ++
          if (W.openDir dir [name]).isSome then "/" else ""
      let lines := if limit < entries.length then
          lines ++ ["... (" ++ toString (entries.length - limit) ++ " more entries)"]
        else lines
      { text := if lines = [] then "(empty directory)" else "\n".intercalate lines
        names := shown.map fun name => dir ++ [name]
        tree := W.tree }

end Workspace

/-- The reply shows nothing of what is outside of the root, and nothing outside is changed. -/
structure Confined (W : Workspace) (reply : ToolReply) : Prop where
  contents : ∀ p ∈ reply.contents, W.root <+: p
  names : ∀ p ∈ reply.names, W.root <+: p
  tree : ∀ p, ¬ W.root <+: p → reply.tree.get p = W.tree.get p

namespace Workspace

variable {W : Workspace} {path : String} {resolved p cur : PurePath} {parts : List String}
  {content : String}

theorem safeResolve_eq_ok (h : W.safeResolve path = .ok resolved) :
    W.root <+: resolved ∧ W.tree.Canonical resolved := by
  unfold safeResolve at h
  split_ifs at h
  split at h
  · contradiction
  · rename_i p hwalk
    split_ifs at h with hroot
    obtain rfl := Except.ok.inj h
    refine ⟨?_, FileTree.canonical_walk (FileTree.canonical_nil _) hwalk⟩
    rcases hroot with ⟨-, hprefix⟩ | rfl
    · exact hprefix
    · exact List.prefix_refl _

theorem openFile_eq_some (h : W.openFile cur parts = some (p, content)) :
    W.tree.walk true W.depth cur parts = some p ∧ W.tree.get p = some (.file content) := by
  obtain ⟨q, hwalk, hmatch⟩ := Option.bind_eq_some_iff.1 h
  split at hmatch
  · rename_i hget
    obtain ⟨rfl, rfl⟩ := Prod.mk.inj (Option.some.inj hmatch)
    exact ⟨hwalk, hget⟩
  · contradiction

theorem openDir_eq_some : W.openDir cur parts = some p ↔
    W.tree.walk true W.depth cur parts = some p ∧ W.tree.get p = some .dir := by
  simp [openDir, Option.filter_eq_some_iff]

/-- What the system opens at a resolved path is at that path. -/
theorem eq_of_openFile (h : W.safeResolve path = .ok resolved)
    (hopen : W.openFile [] resolved = some (p, content)) : p = resolved :=
  FileTree.eq_of_walk_canonical (safeResolve_eq_ok h).2 (openFile_eq_some hopen).1

theorem eq_of_openDir (h : W.safeResolve path = .ok resolved)
    (hopen : W.openDir [] resolved = some p) : p = resolved :=
  FileTree.eq_of_walk_canonical (safeResolve_eq_ok h).2 (openDir_eq_some.1 hopen).1

theorem confined_reply (W : Workspace) (text : String) : Confined W (W.reply text) where
  contents := by simp [reply]
  names := by simp [reply]
  tree _ _ := rfl

theorem confined_readFile (W : Workspace) (T : FileText) (path : String)
    (offset limit : Option ℤ) : Confined W (W.readFile T path offset limit) := by
  unfold readFile
  cases hresolve : W.safeResolve path with
  | error exc => exact confined_reply W _
  | ok resolved =>
    dsimp only
    split
    · exact confined_reply W _
    · rename_i file content hopen
      split
      · exact confined_reply W _
      · obtain rfl := eq_of_openFile hresolve hopen
        refine ⟨fun p hp => ?_, by simp, fun _ _ => rfl⟩
        rw [List.mem_singleton.1 hp]
        exact (safeResolve_eq_ok hresolve).1

/-- The directories made for a file in the workspace are in it. -/
theorem get_made (h : W.root <+: resolved) {made : FileTree}
    (hmade : W.tree.mkdirs [] resolved.dropLast = some made) (hp : ¬ W.root <+: p) :
    made.get p = W.tree.get p := by
  refine FileTree.get_mkdirs hmade ?_
  by_cases hpath : p <+: resolved
  · left
    have hpre : p <+: W.root := (List.prefix_or_prefix_of_prefix h hpath).resolve_left hp
    have hne : p ≠ W.root := by
      rintro rfl
      exact hp (List.prefix_refl _)
    rw [FileTree.get_above (by simp [W.isDir]) hpre hne]
    simp
  · right
    exact fun hdrop => hpath (hdrop.trans (List.dropLast_prefix _))

theorem confined_writeFile (W : Workspace) (path content : String) :
    Confined W (W.writeFile path content) := by
  unfold writeFile
  cases hresolve : W.safeResolve path with
  | error exc => exact confined_reply W _
  | ok resolved =>
    have hroot := (safeResolve_eq_ok hresolve).1
    dsimp only
    split
    · exact confined_reply W _
    · rename_i made hmade
      split
      · exact ⟨by simp, by simp, fun p hp => get_made hroot hmade hp⟩
      · rename_i written hwritten
        refine ⟨by simp, by simp, fun p hp => ?_⟩
        have hne : p ≠ resolved := by
          rintro rfl
          exact hp hroot
        rw [FileTree.get_writeText hwritten hne, get_made hroot hmade hp]

theorem confined_editFile (W : Workspace) (path oldString newString : String) :
    Confined W (W.editFile path oldString newString) := by
  unfold editFile
  cases hresolve : W.safeResolve path with
  | error exc => exact confined_reply W _
  | ok resolved =>
    dsimp only
    split
    · exact confined_reply W _
    · split_ifs
      · exact confined_reply W _
      · exact confined_reply W _
      · split
        · exact confined_reply W _
        · rename_i written hwritten
          refine ⟨by simp, by simp, fun p hp => FileTree.get_writeText hwritten ?_⟩
          rintro rfl
          exact hp (safeResolve_eq_ok hresolve).1

theorem confined_listDirectory (W : Workspace) (path : String) (limit : ℤ) :
    Confined W (W.listDirectory path limit) := by
  unfold listDirectory
  cases hresolve : W.safeResolve path with
  | error exc => exact confined_reply W _
  | ok resolved =>
    dsimp only
    split
    · exact confined_reply W _
    · rename_i dir hopen
      obtain rfl := eq_of_openDir hresolve hopen
      refine ⟨by simp, fun p hp => ?_, fun _ _ => rfl⟩
      obtain ⟨name, -, rfl⟩ := List.mem_map.1 hp
      exact (safeResolve_eq_ok hresolve).1.trans (List.prefix_append _ _)

end Workspace

end NemoClaw
