import Mathlib.Data.List.DropRight
import Mathlib.Data.List.Lex
import Mathlib.Data.List.Sort
import Mathlib.Data.String.Basic
import NemoClaw.Lib.Files
import NemoClaw.Lib.FirstCome
import NemoClaw.Lib.Lines
import NemoClaw.Orchestrator.Continuations

/-! The skill loader of the agent (`agent/skill_loader.py`): a scan of a directory for `SKILL.md`
files, each under an id that joins the parts of its path with hyphens. The parts may have hyphens
themselves, so two files can come under one id, of which the scan keeps the first. -/

namespace NemoClaw

open Lib

structure SkillInfo where
  skillId : String
  name : String
  description : String
  path : PurePath
  deriving DecidableEq, Repr

inductive ReadError
  | osError
  | unicodeDecodeError
  deriving DecidableEq, Repr

/-- What `yaml.safe_load` makes of a text. -/
inductive YamlBlock
  /-- a mapping, with its values as `str` writes them -/
  | mapping (get : String → Option String)
  | noMapping
  | yamlError
  /-- an error of another class, such as the `ValueError` of a date that does not exist -/
  | otherError

/-- What a loader finds on the disk, with the YAML parser. Links that nest deeper than `depth` are
not followed. -/
structure SkillDisk where
  tree : FileTree
  depth : ℕ
  cwd : PurePath
  readText : PurePath → Except ReadError String
  safeLoad : String → YamlBlock
  repr : String → String

/-! ### Ids -/

/-- `PurePath.stem` -/
def stem (path : PurePath) : String :=
  match path.getLast? with
  | none => ""
  | some name =>
    let suffix := name.toList.rtakeWhile (· ≠ '.')
    let before := (name.toList.rdropWhile (· ≠ '.')).dropLast
    if before ≠ [] ∧ suffix ≠ [] then String.ofList before else name

/-- `_derive_skill_id` -/
def deriveSkillId (root skillFile : PurePath) : String :=
  let parent := skillFile.dropLast
  if root <+: parent then
    let parts := parent.drop root.length
    if parts = [] ∨ parts = ["."] then stem skillFile else "-".intercalate parts
  else stem skillFile

/-! ### Frontmatter -/

def stripText (text : List Char) : List Char := (text.dropWhile isSpace).rdropWhile isSpace

def isDelimiter (line : List Char) : Bool := stripText line = "---".toList

/-- The YAML block of a file. -/
def yamlBlock (raw : String) : Option String :=
  let stripped := stripText raw.toList
  if "---".toList <+: stripped then
    let lines := (stripped.splitOn '\n').tail
    if lines.any isDelimiter then
      some (String.ofList (['\n'].intercalate (lines.takeWhile fun line => !isDelimiter line)))
    else none
  else none

inductive ScanError
  | unicodeDecodeError
  | otherYamlError
  deriving DecidableEq, Repr

inductive LoadError
  | keyError (text : String)
  | readError (e : ReadError)
  deriving DecidableEq, Repr

namespace SkillDisk

variable (D : SkillDisk)

/-- `_parse_frontmatter` -/
def parseFrontmatter (raw fallbackName : String) : Except ScanError (String × String) :=
  match yamlBlock raw with
  | none => .ok (fallbackName, "")
  | some block =>
    match D.safeLoad block with
    | .yamlError => .ok (fallbackName, "")
    | .noMapping => .ok (fallbackName, "")
    | .mapping get => .ok ((get "name").getD fallbackName, (get "description").getD "")
    | .otherError => .error .otherYamlError

/-- `Path(skills_dir)`, when it is a directory. -/
def root (skillsDir : PurePath) : Option PurePath :=
  (D.tree.walk true D.depth D.cwd skillsDir).filter fun p => D.tree.get p = some .dir

/-- `sorted(root.rglob("SKILL.md"))` -/
def skillFiles (skillsDir : PurePath) : List PurePath :=
  match D.root skillsDir with
  | none => []
  | some p =>
    (((D.tree.below p).filter fun r => r.getLast? = some "SKILL.md").map
      fun r => skillsDir ++ r).insertionSort (· ≤ ·)

end SkillDisk

structure SkillLoader where
  skillsDir : PurePath
  skills : Dict String SkillInfo := ∅

namespace SkillLoader

variable (D : SkillDisk) (L : SkillLoader)

/-- One file of `_scan`. -/
def scanFile (skillsDir : PurePath) (skills : Dict String SkillInfo) (skillFile : PurePath) :
    Except ScanError (Dict String SkillInfo) :=
  let skillId := deriveSkillId skillsDir skillFile
  if (skills.lookup skillId).isSome then .ok skills
  else
    match D.readText skillFile with
    | .error .osError => .ok skills
    | .error .unicodeDecodeError => .error .unicodeDecodeError
    | .ok raw =>
      match D.parseFrontmatter raw skillId with
      | .error e => .error e
      | .ok (name, description) =>
        .ok (skills.insert skillId
          { skillId := skillId, name := name, description := description, path := skillFile })

/-- `_scan` -/
def scan : Except ScanError SkillLoader :=
  ((D.skillFiles L.skillsDir).foldlM (scanFile D L.skillsDir) L.skills).map
    fun skills => { L with skills := skills }

/-- `SkillLoader(skills_dir)` -/
def new (skillsDir : PurePath) : Except ScanError SkillLoader := scan D { skillsDir := skillsDir }

def rescan : Except ScanError (SkillLoader × ℕ) :=
  (scan D { L with skills := ∅ }).map fun L' => (L', Dict.size L'.skills)

def availableIds : List String := L.skills.keys.insertionSort (· ≤ ·)

def load (skillId : String) : Except LoadError String :=
  match L.skills.lookup skillId with
  | none =>
    .error (.keyError ("Unknown skill: " ++ D.repr skillId ++ ". Available: [" ++
      ", ".intercalate (L.availableIds.map D.repr) ++ "]"))
  | some info =>
    match D.readText info.path with
    | .error e => .error (.readError e)
    | .ok content => .ok content

/-! ### The words of a path -/

end SkillLoader

/-- The words between hyphens in the directories below the root; the root is one word. -/
def pathWords (root skillFile : PurePath) : List (List Char) :=
  let parts := skillFile.dropLast.drop root.length
  if parts = [] then ["SKILL".toList] else parts.flatMap fun part => part.toList.splitOn '-'

variable {D : SkillDisk} {dir file file' : PurePath} {raw raw' : String}

theorem mem_skillFiles : file ∈ D.skillFiles dir ↔ ∃ p r, D.root dir = some p ∧
    file = dir ++ (r ++ ["SKILL.md"]) ∧ D.tree.get (p ++ (r ++ ["SKILL.md"])) ≠ none := by
  unfold SkillDisk.skillFiles
  split
  · rename_i hroot
    simp [hroot]
  · rename_i p hroot
    simp only [List.mem_insertionSort, List.mem_map, List.mem_filter, FileTree.mem_below, hroot,
      decide_eq_true_eq]
    constructor
    · rintro ⟨r, ⟨⟨hne, hget⟩, hlast⟩, rfl⟩
      rw [← List.dropLast_append_getLast? _ hlast] at hget ⊢
      exact ⟨p, r.dropLast, rfl, rfl, hget⟩
    · rintro ⟨p', r, hp, rfl, hget⟩
      obtain rfl := Option.some.inj hp
      exact ⟨r ++ ["SKILL.md"], ⟨⟨by simp, hget⟩, by simp⟩, rfl⟩

theorem skillFiles_sorted (D : SkillDisk) (dir : PurePath) :
    (D.skillFiles dir).Pairwise (· < ·) := by
  unfold SkillDisk.skillFiles
  split
  · exact List.Pairwise.nil
  · refine (List.pairwise_insertionSort _ _).imp₂ (fun {_ _} hle hne => lt_of_le_of_ne hle hne) ?_
    refine (List.perm_insertionSort _ _).nodup_iff.2 ?_
    exact ((FileTree.nodup_below _ _).filter _).map (List.append_right_injective dir)

theorem stem_append (path : PurePath) : stem (path ++ ["SKILL.md"]) = "SKILL" := by
  unfold stem
  rw [List.getLast?_concat]
  decide

/-- The words of an id are those of its path. -/
theorem splitOn_deriveSkillId (h : file ∈ D.skillFiles dir) :
    (deriveSkillId dir file).toList.splitOn '-' = pathWords dir file := by
  obtain ⟨p, r, -, rfl, hget⟩ := mem_skillFiles.1 h
  have hparent : (dir ++ (r ++ ["SKILL.md"])).dropLast = dir ++ r := by simp [← List.append_assoc]
  have hdot : r ≠ ["."] := by
    rintro rfl
    rw [← List.append_assoc] at hget
    have hdir := (FileTree.get_parent hget).2
    exact (FileTree.get_parent (hdir ▸ by simp : D.tree.get (p ++ ["."]) ≠ none)).1.2.1 rfl
  unfold deriveSkillId pathWords
  simp only [hparent, List.drop_left, List.prefix_append, if_true, hdot, or_false]
  split_ifs with hr
  · rw [← List.append_assoc, stem_append]
    decide
  · have hne : r.map String.toList ≠ [] := by simpa using hr
    rw [String.toList_intercalate, show "-".toList = ['-'] from rfl,
      splitOn_intercalate_eq_flatMap '-' hne, List.flatMap_map]

/-- Two files have one id if their paths have the same words. -/
theorem deriveSkillId_eq_iff (h : file ∈ D.skillFiles dir) (h' : file' ∈ D.skillFiles dir) :
    deriveSkillId dir file = deriveSkillId dir file' ↔
      pathWords dir file = pathWords dir file' := by
  rw [← splitOn_deriveSkillId h, ← splitOn_deriveSkillId h', splitOn_inj, String.toList_inj]

/-! ### Scans -/

/-- What the scan makes of a file. -/
def skillInfo (D : SkillDisk) (dir file : PurePath) : Except ScanError (Option SkillInfo) :=
  match D.readText file with
  | .error .osError => .ok none
  | .error .unicodeDecodeError => .error .unicodeDecodeError
  | .ok raw =>
    (D.parseFrontmatter raw (deriveSkillId dir file)).map fun (name, description) =>
      some
        { skillId := deriveSkillId dir file
          name := name
          description := description
          path := file }

theorem scanFile_eq (D : SkillDisk) (dir : PurePath) :
    SkillLoader.scanFile D dir = enter (deriveSkillId dir) (skillInfo D dir) := by
  funext skills file
  unfold SkillLoader.scanFile enter skillInfo
  by_cases htaken : (skills.lookup (deriveSkillId dir file)).isSome
  · simp only [htaken, if_true]
  · simp only [htaken, if_false, Bool.false_eq_true]
    cases D.readText file with
    | error e => cases e <;> rfl
    | ok raw =>
      dsimp only
      cases D.parseFrontmatter raw (deriveSkillId dir file) <;> rfl

/-- The YAML parser fails with an error that is not its own. -/
def SkillDisk.Breaks (D : SkillDisk) (raw : String) : Prop :=
  ∃ block, yamlBlock raw = some block ∧ D.safeLoad block = .otherError

theorem parseFrontmatter_cases (D : SkillDisk) (raw fallbackName : String) :
    (D.Breaks raw ∧ D.parseFrontmatter raw fallbackName = .error .otherYamlError) ∨
    (¬ D.Breaks raw ∧ ∃ name description,
      D.parseFrontmatter raw fallbackName = .ok (name, description)) := by
  unfold SkillDisk.parseFrontmatter SkillDisk.Breaks
  cases yamlBlock raw with
  | none => simp
  | some block => cases hload : D.safeLoad block <;> simp [hload]

theorem path_of_hasValue {info : SkillInfo} (h : HasValue (skillInfo D dir) file info) :
    info.path = file ∧ ∃ raw, D.readText file = .ok raw ∧ ¬ D.Breaks raw := by
  unfold HasValue skillInfo at h
  split at h
  · simp at h
  · simp at h
  · rename_i raw hread
    rcases parseFrontmatter_cases D raw (deriveSkillId dir file) with
      ⟨-, hparse⟩ | ⟨hnot, name, description, hparse⟩
    · simp [hparse, Except.map] at h
    · rw [hparse] at h
      obtain rfl := Option.some.inj (Except.ok.inj h)
      exact ⟨rfl, raw, hread, hnot⟩

theorem exists_hasValue (hread : D.readText file = .ok raw) (hnot : ¬ D.Breaks raw) :
    ∃ info, HasValue (skillInfo D dir) file info := by
  unfold HasValue skillInfo
  rw [hread]
  rcases parseFrontmatter_cases D raw (deriveSkillId dir file) with
    ⟨hbreaks, -⟩ | ⟨-, name, description, hparse⟩
  · exact absurd hbreaks hnot
  · simp [hparse, Except.map]

theorem skillInfo_eq_error {e : ScanError} (h : skillInfo D dir file = .error e) :
    D.readText file = .error .unicodeDecodeError ∨
      ∃ raw, D.readText file = .ok raw ∧ D.Breaks raw := by
  unfold skillInfo at h
  split at h
  · contradiction
  · exact Or.inl ‹_›
  · rename_i raw hread
    rcases parseFrontmatter_cases D raw (deriveSkillId dir file) with
      ⟨hbreaks, -⟩ | ⟨-, name, description, hparse⟩
    · exact Or.inr ⟨raw, hread, hbreaks⟩
    · simp [hparse, Except.map] at h

/-- The scan finds the file, and it can be read. -/
def SkillDisk.Readable (D : SkillDisk) (dir file : PurePath) (raw : String) : Prop :=
  file ∈ D.skillFiles dir ∧ D.readText file = .ok raw

/-- Every file that can be read has an id of its own, by which it can be loaded, and which it has
also among other files. -/
structure SkillLoader.Reaches (D : SkillDisk) (L : SkillLoader) : Prop where
  own : ∀ file raw, D.Readable L.skillsDir file raw → ∃ info,
    L.skills.lookup (deriveSkillId L.skillsDir file) = some info ∧ info.path = file ∧
      L.load D (deriveSkillId L.skillsDir file) = .ok raw
  injective : ∀ file file' raw raw', D.Readable L.skillsDir file raw →
    D.Readable L.skillsDir file' raw' →
      deriveSkillId L.skillsDir file = deriveSkillId L.skillsDir file' → file = file'
  stable : ∀ D' L', SkillLoader.new D' L.skillsDir = .ok L' → ∀ id id' info info',
    L.skills.lookup id = some info → L'.skills.lookup id' = some info' →
      info.path = info'.path → id = id'

/-- No two files that can be read have paths of the same words, and none of them breaks the parser.
A file with bytes that are no text is behind one with the same words that can be read. -/
structure SkillDisk.Apart (D : SkillDisk) (dir : PurePath) : Prop where
  words : ∀ file file' raw raw', D.Readable dir file raw → D.Readable dir file' raw' →
    pathWords dir file = pathWords dir file' → file = file'
  parses : ∀ file raw, D.Readable dir file raw → ¬ D.Breaks raw
  decodes : ∀ file ∈ D.skillFiles dir, D.readText file = .error .unicodeDecodeError →
    ∃ file' raw, D.Readable dir file' raw ∧ file' < file ∧ pathWords dir file' = pathWords dir file

theorem new_eq_ok {L : SkillLoader} : SkillLoader.new D dir = .ok L ↔ L.skillsDir = dir ∧
    (D.skillFiles dir).foldlM (enter (deriveSkillId dir) (skillInfo D dir)) ∅ = .ok L.skills := by
  unfold SkillLoader.new SkillLoader.scan
  rw [scanFile_eq]
  cases (D.skillFiles dir).foldlM (enter (deriveSkillId dir) (skillInfo D dir)) ∅ with
  | error e => simp [Except.map]
  | ok skills =>
    obtain ⟨dir', skills'⟩ := L
    simp [Except.map, eq_comm]

/-- A scan ends well if every file at which it could fail is behind one of the same id. -/
theorem exists_new_iff : (∃ L, SkillLoader.new D dir = .ok L) ↔
    ∀ file ∈ D.skillFiles dir, ∀ e, skillInfo D dir file = .error e →
      ∃ file' ∈ D.skillFiles dir, file' < file ∧ deriveSkillId dir file' = deriveSkillId dir file ∧
        ∃ info, HasValue (skillInfo D dir) file' info := by
  have hrun : (∃ L, SkillLoader.new D dir = .ok L) ↔ ∃ skills,
      (D.skillFiles dir).foldlM (enter (deriveSkillId dir) (skillInfo D dir)) ∅ = .ok skills := by
    constructor
    · rintro ⟨L, h⟩
      exact ⟨L.skills, (new_eq_ok.1 h).2⟩
    · rintro ⟨skills, h⟩
      exact ⟨⟨dir, skills⟩, new_eq_ok.2 ⟨rfl, h⟩⟩
  have hsorted := skillFiles_sorted D dir
  rw [hrun, run_iff]
  constructor
  · intro h file hfile e he
    obtain ⟨before, after, heq⟩ := List.append_of_mem hfile
    obtain ⟨file', hmem, hid, hvalue⟩ := h before file after e heq he
    rw [heq, List.pairwise_append] at hsorted
    exact ⟨file', by simp [heq, hmem], hsorted.2.2 file' hmem file List.mem_cons_self, hid, hvalue⟩
  · intro h before file after e heq he
    obtain ⟨file', hmem, hlt, hid, hvalue⟩ := h file (by simp [heq]) e he
    refine ⟨file', ?_, hid, hvalue⟩
    rw [heq, List.pairwise_append, List.pairwise_cons] at hsorted
    rw [heq, List.mem_append, List.mem_cons] at hmem
    rcases hmem with hmem | rfl | hmem
    · exact hmem
    · exact absurd hlt (lt_irrefl _)
    · exact absurd hlt (lt_asymm (hsorted.2.1.1 file' hmem))

/-- What stands in the dictionary of a loader, it has from a file, under the id of that. -/
theorem of_lookup_new {L : SkillLoader} {id : String} {info : SkillInfo}
    (h : SkillLoader.new D dir = .ok L) (hlookup : L.skills.lookup id = some info) :
    info.path ∈ D.skillFiles dir ∧ deriveSkillId dir info.path = id ∧
      HasValue (skillInfo D dir) info.path info := by
  obtain ⟨file, hmem, hid, hvalue⟩ := (filled_of_run (new_eq_ok.1 h).2).sound id info hlookup
  rw [(path_of_hasValue hvalue).1]
  exact ⟨hmem, hid, hvalue⟩

theorem rescan_eq (D : SkillDisk) (L : SkillLoader) : L.rescan D =
    (SkillLoader.new D L.skillsDir).map fun L' => (L', Dict.size L'.skills) := rfl

theorem apart_of_reaches {L : SkillLoader} (h : SkillLoader.new D dir = .ok L)
    (hL : L.Reaches D) : D.Apart dir := by
  obtain rfl := (new_eq_ok.1 h).1
  have hends := exists_new_iff.1 ⟨L, h⟩
  refine ⟨?_, ?_, ?_⟩
  · intro file file' raw raw' hraw hraw' hwords
    refine hL.injective file file' raw raw' hraw hraw' ?_
    exact (deriveSkillId_eq_iff hraw.1 hraw'.1).2 hwords
  · intro file raw hraw hbreaks
    obtain ⟨info, hlookup, rfl, -⟩ := hL.own file raw hraw
    obtain ⟨-, -, hvalue⟩ := of_lookup_new h hlookup
    obtain ⟨-, raw', hread, hnot⟩ := path_of_hasValue hvalue
    obtain rfl := Except.ok.inj (hread.symm.trans hraw.2)
    exact hnot hbreaks
  · intro file hfile hread
    obtain ⟨file', hmem, hlt, hid, info, hvalue⟩ :=
      hends file hfile .unicodeDecodeError (by simp [skillInfo, hread])
    obtain ⟨-, raw, hraw, -⟩ := path_of_hasValue hvalue
    exact ⟨file', raw, ⟨hmem, hraw⟩, hlt, (deriveSkillId_eq_iff hmem hfile).1 hid⟩

theorem exists_new_of_apart (hD : D.Apart dir) : ∃ L, SkillLoader.new D dir = .ok L := by
  refine exists_new_iff.2 fun file hfile e he => ?_
  rcases skillInfo_eq_error he with hread | ⟨raw, hread, hbreaks⟩
  · obtain ⟨file', raw, hraw, hlt, hwords⟩ := hD.decodes file hfile hread
    refine ⟨file', hraw.1, hlt, (deriveSkillId_eq_iff hraw.1 hfile).2 hwords, ?_⟩
    exact exists_hasValue hraw.2 (hD.parses file' raw hraw)
  · exact absurd hbreaks (hD.parses file raw ⟨hfile, hread⟩)

theorem reaches_of_apart {L : SkillLoader} (h : SkillLoader.new D dir = .ok L)
    (hD : D.Apart dir) : L.Reaches D := by
  obtain rfl := (new_eq_ok.1 h).1
  have hinj : ∀ file file' raw raw', D.Readable L.skillsDir file raw →
      D.Readable L.skillsDir file' raw' →
        deriveSkillId L.skillsDir file = deriveSkillId L.skillsDir file' → file = file' :=
    fun file file' raw raw' hraw hraw' hid =>
      hD.words file file' raw raw' hraw hraw' ((deriveSkillId_eq_iff hraw.1 hraw'.1).1 hid)
  have hplaces := (filled_places (filled_of_run (new_eq_ok.1 h).2)).2 <| by
    intro file hfile file' hfile' info info' hvalue hvalue' hid
    obtain ⟨-, raw, hraw, -⟩ := path_of_hasValue hvalue
    obtain ⟨-, raw', hraw', -⟩ := path_of_hasValue hvalue'
    obtain rfl := hinj file file' raw raw' ⟨hfile, hraw⟩ ⟨hfile', hraw'⟩ hid
    exact Option.some.inj (Except.ok.inj (hvalue.symm.trans hvalue'))
  refine ⟨?_, hinj, ?_⟩
  · intro file raw hraw
    obtain ⟨info, hvalue⟩ : ∃ info, HasValue (skillInfo D L.skillsDir) file info :=
      exists_hasValue hraw.2 (hD.parses file raw hraw)
    have hlookup := hplaces file hraw.1 info hvalue
    have hpath := (path_of_hasValue hvalue).1
    refine ⟨info, hlookup, hpath, ?_⟩
    simp [SkillLoader.load, hlookup, hpath, hraw.2]
  · intro D' L' h' id id' info info' hlookup hlookup' hpath
    rw [← (of_lookup_new h hlookup).2.1, ← (of_lookup_new h' hlookup').2.1, hpath]

theorem reaches_new_iff (D : SkillDisk) (dir : PurePath) :
    (∃ L, SkillLoader.new D dir = .ok L ∧ L.Reaches D) ↔ D.Apart dir := by
  constructor
  · rintro ⟨L, h, hL⟩
    exact apart_of_reaches h hL
  · intro hD
    obtain ⟨L, h⟩ := exists_new_of_apart hD
    exact ⟨L, h, reaches_of_apart h hD⟩

/-- A scan, the first one or a later one, gives every file that can be read its own id if the words
of their paths differ and no file ends it early. -/
theorem reaches_iff (D : SkillDisk) (L : SkillLoader) :
    ((∃ L', SkillLoader.new D L.skillsDir = .ok L' ∧ L'.Reaches D) ↔ D.Apart L.skillsDir) ∧
      ((∃ L' n, L.rescan D = .ok (L', n) ∧ L'.Reaches D) ↔ D.Apart L.skillsDir) := by
  refine ⟨reaches_new_iff D L.skillsDir, ?_⟩
  rw [← reaches_new_iff, rescan_eq]
  cases SkillLoader.new D L.skillsDir <;> simp [Except.map]

def twinTree : FileTree :=
  (([([], "skills", .dir), (["skills"], "a-b", .dir),
    (["skills", "a-b"], "SKILL.md", .file "# Review"), (["skills"], "a", .dir),
    (["skills", "a"], "b", .dir), (["skills", "a", "b"], "SKILL.md", .file "# Test")] :
      List (PurePath × String × FileKind)).foldlM
        (fun (t : FileTree) entry => t.add entry.1 entry.2.1 entry.2.2)
        { parent := fun _ _ h => by simp at h }).get (by decide +kernel)

def twins : SkillDisk where
  tree := twinTree
  depth := 40
  cwd := []
  readText path :=
    match twinTree.get path with
    | some (.file content) => .ok content
    | _ => .error .osError
  safeLoad _ := .noMapping
  repr text := "'" ++ text ++ "'"

/-- Two files under one id. -/
theorem twin_skipped : ¬ ∃ L, SkillLoader.new twins ["skills"] = .ok L ∧ L.Reaches twins := by
  rintro ⟨L, h, hL⟩
  have hdir : L.skillsDir = ["skills"] := (new_eq_ok.1 h).1
  have hone : twins.Readable ["skills"] ["skills", "a-b", "SKILL.md"] "# Review" :=
    ⟨by decide +kernel, by decide +kernel⟩
  have htwo : twins.Readable ["skills"] ["skills", "a", "b", "SKILL.md"] "# Test" :=
    ⟨by decide +kernel, by decide +kernel⟩
  have heq := hL.injective _ _ _ _ (hdir ▸ hone) (hdir ▸ htwo) (by rw [hdir]; decide +kernel)
  exact absurd heq (by decide)

end NemoClaw
