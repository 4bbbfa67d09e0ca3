import Mathlib.Data.List.DropRight
import NemoClaw.Agent.FileTools
import NemoClaw.Agent.Paging
import NemoClaw.Agent.SkillLoader
import NemoClaw.Lib.NestedDict
import NemoClaw.System.Configuration

/-! The configuration file of the sandbox (`scripts/gen_config.py`): the base document with the
values that `.env` gives for a short list of keys. The process that loads the file runs on the
configuration of the base, up to the fields of these keys. -/

namespace NemoClaw

open Lib Cuts

/-! ### `.env` -/

def isQuote (c : Char) : Bool := c = '\'' || c = '"'

/-- `value.strip().strip("'\"")` -/
def unquoted (value : List Char) : List Char :=
  ((stripText value).dropWhile isQuote).rdropWhile isQuote

/-- What a line of a dotenv file sets. Its line end goes with the blanks around it. -/
def dotenvLine (raw : List Char) : Option (String × String) :=
  let line := stripText raw
  if line = [] ∨ line.head? = some '#' ∨ '=' ∉ line then none
  else
    let key := stripText (before '=' line)
    if key = [] then none else some (String.ofList key, String.ofList (unquoted (after '=' line)))

/-- `_load_dotenv`; the last line for a key counts. -/
def loadDotenv : Option (List Char) → Dict String String
  | none => ∅
  | some text => (splitKeepEnds (universalNewlines text)).foldl (fun values raw =>
    match dotenvLine raw with
    | some (key, value) => values.insert key value
    | none => values) ∅

/-! ### The documents -/

abbrev YamlNode := Nested String YamlValue

namespace YamlNode

/-- A node as the value of a field. Nothing looks into a mapping there. -/
def value : YamlNode → YamlValue
  | .leaf v => v
  | .node entries => .other "mapping" (!entries.isEmpty)

def toSection : YamlNode → YamlSection
  | .leaf .null => .null
  | .leaf v => .notMapping v
  | .node entries => .mapping (Dict.ofEntries value entries)

def toToolsets : Option YamlNode → YamlToolsets
  | none => .falsy
  | some (.leaf v) => if v.truth then .notMapping else .falsy
  | some (.node entries) => .mapping (Dict.ofEntries toSection entries)

/-- What `_apply_yaml_overlay` reads of a file with this document. -/
def document (typeName : YamlValue → String) : YamlNode → YamlDocument
  | .leaf v => if v.truth then .notMapping (typeName v) else .falsy
  | .node entries => .mapping
    { sections := Dict.ofEntries toSection entries
      toolsets := toToolsets (entries.lookup "toolsets") }

end YamlNode

/-! ### The script -/

/-- `_CATEGORY_B_KEYS` -/
def categoryBKeys : List (String × String) :=
  [("GIT_CLONE_ALLOWED_HOSTS", "coding.git_clone_allowed_hosts"),
    ("GITLAB_URL", "toolsets.gitlab.url"), ("GERRIT_URL", "toolsets.gerrit.url")]

/-- `_FORBIDDEN_KEY_SUFFIXES` -/
def forbiddenKeySuffixes : List String :=
  ["_TOKEN", "_AUTH", "_PASSWORD", "_KEY", "_SECRET", "_API_KEY", "_BOT_TOKEN", "_APP_TOKEN",
    "_USER_TOKEN", "_USERNAME", "_CREDENTIALS", "_COOKIE"]

/-- `_has_forbidden_suffix`, for keys in ASCII -/
def hasForbiddenSuffix (key : String) : Bool :=
  forbiddenKeySuffixes.any fun suffix => suffix.toList.isSuffixOf (key.toList.map Char.toUpper)

/-- `dotted.split(".")` -/
def dottedParts (dotted : String) : List String := (dotted.toList.splitOn '.').map String.ofList

/-- `_apply_dotted_path` -/
def applyDottedPath (doc : YamlNode) (dotted : String) (value : String) :
    Except (PathFault String) YamlNode :=
  Nested.setAt ((dottedParts dotted).getLastD "") (.leaf (.str value))
    (dottedParts dotted).dropLast doc

/-- How the script ends. -/
inductive GenConfig
  | exit (code : ℕ) (message : String)
  /-- the path of a key is not in the base document -/
  | raised (fault : PathFault String)
  | written (doc : YamlNode)

/-- The loop over the allowlist: the document, and the keys that are not to be written. -/
def applyKeys (env : Dict String String) :
    List (String × String) → YamlNode → Except (PathFault String) (YamlNode × List String)
  | [], doc => .ok (doc, [])
  | (key, dotted) :: keys, doc =>
    match truthy (env.lookup key) with
    | none => applyKeys env keys doc
    | some value =>
      if hasForbiddenSuffix key then
        match applyKeys env keys doc with
        | .error fault => .error fault
        | .ok (doc, skipped) => .ok (doc, key :: skipped)
      else
        match applyDottedPath doc dotted value with
        | .error fault => .error fault
        | .ok doc => applyKeys env keys doc

/-- `main`, from the text of `.env` and the base document, if there are any. -/
def genConfig (dotenv : Option (List Char)) (base : Option YamlNode) : GenConfig :=
  let env := loadDotenv dotenv
  match base with
  | none => .exit 1 "Error: config/defaults.yaml not found"
  | some doc =>
    let badAllowlist := (categoryBKeys.map Prod.fst).filter hasForbiddenSuffix
    if badAllowlist ≠ [] then
      .exit 2 ("Error: category-B allowlist includes secret-suffixed keys: " ++
        ", ".intercalate badAllowlist ++ ".  Secrets must flow through " ++
        "env vars, not file-based config.")
    else
      match applyKeys env categoryBKeys doc with
      | .error fault => .raised fault
      | .ok (_, skipped@(_ :: _)) =>
        .exit 3 ("Error: secret-suffixed env vars found on category-B " ++
          "allowlist at runtime: " ++ ", ".intercalate skipped ++ ".")
      | .ok (doc, []) => .written doc

/-- The assignments that `.env` asks for. -/
def dotenvUpdates (env : Dict String String) : List (List String × String × YamlNode) :=
  categoryBKeys.filterMap fun p => (truthy (env.lookup p.1)).map fun value =>
    ((dottedParts p.2).dropLast, (dottedParts p.2).getLastD "", .leaf (.str value))

theorem categoryBKeys_allowed : ∀ p ∈ categoryBKeys, hasForbiddenSuffix p.1 = false := by
  decide +kernel

/-- No key of the allowlist is refused, so the loop is a sequence of assignments. -/
theorem applyKeys_eq (env : Dict String String) {keys : List (String × String)}
    (hkeys : ∀ p ∈ keys, hasForbiddenSuffix p.1 = false) (doc : YamlNode) :
    applyKeys env keys doc =
      match Nested.setAll (keys.filterMap fun p => (truthy (env.lookup p.1)).map fun value =>
        ((dottedParts p.2).dropLast, (dottedParts p.2).getLastD "", .leaf (.str value))) doc with
      | .error fault => .error fault
      | .ok doc => .ok (doc, []) := by
  induction keys generalizing doc with
  | nil => rfl
  | cons p keys ih =>
    obtain ⟨hp, hrest⟩ := List.forall_mem_cons.1 hkeys
    obtain ⟨key, dotted⟩ := p
    unfold applyKeys
    cases hvalue : truthy (env.lookup key) with
    | none =>
      rw [List.filterMap_cons_none (by simp [hvalue])]
      exact ih hrest doc
    | some value =>
      rw [List.filterMap_cons_some (by rw [hvalue, Option.map_some])]
      simp only [hp, Bool.false_eq_true, if_false, applyDottedPath, Nested.setAll]
      cases Nested.setAt ((dottedParts dotted).getLastD "") (.leaf (.str value))
          (dottedParts dotted).dropLast doc with
      | error fault => rfl
      | ok doc => exact ih hrest doc

theorem badAllowlist_nil : (categoryBKeys.map Prod.fst).filter hasForbiddenSuffix = [] := by
  decide +kernel

/-- A file that is written holds the base document with the assignments. -/
theorem setAll_of_written {dotenv : Option (List Char)} {base resolved : YamlNode}
    (h : genConfig dotenv (some base) = .written resolved) :
    Nested.setAll (dotenvUpdates (loadDotenv dotenv)) base = .ok resolved := by
  unfold genConfig at h
  dsimp only at h
  rw [if_neg (not_not.2 badAllowlist_nil), applyKeys_eq _ categoryBKeys_allowed] at h
  have hupdates : dotenvUpdates (loadDotenv dotenv) = categoryBKeys.filterMap _ := rfl
  rw [← hupdates] at h
  cases hset : Nested.setAll (dotenvUpdates (loadDotenv dotenv)) base with
  | error fault =>
    rw [hset] at h
    contradiction
  | ok doc =>
    rw [hset] at h
    obtain rfl := GenConfig.written.inj h
    rfl

/-! ### The fields of the keys -/

/-- The fields that the keys of the allowlist fill. -/
def categoryBFields : List EnvField :=
  [⟨"GIT_CLONE_ALLOWED_HOSTS", .coding, "git_clone_allowed_hosts"⟩,
    ⟨"GITLAB_URL", .gitlab, "url"⟩, ⟨"GERRIT_URL", .gerrit, "url"⟩]

/-- Where a section stands in a YAML document. -/
def sectionPath (s : ConfigSection) : Option (List String) :=
  if s ∈ directSections then some [s.name]
  else if s ∈ toolsetSections then some ["toolsets", s.name]
  else none

def fieldPath (s : ConfigSection) (field : String) : Option (List String) :=
  (sectionPath s).map fun path => path ++ [field]

/-- What the environment gives for a field by a table. -/
def envSetting (env : String → Option String) (table : List EnvField) (s : ConfigSection)
    (field : String) : Option YamlValue :=
  (table.find? fun x => decide (s = x.target ∧ field = x.field)).bind fun x =>
    (truthy (env x.var)).map YamlValue.str

section Settings

variable {env : String → Option String} {table : List EnvField} {s : ConfigSection}
  {field : String}

theorem envSetting_eq_none (h : ∀ x ∈ table, ¬ (s = x.target ∧ field = x.field)) :
    envSetting env table s field = none := by
  have hnone : table.find? (fun x => decide (s = x.target ∧ field = x.field)) = none :=
    List.find?_eq_none.2 fun x hx => by simpa using h x hx
  rw [envSetting, hnone, Option.bind_none]

/-- The fields of the table are distinct. -/
def DistinctFields (table : List EnvField) : Prop :=
  table.Pairwise fun x y => ¬ (x.target = y.target ∧ x.field = y.field)

/-- One variable. -/
theorem get_applyEnv_singleton (x : EnvField) (config : AppConfig) :
    (applyEnv env [x] config).get s field =
      (envSetting env [x] s field).getD (config.get s field) := by
  unfold applyEnv envSetting
  rw [List.foldl_cons, List.foldl_nil]
  by_cases hsame : s = x.target ∧ field = x.field
  · rw [List.find?_cons_of_pos (by simpa using hsame), Option.bind_some]
    cases truthy (env x.var) with
    | none => rfl
    | some val =>
      dsimp only
      rw [get_set, if_pos hsame]
      rfl
  · rw [List.find?_cons_of_neg (by simpa using hsame), List.find?_nil, Option.bind_none]
    cases truthy (env x.var) with
    | none => rfl
    | some val =>
      dsimp only
      rw [get_set, if_neg hsame]
      rfl

/-- A field is what its variable says, or what it was. -/
theorem get_applyEnv_eq (h : DistinctFields table) (config : AppConfig) :
    (applyEnv env table config).get s field =
      (envSetting env table s field).getD (config.get s field) := by
  induction table generalizing config with
  | nil => rfl
  | cons x table ih =>
    obtain ⟨hx, hrest⟩ := List.pairwise_cons.1 h
    have hcons : applyEnv env (x :: table) config = applyEnv env table (applyEnv env [x] config) :=
      rfl
    rw [hcons, ih hrest, get_applyEnv_singleton]
    by_cases hsame : s = x.target ∧ field = x.field
    · have hlater : envSetting env table s field = none := by
        apply envSetting_eq_none
        intro y hy hy'
        exact hx y hy ⟨hsame.1.symm.trans hy'.1, hsame.2.symm.trans hy'.2⟩
      rw [hlater, Option.getD_none, envSetting, envSetting,
        List.find?_cons_of_pos (by simpa using hsame),
        List.find?_cons_of_pos (by simpa using hsame)]
    · have hnone : envSetting env [x] s field = none := by
        apply envSetting_eq_none
        intro y hy
        obtain rfl := List.mem_singleton.1 hy
        exact hsame
      rw [hnone, Option.getD_none, envSetting, envSetting,
        List.find?_cons_of_neg (by simpa using hsame)]

end Settings

/-! ### The overlay of a document -/

section Overlay

variable {typeName : YamlValue → String} {entries : List (String × YamlNode)}
  {config config' : AppConfig} {s : ConfigSection} {field : String}

theorem lookup_applySection (sub : SubConfig) (node : Option YamlNode) (field : String) :
    (applySection sub ((node.map YamlNode.toSection).getD .null)).lookup field =
      (sub.lookup field).map fun v =>
        ((node.bind (Nested.get [field])).map YamlNode.value).getD v := by
  cases node with
  | none => simp [applySection]
  | some node =>
    cases node with
    | leaf v => cases v <;> simp [YamlNode.toSection, applySection, Nested.get]
    | node entries =>
      simp only [Option.map_some, Option.getD_some, YamlNode.toSection, applySection,
        Dict.lookup_overlay, Dict.lookup_ofEntries, Option.bind_some, Nested.get]
      cases entries.lookup field <;> simp

/-- What the document holds for a field. -/
def givenBy (node : YamlNode) (s : ConfigSection) (field : String) : Option YamlValue :=
  (fieldPath s field).bind fun path => (Nested.get path node).map YamlNode.value

theorem lookup_overlayDocument {path : String}
    (h : applyYamlOverlay path config (YamlNode.document typeName (.node entries)) = .ok config') :
    (config' s).lookup field =
      ((config s).lookup field).map fun v => (givenBy (.node entries) s field).getD v := by
  obtain rfl := Except.ok.inj h
  have hapart : ∀ s ∈ directSections, s ∉ toolsetSections := by decide
  dsimp only
  by_cases hdirect : s ∈ directSections
  · have hgiven : givenBy (.node entries) s field =
        ((entries.lookup s.name).bind (Nested.get [field])).map YamlNode.value := by
      rw [givenBy, fieldPath, sectionPath, if_pos hdirect]
      rfl
    have hsection : applySections (Dict.ofEntries YamlNode.toSection entries) directSections
        config s = applySection (config s)
          (((entries.lookup s.name).map YamlNode.toSection).getD .null) := by
      rw [applySections_apply _ (by decide), if_pos hdirect, Dict.lookup_ofEntries]
    rw [hgiven, ← lookup_applySection, ← hsection]
    cases YamlNode.toToolsets (entries.lookup "toolsets") with
    | falsy | notMapping => rfl
    | mapping sections =>
      dsimp only
      rw [applySections_apply _ (by decide), if_neg (hapart s hdirect)]
  · have hsection : applySections (Dict.ofEntries YamlNode.toSection entries) directSections
        config s = config s := by
      rw [applySections_apply _ (by decide), if_neg hdirect]
    by_cases htoolset : s ∈ toolsetSections
    · have hgiven : givenBy (.node entries) s field = ((entries.lookup "toolsets").bind
          (Nested.get [s.name, field])).map YamlNode.value := by
        rw [givenBy, fieldPath, sectionPath, if_neg hdirect, if_pos htoolset]
        rfl
      rw [hgiven]
      cases htoolsets : entries.lookup "toolsets" with
      | none =>
        simp only [YamlNode.toToolsets, hsection]
        simp
      | some node =>
        cases node with
        | leaf v =>
          have hnone : Nested.get [s.name, field] (Nested.leaf v) = none := rfl
          have hignored : YamlNode.toToolsets (some (Nested.leaf v)) =
              if v.truth then .notMapping else .falsy := rfl
          rw [hignored, Option.bind_some, hnone]
          split_ifs
          · simp [hsection]
          · simp [hsection]
        | node sections =>
          have hget : Nested.get [s.name, field] (Nested.node sections) =
              (sections.lookup s.name).bind (Nested.get [field]) := rfl
          simp only [YamlNode.toToolsets, Option.bind_some, hget]
          rw [applySections_apply _ (by decide), if_pos htoolset, Dict.lookup_ofEntries, hsection,
            lookup_applySection]
    · have hgiven : givenBy (.node entries) s field = none := by
        rw [givenBy, fieldPath, sectionPath, if_neg hdirect, if_neg htoolset]
        rfl
      rw [hgiven]
      cases YamlNode.toToolsets (entries.lookup "toolsets") with
      | falsy | notMapping => simp [hsection]
      | mapping sections =>
        dsimp only
        rw [applySections_apply _ (by decide), if_neg htoolset, hsection]
        simp

end Overlay

/-! ### What the file makes of a load -/

section Load

variable {env denv : String → Option String} {s : ConfigSection} {field : String}

/-- The one configuration is the other with what the variables give for the fields of a table. -/
def SettingsFollow (denv : String → Option String) (table : List EnvField)
    (config config' : AppConfig) : Prop :=
  ∀ s field, config'.get s field = (envSetting denv table s field).getD (config.get s field)

/-- The tables have no field in common. -/
def FieldsApart (table table' : List EnvField) : Prop :=
  ∀ x ∈ table, ∀ y ∈ table', ¬ (x.target = y.target ∧ x.field = y.field)

variable {table table' : List EnvField} {config config' : AppConfig}

theorem envSetting_eq_some {v : YamlValue} (h : envSetting denv table s field = some v) :
    ∃ x ∈ table, s = x.target ∧ field = x.field := by
  obtain ⟨x, hx, -⟩ := Option.bind_eq_some_iff.1 h
  have hsame := List.find?_some hx
  exact ⟨x, List.mem_of_find?_eq_some hx, by simpa using hsame⟩

theorem settingsFollow_applyEnv (h : SettingsFollow denv table config config')
    (hapart : FieldsApart table table') (hdistinct : DistinctFields table') :
    SettingsFollow denv table (applyEnv env table' config) (applyEnv env table' config') := by
  intro s field
  rw [get_applyEnv_eq hdistinct, get_applyEnv_eq hdistinct, h s field]
  cases hset : envSetting denv table s field with
  | none => simp
  | some v =>
    obtain ⟨x, hx, rfl, rfl⟩ := envSetting_eq_some hset
    rw [envSetting_eq_none fun y hy => hapart x hx y hy]
    simp

/-- No field of the table is one of these. -/
theorem SettingsFollow.get_eq (h : SettingsFollow denv table config config')
    (hother : ∀ x ∈ table, ¬ (s = x.target ∧ field = x.field)) :
    config'.get s field = config.get s field := by
  rw [h s field, envSetting_eq_none hother, Option.getD_none]

theorem settingsFollow_syncField (h : SettingsFollow denv table config config')
    {p : String × ConfigSection}
    (hself : ∀ x ∈ table, ¬ (.agentLoop = x.target ∧ p.1 = x.field))
    (hsource : ∀ x ∈ table, ¬ (p.2 = x.target ∧ p.1 = x.field)) :
    SettingsFollow denv table (syncField config p) (syncField config' p) := by
  intro s field
  rw [get_syncField, get_syncField, h.get_eq hself, h.get_eq hsource, h s field]
  split_ifs with hsync
  · obtain ⟨⟨rfl, rfl⟩, -⟩ := hsync
    rw [envSetting_eq_none hself, Option.getD_none]
  · rfl

theorem settingsFollow_sync (h : SettingsFollow denv categoryBFields config config') :
    SettingsFollow denv categoryBFields (syncAgentLoopPromptingFields config)
      (syncAgentLoopPromptingFields config') := by
  unfold syncAgentLoopPromptingFields
  have hfields : ∀ p ∈ promptingFields, ∀ x ∈ categoryBFields,
      ¬ (.agentLoop = x.target ∧ p.1 = x.field) ∧ ¬ (p.2 = x.target ∧ p.1 = x.field) := by
    decide +kernel
  revert hfields
  generalize promptingFields = l
  intro hfields
  induction l generalizing config config' with
  | nil => exact h
  | cons p l ih =>
    obtain ⟨hp, hrest⟩ := List.forall_mem_cons.1 hfields
    exact ih (settingsFollow_syncField h (fun x hx => (hp x hx).1) (fun x hx => (hp x hx).2)) hrest

theorem missingConfig_eq (h : SettingsFollow denv categoryBFields config config')
    (requireSlack : Bool) :
    missingConfig config' requireSlack = missingConfig config requireSlack := by
  have hother : ∀ x ∈ categoryBFields, ¬ (.slack = x.target ∧ "bot_token" = x.field) ∧
      ¬ (.slack = x.target ∧ "app_token" = x.field) ∧
        ¬ (.inference = x.target ∧ "base_url" = x.field) := by
    decide +kernel
  unfold missingConfig
  rw [h.get_eq fun x hx => (hother x hx).1, h.get_eq fun x hx => (hother x hx).2.1,
    h.get_eq fun x hx => (hother x hx).2.2]

end Load

/-! ### What the assignments leave in the document -/

instance {κ : Type} [DecidableEq κ] (p q : List κ) : Decidable (Nested.Apart p q) :=
  inferInstanceAs (Decidable (_ ∧ _))

theorem apart_append {κ : Type} {p q : List κ} (h : Nested.Apart p q) (x y : List κ) :
    Nested.Apart (p ++ x) (q ++ y) := by
  constructor
  · intro hpre
    rcases List.prefix_or_prefix_of_prefix ((List.prefix_append p x).trans hpre)
      (List.prefix_append q y) with hpq | hqp
    · exact h.1 hpq
    · exact h.2 hqp
  · intro hpre
    rcases List.prefix_or_prefix_of_prefix ((List.prefix_append q y).trans hpre)
      (List.prefix_append p x) with hqp | hpq
    · exact h.2 hqp
    · exact h.1 hpq

theorem apart_sections : ∀ s ∈ directSections ++ toolsetSections,
    ∀ t ∈ directSections ++ toolsetSections, s ≠ t →
      Nested.Apart ((sectionPath s).getD []) ((sectionPath t).getD []) := by
  decide +kernel

theorem sectionPath_eq_some {s : ConfigSection} {p : List String} (h : sectionPath s = some p) :
    s ∈ directSections ++ toolsetSections := by
  unfold sectionPath at h
  split_ifs at h with hdirect htoolset
  · exact List.mem_append_left _ hdirect
  · exact List.mem_append_right _ htoolset

/-- Different fields stand at places of which neither is below the other. -/
theorem apart_fieldPath {s t : ConfigSection} {field field' : String} {q r : List String}
    (hq : fieldPath s field = some q) (hr : fieldPath t field' = some r)
    (hne : ¬ (s = t ∧ field = field')) : Nested.Apart q r := by
  obtain ⟨p, hp, rfl⟩ := Option.map_eq_some_iff.1 hq
  obtain ⟨p', hp', rfl⟩ := Option.map_eq_some_iff.1 hr
  by_cases hs : s = t
  · subst hs
    obtain rfl := Option.some.inj (hp.symm.trans hp')
    have hfield : field ≠ field' := fun heq => hne ⟨rfl, heq⟩
    constructor
    · intro hpre
      have heq := hpre.eq_of_length (by simp)
      simp [hfield] at heq
    · intro hpre
      have heq := hpre.eq_of_length (by simp)
      simp [hfield.symm] at heq
  · have hapart := apart_sections s (sectionPath_eq_some hp) t (sectionPath_eq_some hp') hs
    rw [hp, hp'] at hapart
    exact apart_append hapart _ _

theorem categoryBKeys_parts :
    categoryBKeys.map (fun p => (p.1, (dottedParts p.2).dropLast, (dottedParts p.2).getLastD "")) =
      categoryBFields.map fun x => (x.var, (sectionPath x.target).getD [], x.field) := by
  decide +kernel

/-- The assignment for a field of the allowlist. -/
def fieldUpdate (env : Dict String String) (x : EnvField) :
    Option (List String × String × YamlNode) :=
  (truthy (env.lookup x.var)).map fun value =>
    ((sectionPath x.target).getD [], x.field, .leaf (.str value))

theorem dotenvUpdates_eq (env : Dict String String) :
    dotenvUpdates env = categoryBFields.filterMap (fieldUpdate env) := by
  have hparts := congrArg (List.filterMap fun u : String × List String × String =>
    (truthy (env.lookup u.1)).map fun value =>
      ((u.2.1, u.2.2, .leaf (.str value)) : List String × String × YamlNode)) categoryBKeys_parts
  rw [List.filterMap_map, List.filterMap_map] at hparts
  exact hparts

theorem categoryBFields_placed : ∀ x ∈ categoryBFields,
    fieldPath x.target x.field = some ((sectionPath x.target).getD [] ++ [x.field]) := by
  decide +kernel

theorem categoryBFields_distinct : DistinctFields categoryBFields := by
  unfold DistinctFields
  decide +kernel

theorem categoryBFields_find : ∀ x ∈ categoryBFields,
    categoryBFields.find? (fun y => decide (x.target = y.target ∧ x.field = y.field)) = some x := by
  intro x hx
  simp only [categoryBFields, List.mem_cons, List.not_mem_nil, or_false] at hx
  rcases hx with rfl | rfl | rfl
  · rfl
  · rfl
  · rfl

variable {env : Dict String String} {base resolved : YamlNode}

theorem mem_dotenvUpdates {u : List String × String × YamlNode} (hu : u ∈ dotenvUpdates env) :
    ∃ x ∈ categoryBFields, ∃ value, truthy (env.lookup x.var) = some value ∧
      fieldPath x.target x.field = some (u.1 ++ [u.2.1]) ∧ u.2.2 = .leaf (.str value) := by
  rw [dotenvUpdates_eq] at hu
  obtain ⟨x, hx, hu⟩ := List.mem_filterMap.1 hu
  obtain ⟨value, hvalue, rfl⟩ := Option.map_eq_some_iff.1 hu
  exact ⟨x, hx, value, hvalue, categoryBFields_placed x hx, rfl⟩

theorem apart_dotenvUpdates : (dotenvUpdates env).Pairwise fun u w =>
    Nested.Apart (u.1 ++ [u.2.1]) (w.1 ++ [w.2.1]) := by
  have hmem : ∀ x ∈ categoryBFields, ∀ u, fieldUpdate env x = some u →
      fieldPath x.target x.field = some (u.1 ++ [u.2.1]) := by
    intro x hx u hu
    obtain ⟨value, -, rfl⟩ := Option.map_eq_some_iff.1 hu
    exact categoryBFields_placed x hx
  rw [dotenvUpdates_eq, List.pairwise_filterMap]
  refine List.Pairwise.imp_of_mem ?_ categoryBFields_distinct
  intro x y hx hy hne u hu w hw
  exact apart_fieldPath (hmem x hx u hu) (hmem y hy w hw) hne

/-- A field of the resolved document is what `.env` gives, or what the base document holds. -/
theorem givenBy_resolved (h : Nested.setAll (dotenvUpdates env) base = .ok resolved)
    (s : ConfigSection) (field : String) :
    givenBy resolved s field =
      match envSetting env.lookup categoryBFields s field with
      | some v => some v
      | none => givenBy base s field := by
  cases hset : envSetting env.lookup categoryBFields s field with
  | some v =>
    obtain ⟨x, hx, hv⟩ := Option.bind_eq_some_iff.1 hset
    obtain ⟨value, hvalue, rfl⟩ := Option.map_eq_some_iff.1 hv
    have hmem := List.mem_of_find?_eq_some hx
    have hsame := List.find?_some hx
    simp only [decide_eq_true_eq] at hsame
    obtain ⟨rfl, rfl⟩ := hsame
    have hu : ((sectionPath x.target).getD [], x.field, Nested.leaf (.str value)) ∈
        dotenvUpdates env := by
      rw [dotenvUpdates_eq]
      exact List.mem_filterMap.2 ⟨x, hmem, by rw [fieldUpdate, hvalue, Option.map_some]⟩
    have hget := Nested.get_setAll h apart_dotenvUpdates hu
    rw [givenBy, categoryBFields_placed x hmem, Option.bind_some, hget]
    rfl
  | none =>
    dsimp only
    unfold givenBy
    cases hq : fieldPath s field with
    | none => rfl
    | some q =>
      rw [Option.bind_some, Option.bind_some, Nested.get_setAll_apart h]
      intro u hu
      obtain ⟨x, hx, value, hvalue, hplace, -⟩ := mem_dotenvUpdates hu
      refine apart_fieldPath hq hplace ?_
      intro hsame
      obtain ⟨rfl, rfl⟩ := hsame
      rw [envSetting, categoryBFields_find x hx, Option.bind_some, hvalue] at hset
      contradiction

/-- Once the overlays are applied, the configurations differ in the fields of the allowlist. -/
theorem settingsFollow_overlay (path : String) (typeName : YamlValue → String)
    {entries entries' : List (String × YamlNode)} {config config' : AppConfig}
    (hset : Nested.setAll (dotenvUpdates env) (.node entries) = .ok (.node entries'))
    (h : applyYamlOverlay path ConfigSection.defaults
      (YamlNode.document typeName (.node entries)) = .ok config)
    (h' : applyYamlOverlay path ConfigSection.defaults
      (YamlNode.document typeName (.node entries')) = .ok config') :
    SettingsFollow env.lookup categoryBFields config config' := by
  intro s field
  rw [AppConfig.get, AppConfig.get, lookup_overlayDocument h, lookup_overlayDocument h',
    givenBy_resolved hset]
  cases hgiven : envSetting env.lookup categoryBFields s field with
  | none => rfl
  | some v =>
    obtain ⟨x, hx, rfl, rfl⟩ := envSetting_eq_some hgiven
    have hknown : ∀ x ∈ categoryBFields,
        ((ConfigSection.defaults x.target).lookup x.field).isSome = true := by
      decide +kernel
    obtain ⟨w, hw⟩ := Option.isSome_iff_exists.1 (hknown x hx)
    rw [hw]
    rfl

/-- A load of the resolved file ends like one of the base, and its configuration is that of the
base with the keys of the allowlist, as if they were variables of its environment. -/
def Resolves (dotenv : Dict String String) :
    Except String AppConfig → Except String AppConfig → Prop
  | .ok config, .ok config' =>
    ∀ s field, config'.get s field = (applyEnv dotenv.lookup categoryBFields config).get s field
  | .error exc, .error exc' => exc = exc'
  | _, _ => False

theorem dotenvUpdates_ne_nil {s : ConfigSection} {field : String} {v : YamlValue}
    (h : envSetting env.lookup categoryBFields s field = some v) : dotenvUpdates env ≠ [] := by
  obtain ⟨x, hx, hv⟩ := Option.bind_eq_some_iff.1 h
  obtain ⟨value, hvalue, rfl⟩ := Option.map_eq_some_iff.1 hv
  have hu : ((sectionPath x.target).getD [], x.field, Nested.leaf (.str value)) ∈
      dotenvUpdates env := by
    rw [dotenvUpdates_eq]
    refine List.mem_filterMap.2 ⟨x, List.mem_of_find?_eq_some hx, ?_⟩
    rw [fieldUpdate, hvalue, Option.map_some]
  exact List.ne_nil_of_mem hu

/-- What follows the overlay. -/
theorem resolves_of_settingsFollow {config config' : AppConfig}
    (h : SettingsFollow env.lookup categoryBFields config config')
    (penv : String → Option String) (requireSlack : Bool) :
    Resolves env
      (match checkRequiredConfig (syncAgentLoopPromptingFields
          (applyRuntimeOverrides penv (loadSecretsFromEnv penv config))) requireSlack with
        | .error exc => .error exc
        | .ok () => .ok (syncAgentLoopPromptingFields
            (applyRuntimeOverrides penv (loadSecretsFromEnv penv config))))
      (match checkRequiredConfig (syncAgentLoopPromptingFields
          (applyRuntimeOverrides penv (loadSecretsFromEnv penv config'))) requireSlack with
        | .error exc => .error exc
        | .ok () => .ok (syncAgentLoopPromptingFields
            (applyRuntimeOverrides penv (loadSecretsFromEnv penv config')))) := by
  have htables : FieldsApart categoryBFields secretFields ∧ DistinctFields secretFields ∧
      FieldsApart categoryBFields runtimeFields ∧ DistinctFields runtimeFields := by
    unfold FieldsApart DistinctFields
    decide +kernel
  obtain ⟨hsecret, hsecrets, hruntime, hruntimes⟩ := htables
  have hloaded : SettingsFollow env.lookup categoryBFields
      (applyRuntimeOverrides penv (loadSecretsFromEnv penv config))
      (applyRuntimeOverrides penv (loadSecretsFromEnv penv config')) :=
    settingsFollow_applyEnv (settingsFollow_applyEnv h hsecret hsecrets) hruntime hruntimes
  have hsynced := settingsFollow_sync hloaded
  unfold checkRequiredConfig
  rw [missingConfig_eq hsynced]
  dsimp only
  split_ifs
  · intro s field
    rw [hsynced s field, get_applyEnv_eq categoryBFields_distinct]
  · rfl

theorem resolves_load (h : Nested.setAll (dotenvUpdates env) base = .ok resolved) (path : String)
    (typeName : YamlValue → String) (penv : String → Option String) (requireSlack : Bool) :
    Resolves env (AppConfig.load path (base.document typeName) penv requireSlack)
      (AppConfig.load path (resolved.document typeName) penv requireSlack) := by
  cases base with
  | leaf v =>
    -- nothing can be assigned there, so `.env` gives nothing
    have hnone : dotenvUpdates env = [] := by
      cases hupdates : dotenvUpdates env with
      | nil => rfl
      | cons u updates =>
        rw [hupdates] at h
        obtain ⟨s, hs, -⟩ := Nested.setAll_cons h
        obtain ⟨entries, -, hleaf, -⟩ := Nested.node_of_setAt hs
        contradiction
    rw [hnone] at h
    obtain rfl := Except.ok.inj h
    cases AppConfig.load path (YamlNode.document typeName (.leaf v)) penv requireSlack with
    | error exc => rfl
    | ok config =>
      intro s field
      rw [get_applyEnv_eq categoryBFields_distinct]
      cases hset : envSetting env.lookup categoryBFields s field with
      | none => rfl
      | some v => exact absurd hnone (dotenvUpdates_ne_nil hset)
  | node entries =>
    obtain ⟨entries', rfl⟩ : ∃ entries', resolved = .node entries' := by
      rcases Nested.node_of_setAll h with rfl | ⟨-, entries', -, rfl⟩
      · exact ⟨entries, rfl⟩
      · exact ⟨entries', rfl⟩
    exact resolves_of_settingsFollow (settingsFollow_overlay path typeName h rfl rfl) penv
      requireSlack

/-- A value of the file is of the base document, or it is what `.env` gives for a key of the
allowlist, in the field of that key. -/
def OnlyAllowed (dotenv : Dict String String) (base resolved : YamlNode) : Prop :=
  ∀ path v, Nested.get path resolved = some (.leaf v) → Nested.get path base = some (.leaf v) ∨
    ∃ x ∈ categoryBFields, fieldPath x.target x.field = some path ∧
      ∃ value, truthy (dotenv.lookup x.var) = some value ∧ v = .str value

theorem onlyAllowed_resolved (h : Nested.setAll (dotenvUpdates env) base = .ok resolved) :
    OnlyAllowed env base resolved := by
  intro path v hv
  have hleaf : ∀ u ∈ dotenvUpdates env, ∃ x, u.2.2 = .leaf x := by
    intro u hu
    obtain ⟨x, -, value, -, -, heq⟩ := mem_dotenvUpdates hu
    exact ⟨_, heq⟩
  rcases Nested.leaf_of_setAll h hleaf hv with hbase | ⟨u, hu, hpath, hassigned⟩
  · exact Or.inl hbase
  · obtain ⟨x, hx, value, hvalue, hplace, heq⟩ := mem_dotenvUpdates hu
    refine Or.inr ⟨x, hx, hpath ▸ hplace, value, hvalue, ?_⟩
    exact Nested.leaf.inj (hassigned.symm.trans heq)

def GenConfig.doc? : GenConfig → Option YamlNode
  | .written doc => some doc
  | _ => none

theorem written_of_doc? {r : GenConfig} (h : r.doc?.isSome = true) :
    ∃ doc, r = .written doc := by
  cases r with
  | written doc => exact ⟨doc, rfl⟩
  | exit | raised => contradiction

/-- The base document leaves the fields of the allowlist empty. -/
def baseConfig : YamlNode := .node
  [("coding", .node [("git_clone_allowed_hosts", .leaf (.str ""))]),
    ("toolsets", .node [("gitlab", .node [("url", .leaf (.str ""))]),
      ("gerrit", .node [("enabled", .leaf (.bool true)), ("url", .leaf (.str ""))])])]

/-- One key of the allowlist and a secret. -/
def gitlabEnv : List Char :=
  "GITLAB_URL = 'https://git.example.com/api'\n# not yet\nGITLAB_TOKEN=secret\n".toList

end NemoClaw
