import Mathlib.Data.Rat.Defs
import Mathlib.Logic.Function.Basic
import NemoClaw.Lib.Overlays
import NemoClaw.Nmb.Models

/-! The configuration (`config.py`): dataclass defaults, the YAML overlay, the environment, and the
prompting fields that `agent_loop` takes from other sections. Whether a field of `agent_loop` was
set is read off its value, so a set value that equals the default counts as absent. -/

namespace NemoClaw

open Lib

/-! ### Values and sections -/

/-- A value of a field, as `yaml.safe_load` makes it. -/
inductive YamlValue
  | null
  | bool (b : Bool)
  | int (n : ℤ)
  | float (x : ℚ)
  | str (s : String)
  /-- a sequence, a mapping, a date, or a number that is not finite -/
  | other (text : String) (truth : Bool)
  deriving DecidableEq, Repr

namespace YamlValue

def number : YamlValue → Option ℚ
  | .bool b => some (if b then 1 else 0)
  | .int n => some n
  | .float x => some x
  | _ => none

/-- `==`; numbers of different types may be equal. -/
def equals (v w : YamlValue) : Bool :=
  match v.number, w.number with
  | some x, some y => x = y
  | none, none => v = w
  | _, _ => false

def truth : YamlValue → Bool
  | .null => false
  | .bool b => b
  | .int n => n ≠ 0
  | .float x => x ≠ 0
  | .str s => s ≠ ""
  | .other _ truth => truth

theorem equals_refl (v : YamlValue) : v.equals v = true := by
  unfold equals
  cases v.number <;> simp

end YamlValue

/-- The fields of `AppConfig`. -/
inductive ConfigSection
  | slack | inference | orchestrator | agentLoop | delegation | nmb | log | audit | jira | gitlab
  | gerrit | confluence | slackSearch | webSearch | coding | skills
  deriving DecidableEq, Repr

def ConfigSection.name : ConfigSection → String
  | .slack => "slack"
  | .inference => "inference"
  | .orchestrator => "orchestrator"
  | .agentLoop => "agent_loop"
  | .delegation => "delegation"
  | .nmb => "nmb"
  | .log => "log"
  | .audit => "audit"
  | .jira => "jira"
  | .gitlab => "gitlab"
  | .gerrit => "gerrit"
  | .confluence => "confluence"
  | .slackSearch => "slack_search"
  | .webSearch => "web_search"
  | .coding => "coding"
  | .skills => "skills"

/-- An instance of a config dataclass: its fields by name. -/
abbrev SubConfig := Dict String YamlValue

def fields (l : List (String × YamlValue)) : SubConfig :=
  l.foldr (fun p d => d.insert p.1 p.2) ∅

/-- The dataclass defaults. -/
def ConfigSection.defaults : ConfigSection → SubConfig
  | .slack => fields [("bot_token", .str ""), ("app_token", .str "")]
  | .inference => fields [("base_url", .str "https://inference.local/v1"), ("api_key", .str ""),
      ("model", .str "azure/anthropic/claude-opus-4-6"), ("timeout_s", .int 60),
      ("max_retries", .int 3)]
  | .orchestrator => fields [("model", .str "azure/anthropic/claude-opus-4-6"),
      ("system_prompt_path", .str "prompts/system_prompt.md"), ("max_thread_history", .int 50),
      ("temperature", .float (7 / 10)), ("max_tokens", .int 2048)]
  | .agentLoop => fields [("model", .str "azure/anthropic/claude-opus-4-6"),
      ("temperature", .float (7 / 10)), ("max_tokens", .int 2048), ("max_tool_rounds", .int 10),
      ("max_continuation_retries", .int 2), ("micro_compaction_chars", .int 10000),
      ("compaction_threshold_chars", .int 400000), ("compaction_compress_ratio", .float (1 / 2)),
      ("compaction_min_keep", .int 4), ("compaction_model", .str "")]
  | .delegation => fields [("enabled", .bool true), ("max_concurrent", .int 4),
      ("max_spawn_depth", .int 1), ("task_timeout_s", .float 300),
      ("spawn_ready_timeout_s", .float 10), ("spawn_ready_poll_interval_s", .float (1 / 10)),
      ("sub_agent_module", .str "nemoclaw_escapades.agent")]
  | .nmb => fields [("broker_url", .str "ws://messages.local:9876"), ("sandbox_id", .str "")]
  | .log => fields [("level", .str "INFO"), ("log_file", .null)]
  | .audit => fields [("enabled", .bool true), ("db_path", .str "~/.nemoclaw/audit.db"),
      ("persist_payloads", .bool true)]
  | .jira => fields [("enabled", .bool true), ("url", .str "https://jirasw.nvidia.com"),
      ("auth_header", .str "")]
  | .gitlab => fields [("enabled", .bool true), ("url", .str ""), ("token", .str "")]
  | .gerrit => fields [("enabled", .bool true), ("url", .str ""), ("username", .str ""),
      ("http_password", .str "")]
  | .confluence => fields [("enabled", .bool true),
      ("url", .str "https://nvidia.atlassian.net/wiki"), ("username", .str ""),
      ("api_token", .str "")]
  | .slackSearch => fields [("enabled", .bool true), ("user_token", .str "")]
  | .webSearch => fields [("enabled", .bool true), ("api_key", .str ""), ("jina_api_key", .str ""),
      ("default_limit", .int 5)]
  | .coding => fields [("enabled", .bool true), ("workspace_root", .str "~/.nemoclaw/workspace"),
      ("git_clone_allowed_hosts", .str "")]
  | .skills => fields [("enabled", .bool true), ("skills_dir", .str "skills")]

abbrev AppConfig := ConfigSection → SubConfig

namespace AppConfig

variable (config : AppConfig)

def get (s : ConfigSection) (field : String) : YamlValue := ((config s).lookup field).getD .null

def set (s : ConfigSection) (field : String) (value : YamlValue) : AppConfig :=
  Function.update config s ((config s).insert field value)

end AppConfig

/-! ### The YAML overlay -/

/-- The value of a section in the overlay. -/
inductive YamlSection
  | null
  | mapping (values : Dict String YamlValue)
  | notMapping (value : YamlValue)

/-- The value of `toolsets` in the overlay. -/
inductive YamlToolsets
  | falsy
  | mapping (sections : Dict String YamlSection)
  | notMapping

structure YamlOverlay where
  sections : Dict String YamlSection := ∅
  toolsets : YamlToolsets := .falsy

/-- What is found at the path of the overlay. -/
inductive YamlDocument
  | missing
  | malformed (exc : String)
  | falsy
  | mapping (overlay : YamlOverlay)
  | notMapping (typeName : String)

def directSections : List ConfigSection :=
  [.inference, .orchestrator, .agentLoop, .delegation, .nmb, .log, .audit, .coding, .skills]

def toolsetSections : List ConfigSection :=
  [.jira, .gitlab, .gerrit, .confluence, .slackSearch, .webSearch]

/-- `_apply_section`; what is no field of the dataclass is logged. -/
def applySection (subConfig : SubConfig) : YamlSection → SubConfig
  | .mapping values => subConfig.overlay values
  | .null | .notMapping _ => subConfig

/-- The loop over the sections of a group. -/
def applySections (sections : Dict String YamlSection) (group : List ConfigSection)
    (config : AppConfig) : AppConfig :=
  group.foldl (fun config s =>
    Function.update config s (applySection (config s) ((sections.lookup s.name).getD .null))) config

def applyYamlOverlay (path : String) (config : AppConfig) :
    YamlDocument → Except String AppConfig
  | .missing => .ok config
  | .malformed exc => .error ("Invalid YAML in " ++ path ++ ": " ++ exc)
  | .falsy => .ok config
  | .notMapping typeName =>
    .error ("Top-level YAML in " ++ path ++ " must be a mapping, got " ++ typeName)
  | .mapping overlay =>
    let config := applySections overlay.sections directSections config
    .ok (match overlay.toolsets with
      | .mapping sections => applySections sections toolsetSections config
      | .falsy | .notMapping => config)

/-! ### The environment -/

/-- A field that an environment variable sets. -/
structure EnvField where
  var : String
  target : ConfigSection
  field : String

def secretFields : List EnvField :=
  [⟨"SLACK_BOT_TOKEN", .slack, "bot_token"⟩, ⟨"SLACK_APP_TOKEN", .slack, "app_token"⟩,
    ⟨"INFERENCE_HUB_API_KEY", .inference, "api_key"⟩, ⟨"JIRA_AUTH", .jira, "auth_header"⟩,
    ⟨"GITLAB_TOKEN", .gitlab, "token"⟩, ⟨"GERRIT_USERNAME", .gerrit, "username"⟩,
    ⟨"GERRIT_HTTP_PASSWORD", .gerrit, "http_password"⟩,
    ⟨"CONFLUENCE_USERNAME", .confluence, "username"⟩,
    ⟨"CONFLUENCE_API_TOKEN", .confluence, "api_token"⟩,
    ⟨"SLACK_USER_TOKEN", .slackSearch, "user_token"⟩,
    ⟨"BRAVE_SEARCH_API_KEY", .webSearch, "api_key"⟩,
    ⟨"JINA_API_KEY", .webSearch, "jina_api_key"⟩]

def runtimeFields : List EnvField :=
  [⟨"NEMOCLAW_SANDBOX_ID", .nmb, "sandbox_id"⟩,
    ⟨"NEMOCLAW_WORKSPACE_ROOT", .coding, "workspace_root"⟩]

def applyEnv (env : String → Option String) (table : List EnvField) (config : AppConfig) :
    AppConfig :=
  table.foldl (fun config f =>
    match truthy (env f.var) with
    | some val => config.set f.target f.field (.str val)
    | none => config) config

def loadSecretsFromEnv (env : String → Option String) : AppConfig → AppConfig :=
  applyEnv env secretFields

def applyRuntimeOverrides (env : String → Option String) : AppConfig → AppConfig :=
  applyEnv env runtimeFields

/-! ### Loading -/

/-- The prompting fields of `agent_loop`, each with the section that it is taken from. -/
def promptingFields : List (String × ConfigSection) :=
  [("model", .inference), ("temperature", .orchestrator), ("max_tokens", .orchestrator)]

/-- `_sync_agent_loop_prompting_fields` for one field. -/
def syncField (config : AppConfig) (p : String × ConfigSection) : AppConfig :=
  if (config.get .agentLoop p.1).equals (AppConfig.get ConfigSection.defaults .agentLoop p.1) then
    config.set .agentLoop p.1 (config.get p.2 p.1)
  else config

def syncAgentLoopPromptingFields (config : AppConfig) : AppConfig :=
  promptingFields.foldl syncField config

/-- The keys that `_check_required_config` finds missing. -/
def missingConfig (config : AppConfig) (requireSlack : Bool) : List String :=
  (if requireSlack && !(config.get .slack "bot_token").truth then ["SLACK_BOT_TOKEN"] else []) ++
  (if requireSlack && !(config.get .slack "app_token").truth then ["SLACK_APP_TOKEN"] else []) ++
  (if (config.get .inference "base_url").truth then [] else ["inference.base_url (YAML)"])

def checkRequiredConfig (config : AppConfig) (requireSlack : Bool) : Except String Unit :=
  let missing := missingConfig config requireSlack
  if missing = [] then .ok ()
  else .error ("Missing required config values: " ++ ", ".intercalate missing ++
    ". Set secrets in .env (copy from .env.example) and non-secret " ++
    "knobs in config/defaults.yaml (or a per-deployment YAML).")

def AppConfig.load (path : String) (document : YamlDocument) (env : String → Option String)
    (requireSlack : Bool) : Except String AppConfig :=
  match applyYamlOverlay path ConfigSection.defaults document with
  | .error exc => .error exc
  | .ok config =>
    let config := syncAgentLoopPromptingFields
      (applyRuntimeOverrides env (loadSecretsFromEnv env config))
    match checkRequiredConfig config requireSlack with
    | .error exc => .error exc
    | .ok () => .ok config

/-! ### What each stage leaves of a field -/

/-- What the overlay gives for a field of a section. -/
def YamlDocument.given (document : YamlDocument) (s : ConfigSection) (field : String) :
    Option YamlValue :=
  match document with
  | .mapping overlay =>
    match overlay.sections.lookup s.name with
    | some (.mapping values) => values.lookup field
    | _ => none
  | _ => none

section Stages

variable {config : AppConfig} {s : ConfigSection} {field : String}

theorem applySections_apply (sections : Dict String YamlSection) {group : List ConfigSection}
    (h : group.Nodup) : applySections sections group config s =
      if s ∈ group then applySection (config s) ((sections.lookup s.name).getD .null)
      else config s := by
  induction group generalizing config with
  | nil => rfl
  | cons t group ih =>
    obtain ⟨hnew, hrest⟩ := List.nodup_cons.1 h
    have hfold : applySections sections (t :: group) config = applySections sections group
        (Function.update config t
          (applySection (config t) ((sections.lookup t.name).getD .null))) := rfl
    rw [hfold, ih hrest]
    by_cases hs : s = t
    · subst hs
      rw [if_neg hnew, if_pos List.mem_cons_self, Function.update_self]
    · rw [Function.update_of_ne hs]
      simp [hs]

/-- A field of a direct section is what the overlay gives, or what it was. -/
theorem lookup_applyYamlOverlay {path : String} {document : YamlDocument} {config' : AppConfig}
    (h : applyYamlOverlay path config document = .ok config') (hs : s ∈ directSections)
    {v : YamlValue} (hv : (config s).lookup field = some v) :
    (config' s).lookup field = some ((document.given s field).getD v) := by
  cases document with
  | missing | falsy =>
    obtain rfl := Except.ok.inj h
    exact hv
  | malformed exc => cases h
  | notMapping typeName => cases h
  | mapping overlay =>
    have hdirect : applySections overlay.sections directSections config s =
        applySection (config s) ((overlay.sections.lookup s.name).getD .null) := by
      rw [applySections_apply _ (by decide), if_pos hs]
    have hother : s ∉ toolsetSections := by
      revert hs
      cases s <;> decide
    have hresult : config' s =
        applySection (config s) ((overlay.sections.lookup s.name).getD .null) := by
      rw [← Except.ok.inj h, ← hdirect]
      cases overlay.toolsets with
      | falsy | notMapping => rfl
      | mapping sections =>
        dsimp only
        rw [applySections_apply _ (by decide), if_neg hother]
    rw [hresult, YamlDocument.given]
    cases overlay.sections.lookup s.name with
    | none => exact hv
    | some node =>
      cases node with
      | null | notMapping value => exact hv
      | mapping values =>
        dsimp only [Option.getD_some, applySection]
        rw [Dict.lookup_overlay, hv, Option.map_some]

theorem get_set (config : AppConfig) (t : ConfigSection) (f : String) (value : YamlValue) :
    (config.set t f value).get s field =
      if s = t ∧ field = f then value else config.get s field := by
  unfold AppConfig.set AppConfig.get
  by_cases hs : s = t
  · subst hs
    rw [Function.update_self]
    by_cases hf : field = f
    · subst hf
      simp
    · rw [AList.lookup_insert_ne hf]
      simp [hf]
  · rw [Function.update_of_ne hs]
    simp [hs]

theorem get_applyEnv (env : String → Option String) {table : List EnvField}
    (h : ∀ f ∈ table, ¬ (s = f.target ∧ field = f.field)) :
    (applyEnv env table config).get s field = config.get s field := by
  induction table generalizing config with
  | nil => rfl
  | cons f table ih =>
    obtain ⟨hf, hrest⟩ := List.forall_mem_cons.1 h
    rw [applyEnv, List.foldl_cons]
    refine (ih hrest).trans ?_
    cases truthy (env f.var) with
    | none => rfl
    | some val =>
      dsimp only
      rw [get_set, if_neg hf]

theorem get_syncField (config : AppConfig) (p : String × ConfigSection) :
    (syncField config p).get s field =
      if (s = .agentLoop ∧ field = p.1) ∧ (config.get .agentLoop p.1).equals
          (AppConfig.get ConfigSection.defaults .agentLoop p.1) = true
      then config.get p.2 p.1 else config.get s field := by
  unfold syncField
  split_ifs with hequal hboth hboth
  · rw [get_set, if_pos hboth.1]
  · rw [get_set, if_neg fun hsame => hboth ⟨hsame, hequal⟩]
  · exact absurd hboth.2 hequal
  · rfl

/-- A prompting field is taken from its section when it equals the default. -/
theorem get_foldl_syncField {l : List (String × ConfigSection)} (hnodup : (l.map Prod.fst).Nodup)
    (hsource : ∀ p ∈ l, p.2 ≠ .agentLoop) {p : String × ConfigSection} (hp : p ∈ l) :
    (l.foldl syncField config).get .agentLoop p.1 =
      if (config.get .agentLoop p.1).equals
          (AppConfig.get ConfigSection.defaults .agentLoop p.1) = true
      then config.get p.2 p.1 else config.get .agentLoop p.1 := by
  have hkeep : ∀ (l : List (String × ConfigSection)) (config : AppConfig),
      p.1 ∉ l.map Prod.fst →
        (l.foldl syncField config).get .agentLoop p.1 = config.get .agentLoop p.1 := by
    intro l
    induction l with
    | nil => exact fun _ _ => rfl
    | cons q l ih =>
      intro config hnot
      rw [List.map_cons, List.mem_cons, not_or] at hnot
      rw [List.foldl_cons, ih _ hnot.2, get_syncField, if_neg fun h => hnot.1 h.1.2]
  induction l generalizing config with
  | nil => cases hp
  | cons q l ih =>
    rw [List.map_cons, List.nodup_cons] at hnodup
    obtain ⟨hq, hrest⟩ := List.forall_mem_cons.1 hsource
    rw [List.foldl_cons]
    rcases List.mem_cons.1 hp with rfl | hp
    · rw [hkeep l _ hnodup.1, get_syncField]
      simp
    · have hne : p.1 ≠ q.1 := by
        intro heq
        rw [← heq] at hnodup
        exact hnodup.1 (List.mem_map_of_mem hp)
      have hself : (syncField config q).get .agentLoop p.1 = config.get .agentLoop p.1 := by
        rw [get_syncField, if_neg fun h => hne h.1.2]
      have hfrom : (syncField config q).get p.2 p.1 = config.get p.2 p.1 := by
        rw [get_syncField, if_neg fun h => hrest p hp h.1.1]
      rw [ih hnodup.2 hrest hp, hself, hfrom]

end Stages

/-! ### Explicit settings -/

/-- What `agent_loop` inherits for a prompting field. -/
def inherited (document : YamlDocument) (p : String × ConfigSection) : YamlValue :=
  (document.given p.2 p.1).getD (AppConfig.get ConfigSection.defaults p.2 p.1)

/-- An explicit prompting field has its value, and any other is inherited. -/
def ExplicitWins (document : YamlDocument) (config : AppConfig) : Prop :=
  ∀ p ∈ promptingFields,
    config.get .agentLoop p.1 = (document.given .agentLoop p.1).getD (inherited document p)

/-- A field with a default that no environment variable sets. -/
def Plain (s : ConfigSection) (field : String) : Prop :=
  s ∈ directSections ∧ ((ConfigSection.defaults s).lookup field).isSome ∧
    ∀ f ∈ secretFields ++ runtimeFields, ¬ (s = f.target ∧ field = f.field)

theorem plain_promptingFields : ∀ p ∈ promptingFields, Plain .agentLoop p.1 ∧ Plain p.2 p.1 := by
  unfold Plain
  decide +kernel

theorem get_beforeSync {path : String} {document : YamlDocument} {env : String → Option String}
    {config : AppConfig} (h : applyYamlOverlay path ConfigSection.defaults document = .ok config)
    {s : ConfigSection} {field : String} (hplain : Plain s field) :
    (applyRuntimeOverrides env (loadSecretsFromEnv env config)).get s field =
      (document.given s field).getD (AppConfig.get ConfigSection.defaults s field) := by
  obtain ⟨hs, hdefault, henv⟩ := hplain
  obtain ⟨v, hv⟩ := Option.isSome_iff_exists.1 hdefault
  obtain ⟨hsecrets, hruntime⟩ := List.forall_mem_append.1 henv
  rw [applyRuntimeOverrides, get_applyEnv env hruntime, loadSecretsFromEnv,
    get_applyEnv env hsecrets, AppConfig.get, AppConfig.get, lookup_applyYamlOverlay h hs hv, hv]
  rfl

theorem get_load {path : String} {document : YamlDocument} {env : String → Option String}
    {requireSlack : Bool} {config : AppConfig}
    (h : AppConfig.load path document env requireSlack = .ok config) {p : String × ConfigSection}
    (hp : p ∈ promptingFields) :
    config.get .agentLoop p.1 =
      if ((document.given .agentLoop p.1).getD
          (AppConfig.get ConfigSection.defaults .agentLoop p.1)).equals
            (AppConfig.get ConfigSection.defaults .agentLoop p.1) = true
      then inherited document p
      else (document.given .agentLoop p.1).getD
        (AppConfig.get ConfigSection.defaults .agentLoop p.1) := by
  obtain ⟨hself, hfrom⟩ := plain_promptingFields p hp
  unfold AppConfig.load at h
  split at h
  · cases h
  · next overlaid hoverlay =>
    dsimp only at h
    split at h
    · cases h
    · obtain rfl := Except.ok.inj h
      rw [syncAgentLoopPromptingFields, get_foldl_syncField (by decide) (by decide) hp,
        get_beforeSync hoverlay hself, get_beforeSync hoverlay hfrom, inherited]

/-- Explicit prompting fields win exactly if those that equal the default are what would be
inherited anyway. -/
theorem explicitWins_iff {path : String} {document : YamlDocument} {env : String → Option String}
    {requireSlack : Bool} {config : AppConfig}
    (h : AppConfig.load path document env requireSlack = .ok config) :
    ExplicitWins document config ↔ ∀ p ∈ promptingFields, ∀ v,
      document.given .agentLoop p.1 = some v →
        v.equals (AppConfig.get ConfigSection.defaults .agentLoop p.1) = true →
          v = inherited document p := by
  refine forall₂_congr fun p hp => ?_
  rw [get_load h hp]
  cases hgiven : document.given .agentLoop p.1 with
  | none =>
    rw [Option.getD_none, Option.getD_none, if_pos (YamlValue.equals_refl _)]
    simp
  | some v =>
    rw [Option.getD_some, Option.getD_some]
    constructor
    · intro hwins w hw hequal
      obtain rfl := Option.some.inj hw
      rw [if_pos hequal] at hwins
      exact hwins.symm
    · intro hwins
      split_ifs with hequal
      · exact (hwins v rfl hequal).symm
      · rfl

def noEnv : String → Option String := fun _ => none

/-- The overlay pins the sub-agents to the default model, and the backend to another. -/
def pinnedModel : YamlDocument := .mapping
  { sections := ((∅ : Dict String YamlSection).insert "agent_loop"
      (.mapping (fields [("model", .str "azure/anthropic/claude-opus-4-6"),
        ("max_tokens", .int 500)]))).insert "inference"
          (.mapping (fields [("model", .str "fast-model")])) }

def loadedPinned : AppConfig :=
  syncAgentLoopPromptingFields (applyRuntimeOverrides noEnv (loadSecretsFromEnv noEnv
    (match applyYamlOverlay "config.yaml" ConfigSection.defaults pinnedModel with
      | .ok config => config
      | .error _ => ConfigSection.defaults)))

theorem load_pinnedModel :
    AppConfig.load "config.yaml" pinnedModel noEnv false = .ok loadedPinned := by
  have hmissing : missingConfig loadedPinned false = [] := by decide +kernel
  have hcheck : checkRequiredConfig loadedPinned false = .ok () := if_pos hmissing
  have hload : AppConfig.load "config.yaml" pinnedModel noEnv false =
      match checkRequiredConfig loadedPinned false with
      | .error exc => .error exc
      | .ok () => .ok loadedPinned := rfl
  rw [hload, hcheck]

theorem explicitWins_iff_pinned : ExplicitWins pinnedModel loadedPinned ↔
    ∀ p ∈ promptingFields, ∀ v, pinnedModel.given .agentLoop p.1 = some v →
      v.equals (AppConfig.get ConfigSection.defaults .agentLoop p.1) = true →
        v = inherited pinnedModel p :=
  explicitWins_iff load_pinnedModel

/-- The pinned model gives way to that of the backend. -/
theorem pinned_model_lost :
    AppConfig.load "config.yaml" pinnedModel noEnv false = .ok loadedPinned ∧
      ¬ ExplicitWins pinnedModel loadedPinned := by
  refine ⟨load_pinnedModel, ?_⟩
  intro hwins
  have hmodel := hwins ("model", .inference) (by decide)
  revert hmodel
  decide +kernel

end NemoClaw
