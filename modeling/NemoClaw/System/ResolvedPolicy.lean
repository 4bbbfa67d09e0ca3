import NemoClaw.Agent.GitClone
import NemoClaw.System.ResolvedConfig

/-! The network policy of the sandbox (`scripts/gen_policy.py`): hosts are put in from the same URLs
of `.env` that the configuration gets, and the endpoints of some hosts may reach private addresses.
So a sandbox gets to the hosts that its tools are configured with, and an endpoint that is left
without a host gets to nothing. -/

namespace NemoClaw

open Lib Cuts GitClone

/-- An endpoint of a network policy: what the script looks at, and the rest. -/
structure PolicyEndpoint (ρ : Type) where
  host : Option String
  allowedIps : Option (List String) := none
  rest : ρ
  deriving DecidableEq

/-- `network_policies`: the endpoints under each name. -/
abbrev NetworkPolicies (ρ : Type) := List (String × List (PolicyEndpoint ρ))

/-- `_POLICY_HOST_SUBSTITUTIONS` -/
def policyHostSubstitutions : List (String × String) :=
  [("GITLAB_URL", "gitlab"), ("GERRIT_URL", "gerrit")]

/-- `_extract_host`; `urlparse` may raise. -/
def extractHost (P : PyText) (url : String) : Except String String :=
  let url := cleaned (stripText url.toList)
  match P.checkNetloc (netloc url) with
  | some exc => .error exc
  | none =>
    if ':' ∈ url ∧ isScheme (before ':' url) then
      .ok (String.ofList (((someUnlessEmpty (hostOf (netloc url))).map P.lowerHost).getD []))
    else .ok ""

/-- `[x.strip() for x in raw.split(",") if x.strip()]` -/
def commaSeparated (raw : String) : List String :=
  (((raw.toList.splitOn ',').map stripText).filter fun item => !item.isEmpty).map String.ofList

/-- How the script ends. -/
inductive GenPolicy (ρ : Type)
  | exit (code : ℕ) (message : String)
  | raised (exc : String)
  | written (policies : NetworkPolicies ρ)

section Script

variable {ρ : Type} (P : PyText) (env : Dict String String)

/-- `endpoints[0]["host"] = host` -/
def withFirstHost (host : String) : List (PolicyEndpoint ρ) → List (PolicyEndpoint ρ)
  | [] => []
  | e :: es => { e with host := some host } :: es

/-- One entry of the loop in `_apply_host_substitutions`. -/
def substituteHost (policies : NetworkPolicies ρ) (p : String × String) :
    Except String (NetworkPolicies ρ) :=
  match extractHost P ((env.lookup p.1).getD "") with
  | .error exc => .error exc
  | .ok host =>
    .ok (if host = "" then policies
      else policies.map fun q => if q.1 = p.2 then (q.1, withFirstHost host q.2) else q)

def applyHostSubstitutions :
    List (String × String) → NetworkPolicies ρ → Except String (NetworkPolicies ρ)
  | [], policies => .ok policies
  | p :: ps, policies =>
    match substituteHost P env policies p with
    | .error exc => .error exc
    | .ok policies => applyHostSubstitutions ps policies

/-- `allowed_ips` for the endpoints of the listed hosts. -/
def injectIps (listed ips : List String) (e : PolicyEndpoint ρ) : PolicyEndpoint ρ :=
  if e.host.getD "" ∈ listed ∧ ips ≠ [] then { e with allowedIps := some ips } else e

def genPolicy (dotenv : Option (List Char)) (base : Option (NetworkPolicies ρ)) : GenPolicy ρ :=
  let env := loadDotenv dotenv
  let listed := commaSeparated ((env.lookup "ENDPOINTS_NEEDING_ALLOWED_IPS").getD "")
  let ips := commaSeparated ((env.lookup "ALLOWED_IPS").getD "")
  match base with
  | none => .exit 1 "Error: policies/orchestrator.yaml not found"
  | some policies =>
    match applyHostSubstitutions P env policyHostSubstitutions policies with
    | .error exc => .raised exc
    | .ok policies =>
      .written (policies.map fun q => (q.1, q.2.map (injectIps listed ips)))

end Script

variable {ρ : Type} {P : PyText}

theorem commaSeparated_ne {raw item : String} (h : item ∈ commaSeparated raw) : item ≠ "" := by
  obtain ⟨chars, hchars, rfl⟩ := List.mem_map.1 h
  obtain ⟨-, hne⟩ := List.mem_filter.1 hchars
  intro heq
  have hnil := congrArg String.toList heq
  rw [String.toList_ofList] at hnil
  simp [hnil] at hne

/-- The host that `.env` gives for the first endpoint of a policy. -/
def envHost (P : PyText) (env : Dict String String) (ps : List (String × String)) (name : String) :
    Option String :=
  (ps.find? fun p => decide (p.2 = name)).bind fun p =>
    match extractHost P ((env.lookup p.1).getD "") with
    | .error _ => none
    | .ok host => if host = "" then none else some host

/-- The endpoints of a policy with this host in front, if there is one. -/
def retargeted (host : Option String) (es : List (PolicyEndpoint ρ)) : List (PolicyEndpoint ρ) :=
  match host with
  | none => es
  | some host => withFirstHost host es

theorem length_retargeted (host : Option String) (es : List (PolicyEndpoint ρ)) :
    (retargeted host es).length = es.length := by
  cases host with
  | none => rfl
  | some host => cases es <;> rfl

/-- Each policy gets the host of its own URL, whatever the order of the substitutions. -/
theorem applyHostSubstitutions_eq {env : Dict String String} {ps : List (String × String)}
    (hnames : (ps.map Prod.snd).Nodup) {policies policies' : NetworkPolicies ρ}
    (h : applyHostSubstitutions P env ps policies = .ok policies') :
    policies' = policies.map fun q => (q.1, retargeted (envHost P env ps q.1) q.2) := by
  induction ps generalizing policies with
  | nil =>
    obtain rfl := Except.ok.inj h
    simp [envHost, retargeted]
  | cons p ps ih =>
    rw [List.map_cons, List.nodup_cons] at hnames
    obtain ⟨hfresh, hrest⟩ := hnames
    unfold applyHostSubstitutions at h
    split at h
    · contradiction
    · rename_i policies₁ hsub
      rw [ih hrest h]
      have hother : envHost P env ps p.2 = none := by
        have hnone : ps.find? (fun q => decide (q.2 = p.2)) = none := by
          refine List.find?_eq_none.2 fun q hq => ?_
          have hne : q.2 ≠ p.2 := fun heq => hfresh (heq ▸ List.mem_map_of_mem hq)
          simpa using hne
        rw [envHost, hnone, Option.bind_none]
      unfold substituteHost at hsub
      split at hsub
      · contradiction
      · rename_i host hhost
        have hcons : ∀ name, envHost P env (p :: ps) name =
            if p.2 = name then (if host = "" then none else some host)
            else envHost P env ps name := by
          intro name
          rw [envHost, envHost]
          by_cases hname : p.2 = name
          · rw [List.find?_cons_of_pos (by simpa using hname), if_pos hname, Option.bind_some,
              hhost]
          · rw [List.find?_cons_of_neg (by simpa using hname), if_neg hname]
        obtain rfl := Except.ok.inj hsub
        by_cases hempty : host = ""
        · rw [if_pos hempty]
          refine List.map_congr_left fun q _ => ?_
          rw [hcons, if_pos hempty]
          by_cases hname : p.2 = q.1
          · rw [if_pos hname, ← hname, hother]
          · rw [if_neg hname]
        · rw [if_neg hempty, List.map_map]
          refine List.map_congr_left fun q _ => ?_
          rw [hcons, if_neg hempty, Function.comp_apply]
          by_cases hname : p.2 = q.1
          · rw [if_pos hname, if_pos hname.symm, ← hname, hother]
            rfl
          · rw [if_neg hname, if_neg (Ne.symm hname)]

/-! ### The policy beside the configuration -/

/-- The section of the configuration that the policy of a service goes with. -/
def serviceSection (name : String) : Option ConfigSection :=
  if name = "gitlab" then some .gitlab else if name = "gerrit" then some .gerrit else none

/-- What the script makes of an endpoint. The first one of a service has the host of the URL that
the tools of the service are configured with, and only an endpoint with a host that is listed may
reach private addresses. -/
structure EndpointResolved (P : PyText) (env : Dict String String) (config : AppConfig)
    (name : String) (first : Prop) (e e' : PolicyEndpoint ρ) : Prop where
  rest : e'.rest = e.rest
  host : (e'.host = e.host ∧ (first → envHost P env policyHostSubstitutions name = none)) ∨
    first ∧ ∃ s url h, serviceSection name = some s ∧ config.get s "url" = .str url ∧
      extractHost P url = .ok h ∧ h ≠ "" ∧ e'.host = some h
  ips : e'.allowedIps = e.allowedIps ∨ ∃ h, e'.host = some h ∧ h ≠ "" ∧
    h ∈ commaSeparated ((env.lookup "ENDPOINTS_NEEDING_ALLOWED_IPS").getD "") ∧
      e'.allowedIps = some (commaSeparated ((env.lookup "ALLOWED_IPS").getD ""))

/-- What the script makes of a policy. -/
structure PolicyResolved (P : PyText) (env : Dict String String) (config : AppConfig)
    (q q' : String × List (PolicyEndpoint ρ)) : Prop where
  name : q'.1 = q.1
  length : q'.2.length = q.2.length
  endpoints : ∀ i e e', q.2[i]? = some e → q'.2[i]? = some e' →
    EndpointResolved P env config q.1 (i = 0) e e'

theorem extractHost_empty {h : String} (hh : extractHost P "" = .ok h) : h = "" := by
  unfold extractHost at hh
  have hnil : cleaned (stripText "".toList) = [] := rfl
  rw [hnil] at hh
  dsimp only at hh
  split at hh
  · contradiction
  · rw [if_neg (by simp)] at hh
    exact (Except.ok.inj hh).symm

/-- A host that is put in is of a URL in `.env`, and of a service. -/
theorem envHost_eq_some {env : Dict String String} {name h : String}
    (hh : envHost P env policyHostSubstitutions name = some h) :
    h ≠ "" ∧ ∃ x ∈ categoryBFields, serviceSection name = some x.target ∧ x.field = "url" ∧
      ∃ url, truthy (env.lookup x.var) = some url ∧ extractHost P url = .ok h := by
  obtain ⟨p, hp, hhost⟩ := Option.bind_eq_some_iff.1 hh
  have hname := List.find?_some hp
  simp only [decide_eq_true_eq] at hname
  subst hname
  split at hhost
  · contradiction
  · rename_i host hurl
    split_ifs at hhost with hempty
    obtain rfl := Option.some.inj hhost
    have hset : truthy (env.lookup p.1) = some ((env.lookup p.1).getD "") := by
      cases hlookup : env.lookup p.1 with
      | none =>
        rw [hlookup] at hurl
        exact absurd (extractHost_empty hurl) hempty
      | some url =>
        refine truthy_eq_some.2 ⟨rfl, ?_⟩
        intro heq
        rw [hlookup, Option.getD_some] at hurl
        rw [Option.getD_some] at heq
        exact hempty (extractHost_empty (heq ▸ hurl))
    have hservices : ∀ p ∈ policyHostSubstitutions, ∃ x ∈ categoryBFields,
        x.var = p.1 ∧ serviceSection p.2 = some x.target ∧ x.field = "url" := by
      decide +kernel
    obtain ⟨x, hx, hvar, hsection, hfield⟩ := hservices p (List.mem_of_find?_eq_some hp)
    refine ⟨hempty, x, hx, hsection, hfield, _, ?_, hurl⟩
    rw [hvar]
    exact hset

variable {dotenv : Option (List Char)} {baseConfig resolved : YamlNode} {path : String}
  {typeName : YamlValue → String} {penv : String → Option String} {requireSlack : Bool}
  {config : AppConfig}

/-- A process that loads the resolved file has what `.env` gives for a field of the allowlist. -/
theorem get_of_resolves {env : Dict String String} {r : Except String AppConfig}
    (h : Resolves env r (.ok config)) {x : EnvField} (hx : x ∈ categoryBFields) {url : String}
    (hurl : truthy (env.lookup x.var) = some url) : config.get x.target x.field = .str url := by
  cases r with
  | error exc => contradiction
  | ok config₀ =>
    rw [h x.target x.field, get_applyEnv_eq categoryBFields_distinct, envSetting,
      categoryBFields_find x hx, Option.bind_some, hurl]
    rfl

theorem endpointResolved {env : Dict String String} {r : Except String AppConfig}
    (h : Resolves env r (.ok config)) (name : String) {es : List (PolicyEndpoint ρ)} {i : ℕ}
    {e e' : PolicyEndpoint ρ} (he : es[i]? = some e)
    (he' : ((retargeted (envHost P env policyHostSubstitutions name) es).map (injectIps
      (commaSeparated ((env.lookup "ENDPOINTS_NEEDING_ALLOWED_IPS").getD ""))
      (commaSeparated ((env.lookup "ALLOWED_IPS").getD ""))))[i]? = some e') :
    EndpointResolved P env config name (i = 0) e e' := by
  rw [List.getElem?_map] at he'
  obtain ⟨e₁, he₁, rfl⟩ := Option.map_eq_some_iff.1 he'
  have hinject : ∀ listed ips, (injectIps listed ips e₁).rest = e₁.rest ∧
      (injectIps listed ips e₁).host = e₁.host := by
    intro listed ips
    unfold injectIps
    split_ifs
    · exact ⟨rfl, rfl⟩
    · exact ⟨rfl, rfl⟩
  have hsame : e₁.rest = e.rest ∧ e₁.allowedIps = e.allowedIps ∧
      ((e₁.host = e.host ∧ (i = 0 → envHost P env policyHostSubstitutions name = none)) ∨
        i = 0 ∧ ∃ host, envHost P env policyHostSubstitutions name = some host ∧
          e₁.host = some host) := by
    cases hhost : envHost P env policyHostSubstitutions name with
    | none =>
      rw [hhost] at he₁
      obtain rfl := Option.some.inj (he₁.symm.trans he)
      exact ⟨rfl, rfl, Or.inl ⟨rfl, fun _ => rfl⟩⟩
    | some host =>
      rw [hhost] at he₁
      cases es with
      | nil => contradiction
      | cons e₀ es =>
        cases i with
        | zero =>
          obtain rfl := Option.some.inj he
          obtain rfl := Option.some.inj he₁
          exact ⟨rfl, rfl, Or.inr ⟨rfl, host, rfl, rfl⟩⟩
        | succ i =>
          obtain rfl := Option.some.inj (he₁.symm.trans he)
          exact ⟨rfl, rfl, Or.inl ⟨rfl, fun h0 => by contradiction⟩⟩
  obtain ⟨hrest, hips, hhost⟩ := hsame
  refine ⟨(hinject _ _).1.trans hrest, ?_, ?_⟩
  · rw [(hinject _ _).2]
    rcases hhost with hkept | ⟨hfirst, host, hset, heq⟩
    · exact Or.inl hkept
    · obtain ⟨hne, x, hx, hsection, hfield, url, hurl, hextract⟩ := envHost_eq_some hset
      refine Or.inr ⟨hfirst, x.target, url, host, hsection, ?_, hextract, hne, heq⟩
      rw [← hfield]
      exact get_of_resolves h hx hurl
  · unfold injectIps
    split_ifs with hlisted
    · obtain ⟨hmem, -⟩ := hlisted
      have hne := commaSeparated_ne hmem
      cases hh : e₁.host with
      | none =>
        rw [hh] at hne
        exact absurd rfl hne
      | some host =>
        rw [hh, Option.getD_some] at hmem hne
        exact Or.inr ⟨host, rfl, hne, hmem, rfl⟩
    · exact Or.inl hips

/-- The base policy has an endpoint without a host. -/
def basePolicy : NetworkPolicies Unit :=
  [("gitlab", [{ host := some "", rest := () }]),
    ("slack", [{ host := some "slack.com", rest := () }])]

/-- The URL of a service, and the addresses that its host may have. -/
def internalEnv : List Char :=
  ("GITLAB_URL = 'https://git.example.com/api'\n# none yet: GERRIT_URL=\n" ++
    "ENDPOINTS_NEEDING_ALLOWED_IPS=git.example.com\nALLOWED_IPS=10.0.0.0/8\n").toList

def internalPolicy : NetworkPolicies Unit :=
  [("gitlab", [{ host := some "git.example.com", allowedIps := some ["10.0.0.0/8"], rest := () }]),
    ("slack", [{ host := some "slack.com", rest := () }])]

def GenPolicy.policies? {ρ : Type} : GenPolicy ρ → Option (NetworkPolicies ρ)
  | .written policies => some policies
  | _ => none

theorem written_of_policies? {r : GenPolicy ρ} {policies : NetworkPolicies ρ}
    (h : r.policies? = some policies) : r = .written policies := by
  cases r with
  | written policies' => rw [Option.some.inj h]
  | exit | raised => contradiction

def loadsResolved (dotenv : List Char) : Bool :=
  match (genConfig (some dotenv) (some NemoClaw.baseConfig)).doc? with
  | none => false
  | some doc => (AppConfig.load "config.yaml" (doc.document fun _ => "") noEnv false).toBool

theorem of_loadsResolved {env : List Char} (h : loadsResolved env = true) :
    ∃ resolved config, genConfig (some env) (some NemoClaw.baseConfig) = .written resolved ∧
      AppConfig.load "config.yaml" (resolved.document fun _ => "") noEnv false = .ok config := by
  unfold loadsResolved at h
  cases hdoc : genConfig (some env) (some NemoClaw.baseConfig) with
  | written doc =>
    rw [hdoc] at h
    simp only [GenConfig.doc?] at h
    cases hload : AppConfig.load "config.yaml" (doc.document fun _ => "") noEnv false with
    | error exc =>
      rw [hload] at h
      contradiction
    | ok config => exact ⟨doc, config, rfl, hload⟩
  | exit | raised =>
    rw [hdoc] at h
    contradiction

end NemoClaw
