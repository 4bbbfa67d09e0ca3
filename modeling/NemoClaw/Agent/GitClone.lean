import NemoClaw.Lib.Cuts

/-! `git_clone` (`tools/git.py`) and the two readings of its URL: the host that the tool looks up in
the allowlist, and what git makes of the same string. Texts are lists of characters here; what
Python knows about characters outside ASCII is a parameter. -/

namespace NemoClaw

open Lib Cuts

namespace GitClone

/-- Python's text functions. -/
structure PyText where
  isSpace : Char → Bool
  lower : List Char → List Char
  /-- the checks that `urlsplit` makes of a network location: the text of its `ValueError` -/
  checkNetloc : List Char → Option String
  repr : String → String
  /-- the text of a sorted list -/
  reprSorted : List (List Char) → String
  isSpace_space : isSpace ' ' = true
  lower_lower : ∀ s, lower (lower s) = lower s
  notMem_lower : ∀ s, '%' ∉ s → '%' ∉ lower s

namespace PyText

variable (P : PyText)

def strip (s : List Char) : List Char := (s.dropWhile P.isSpace).rdropWhile P.isSpace

/-- `_parse_allowed_hosts` -/
def parseAllowedHosts (raw : List Char) : List (List Char) :=
  ((words P.isSpace (raw.map fun c => if c = ',' then ' ' else c)).map P.strip).filter
    fun h => !h.isEmpty

/-- The host in lower case; the zone of a scoped address is left as it is. -/
def lowerHost (host : List Char) : List Char :=
  P.lower (before '%' host) ++ fromFirst '%' host

end PyText

/-! ### `urllib.parse` -/

def isC0OrSpace (c : Char) : Bool := decide (c.val ≤ ' '.val)

def isUnsafe (c : Char) : Bool := c = '\t' || c = '\x0d' || c = '\n'

/-- What `urlsplit` looks at: no control characters or spaces in front, no tabs or line ends. -/
def cleaned (url : List Char) : List Char :=
  (url.dropWhile isC0OrSpace).filter fun c => !isUnsafe c

def isSchemeChar (c : Char) : Bool := c.isAlphanum || c = '+' || c = '-' || c = '.'

def isScheme : List Char → Bool
  | [] => false
  | c :: s => c.isAlpha && (c :: s).all isSchemeChar

/-- The text behind the scheme, or all of it. -/
def dropScheme (url : List Char) : List Char :=
  if ':' ∈ url ∧ isScheme (before ':' url) then after ':' url else url

/-- `_splitnetloc`: up to the path, the query or the fragment. -/
def authority (s : List Char) : List Char :=
  s.takeWhile fun c => c ≠ '/' && c ≠ '?' && c ≠ '#'

def netloc (url : List Char) : List Char :=
  if (dropScheme url).take 2 = ['/', '/'] then authority ((dropScheme url).drop 2) else []

/-- `_hostinfo`: behind the user, without the port. -/
def hostOf (netloc : List Char) : List Char :=
  let hostinfo := afterLast '@' netloc
  if '[' ∈ hostinfo then before ']' (after '[' hostinfo) else before ':' hostinfo

def schemeMark : List Char := [':', '/', '/']

/-- `"@" in repo_url and ":" in repo_url and "://" not in repo_url` -/
def scpLike (url : List Char) : Bool :=
  '@' ∈ url && ':' ∈ url && (afterMark schemeMark url).isNone

def someUnlessEmpty (s : List Char) : Option (List Char) := if s = [] then none else some s

/-- `_extract_git_url_host`; `urlparse` may raise. -/
def extractGitUrlHost (P : PyText) (url : List Char) : Except String (Option (List Char)) :=
  if scpLike url then .ok (someUnlessEmpty (before ':' (after '@' url)))
  else
    match P.checkNetloc (netloc (cleaned url)) with
    | some exc => .error exc
    | none => .ok ((someUnlessEmpty (hostOf (netloc (cleaned url)))).map P.lowerHost)

/-! ### The tool -/

structure CloneEnv where
  workspaceAbs : List String
  /-- the parts of `(workspace_abs / dest).resolve()` -/
  resolve : String → List String
  pathExists : List String → Bool

inductive CloneOutcome
  | raised (exc : String)
  | error (message : String)
  | runs (args : List String)

/-- `_default_clone_dest` -/
def defaultCloneDest (url : List Char) : String :=
  let tail := afterLast ':' (afterLast '/' (url.rdropWhile fun c => decide (c = '/')))
  let tail := if ".git".toList <:+ tail then tail.take (tail.length - ".git".length) else tail
  if tail = [] then "repo" else String.ofList tail

/-- The gate on the destination. -/
def cloneInto (P : PyText) (E : CloneEnv) (repoUrl dest : String) : CloneOutcome :=
  if ¬ E.workspaceAbs <+: E.resolve dest then
    .error ("Error: destination " ++ P.repr dest ++ " escapes the workspace root")
  else if E.pathExists (E.resolve dest) then
    .error ("Error: destination " ++ P.repr dest ++ " already exists")
  else .runs ["clone", repoUrl, "/" ++ "/".intercalate (E.resolve dest)]

def gitClone (P : PyText) (E : CloneEnv) (allowedHosts : List (List Char))
    (repoUrl dest : String) : CloneOutcome :=
  if allowedHosts = [] then
    .error ("Error: git_clone is disabled (GIT_CLONE_ALLOWED_HOSTS is empty). " ++
      "Ask the operator to configure an allowlist.")
  else
    match extractGitUrlHost P repoUrl.toList with
    | .error exc => .raised exc
    | .ok none => .error ("Error: could not parse host from URL " ++ P.repr repoUrl)
    | .ok (some host) =>
      if host ∉ allowedHosts then
        .error ("Error: host " ++ P.repr (String.ofList host) ++
          " is not in GIT_CLONE_ALLOWED_HOSTS. Allowed: " ++ P.reprSorted allowedHosts)
      else cloneInto P E repoUrl (if dest = "" then defaultCloneDest repoUrl.toList else dest)

/-! ### Git's reading -/

/-- What git takes an argument for. -/
inductive GitArgument
  | option
  | host (host : List Char)
  | localPath
  deriving DecidableEq

/-- A URL names the host of its authority; otherwise a colon before any slash ends an ssh host,
behind its user. -/
def gitReads (arg : List Char) : GitArgument :=
  if arg.head? = some '-' then .option
  else
    match afterMark schemeMark arg with
    | some rest => .host (hostOf (authority rest))
    | none =>
      if ':' ∈ arg ∧ '/' ∉ before ':' arg then .host (afterLast '@' (before ':' arg))
      else .localPath

/-- Git is to clone a repository from a host that is allowed, up to case. -/
def Confined (P : PyText) (allowedHosts : List (List Char)) (args : List String) : Prop :=
  ∃ repoUrl dest host, args = ["clone", repoUrl, dest] ∧
    gitReads repoUrl.toList = .host host ∧ ∃ h ∈ allowedHosts, P.lowerHost h = P.lowerHost host

/-- A text that an allowlist can hold: it is written between commas and spaces. -/
def Allowable (P : PyText) (host : List Char) : Prop :=
  host ≠ [] ∧ ∀ c ∈ host, c ≠ ',' ∧ P.isSpace c = false

/-- Both readings of the URL are of one host, or the tool finds none that can be allowed. With an
`@` and a colon but no `://`, the tool reads the host between the first `@` and the next colon, git
before the first colon. Else the tool reads it behind the scheme's `//` of the cleaned text, git
behind the first `://`, or before the first colon if there is none. -/
def Agrees (P : PyText) (url : List Char) : Prop :=
  if scpLike url then
    let host := before ':' (after '@' url)
    Allowable P host → url.head? ≠ some '-' ∧ '/' ∉ before ':' url ∧
      P.lowerHost (afterLast '@' (before ':' url)) = P.lowerHost host
  else
    let host := hostOf (netloc (cleaned url))
    P.checkNetloc (netloc (cleaned url)) = none → host ≠ [] → Allowable P (P.lowerHost host) →
      match afterMark schemeMark url with
      | some rest => P.lowerHost (hostOf (authority rest)) = P.lowerHost host
      | none => ':' ∈ url ∧ '/' ∉ before ':' url ∧
          P.lowerHost (before ':' url) = P.lowerHost host

variable {P : PyText}

namespace PyText

theorem strip_eq_self {s : List Char} (h : ∀ c ∈ s, P.isSpace c = false) : P.strip s = s := by
  have hfront : s.dropWhile P.isSpace = s := by
    cases s with
    | nil => rfl
    | cons c s => exact List.dropWhile_cons_of_neg (by simp [h c List.mem_cons_self])
  rw [strip, hfront, List.rdropWhile_eq_self_iff]
  intro hne
  simp [h _ (List.getLast_mem hne)]

theorem allowable_of_mem {raw host : List Char} (h : host ∈ P.parseAllowedHosts raw) :
    Allowable P host := by
  obtain ⟨hmap, hne⟩ := List.mem_filter.1 h
  obtain ⟨w, hw, rfl⟩ := List.mem_map.1 hmap
  have hspace : ∀ c ∈ w, P.isSpace c = false := fun c hc => (mem_words hw c hc).2
  rw [strip_eq_self hspace] at hne ⊢
  refine ⟨by simpa using hne, fun c hc => ⟨?_, hspace c hc⟩⟩
  obtain ⟨c', -, rfl⟩ := List.mem_map.1 (mem_words hw c hc).1
  split_ifs with hcomma
  · decide
  · exact hcomma

theorem parseAllowedHosts_self {host : List Char} (h : Allowable P host) :
    P.parseAllowedHosts host = [host] := by
  have hmap : host.map (fun c => if c = ',' then ' ' else c) = host := by
    refine (List.map_congr_left fun c hc => ?_).trans (List.map_id host)
    exact if_neg (h.2 c hc).1
  rw [parseAllowedHosts, hmap, words_eq_singleton h.1 fun c hc => (h.2 c hc).2]
  simp [strip_eq_self fun c hc => (h.2 c hc).2, h.1]

theorem lowerHost_lowerHost (host : List Char) :
    P.lowerHost (P.lowerHost host) = P.lowerHost host := by
  have hnot : '%' ∉ P.lower (before '%' host) := P.notMem_lower _ (notMem_before _ _)
  by_cases hmem : '%' ∈ host
  · obtain ⟨zone, hhost⟩ := exists_of_mem hmem
    have hzone : fromFirst '%' host = '%' :: zone := by
      rw [hhost]
      exact fromFirst_append (notMem_before _ _)
    rw [lowerHost, lowerHost, hzone, before_append hnot, fromFirst_append hnot, P.lower_lower]
  · rw [lowerHost, lowerHost, fromFirst_of_notMem hmem, List.append_nil, before_of_notMem hnot,
      fromFirst_of_notMem hnot, List.append_nil, P.lower_lower]

end PyText

/-- Git runs on the very string, for a host that is in the allowlist. -/
theorem gitClone_eq_runs {E : CloneEnv} {allowedHosts : List (List Char)} {repoUrl dest : String}
    {args : List String} (h : gitClone P E allowedHosts repoUrl dest = .runs args) :
    ∃ host ∈ allowedHosts, extractGitUrlHost P repoUrl.toList = .ok (some host) ∧
      ∃ dest', args = ["clone", repoUrl, dest'] := by
  unfold gitClone at h
  split at h
  · contradiction
  · split at h
    · contradiction
    · contradiction
    · rename_i host hextract
      split at h
      · contradiction
      · rename_i hmem
        unfold cloneInto at h
        generalize (if dest = "" then defaultCloneDest repoUrl.toList else dest) = dest at h
        split_ifs at h
        exact ⟨host, not_not.1 hmem, hextract, _, (CloneOutcome.runs.inj h).symm⟩

/-- The tool reads a host that an allowlist can hold. -/
def Reads (P : PyText) (url host : List Char) : Prop :=
  extractGitUrlHost P url = .ok (some host) ∧ Allowable P host

/-- A workspace whose destinations are free. -/
def emptyWorkspace : CloneEnv where
  workspaceAbs := []
  resolve dest := [dest]
  pathExists _ := false

theorem gitClone_emptyWorkspace {repoUrl : String} {host : List Char}
    (h : extractGitUrlHost P repoUrl.toList = .ok (some host)) :
    ∃ args, gitClone P emptyWorkspace [host] repoUrl "repo" = .runs args := by
  unfold gitClone cloneInto
  simp [h, emptyWorkspace]

theorem someUnlessEmpty_eq_some {s host : List Char} :
    someUnlessEmpty s = some host ↔ s ≠ [] ∧ s = host := by
  unfold someUnlessEmpty
  split_ifs with h <;> simp [h]

theorem reads_of_scpLike {url host : List Char} (h : scpLike url = true) :
    Reads P url host ↔ before ':' (after '@' url) = host ∧ Allowable P host := by
  unfold Reads extractGitUrlHost
  rw [if_pos h, Except.ok.injEq, someUnlessEmpty_eq_some]
  constructor
  · rintro ⟨⟨-, rfl⟩, hallowable⟩
    exact ⟨rfl, hallowable⟩
  · rintro ⟨rfl, hallowable⟩
    exact ⟨⟨hallowable.1, rfl⟩, hallowable⟩

theorem reads_of_not_scpLike {url host : List Char} (h : scpLike url = false) :
    Reads P url host ↔ P.checkNetloc (netloc (cleaned url)) = none ∧
      hostOf (netloc (cleaned url)) ≠ [] ∧
        P.lowerHost (hostOf (netloc (cleaned url))) = host ∧ Allowable P host := by
  unfold Reads extractGitUrlHost
  rw [if_neg (by simp [h])]
  cases hcheck : P.checkNetloc (netloc (cleaned url)) with
  | some exc => simp
  | none =>
    simp only [Except.ok.injEq, Option.map_eq_some_iff, someUnlessEmpty_eq_some, true_and]
    constructor
    · rintro ⟨⟨host', ⟨hne, rfl⟩, rfl⟩, hallowable⟩
      exact ⟨hne, rfl, hallowable⟩
    · rintro ⟨hne, rfl, hallowable⟩
      exact ⟨⟨_, ⟨hne, rfl⟩, rfl⟩, hallowable⟩

theorem gitReads_of_mark {url rest host : List Char} (h : afterMark schemeMark url = some rest) :
    gitReads url = .host host ↔ url.head? ≠ some '-' ∧ hostOf (authority rest) = host := by
  unfold gitReads
  by_cases hoption : url.head? = some '-'
  · simp [hoption]
  · rw [if_neg hoption, h, and_iff_right hoption]
    simp

theorem gitReads_of_no_mark {url host : List Char} (h : afterMark schemeMark url = none) :
    gitReads url = .host host ↔ url.head? ≠ some '-' ∧ ':' ∈ url ∧ '/' ∉ before ':' url ∧
      afterLast '@' (before ':' url) = host := by
  unfold gitReads
  by_cases hoption : url.head? = some '-'
  · simp [hoption]
  · rw [if_neg hoption, h, and_iff_right hoption, ← and_assoc]
    by_cases hcolon : ':' ∈ url ∧ '/' ∉ before ':' url
    · simp [hcolon]
    · simp [hcolon]

/-- A URL in which the tool finds a network location is no option. -/
theorem head_ne_of_netloc {url : List Char} (h : netloc (cleaned url) ≠ []) :
    url.head? ≠ some '-' := by
  intro hoption
  obtain ⟨rest, rfl⟩ : ∃ rest, url = '-' :: rest := by
    cases url with
    | nil => contradiction
    | cons c rest => exact ⟨rest, by simpa using hoption⟩
  apply h
  have hcleaned : cleaned ('-' :: rest) = '-' :: rest.filter fun c => !isUnsafe c := by
    rw [cleaned, List.dropWhile_cons_of_neg (by decide)]
    rfl
  have hscheme : dropScheme (cleaned ('-' :: rest)) = cleaned ('-' :: rest) := by
    rw [hcleaned]
    exact if_neg fun hscheme => absurd hscheme.2 (by simp [before, isScheme])
  rw [netloc, hscheme, hcleaned]
  simp

theorem scpLike_iff {url : List Char} :
    scpLike url = true ↔ '@' ∈ url ∧ ':' ∈ url ∧ afterMark schemeMark url = none := by
  simp [scpLike, and_assoc]

/-- What `Agrees` says of the two readings. -/
theorem agrees_iff (url : List Char) : Agrees P url ↔ ∀ host, Reads P url host →
    ∃ host', gitReads url = .host host' ∧ P.lowerHost host = P.lowerHost host' := by
  unfold Agrees
  split
  · rename_i hscp
    obtain ⟨-, hcolon, hmark⟩ := scpLike_iff.1 hscp
    simp only [reads_of_scpLike hscp, gitReads_of_no_mark hmark]
    constructor
    · rintro hagrees host ⟨rfl, hallowable⟩
      obtain ⟨hoption, hslash, hlower⟩ := hagrees hallowable
      exact ⟨_, ⟨hoption, hcolon, hslash, rfl⟩, hlower.symm⟩
    · intro hall hallowable
      obtain ⟨host', ⟨hoption, -, hslash, rfl⟩, hlower⟩ := hall _ ⟨rfl, hallowable⟩
      exact ⟨hoption, hslash, hlower.symm⟩
  · rename_i hscp
    have hscp : scpLike url = false := by simpa using hscp
    simp only [reads_of_not_scpLike hscp]
    have hhead : hostOf (netloc (cleaned url)) ≠ [] → url.head? ≠ some '-' := by
      intro hhost
      refine head_ne_of_netloc fun hnil => hhost ?_
      rw [hnil]
      rfl
    cases hmark : afterMark schemeMark url with
    | some rest =>
      simp only [gitReads_of_mark hmark]
      constructor
      · rintro hagrees host ⟨hcheck, hhost, rfl, hallowable⟩
        refine ⟨_, ⟨hhead hhost, rfl⟩, ?_⟩
        rw [PyText.lowerHost_lowerHost, hagrees hcheck hhost hallowable]
      · intro hall hcheck hhost hallowable
        obtain ⟨host', ⟨-, rfl⟩, hlower⟩ := hall _ ⟨hcheck, hhost, rfl, hallowable⟩
        rw [← hlower, PyText.lowerHost_lowerHost]
    | none =>
      have huser : ':' ∈ url → '@' ∉ before ':' url := by
        intro hcolon hmem
        have hat : '@' ∈ url := (List.takeWhile_prefix _).subset hmem
        simp [scpLike_iff.2 ⟨hat, hcolon, hmark⟩] at hscp
      simp only [gitReads_of_no_mark hmark]
      constructor
      · rintro hagrees host ⟨hcheck, hhost, rfl, hallowable⟩
        obtain ⟨hcolon, hslash, hlower⟩ := hagrees hcheck hhost hallowable
        refine ⟨_, ⟨hhead hhost, hcolon, hslash, rfl⟩, ?_⟩
        rw [PyText.lowerHost_lowerHost, afterLast_of_notMem (huser hcolon), hlower]
      · intro hall hcheck hhost hallowable
        obtain ⟨host', ⟨-, hcolon, hslash, rfl⟩, hlower⟩ :=
          hall _ ⟨hcheck, hhost, rfl, hallowable⟩
        rw [PyText.lowerHost_lowerHost, afterLast_of_notMem (huser hcolon)] at hlower
        exact ⟨hcolon, hslash, hlower.symm⟩

theorem not_isC0OrSpace_of_isAlpha {c : Char} (h : c.isAlpha = true) : isC0OrSpace c = false := by
  have hletter : ('A'.val ≤ c.val ∧ c.val ≤ 'Z'.val) ∨ ('a'.val ≤ c.val ∧ c.val ≤ 'z'.val) :=
    (Bool.or_eq_true_iff.1 h).imp of_decide_eq_true fun hlower =>
      (Bool.and_eq_true_iff.1 hlower).imp of_decide_eq_true of_decide_eq_true
  simp only [UInt32.le_iff_toNat_le] at hletter
  simp only [isC0OrSpace, decide_eq_false_iff_not, UInt32.le_iff_toNat_le]
  have hspace : ' '.val.toNat = 32 := rfl
  have hA : 'A'.val.toNat = 65 := rfl
  have ha : 'a'.val.toNat = 97 := rfl
  omega

/-- A URL with a scheme, without tabs or line ends: whatever its user, port, path and query, both
readings are of one host. -/
theorem agrees_of_scheme (P : PyText) {scheme rest : List Char} (hscheme : isScheme scheme = true)
    (hclean : ∀ c ∈ scheme ++ schemeMark ++ rest, isUnsafe c = false) :
    Agrees P (scheme ++ schemeMark ++ rest) := by
  obtain ⟨c, s, rfl⟩ : ∃ c s, scheme = c :: s := by
    cases scheme with
    | nil => contradiction
    | cons c s => exact ⟨c, s, rfl⟩
  obtain ⟨halpha, hchars⟩ := Bool.and_eq_true_iff.1 hscheme
  have hcolon : ':' ∉ c :: s := fun hmem => absurd (List.all_eq_true.1 hchars _ hmem) (by decide)
  have hmark : afterMark schemeMark (c :: s ++ schemeMark ++ rest) = some rest :=
    afterMark_append hcolon
  have hcleaned : cleaned (c :: s ++ schemeMark ++ rest) = c :: s ++ schemeMark ++ rest := by
    rw [cleaned, List.cons_append, List.cons_append, List.dropWhile_cons_of_neg
      (by simp [not_isC0OrSpace_of_isAlpha halpha])]
    refine List.filter_eq_self.2 fun c' hc' => ?_
    simpa using hclean c' hc'
  have hnetloc : netloc (c :: s ++ schemeMark ++ rest) = authority rest := by
    have hbefore : before ':' (c :: s ++ ':' :: ('/' :: '/' :: rest)) = c :: s :=
      before_append hcolon
    have hafter : after ':' (c :: s ++ ':' :: ('/' :: '/' :: rest)) = '/' :: '/' :: rest :=
      after_append hcolon
    have hdrop : dropScheme (c :: s ++ ':' :: ('/' :: '/' :: rest)) = '/' :: '/' :: rest := by
      rw [dropScheme, hbefore, hafter, if_pos ⟨by simp, hscheme⟩]
    have hurl : c :: s ++ schemeMark ++ rest = c :: s ++ ':' :: ('/' :: '/' :: rest) := by
      simp [schemeMark]
    rw [hurl, netloc, hdrop]
    rfl
  unfold Agrees
  have hscp : ¬ scpLike (c :: s ++ schemeMark ++ rest) = true := by
    rw [scpLike_iff, hmark]
    simp
  rw [if_neg hscp, hmark, hcleaned, hnetloc]
  exact fun _ _ _ => rfl

/-- `user@host:path` -/
theorem agrees_of_user (P : PyText) {user host path : List Char} (hne : user ≠ [])
    (hoption : user.head? ≠ some '-') (huser : ∀ c ∈ user, c ≠ '@' ∧ c ≠ ':' ∧ c ≠ '/')
    (hhost : ∀ c ∈ host, c ≠ '@' ∧ c ≠ ':' ∧ c ≠ '/')
    (hmark : ¬ schemeMark <:+: user ++ '@' :: (host ++ ':' :: path)) :
    Agrees P (user ++ '@' :: (host ++ ':' :: path)) := by
  have hat : '@' ∉ user := fun hmem => (huser _ hmem).1 rfl
  have hcolon : ':' ∉ host := fun hmem => (hhost _ hmem).2.1 rfl
  have hcolon' : ':' ∉ user ++ '@' :: host := by
    intro hmem
    rcases List.mem_append.1 hmem with hmem | hmem
    · exact (huser _ hmem).2.1 rfl
    · exact hcolon ((List.mem_cons.1 hmem).resolve_left (by decide))
  have hslash : '/' ∉ user ++ '@' :: host := by
    intro hmem
    rcases List.mem_append.1 hmem with hmem | hmem
    · exact (huser _ hmem).2.2 rfl
    · exact (hhost _ ((List.mem_cons.1 hmem).resolve_left (by decide))).2.2 rfl
  have htool : before ':' (after '@' (user ++ '@' :: (host ++ ':' :: path))) = host := by
    rw [after_append hat, before_append hcolon]
  have hgit : before ':' (user ++ '@' :: (host ++ ':' :: path)) = user ++ '@' :: host := by
    rw [← List.cons_append, ← List.append_assoc]
    exact before_append hcolon'
  have hscp : scpLike (user ++ '@' :: (host ++ ':' :: path)) = true :=
    scpLike_iff.2 ⟨by simp, by simp, afterMark_eq_none_iff.2 hmark⟩
  unfold Agrees
  rw [if_pos hscp, htool, hgit]
  refine fun _ => ⟨?_, hslash, ?_⟩
  · rwa [List.head?_append_of_ne_nil _ hne]
  · rw [afterLast_append fun hmem => (hhost _ hmem).1 rfl]

/-! ### A user with a colon -/

/-- Text without capitals. -/
def plainText : PyText where
  isSpace c := c = ' '
  lower s := s
  checkNetloc _ := none
  repr s := s
  reprSorted hosts := String.ofList hosts.flatten
  isSpace_space := rfl
  lower_lower _ := rfl
  notMem_lower _ h := h

end GitClone

end NemoClaw
