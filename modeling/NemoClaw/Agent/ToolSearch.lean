import Mathlib.Data.Prod.Lex
import Mathlib.Data.String.Basic
import NemoClaw.Agent.Loop
import NemoClaw.Lib.Ranking

/-! The search for tools (`tools/registry.py`, `tools/tool_search.py`): how the registered tools
that are not core are scored against a query, and which of them a search returns and surfaces. -/

namespace NemoClaw

open Lib

/-- What a tool is found by besides its name. -/
structure SearchTexts where
  toolset : String
  description : String

/-- The strings and the floats of the language, and `SequenceMatcher(None, a, b).ratio()`. -/
structure Scoring (σ : Type*) where
  lower : String → String
  split : String → List String
  ratio : String → String → σ
  zero : σ
  add : σ → σ → σ
  times : σ → ℕ → σ
  /-- `_MIN_FIELD_SCORE` -/
  minFieldScore : σ

/-- `_DEFAULT_LIMIT` -/
def defaultSearchLimit : ℤ := 5

/-- The `bounded_limit` of `tool_search`, for a `limit` that was read as an integer. -/
def boundedLimit (limit : Option ℤ) : ℤ :=
  max 1 (min (limit.getD defaultSearchLimit) maxSearchLimit)

namespace Scoring

variable {σ : Type*} [LinearOrder σ] (S : Scoring σ) (texts : String → SearchTexts)

/-- `_field_score` -/
def fieldScore (query fieldValue : String) : σ :=
  if fieldValue = "" then S.zero
  else
    let tokens := S.split (String.ofList (fieldValue.toList.map fun c =>
      if c = '_' then ' ' else c))
    let best := tokens.foldl (fun best tok => max best (S.ratio query tok))
      (S.ratio query fieldValue)
    if S.minFieldScore ≤ best then best else S.zero

def terms (query : String) : List String :=
  ((S.split query).filter fun t => t ≠ "").map S.lower

/-- The `total` of a tool. -/
def total (terms : List String) (spec : ToolSpec) : σ :=
  let name := S.lower spec.name
  let toolset := S.lower (texts spec.name).toolset
  let description := S.lower (texts spec.name).description
  terms.foldl (fun total term =>
    S.add total (S.add (S.add (S.times (S.fieldScore term name) 3)
      (S.times (S.fieldScore term toolset) 2)) (S.times (S.fieldScore term description) 1))) S.zero

/-- The tools that are scored, in the order of their registration. -/
def scored (R : ToolRegistry) (terms : List String) : List ToolSpec :=
  R.tools.filter fun spec => !spec.isCore && decide (S.zero < S.total texts terms spec)

/-- `(-item[0], item[1].name)` -/
def sortKey (terms : List String) (spec : ToolSpec) : σᵒᵈ ×ₗ String :=
  toLex (OrderDual.toDual (S.total texts terms spec), spec.name)

/-- `ToolRegistry.search` -/
def search (R : ToolRegistry) (query : String) (limit : ℤ) : List ToolSpec :=
  let terms := S.terms query
  if terms = [] then []
  else sliceTo (ranked (S.sortKey texts terms) (S.scored texts R terms)) limit

/-- The hits of `tool_search`. -/
def hits (R : ToolRegistry) (query : String) (limit : Option ℤ) : List ToolSpec :=
  S.search texts R query (boundedLimit limit)

/-- What becomes of the handler of `tool_search`; `payload` is the JSON of its answer. -/
def toolSearch (payload : String → ℤ → List ToolSpec → String) (R : ToolRegistry) (query : String)
    (limit : Option ℤ) : HandlerOutcome :=
  let hits := S.hits texts R query limit
  .found (hits.map ToolSpec.name) (payload query (boundedLimit limit) hits)

variable {S texts} {R : ToolRegistry}

/-- The names tell the tools of a registry apart. -/
theorem nodup_sortKey (terms : List String) :
    ((S.scored texts R terms).map (S.sortKey texts terms)).Nodup := by
  have hnames : ((S.scored texts R terms).map ToolSpec.name).Nodup :=
    R.nodup.sublist (List.filter_sublist.map ToolSpec.name)
  have hsnd : (S.scored texts R terms).map ToolSpec.name =
      ((S.scored texts R terms).map (S.sortKey texts terms)).map fun key => (ofLex key).2 := by
    rw [List.map_map]
    rfl
  rw [hsnd] at hnames
  exact List.Nodup.of_map _ hnames

theorem toNat_boundedLimit (limit : Option ℤ) :
    1 ≤ (boundedLimit limit).toNat ∧ (boundedLimit limit).toNat ≤ maxSearchLimit := by
  unfold boundedLimit maxSearchLimit
  omega

/-- Without terms nothing is scored. -/
theorem scored_nil : S.scored texts R [] = [] := by
  simp [scored, total]

theorem hits_eq (query : String) (limit : Option ℤ) : S.hits texts R query limit =
    (ranked (S.sortKey texts (S.terms query)) (S.scored texts R (S.terms query))).take
      (boundedLimit limit).toNat := by
  unfold hits search
  dsimp only
  split_ifs with hterms
  · rw [hterms, scored_nil]
    simp [ranked]
  · have hone := (toNat_boundedLimit limit).1
    rw [sliceTo, if_pos (by omega)]

theorem ranks_hits (query : String) (limit : Option ℤ) :
    Ranks (S.sortKey texts (S.terms query)) (boundedLimit limit).toNat
      (S.scored texts R (S.terms query)) (S.hits texts R query limit) := by
  rw [hits_eq]
  exact ranks_take (nodup_sortKey _) _

/-- A hit is a registered tool that is not core. -/
theorem of_mem_hits {query : String} {limit : Option ℤ} {spec : ToolSpec}
    (h : spec ∈ S.hits texts R query limit) : spec ∈ R.tools ∧ spec.isCore = false := by
  have hscored := (ranks_hits query limit).mem spec h
  simp only [scored, List.mem_filter, Bool.and_eq_true, Bool.not_eq_true'] at hscored
  exact ⟨hscored.1, hscored.2.1⟩

theorem length_hits (query : String) (limit : Option ℤ) :
    (S.hits texts R query limit).length ≤ maxSearchLimit := by
  rw [(ranks_hits query limit).length]
  exact (Nat.min_le_left _ _).trans (toNat_boundedLimit limit).2

/-- All hits can be surfaced. -/
theorem surfaceable_hits (query : String) (limit : Option ℤ) :
    R.surfaceable ((S.hits texts R query limit).map ToolSpec.name) =
      (S.hits texts R query limit).map ToolSpec.name := by
  apply List.filter_eq_self.2
  intro name hname
  obtain ⟨spec, hspec, rfl⟩ := List.mem_map.1 hname
  obtain ⟨hmem, hcore⟩ := of_mem_hits hspec
  simp [ToolRegistry.get_of_mem hmem, hcore]

/-- A search returns the tools outside the core with the best scores against its query, ties in the
order of their names, at most so many as its bounded limit, and it is the only such ranking; the
order of their registration does not matter. Its result is one that the loop takes from the handler
of `tool_search`, and what it marks is defined for the model. -/
theorem tool_search_ranks (S : Scoring σ) (texts : String → SearchTexts)
    (payload : String → ℤ → List ToolSpec → String) (R : ToolRegistry) (query : String)
    (limit : Option ℤ) :
    (∀ specs, Ranks (S.sortKey texts (S.terms query)) (boundedLimit limit).toNat
        (S.scored texts R (S.terms query)) specs ↔ specs = S.hits texts R query limit) ∧
      (∀ R' : ToolRegistry, R'.tools.Perm R.tools →
        S.toolSearch texts payload R' query limit = S.toolSearch texts payload R query limit) ∧
      (∀ (E : AgentEnv) (call : ToolCall), E.tools = R →
        R.get call.name = some NemoClaw.toolSearch →
          (executeOne E call (S.toolSearch texts payload R query limit)).isSome) ∧
      ∀ surface, ∀ spec ∈ S.hits texts R query limit,
        spec ∈ R.toolDefinitions
          (R.markSurfaced surface (S.toolSearch texts payload R query limit).names) := by
  have hranks : Ranks (S.sortKey texts (S.terms query)) (boundedLimit limit).toNat
      (S.scored texts R (S.terms query)) (S.hits texts R query limit) := ranks_hits query limit
  have hunique : ∀ specs, Ranks (S.sortKey texts (S.terms query)) (boundedLimit limit).toNat
      (S.scored texts R (S.terms query)) specs → specs = S.hits texts R query limit := by
    intro specs hspecs
    rw [hits_eq]
    exact hspecs.eq_take (nodup_sortKey _)
  refine ⟨?_, ?_, ?_, ?_⟩
  · intro specs
    refine ⟨hunique specs, ?_⟩
    rintro rfl
    exact hranks
  · intro R' hperm
    have hscored : (S.scored texts R' (S.terms query)).Perm (S.scored texts R (S.terms query)) :=
      hperm.filter _
    have hsame := hunique _ ((ranks_hits query limit).perm hscored)
    unfold toolSearch
    rw [hsame]
  · intro E call hE hget
    subst hE
    simp only [executeOne, toolSearch, hget]
    simp [surfaceable_hits, length_hits, NemoClaw.toolSearch]
  · intro surface spec hspec
    obtain ⟨hmem, hcore⟩ := of_mem_hits hspec
    rw [ToolRegistry.mem_toolDefinitions_iff hmem hcore, ToolRegistry.markSurfaced,
      List.mem_union_iff]
    right
    change spec.name ∈ R.surfaceable ((S.hits texts R query limit).map ToolSpec.name)
    rw [surfaceable_hits]
    exact List.mem_map_of_mem hspec

/-- A scoring by equal words. -/
def byWords : Scoring ℕ where
  lower := id
  split := fun s => (s.toList.splitOn ' ').map String.ofList
  ratio := fun a b => if a = b then 100 else 0
  zero := 0
  add := fun x y => x + y
  times := fun x n => x * n
  minFieldScore := 70

def jiraTools : ToolRegistry where
  tools := [NemoClaw.toolSearch, { name := "search_jira", isCore := false },
    { name := "create_jira_issue", isCore := false, isReadOnly := false },
    { name := "web_search", isCore := false }]
  nodup := by decide
  searched := by decide

/-- The tool that has both words of the query comes before the one that has one of them. -/
example : (byWords.hits (fun _ => ⟨"", ""⟩) jiraTools "jira issue" none).map ToolSpec.name =
    ["create_jira_issue", "search_jira"] := by decide

end Scoring

end NemoClaw
