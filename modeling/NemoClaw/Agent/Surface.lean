import NemoClaw.Agent.Loop

/-! The tools that `tool_search` surfaces. Its handler runs as a task of `asyncio.gather`, so what
it marks stays in the task's copy of the context: the surface of a run is that of
`pre_surfaced_tools`, whatever its searches find. -/

namespace NemoClaw

open Lib

namespace ToolRegistry

variable {R : ToolRegistry} {names : List String} {name : String}

theorem mem_surfaceable_iff :
    name ∈ R.surfaceable names ↔
      name ∈ names ∧ ∃ spec ∈ R.tools, spec.name = name ∧ spec.isCore = false := by
  simp only [surfaceable, List.mem_filter, Option.any_eq_true, Bool.not_eq_true']
  apply and_congr_right
  intro _
  constructor
  · rintro ⟨spec, hget, hcore⟩
    obtain ⟨hmem, hname⟩ := get_eq_some hget
    exact ⟨spec, hmem, hname, hcore⟩
  · rintro ⟨spec, hmem, rfl, hcore⟩
    exact ⟨spec, get_of_mem hmem, hcore⟩

theorem mem_markSurfaced_iff {surface : List String} :
    name ∈ R.markSurfaced surface names ↔ name ∈ surface ∨ name ∈ R.surfaceable names :=
  List.mem_union_iff

end ToolRegistry

namespace AgentRun

/-- The names that the searches of the run have returned are among the tools of the request in
flight, and in the snapshot of a blocked write. -/
def SearchedCallable (E : AgentEnv) (r : AgentRun) : Prop :=
  match r.phase with
  | .completing => ∀ name ∈ r.found, ∃ spec ∈ E.tools.toolDefinitions r.surface, spec.name = name
  | .blocked pending => ∀ name ∈ r.found, name ∈ pending.surfacedTools
  | _ => True

/-- When a later round is requested or a write is blocked, the searches of the run have returned
names of `pre_surfaced_tools` only. -/
def SearchesNothingNew (r : AgentRun) : Prop :=
  match r.phase with
  | .completing | .blocked _ => ∀ name ∈ r.found, name ∈ r.preSurfaced
  | _ => True

/-- The surface is that of `pre_surfaced_tools`, and searches find registered non-core tools. -/
structure Surfaced (E : AgentEnv) (r : AgentRun) : Prop where
  surface : ∀ name, name ∈ r.surface ↔ name ∈ E.tools.surfaceable r.preSurfaced
  found : ∀ name ∈ r.found, ∃ spec ∈ E.tools.tools, spec.name = name ∧ spec.isCore = false
  snapshot : ∀ pending, r.phase = .blocked pending → pending.surfacedTools = r.surface

/-- Only messages, counters and the phase change. -/
structure SameSurface (r r' : AgentRun) : Prop where
  surface : r'.surface = r.surface
  preSurfaced : r'.preSurfaced = r.preSurfaced
  found : r'.found = r.found
  snapshot : ∀ pending, r'.phase = .blocked pending → pending.surfacedTools = r.surface

variable {E : AgentEnv} {r r' : AgentRun}

theorem Surfaced.same (h : Surfaced E r) (hs : SameSurface r r') : Surfaced E r' := by
  refine ⟨?_, ?_, ?_⟩
  · rw [hs.surface, hs.preSurfaced]
    exact h.surface
  · rw [hs.found]
    exact h.found
  · rw [hs.surface]
    exact hs.snapshot

/-! ### What each part of the loop does to the surface -/

theorem sameSurface_startRound : SameSurface r (startRound E r) := by
  unfold startRound
  split_ifs
  · refine ⟨rfl, rfl, rfl, ?_⟩
    intro pending hphase
    dsimp only at hphase
    split_ifs at hphase
  · refine ⟨rfl, rfl, rfl, ?_⟩
    intro pending hphase
    contradiction

theorem sameSurface_finish (content : String) : SameSurface r (r.finish content) := by
  refine ⟨rfl, rfl, rfl, ?_⟩
  intro pending hphase
  contradiction

theorem sameSurface_continueTruncated (working : List Message) (chunks : List String) (left : ℕ) :
    SameSurface r (r.continueTruncated working chunks left) := by
  cases left with
  | zero => exact sameSurface_finish _
  | succ left =>
    refine ⟨rfl, rfl, rfl, ?_⟩
    intro pending hphase
    contradiction

theorem sameSurface_execute (assistant : Message) (calls : List ToolCall) (after : AfterBatch) :
    SameSurface r (r.execute assistant calls after) := by
  refine ⟨rfl, rfl, rfl, ?_⟩
  intro pending hphase
  contradiction

theorem sameSurface_raised : SameSurface r { r with phase := .raised } := by
  refine ⟨rfl, rfl, rfl, ?_⟩
  intro pending hphase
  contradiction

theorem sameSurface_completed (response : InferenceResponse) :
    SameSurface r (r.completed E response) := by
  unfold completed
  split_ifs
  · exact sameSurface_continueTruncated _ _ _
  · exact sameSurface_finish _
  · dsimp only
    split_ifs
    · split
      · exact sameSurface_raised
      · refine ⟨rfl, rfl, rfl, ?_⟩
        intro pending hphase
        obtain rfl := RunPhase.blocked.inj hphase
        rfl
    · exact sameSurface_execute _ _ _

theorem sameSurface_continued (working : List Message) (chunks : List String) (left : ℕ)
    (response : InferenceResponse) :
    SameSurface r (r.continued working chunks left response) := by
  unfold continued
  split_ifs
  · exact sameSurface_continueTruncated _ _ _
  · exact sameSurface_finish _

/-- The names that a handler returns are those of a search. -/
theorem names_of_executeOne {call : ToolCall} {outcome : HandlerOutcome} {content : String}
    (h : executeOne E call outcome = some content) :
    outcome.names = [] ∨ E.tools.get call.name = some toolSearch ∧
      E.tools.surfaceable outcome.names = outcome.names := by
  cases outcome with
  | returned | raised => exact Or.inl rfl
  | found names output =>
    cases hget : E.tools.get call.name with
    | none => simp [executeOne, hget] at h
    | some spec =>
      simp only [executeOne, hget, Option.ite_none_right_eq_some] at h
      obtain ⟨⟨hhandler, hnames, -⟩, -⟩ := h
      obtain ⟨hmem, -⟩ := ToolRegistry.get_eq_some hget
      rw [E.tools.searched spec hmem hhandler]
      exact Or.inr ⟨rfl, hnames⟩

/-- No handler changes the surface of the loop: `tool_search` is a safe tool. -/
theorem mem_surfaceAfter_iff {call : ToolCall} {outcome : HandlerOutcome} {content name : String}
    {surface : List String} (h : executeOne E call outcome = some content) :
    name ∈ surfaceAfter E surface call outcome ↔ name ∈ surface := by
  unfold surfaceAfter
  rcases names_of_executeOne h with hnames | ⟨hget, -⟩
  · split_ifs
    · exact Iff.rfl
    · simp [hnames, ToolRegistry.mem_markSurfaced_iff, ToolRegistry.surfaceable]
  · have hsafe : E.tools.isConcurrencySafe call = true := by
      simp [ToolRegistry.isConcurrencySafe, hget, toolSearch]
    rw [if_pos hsafe]

theorem found_of_executeOne {call : ToolCall} {outcome : HandlerOutcome} {content : String}
    (h : executeOne E call outcome = some content) :
    ∀ name ∈ outcome.names, ∃ spec ∈ E.tools.tools, spec.name = name ∧ spec.isCore = false := by
  intro name hname
  rcases names_of_executeOne h with hnames | ⟨-, hnames⟩
  · simp [hnames] at hname
  · rw [← hnames] at hname
    exact (ToolRegistry.mem_surfaceable_iff.1 hname).2

/-! ### Runs -/

theorem surfaced_start (requestId : String) (messages : List Message)
    (preSurfaced : List String) : Surfaced E (start E requestId messages preSurfaced) := by
  refine Surfaced.same ?_ sameSurface_startRound
  refine ⟨?_, ?_, ?_⟩
  · intro name
    simp [ToolRegistry.mem_markSurfaced_iff]
  · intro name hname
    simp at hname
  · intro pending hphase
    contradiction

theorem surfaced_resume (pending : PendingApproval) : Surfaced E (resume pending) := by
  refine Surfaced.same ?_ (sameSurface_execute _ _ _)
  refine ⟨?_, ?_, ?_⟩
  · intro name
    simp [ToolRegistry.surfaceable]
  · intro name hname
    simp at hname
  · intro pending' hphase
    contradiction

/-- A handler is done. -/
theorem surfaced_outcome {slots : List Slot} {after : AfterBatch} {call : ToolCall}
    {outcome : HandlerOutcome} {content : String} (h : Surfaced E r)
    (hphase : r.phase = .executing slots after)
    (hcontent : executeOne E call outcome = some content) :
    Surfaced E { r with
      surface := surfaceAfter E r.surface call outcome
      found := r.found ++ outcome.names } := by
  refine ⟨?_, ?_, ?_⟩
  · intro name
    exact (mem_surfaceAfter_iff hcontent).trans (h.surface name)
  · intro name hname
    rcases List.mem_append.1 hname with hname | hname
    · exact h.found name hname
    · exact found_of_executeOne hcontent name hname
  · intro pending hblocked
    rw [hphase] at hblocked
    contradiction

theorem surfaced_batchDone {slots : List Slot} (after : AfterBatch) (h : Surfaced E r) :
    Surfaced E (r.batchDone E slots after) := by
  cases after with
  | nextRound =>
    refine Surfaced.same ?_ sameSurface_startRound
    exact ⟨h.surface, h.found, h.snapshot⟩
  | resume surfacedTools => exact surfaced_start _ _ _

theorem surfaced_toolReturned {slots : List Slot} {after : AfterBatch} {i : ℕ}
    {outcome : HandlerOutcome} (h : Surfaced E r) (hphase : r.phase = .executing slots after)
    (hs : r.toolReturned E slots after i outcome = some r') : Surfaced E r' := by
  unfold toolReturned at hs
  split at hs
  · simp only [Option.ite_none_right_eq_some, Option.map_eq_some_iff] at hs
    obtain ⟨-, content, hcontent, rfl⟩ := hs
    have houtcome := surfaced_outcome h hphase hcontent
    split_ifs
    · exact surfaced_batchDone after houtcome
    · refine ⟨houtcome.surface, houtcome.found, ?_⟩
      intro pending hblocked
      contradiction
  · contradiction

theorem surfaced_step {e : RunEvent} (h : Surfaced E r) (hs : r.step E e = some r') :
    Surfaced E r' := by
  rcases step_eq_some hs with ⟨response, parts, -, -, rfl⟩ | ⟨response, -, rfl⟩ |
    ⟨working, chunks, left, response, -, rfl⟩ | rfl |
    ⟨slots, after, i, outcome, hphase, -, hreturned⟩
  · refine ⟨h.surface, h.found, ?_⟩
    intro pending hblocked
    contradiction
  · exact h.same (sameSurface_completed _)
  · exact h.same (sameSurface_continued _ _ _ _)
  · exact h.same sameSurface_raised
  · exact surfaced_toolReturned h hphase hreturned

theorem surfaced_conversation {requestId : String} {messages : List Message}
    {preSurfaced : List String} {e : ConversationEvent} (h : Surfaced E r)
    (hs : (conversationMachine E requestId messages preSurfaced).step r e = some r') :
    Surfaced E r' := by
  cases e with
  | run e => exact surfaced_step h hs
  | approve =>
    simp only [conversationMachine] at hs
    split at hs
    · obtain rfl := Option.some.inj hs
      exact surfaced_resume _
    · contradiction

/-- A name that was found is on the surface exactly if `pre_surfaced_tools` has it. -/
theorem mem_surface_iff (h : Surfaced E r) {name : String} (hname : name ∈ r.found) :
    name ∈ r.surface ↔ name ∈ r.preSurfaced := by
  rw [h.surface, ToolRegistry.mem_surfaceable_iff, and_iff_left (h.found name hname)]

theorem defined_iff (h : Surfaced E r) {name : String} (hname : name ∈ r.found) :
    (∃ spec ∈ E.tools.toolDefinitions r.surface, spec.name = name) ↔ name ∈ r.preSurfaced := by
  obtain ⟨spec, hspec, rfl, hcore⟩ := h.found name hname
  rw [← mem_surface_iff h hname, ← ToolRegistry.mem_toolDefinitions_iff hspec hcore]
  constructor
  · rintro ⟨spec', hdefined, hnames⟩
    have hspec' := (List.mem_filter.1 hdefined).1
    rwa [← List.inj_on_of_nodup_map E.tools.nodup hspec' hspec hnames]
  · intro hdefined
    exact ⟨spec, hdefined, rfl⟩

theorem searchedCallable_iff_of_surfaced (h : Surfaced E r) :
    SearchedCallable E r ↔ SearchesNothingNew r := by
  unfold SearchedCallable SearchesNothingNew
  split
  · exact forall₂_congr fun name hname => defined_iff h hname
  · rename_i pending hphase
    rw [h.snapshot pending hphase]
    exact forall₂_congr fun name hname => mem_surface_iff h hname
  · exact Iff.rfl

/-- In a run of the loop with any surface to begin with, and the runs that approvals resume, the
names that the searches return stay callable exactly if no later round is requested, and no write
blocked, after a search has returned a name beyond `pre_surfaced_tools`. -/
theorem searched_callable_iff (E : AgentEnv) (requestId : String) (messages : List Message)
    (preSurfaced : List String) {tr : List (AgentRun × ConversationEvent)}
    (h : (conversationMachine E requestId messages preSurfaced).Trace tr r) :
    Machine.Always (SearchedCallable E) tr r ↔ Machine.Always SearchesNothingNew tr r := by
  have hrun := h.always_of_invariant (surfaced_start requestId messages preSurfaced)
    fun s e s' hi hs => surfaced_conversation hi hs
  exact and_congr (forall₂_congr fun p hp => searchedCallable_iff_of_surfaced (hrun.1 p hp))
    (searchedCallable_iff_of_surfaced hrun.2)

/-! ### A search -/

def searchJira : ToolSpec where
  name := "search_jira"
  isCore := false
  displayName := "Searching Jira"

/-- An agent with a tool to be found. -/
def jiraAgent : AgentEnv where
  config :=
    { maxToolRounds := 10
      maxContinuationRetries := 2
      microCompactionChars := 10000
      compactionThresholdChars := 100000
      compactionMinKeep := 4 }
  tools := ⟨[toolSearch, searchJira], by decide, by decide⟩
  compressed n := (n / 2 : ℕ)
  blank content := content = ""
  approved _ := true
  errorPayload error tool := "\x7b\"error\": \"" ++ error ++ "\", \"tool\": \"" ++ tool ++ "\"\x7d"
  writeArguments _ := some []

def askJira : List Message := [.system "You are a helper.", .user "Which issues are open?"]

/-- The model searches for a tool, and the search finds one. -/
def searchOnce : List ConversationEvent :=
  [.run (.answered (.ok
      { content := "", toolCalls := [⟨"c-1", "tool_search", "\x7b\"query\": \"jira\"\x7d"⟩] })),
    .run (.toolReturned 0 (.found ["search_jira"] "\x7b\"matches\": [\"search_jira\"]\x7d"))]

/-- In a run that an approval resumes, `pre_surfaced_tools` may have the tool already. -/
theorem searched_callable_iff_resumed : ∃ tr r,
    (conversationMachine jiraAgent "r-1" askJira ["search_jira"]).Trace tr r ∧
      (Machine.Always (SearchedCallable jiraAgent) tr r ↔
        Machine.Always SearchesNothingNew tr r) := by
  obtain ⟨tr, r, h, -, -⟩ := Machine.Trace.of_check
    (M := conversationMachine jiraAgent "r-1" askJira ["search_jira"]) searchOnce
    (p := fun _ _ => true) (by decide)
  exact ⟨tr, r, h, searched_callable_iff jiraAgent "r-1" askJira ["search_jira"] h⟩

/-- The next round of a fresh run is requested without the tool. -/
theorem found_tool_uncallable : ¬ ∀ tr r,
    (conversationMachine jiraAgent "r-1" askJira []).Trace tr r →
      Machine.Always (SearchedCallable jiraAgent) tr r := by
  intro hall
  obtain ⟨tr, r, h, -, hr⟩ := Machine.Trace.of_check
    (M := conversationMachine jiraAgent "r-1" askJira []) searchOnce
    (p := fun _ r => decide (r.phase = .completing) && decide (r.found = ["search_jira"]) &&
      decide (jiraAgent.tools.toolDefinitions r.surface = [toolSearch])) (by decide)
  simp only [Bool.and_eq_true, decide_eq_true_eq] at hr
  obtain ⟨⟨hphase, hfound⟩, hdefinitions⟩ := hr
  have hcallable := (hall tr r h).2
  unfold SearchedCallable at hcallable
  rw [hphase] at hcallable
  obtain ⟨spec, hspec, hname⟩ := hcallable "search_jira" (by simp [hfound])
  rw [hdefinitions, List.mem_singleton] at hspec
  subst hspec
  contradiction

end AgentRun

end NemoClaw
