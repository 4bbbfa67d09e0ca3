import NemoClaw.Agent.PromptBuilder
import NemoClaw.Agent.TaskRunner
import NemoClaw.Agent.ToolProtocol
import NemoClaw.Agent.WriteGate
import NemoClaw.Orchestrator.Workflow

/-! The capability fields of an assignment: `tool_surface` and `context_files`. The process of the
sub-agent validates both and looks at neither: its registry is that of its role
(`create_coding_tool_registry`), and its workspace is what it finds at the root. -/

namespace NemoClaw

open Lib

/-! ### The registry of the role -/

/-- The tools of `_register_coding_tools` without `git_commit`. -/
def codingTools : List ToolSpec :=
  [{ name := "read_file", displayName := "Reading file" },
    { name := "write_file", displayName := "Writing file", isReadOnly := false
      isConcurrencySafe := false },
    { name := "edit_file", displayName := "Editing file", isReadOnly := false
      isConcurrencySafe := false },
    { name := "list_directory", displayName := "Listing directory" },
    { name := "grep", displayName := "Searching file contents" },
    { name := "glob_search", displayName := "Finding files" },
    { name := "bash", displayName := "Running command", isReadOnly := false
      isConcurrencySafe := false },
    { name := "git_diff", displayName := "Checking git diff" },
    { name := "git_log", displayName := "Checking git log" },
    { name := "git_checkout", displayName := "Switching branch", isReadOnly := false
      isConcurrencySafe := false },
    { name := "git_clone", displayName := "Cloning repository", isReadOnly := false
      isConcurrencySafe := false }]

/-- The tool of `register_skill_tool`, which registers none without skills. -/
def skillTools (skillIds : List String) : List ToolSpec :=
  if skillIds = [] then [] else [{ name := "skill", displayName := "Loading skill" }]

def createCodingToolRegistry (skillIds : List String) : ToolRegistry where
  tools := codingTools ++ skillTools skillIds ++ [toolSearch]
  nodup := by
    unfold skillTools
    split <;> decide
  searched := by
    unfold skillTools
    split <;> decide

theorem isCore_createCodingToolRegistry (skillIds : List String) :
    ∀ spec ∈ (createCodingToolRegistry skillIds).tools, spec.isCore = true := by
  change ∀ spec ∈ codingTools ++ skillTools skillIds ++ [toolSearch], spec.isCore = true
  unfold skillTools
  split <;> decide

/-! ### The process of a task -/

/-- What the process of a sub-agent has beside its assignment. -/
structure SubAgent where
  env : AgentEnv
  config : TaskLoopConfig
  /-- the skills that were found, if skills are enabled -/
  skills : Option (List String)
  systemPrompt : TaskAssignPayload → String

/-- The files under a workspace root, by their paths from it; none if there is no such directory. -/
abbrev WorkspaceFiles (κ : Type*) := Option (String → Option κ)

/-- `mkdir(parents=True, exist_ok=True)` -/
def WorkspaceFiles.mkdir {κ : Type*} (w : WorkspaceFiles κ) : WorkspaceFiles κ :=
  some (w.getD fun _ => none)

def WorkspaceFiles.read {κ : Type*} (w : WorkspaceFiles κ) (path : String) : Option κ :=
  w.bind fun files => files path

namespace SubAgent

variable (A : SubAgent) (task : TaskAssignPayload)

/-- The loop that `_run_task` makes: the tools of the role, `AutoApproval`, the task's limits. -/
def taskEnv : AgentEnv :=
  { A.env with
    config := (A.config.override task).toAgentLoopConfig
    tools := createCodingToolRegistry (A.skills.getD [])
    approved := fun _ => true }

/-- The runs of the loop on the task. -/
def taskMachine : Machine AgentRun ConversationEvent :=
  conversationMachine (A.taskEnv task) task.workflowId
    (({} : PromptBuilder).messagesForInference 50 (A.systemPrompt task) task.workflowId task.prompt)
    []

/-- `_run_assigned_task` and `_build_tool_registry` make sure that the root is a directory, and
then the first round begins. -/
def workspaceBefore {κ : Type*} (w : WorkspaceFiles κ) : WorkspaceFiles κ := w.mkdir.mkdir

end SubAgent

namespace AgentRun

/-- The tools that the request in flight advertises. -/
def advertised (E : AgentEnv) (r : AgentRun) : List ToolSpec :=
  match r.phase with
  | .completing => E.tools.toolDefinitions r.surface
  | _ => []

/-- The tools that are being executed. -/
def executed (E : AgentEnv) (r : AgentRun) : List ToolSpec :=
  r.executing.filterMap fun call => E.tools.get call.name

/-- Every tool that is advertised or executed is named in `surface`. -/
def Within (E : AgentEnv) (surface : List String) (r : AgentRun) : Prop :=
  ∀ spec ∈ r.advertised E ++ r.executed E, spec.name ∈ surface

theorem mem_tools_of_used {E : AgentEnv} {r : AgentRun} {spec : ToolSpec}
    (h : spec ∈ r.advertised E ++ r.executed E) : spec ∈ E.tools.tools := by
  rcases List.mem_append.1 h with h | h
  · unfold advertised at h
    split at h
    · exact (List.mem_filter.1 h).1
    · simp at h
  · obtain ⟨call, -, hget⟩ := List.mem_filterMap.1 h
    exact (ToolRegistry.get_eq_some hget).1

end AgentRun

namespace SubAgent

variable {A : SubAgent} {task : TaskAssignPayload}

/-- The capability fields are honoured: the loop keeps to the tool surface, and each context file
is in the workspace when the first round begins. -/
structure Honours {κ : Type*} (A : SubAgent) (decoded : ContextFile → κ) (task : TaskAssignPayload)
    (w : WorkspaceFiles κ) : Prop where
  tools : ∀ surface, task.toolSurface = some surface → ∀ tr r, (A.taskMachine task).Trace tr r →
    Machine.Always (AgentRun.Within (A.taskEnv task) surface) tr r
  files : ∀ file ∈ task.contextFiles, (workspaceBefore w).read file.path = some (decoded file)

/-- Unless the task may have no round, its loop gets to a request. -/
theorem exists_completing (hrounds : (A.config.override task).maxToolRounds ≠ 0) :
    ∃ tr r, (A.taskMachine task).Trace tr r ∧ r.phase = .completing := by
  have hround : 0 < (A.taskEnv task).config.maxToolRounds := Nat.pos_of_ne_zero hrounds
  set start := (A.taskMachine task).init with hstart
  have hphase : start.phase = .completing ∨
      start.phase = .summarizing ∧ (split (A.taskEnv task) start.working).isSome = true := by
    rw [hstart]
    simp only [taskMachine, conversationMachine, AgentRun.start, AgentRun.startRound, if_pos hround]
    split_ifs with hcompact
    · exact Or.inr ⟨rfl, hcompact.2⟩
    · exact Or.inl rfl
  rcases hphase with hphase | ⟨hphase, hsplit⟩
  · exact ⟨[], start, .nil, hphase⟩
  · obtain ⟨parts, hparts⟩ := Option.isSome_iff_exists.1 hsplit
    have hstep : (A.taskMachine task).step start (.run (.answered (.ok { content := "" }))) =
        some { start with
          working := compacted start.working parts.2 ""
          phase := .completing } := by
      change start.step (A.taskEnv task) _ = _
      simp [AgentRun.step, hphase, hparts]
    exact ⟨_, _, .snoc .nil hstep, rfl⟩

/-- A loop that keeps to a surface has no tool outside it, if it has a round. -/
theorem names_of_within {surface : List String}
    (hrounds : (A.config.override task).maxToolRounds ≠ 0)
    (h : ∀ tr r, (A.taskMachine task).Trace tr r →
      Machine.Always (AgentRun.Within (A.taskEnv task) surface) tr r) :
    ∀ spec ∈ (A.taskEnv task).tools.tools, spec.name ∈ surface := by
  obtain ⟨tr, r, htrace, hphase⟩ := exists_completing hrounds
  intro spec hspec
  have hcore : spec.isCore = true := isCore_createCodingToolRegistry _ spec hspec
  have hadvertised : spec ∈ r.advertised (A.taskEnv task) := by
    rw [AgentRun.advertised, hphase]
    exact List.mem_filter.2 ⟨hspec, by simp [hcore]⟩
  exact (h tr r htrace).2 spec (List.mem_append_left _ hadvertised)

/-- A loop without a round returns at once. -/
theorem returned_of_no_rounds (hrounds : (A.config.override task).maxToolRounds = 0)
    {tr : List (AgentRun × ConversationEvent)} {r : AgentRun}
    (h : (A.taskMachine task).Trace tr r) :
    Machine.Always (fun r => ∃ result, r.phase = .returned result) tr r := by
  have hround : ¬ 0 < (A.taskEnv task).config.maxToolRounds := Nat.not_lt.2 hrounds.le
  refine h.always_of_invariant ?_ ?_
  · simp only [taskMachine, conversationMachine, AgentRun.start, AgentRun.startRound,
      if_neg hround]
    exact ⟨_, rfl⟩
  · intro r e r' hreturned hs
    obtain ⟨result, hphase⟩ := hreturned
    cases e with
    | run e => simp [taskMachine, conversationMachine, AgentRun.step, hphase] at hs
    | approve => simp [taskMachine, conversationMachine, hphase] at hs

theorem within_of_returned {E : AgentEnv} {surface : List String} {r : AgentRun}
    (h : ∃ result, r.phase = .returned result) : r.Within E surface := by
  obtain ⟨result, hphase⟩ := h
  simp [AgentRun.Within, AgentRun.advertised, AgentRun.executed, AgentRun.executing, hphase]

/-- The capability fields of an assignment, the first one or an iteration, are honoured exactly if
they ask for nothing: the surface names every tool of the role, unless there is no round, and the
files are there already. -/
theorem honours_iff {κ : Type*} (A : SubAgent) (decoded : ContextFile → κ)
    (task : TaskAssignPayload) (w : WorkspaceFiles κ) :
    Honours A decoded task w ↔
      (∀ surface, task.toolSurface = some surface →
        (A.config.override task).maxToolRounds = 0 ∨
          ∀ spec ∈ (createCodingToolRegistry (A.skills.getD [])).tools, spec.name ∈ surface) ∧
      ∀ file ∈ task.contextFiles, w.read file.path = some (decoded file) := by
  have hread : ∀ path, (workspaceBefore w).read path = w.read path := by
    intro path
    cases w with
    | none => rfl
    | some files => rfl
  constructor
  · intro h
    refine ⟨?_, ?_⟩
    · intro surface hsurface
      rcases Nat.eq_zero_or_pos (A.config.override task).maxToolRounds with hzero | hpos
      · exact Or.inl hzero
      · exact Or.inr (names_of_within hpos.ne' (h.tools surface hsurface))
    · intro file hfile
      rw [← hread]
      exact h.files file hfile
  · rintro ⟨htools, hfiles⟩
    refine ⟨?_, ?_⟩
    · intro surface hsurface tr r htrace
      rcases htools surface hsurface with hzero | hnames
      · exact (returned_of_no_rounds hzero htrace).imp fun r => within_of_returned
      · have hall : ∀ r, AgentRun.Within (A.taskEnv task) surface r :=
          fun r spec hspec => hnames spec (AgentRun.mem_tools_of_used hspec)
        exact htrace.always_of_invariant (hall _) fun _ _ r' _ _ => hall r'
    · intro file hfile
      rw [hread]
      exact hfiles file hfile

/-! ### Iterations -/

/-- An assignment of a workflow: the first one, or a follow-up of one. -/
inductive AssignedAfter (first : TaskAssignPayload) : TaskAssignPayload → Prop
  | first : AssignedAfter first first
  | followup {task followup prompt maxTurns model} : AssignedAfter first task →
      task.followup prompt maxTurns model = some followup → AssignedAfter first followup

/-- An iteration asks for what the first assignment asked for. -/
theorem fields_of_assignedAfter {first : TaskAssignPayload} (h : AssignedAfter first task) :
    task.toolSurface = first.toolSurface ∧ task.contextFiles = first.contextFiles := by
  induction h with
  | first => exact ⟨rfl, rfl⟩
  | followup _ hfollowup ih =>
    unfold TaskAssignPayload.followup at hfollowup
    split_ifs at hfollowup
    obtain ⟨turns, -, rfl⟩ := Option.map_eq_some_iff.1 hfollowup
    exact ih

/-! ### A reader with a shell -/

/-- The sub-agent may read files, and is given one. -/
def readOnlyTask : TaskAssignPayload :=
  { fixBugTask with
    toolSurface := some ["read_file"]
    contextFiles := [⟨⟨"README.md", by decide⟩, "hello", .utf8⟩] }

def codingAgent : SubAgent where
  env := AgentRun.fileReader
  config := codingModel
  skills := none
  systemPrompt := fun _ => ""

/-- The model is offered `bash`. -/
theorem read_only_surface_ignored :
    ¬ Honours codingAgent ContextFile.content readOnlyTask none := by
  intro h
  have hnames := names_of_within (by decide) (h.tools ["read_file"] rfl)
  exact absurd (hnames { name := "bash", displayName := "Running command", isReadOnly := false
                         isConcurrencySafe := false } (by decide)) (by decide)

end SubAgent

end NemoClaw
