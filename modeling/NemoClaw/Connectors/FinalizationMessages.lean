import NemoClaw.Connectors.SlackText
import NemoClaw.Nmb.WireFormat
import NemoClaw.Orchestrator.FinalizationTools

/-! The messages of a finalisation in Slack (`connectors/slack/finalization.py`). Each part of a
message has a bound on its sections, but a message has several parts. -/

namespace NemoClaw

open Lib

/-- An element of an `actions` block. -/
structure SlackButton where
  label : String
  actionId : String
  value : String
  style : Option String
  deriving DecidableEq, Repr

/-- A block of a message: a section of mrkdwn text, or buttons. -/
inductive SlackBlock
  | section (text : String)
  | actions (elements : List SlackButton)
  deriving DecidableEq, Repr

/-- The arguments of `chat_postMessage`. -/
structure SlackPost where
  channel : String
  threadTs : Option String
  text : String
  blocks : Option (List SlackBlock)
  deriving DecidableEq, Repr

/-! ### Sections -/

/-- `_FENCE_OVERHEAD` -/
def fenceOverhead : ℕ := 16

/-- `inner_limit` of `_code_fence_section_blocks` -/
def fenceInnerLimit : ℕ+ := ⟨slackSectionTextLimit - fenceOverhead, by decide⟩

/-- `_text_section_blocks` -/
def textSectionBlocks (text : String) : List SlackBlock :=
  if text = "" then []
  else ((splitTextForSlack text slackSectionTextLimit).take slackMaxTextblockChunks).map .section

def fenced (language chunk : String) : String :=
  (if language = "" then "```" else "```" ++ language) ++ "\n" ++ chunk ++ "\n" ++ "```"

/-- `_code_fence_section_blocks` -/
def codeFenceSectionBlocks (body language : String) : List SlackBlock :=
  if body = "" then []
  else ((splitTextForSlack body fenceInnerLimit).take slackMaxTextblockChunks).map fun chunk =>
    .section (fenced language chunk)

/-- `_button` -/
def slackButton (label actionId value : String) (style : Option String) : SlackButton :=
  ⟨label, actionId, value, truthy style⟩

/-! ### Messages -/

def FinalizationTools.FinalizationAction.value : FinalizationTools.FinalizationAction → String
  | .presentWorkToUser => "present_work_to_user"
  | .pushBranch => "push_branch"
  | .pushAndCreatePr => "push_and_create_pr"
  | .discardWork => "discard_work"
  | .reDelegate => "re_delegate"
  | .destroySandbox => "destroy_sandbox"
  | .modelResponse => "model_response"

/-- `_ACTION_ICONS` -/
def actionIcon (action : String) : Option String :=
  match action with
  | "push_branch" => some ":arrow_up:"
  | "push_and_create_pr" => some ":arrows_counterclockwise:"
  | "discard_work" => some ":wastebasket:"
  | "re_delegate" => some ":repeat:"
  | "destroy_sandbox" => some ":boom:"
  | _ => none

def actionFallbackTextLimit : ℕ := 200

namespace SlackFinalizationRenderer

/-- `_post`, in a workflow that has a channel. -/
def post (context : WorkflowContext) (text : String) (blocks : Option (List SlackBlock)) :
    Option SlackPost :=
  context.channelId.map fun channel =>
    { channel := channel
      threadTs := context.threadTs
      text := if text = "" then "…" else text
      blocks := blocks }

def presentWorkHeader (summary : String) : String :=
  ":robot_face: *Sub-agent work ready for review*\n\n" ++ summary

def actionButtons (context : WorkflowContext) : SlackBlock :=
  .actions
    [slackButton "Push & PR" finalizationActionPushPr context.workflowId (some "primary"),
      slackButton "Iterate" finalizationActionIterate context.workflowId none,
      slackButton "Discard" finalizationActionDiscard context.workflowId (some "danger")]

def renderPresentWork (context : WorkflowContext) (summary diff : String) : Option SlackPost :=
  post context summary
    (some (textSectionBlocks (presentWorkHeader summary) ++
      (if diff = "" then [] else codeFenceSectionBlocks diff "diff") ++ [actionButtons context]))

def actionHeader (action : String) : String :=
  (actionIcon action).getD ":information_source:" ++ " *" ++ action ++ "*"

def renderFinalizationAction (context : WorkflowContext) (action result : String) :
    Option SlackPost :=
  post context (action ++ ": " ++ truncate result actionFallbackTextLimit)
    (some (textSectionBlocks (actionHeader action) ++ codeFenceSectionBlocks result ""))

def renderWorkflowProgress (context : WorkflowContext) (progress : TaskProgressPayload) :
    Option SlackPost :=
  progress.note.bind fun note => post context (":hourglass_flowing_sand: " ++ note) none

def errorHeader (errorKind : TaskErrorKind) (recoverable : Bool) : String :=
  ":warning: *Sub-agent reported an error* (`" ++ errorKind.value ++ "`, recoverable=" ++
    (if recoverable then "True" else "False") ++ ")"

def renderWorkflowError (context : WorkflowContext) (error : TaskErrorPayload) :
    Option SlackPost :=
  post context error.error
    (some (textSectionBlocks (errorHeader error.errorKind error.recoverable) ++
      codeFenceSectionBlocks error.error ""))

def failureHeader (workflowId : String) : String :=
  ":x: *Finalisation failed for workflow " ++ workflowId ++ "*"

def failureFooter : String :=
  "_The sub-agent's diff is on disk; you can inspect the workspace manually._"

def renderWorkflowCompletionFailure (context : WorkflowContext) (error : String) :
    Option SlackPost :=
  post context error
    (some (textSectionBlocks (failureHeader context.workflowId) ++
      codeFenceSectionBlocks error "" ++ textSectionBlocks failureFooter))

end SlackFinalizationRenderer

/-- What is asked of a renderer. -/
inductive RendererCall
  | presentWork (summary diff : String)
  | finalizationAction (action : FinalizationTools.FinalizationAction) (result : String)
  | workflowProgress (progress : TaskProgressPayload)
  | workflowError (error : TaskErrorPayload)
  | completionFailure (error : String)

namespace RendererCall

open SlackFinalizationRenderer

def render (context : WorkflowContext) : RendererCall → Option SlackPost
  | presentWork summary diff => renderPresentWork context summary diff
  | finalizationAction action result => renderFinalizationAction context action.value result
  | workflowProgress progress => renderWorkflowProgress context progress
  | workflowError error => renderWorkflowError context error
  | completionFailure error => renderWorkflowCompletionFailure context error

/-! ### Slack's limits -/

/-- The most blocks of a message that Slack takes. -/
def slackMaxBlocks : ℕ := 50

/-- The most characters of a section that Slack takes. -/
def slackMaxSectionText : ℕ := 3000

structure WithinLimits (blocks : List SlackBlock) : Prop where
  length_le : blocks.length ≤ slackMaxBlocks
  sections : ∀ text, .section text ∈ blocks → text ≠ "" ∧ text.length ≤ slackMaxSectionText

/-- The last block has a button for each action, and each of them names the workflow. -/
def EndsWithButtons (workflowId : String) (blocks : List SlackBlock) : Prop :=
  ∃ elements, blocks.getLast? = some (.actions elements) ∧
    elements.map SlackButton.actionId =
      [finalizationActionPushPr, finalizationActionIterate, finalizationActionDiscard] ∧
    ∀ button ∈ elements, button.value = workflowId

/-- What a message must be. -/
def Fits (context : WorkflowContext) (post : SlackPost) : RendererCall → Prop
  | presentWork _ _ => ∃ blocks, post.blocks = some blocks ∧ WithinLimits blocks ∧
      EndsWithButtons context.workflowId blocks
  | _ => ∀ blocks, post.blocks = some blocks → WithinLimits blocks

/-- The sections of a text that stretches over so many. -/
def sectionsOf (text : String) (limit : ℕ+) : ℕ :=
  min slackMaxTextblockChunks ((slackCutter limit).stretches text.toList)

/-- The two texts of a message together leave room for one more block. -/
def Room (context : WorkflowContext) : RendererCall → Prop
  | presentWork summary diff =>
    sectionsOf (presentWorkHeader summary) slackSectionTextLimit +
      sectionsOf diff fenceInnerLimit < slackMaxBlocks
  | completionFailure error =>
    sectionsOf (failureHeader context.workflowId) slackSectionTextLimit +
      sectionsOf error fenceInnerLimit < slackMaxBlocks
  | _ => True

/-! ### The parts of a message -/

theorem length_split {text : String} (hne : text ≠ "") (limit : ℕ+) :
    (splitTextForSlack text limit).length = (slackCutter limit).stretches text.toList := by
  have hchars : text.toList ≠ [] := by simpa using hne
  rcases le_or_gt text.length limit with hle | hlong
  · have hshort : ¬ (slackCutter limit).limit < text.toList.length := by
      rw [String.length_toList]
      exact not_lt.2 hle
    rw [splitTextForSlack, if_pos hle, Cutter.stretches, dif_neg hshort, if_neg hchars]
    rfl
  · rw [splitTextForSlack_of_lt hlong, List.length_map, Cutter.length_chunks]

theorem sectionsOf_le (text : String) (limit : ℕ+) : sectionsOf text limit ≤ 40 := min_le_left _ _

theorem sectionsOf_empty (limit : ℕ+) : sectionsOf "" limit = 0 := by
  have hshort : ¬ (slackCutter limit).limit < "".toList.length := by simp
  rw [sectionsOf, Cutter.stretches, dif_neg hshort]
  rfl

/-- A short text takes one section. -/
theorem sectionsOf_short {text : String} {limit : ℕ+} (hne : text ≠ "")
    (h : text.length ≤ limit) : sectionsOf text limit = 1 := by
  rw [sectionsOf, ← length_split hne, splitTextForSlack, if_pos h]
  rfl

theorem length_textSectionBlocks (text : String) :
    (textSectionBlocks text).length = sectionsOf text slackSectionTextLimit := by
  unfold textSectionBlocks
  split_ifs with hempty
  · rw [hempty, sectionsOf_empty]
    rfl
  · rw [List.length_map, List.length_take, length_split hempty, sectionsOf]

theorem length_codeFenceSectionBlocks (body language : String) :
    (codeFenceSectionBlocks body language).length = sectionsOf body fenceInnerLimit := by
  unfold codeFenceSectionBlocks
  split_ifs with hempty
  · rw [hempty, sectionsOf_empty]
    rfl
  · rw [List.length_map, List.length_take, length_split hempty, sectionsOf]

/-- Every section has a text, and a short one. -/
def Sound (blocks : List SlackBlock) : Prop :=
  ∀ text, .section text ∈ blocks → text ≠ "" ∧ text.length ≤ slackMaxSectionText

theorem Sound.append {blocks blocks' : List SlackBlock} (h : Sound blocks) (h' : Sound blocks') :
    Sound (blocks ++ blocks') := by
  intro text htext
  rcases List.mem_append.1 htext with htext | htext
  · exact h text htext
  · exact h' text htext

theorem sound_textSectionBlocks (text : String) : Sound (textSectionBlocks text) := by
  unfold textSectionBlocks
  split_ifs with hempty
  · intro chunk hchunk
    cases hchunk
  · intro chunk hchunk
    obtain ⟨piece, hpiece, heq⟩ := List.mem_map.1 hchunk
    obtain rfl := SlackBlock.section.inj heq
    obtain ⟨hne, hlen⟩ := bounded_of_mem_split hempty (List.mem_of_mem_take hpiece)
    exact ⟨hne, hlen.trans (by decide)⟩

theorem length_fenced (language chunk : String) :
    (fenced language chunk).length = language.length + chunk.length + 8 := by
  have hfence : "```".length = 3 := by decide
  have hnewline : "\n".length = 1 := by decide
  unfold fenced
  split_ifs with hempty
  · subst hempty
    simp only [String.length_append, String.length_empty]
    omega
  · simp only [String.length_append]
    omega

/-- The overhead leaves room for the fences and a language of some letters. -/
theorem sound_codeFenceSectionBlocks (body language : String)
    (h : language.length + 8 ≤ fenceOverhead) : Sound (codeFenceSectionBlocks body language) := by
  unfold codeFenceSectionBlocks
  split_ifs with hempty
  · intro chunk hchunk
    cases hchunk
  · intro text htext
    obtain ⟨chunk, hchunk, heq⟩ := List.mem_map.1 htext
    obtain rfl := SlackBlock.section.inj heq
    obtain ⟨-, hlen⟩ := bounded_of_mem_split hempty (List.mem_of_mem_take hchunk)
    have hlimit : (fenceInnerLimit : ℕ) = 2884 := rfl
    have hoverhead : fenceOverhead = 16 := rfl
    have hmax : slackMaxSectionText = 3000 := rfl
    have htotal := length_fenced language chunk
    refine ⟨?_, by omega⟩
    intro hnil
    rw [hnil, String.length_empty] at htotal
    omega

theorem withinLimits_iff {blocks : List SlackBlock} (h : Sound blocks) :
    WithinLimits blocks ↔ blocks.length ≤ slackMaxBlocks :=
  ⟨WithinLimits.length_le, fun hlen => ⟨hlen, h⟩⟩

theorem sound_actionButtons (context : WorkflowContext) : Sound [actionButtons context] := by
  intro text htext
  cases List.mem_singleton.1 htext

theorem sectionsOf_actionHeader (action : FinalizationTools.FinalizationAction) :
    sectionsOf (actionHeader action.value) slackSectionTextLimit = 1 := by
  refine sectionsOf_short ?_ ?_ <;> cases action <;> decide

theorem sectionsOf_errorHeader (errorKind : TaskErrorKind) (recoverable : Bool) :
    sectionsOf (errorHeader errorKind recoverable) slackSectionTextLimit = 1 := by
  have hkind : errorKind.value.length ≤ 18 := by cases errorKind <;> decide
  have hflag : (if recoverable then "True" else "False").length ≤ 5 := by
    cases recoverable <;> decide
  have hbegin : ":warning: *Sub-agent reported an error* (`".length = 42 := by decide
  have hmiddle : "`, recoverable=".length = 15 := by decide
  have hend : ")".length = 1 := by decide
  have hlength : (errorHeader errorKind recoverable).length =
      42 + errorKind.value.length + 15 +
        (if recoverable then "True" else "False").length + 1 := by
    unfold errorHeader
    simp only [String.length_append, hbegin, hmiddle, hend]
  have hlimit : (slackSectionTextLimit : ℕ) = 2900 := rfl
  refine sectionsOf_short ?_ (by omega)
  intro hempty
  rw [hempty, String.length_empty] at hlength
  omega

theorem sectionsOf_failureFooter : sectionsOf failureFooter slackSectionTextLimit = 1 :=
  sectionsOf_short (by decide) (by decide)

/-! ### Messages within the limits -/

theorem forall_post_iff (context : WorkflowContext) (text : String)
    (blocks : Option (List SlackBlock)) (P : Option (List SlackBlock) → Prop) :
    (∀ p, post context text blocks = some p → P p.blocks) ↔
      context.channelId = none ∨ P blocks := by
  unfold post
  cases context.channelId <;> simp

theorem forall_withinLimits_iff {blocks : List SlackBlock} (h : Sound blocks) :
    (∀ bs, some blocks = some bs → WithinLimits bs) ↔ blocks.length ≤ slackMaxBlocks := by
  rw [← withinLimits_iff h]
  constructor
  · intro hall
    exact hall blocks rfl
  · intro hlimits bs hbs
    rwa [← Option.some.inj hbs]

theorem renderPresentWork_eq (context : WorkflowContext) (summary diff : String) :
    renderPresentWork context summary diff = post context summary
      (some (textSectionBlocks (presentWorkHeader summary) ++
        codeFenceSectionBlocks diff "diff" ++ [actionButtons context])) := by
  have hguard : (if diff = "" then [] else codeFenceSectionBlocks diff "diff") =
      codeFenceSectionBlocks diff "diff" := by
    unfold codeFenceSectionBlocks
    split_ifs <;> rfl
  rw [renderPresentWork, hguard]

theorem fits_presentWork_iff (context : WorkflowContext) (summary diff : String) :
    (∀ p, (presentWork summary diff).render context = some p →
      (presentWork summary diff).Fits context p) ↔
        context.channelId = none ∨ (presentWork summary diff).Room context := by
  have hrender : (presentWork summary diff).render context = _ :=
    renderPresentWork_eq context summary diff
  rw [hrender]
  refine (forall_post_iff context summary _ fun blocks => ∃ bs, blocks = some bs ∧
    WithinLimits bs ∧ EndsWithButtons context.workflowId bs).trans (or_congr_right ?_)
  have hsound : Sound (textSectionBlocks (presentWorkHeader summary) ++
      codeFenceSectionBlocks diff "diff" ++ [actionButtons context]) :=
    ((sound_textSectionBlocks _).append (sound_codeFenceSectionBlocks _ _ (by decide))).append
      (sound_actionButtons context)
  have hlength : (textSectionBlocks (presentWorkHeader summary) ++
      codeFenceSectionBlocks diff "diff" ++ [actionButtons context]).length ≤ slackMaxBlocks ↔
        (presentWork summary diff).Room context := by
    rw [List.length_append, List.length_append, length_textSectionBlocks,
      length_codeFenceSectionBlocks, List.length_singleton]
    exact Nat.succ_le_iff
  rw [← hlength, ← withinLimits_iff hsound]
  constructor
  · rintro ⟨bs, hbs, hlimits, -⟩
    rwa [Option.some.inj hbs]
  · intro hlimits
    refine ⟨_, rfl, hlimits, _, List.getLast?_concat, rfl, ?_⟩
    simp [slackButton]

/-- A summary that fits in one section leaves room for any diff. -/
theorem room_of_short_summary (context : WorkflowContext) {summary : String} (diff : String)
    (h : (presentWorkHeader summary).length ≤ slackSectionTextLimit) :
    (presentWork summary diff).Room context := by
  have hne : presentWorkHeader summary ≠ "" := by
    intro hempty
    exact absurd (String.append_eq_empty_iff.1 hempty).1 (by decide)
  have hdiff := sectionsOf_le diff fenceInnerLimit
  rw [Room, sectionsOf_short hne h]
  unfold slackMaxBlocks
  omega

/-- Without a diff there is always room. -/
theorem room_of_no_diff (context : WorkflowContext) (summary : String) :
    (presentWork summary "").Room context := by
  have hheader := sectionsOf_le (presentWorkHeader summary) slackSectionTextLimit
  rw [Room, sectionsOf_empty]
  unfold slackMaxBlocks
  omega

/-- A text of many visible letters takes many sections. -/
theorem lt_sectionsOf {text : String} {limit : ℕ+} {k : ℕ} (hk : k < slackMaxTextblockChunks)
    (h : limit * k < (visible text.toList).length) : k < sectionsOf text limit := by
  have hle : (visible text.toList).length ≤ limit * (slackCutter limit).stretches text.toList :=
    Cutter.length_filter_le (C := slackCutter limit) text.toList
  exact lt_min hk (lt_of_mul_lt_mul_left (h.trans_le hle) (Nat.zero_le _))

/-- A message is within the limits exactly if it leaves room, and a dispatcher without a finalizer
has the completion presented as it is. -/
theorem posts_fit_iff (context : WorkflowContext) (call : RendererCall) :
    ((∀ p, call.render context = some p → call.Fits context p) ↔
      context.channelId = none ∨ call.Room context) ∧
    ∀ (π : Type) (E : DispatcherEnv π) (d : Dispatcher) (t : FinalizeId) (task : FinalizeTask),
      E.config.finalizer = false → E.config.renderer = true →
        (d.startFinalize E t task context).effects =
          d.effects ++ [.presentWork context task.complete.summary task.complete.diff] := by
  refine ⟨?_, ?_⟩
  · cases call with
    | presentWork summary diff => exact fits_presentWork_iff context summary diff
    | finalizationAction action result =>
      refine (forall_post_iff context _ _ fun blocks => ∀ bs, blocks = some bs →
        WithinLimits bs).trans (or_congr_right ?_)
      have hsound := (sound_textSectionBlocks (actionHeader action.value)).append
        (sound_codeFenceSectionBlocks result "" (by decide))
      have hbody := sectionsOf_le result fenceInnerLimit
      rw [forall_withinLimits_iff hsound, List.length_append, length_textSectionBlocks,
        length_codeFenceSectionBlocks, sectionsOf_actionHeader]
      exact iff_of_true (by unfold slackMaxBlocks; omega) trivial
    | workflowProgress progress =>
      refine iff_of_true ?_ (Or.inr trivial)
      intro p hp bs hbs
      obtain ⟨note, -, hpost⟩ := Option.bind_eq_some_iff.1 hp
      obtain ⟨channel, -, rfl⟩ := Option.map_eq_some_iff.1 hpost
      cases hbs
    | workflowError error =>
      refine (forall_post_iff context _ _ fun blocks => ∀ bs, blocks = some bs →
        WithinLimits bs).trans (or_congr_right ?_)
      have hsound := (sound_textSectionBlocks
        (errorHeader error.errorKind error.recoverable)).append
          (sound_codeFenceSectionBlocks error.error "" (by decide))
      have hbody := sectionsOf_le error.error fenceInnerLimit
      rw [forall_withinLimits_iff hsound, List.length_append, length_textSectionBlocks,
        length_codeFenceSectionBlocks, sectionsOf_errorHeader]
      exact iff_of_true (by unfold slackMaxBlocks; omega) trivial
    | completionFailure error =>
      refine (forall_post_iff context _ _ fun blocks => ∀ bs, blocks = some bs →
        WithinLimits bs).trans (or_congr_right ?_)
      have hsound := ((sound_textSectionBlocks (failureHeader context.workflowId)).append
        (sound_codeFenceSectionBlocks error "" (by decide))).append
          (sound_textSectionBlocks failureFooter)
      rw [forall_withinLimits_iff hsound, List.length_append, List.length_append,
        length_textSectionBlocks, length_codeFenceSectionBlocks, length_textSectionBlocks,
        sectionsOf_failureFooter]
      exact Nat.succ_le_iff
  · intro π E d t task hfinalizer hrenderer
    rw [Dispatcher.startFinalize, hfinalizer, hrenderer]
    rfl

def slackContext : WorkflowContext where
  workflowId := "wf-1"
  task := fixBugTask
  channelId := some "C1"

theorem posts_fit_iff_raw :
    ((∀ p, (presentWork "Fixed" "").render slackContext = some p →
      (presentWork "Fixed" "").Fits slackContext p) ↔
        slackContext.channelId = none ∨ (presentWork "Fixed" "").Room slackContext) ∧
    (({} : Dispatcher).startFinalize { wireDispatcher with config := { finalizer := false } } 0
      ⟨0, fixBugResult, .created⟩ slackContext).effects =
        [] ++ [.presentWork slackContext fixBugResult.summary fixBugResult.diff] :=
  ⟨(posts_fit_iff slackContext (presentWork "Fixed" "")).1,
    (posts_fit_iff slackContext (presentWork "Fixed" "")).2 WirePayload _ _ _ _ rfl rfl⟩

def letters (n : ℕ) : String := String.ofList (List.replicate n 'a')

/-- 75000 letters without a space. -/
def longText : String := letters 75000

theorem visible_letters (before : String) (n : ℕ) :
    n ≤ (visible (before ++ letters n).toList).length := by
  have hvisible : (!isSpace 'a') = true := by decide
  have hkept : (letters n).toList.filter (fun c => !isSpace c) = List.replicate n 'a' := by
    rw [letters, String.toList_ofList, List.filter_replicate, if_pos hvisible]
  rw [String.toList_append, visible, List.filter_append, List.length_append, hkept,
    List.length_replicate]
  exact Nat.le_add_left _ _

/-- A long summary and a long diff make a message of more than fifty blocks. -/
theorem long_work_rejected : ¬ ∀ p, (presentWork longText longText).render slackContext = some p →
    (presentWork longText longText).Fits slackContext p := by
  intro hclaim
  have hheader : 25 < sectionsOf (presentWorkHeader longText) slackSectionTextLimit := by
    refine lt_sectionsOf (by decide) (lt_of_lt_of_le ?_ (visible_letters _ 75000))
    decide
  have hdiff : 25 < sectionsOf longText fenceInnerLimit := by
    have hvisible := visible_letters "" 75000
    rw [String.empty_append] at hvisible
    refine lt_sectionsOf (by decide) (lt_of_lt_of_le ?_ hvisible)
    decide
  rcases (fits_presentWork_iff slackContext longText longText).1 hclaim with hnone | hroom
  · cases hnone
  · rw [Room, slackMaxBlocks] at hroom
    omega

end RendererCall

end NemoClaw
