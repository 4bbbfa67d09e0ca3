import Mathlib.Algebra.Order.Ring.Rat
import NemoClaw.Lib.Dict
import NemoClaw.Lib.KeyLocks
import NemoClaw.Lib.RateWindow
import NemoClaw.Lib.Slots
import NemoClaw.Orchestrator.Orchestrator

/-! The request handling of the Slack connector (`connectors/slack/connector.py`) as an event
machine. Each event of Slack is handled in a coroutine of its own, and one step is what it does
between two awaits. The orchestrator and Slack are the environment; `calls` records the calls made
on Slack's API and `errors` the error responses, shown or not, in order. -/

namespace NemoClaw

open Lib Dict

/-- What the connector reads of a response. -/
structure ConnectorResponse where
  errorCategory : Option ErrorCategory := none
  suppressPost : Bool := false
  /-- the action ids of the buttons of each `ActionBlock` -/
  actionBlocks : List (List String) := []
  deriving DecidableEq

/-- `_is_approval_prompt` -/
def ConnectorResponse.isApprovalPrompt (response : ConnectorResponse) : Bool :=
  response.actionBlocks.any fun buttons => buttons.any fun id => id == approvalActionApprove

/-- `_is_approval_click` -/
def NormalizedRequest.isApprovalClick (request : NormalizedRequest) : Bool :=
  request.action.any fun action =>
    action.actionId == approvalActionApprove || action.actionId == approvalActionDeny

/-- `_APPROVAL_CLICK_UI` -/
def approvalClickUi (actionId : String) : Option (String × String) :=
  if actionId = approvalActionApprove then some (":white_check_mark:", "Approved — executing")
  else if actionId = approvalActionDeny then some (":x:", "Denied")
  else none

/-- What a message shows. -/
inductive SlackContent
  | thinking
  | status (text : String)
  | consumed (icon outcome : String)
  | superseded
  | response (response : ConnectorResponse)
  deriving DecidableEq

inductive SlackCall
  | post (channel : String) (threadTs : Option String) (content : SlackContent)
  | update (channel ts : String) (content : SlackContent)
  | delete (channel ts : String)
  deriving DecidableEq

inductive HandlingStage
  /-- the clicked message is rewritten -/
  | consuming
  | postingThinking
  /-- in the handler of the orchestrator -/
  | handling (thinkingTs : Option String)
  /-- the placeholder is deleted, after which the coroutine returns -/
  | deleting
  | superseding (response : ConnectorResponse) (thinkingTs : Option String)
  | updating (response : ConnectorResponse) (thinkingTs : String)
  | posting (response : ConnectorResponse)
  | finished
  deriving DecidableEq

structure SlackHandling where
  request : NormalizedRequest
  stage : HandlingStage
  deriving DecidableEq

/-- An error response, and whether it was let through. -/
structure ErrorNote where
  handling : ℕ
  channel : String
  time : ℚ
  shown : Bool
  deriving DecidableEq

structure SlackConnector where
  approvalInFlight : List String := []
  threadApprovalMsg : Dict String (String × String) := ∅
  errorTimestamps : Dict String (List ℚ) := ∅
  handlings : Dict ℕ SlackHandling := ∅
  clock : ℚ := 0
  /-- with the coroutine that made the call -/
  calls : List (ℕ × SlackCall) := []
  errors : List ErrorNote := []

/-- How a call on Slack's API ended; a post has the `ts` of the new message. -/
inductive SlackResult
  | ok (ts : Option String)
  | raised

inductive SlackEvent
  /-- a request, with the `ts` of the message whose button it clicks -/
  | request (h : ℕ) (request : NormalizedRequest) (messageTs : Option String)
  | called (h : ℕ) (result : SlackResult)
  | status (h : ℕ) (text : String)
  /-- the handler of the orchestrator returned, at a time of the monotonic clock -/
  | handled (h : ℕ) (response : ConnectorResponse) (now : ℚ)
  | handlerRaised (h : ℕ)

def errorWindowS : ℚ := 60
def errorMaxPerWindow : ℕ := 3

/-- `thread_ts or f"\x7bchannel\x7d:\x7brequest_id\x7d"` -/
def NormalizedRequest.slackThreadKey (request : NormalizedRequest) : String :=
  (truthy request.threadTs).getD (request.channelId ++ ":" ++ request.requestId)

namespace SlackConnector

variable (s : SlackConnector) (h : ℕ) (request : NormalizedRequest)

def enter (stage : HandlingStage) : SlackConnector :=
  { s with handlings := s.handlings.insert h ⟨request, stage⟩ }

def call (c : SlackCall) : SlackConnector := { s with calls := s.calls ++ [(h, c)] }

/-- The coroutine ends, with its `finally`. -/
def finish : SlackConnector :=
  { s with
    approvalInFlight :=
      if request.isApprovalClick then s.approvalInFlight.erase request.slackThreadKey
      else s.approvalInFlight }.enter h request .finished

def postThinking : SlackConnector :=
  (s.call h (.post request.channelId request.threadTs .thinking)).enter h request .postingThinking

/-- `_is_error_rate_limited` -/
def isErrorRateLimited (channel : String) (now : ℚ) : Bool × SlackConnector :=
  let timestamps := noteCall errorWindowS ((s.errorTimestamps.lookup channel).getD []) now
  let limited := decide (errorMaxPerWindow < timestamps.length)
  (limited, { s with
    errorTimestamps := s.errorTimestamps.insert channel timestamps
    errors := s.errors ++ [⟨h, channel, now, !limited⟩] })

/-- Delete the placeholder and return. -/
def deleteThinking (thinkingTs : Option String) : SlackConnector :=
  match truthy thinkingTs with
  | none => s.finish h request
  | some ts => (s.call h (.delete request.channelId ts)).enter h request .deleting

/-- Put the response in the place of the placeholder. -/
def respond (response : ConnectorResponse) (thinkingTs : Option String) : SlackConnector :=
  match truthy thinkingTs with
  | none =>
    (s.call h (.post request.channelId request.threadTs (.response response))).enter h request
      (.posting response)
  | some ts => (s.call h (.update request.channelId ts (.response response))).enter h request
      (.updating response ts)

/-- `_apply_approval_lifecycle`, and on. -/
def applyApprovalLifecycle (response : ConnectorResponse) (thinkingTs : Option String) :
    SlackConnector :=
  if response.suppressPost then s.deleteThinking h request thinkingTs
  else if response.isApprovalPrompt then
    match s.threadApprovalMsg.lookup request.slackThreadKey with
    | none => s.respond h request response thinkingTs
    | some (channel, ts) =>
      ({ s with threadApprovalMsg := s.threadApprovalMsg.erase request.slackThreadKey }.call h
        (.update channel ts .superseded)).enter h request (.superseding response thinkingTs)
  else s.respond h request response thinkingTs

def handled (response : ConnectorResponse) (thinkingTs : Option String) (now : ℚ) :
    SlackConnector :=
  if response.errorCategory.isSome then
    let (limited, s) := s.isErrorRateLimited h request.channelId now
    if limited then s.deleteThinking h request thinkingTs
    else s.applyApprovalLifecycle h request response thinkingTs
  else s.applyApprovalLifecycle h request response thinkingTs

/-- The end of `_handle_with_thinking`, with the `ts` of the message that was posted. -/
def posted (response : ConnectorResponse) (postedTs : Option String) : SlackConnector :=
  match truthy postedTs with
  | some ts =>
    if response.isApprovalPrompt then
      { s with threadApprovalMsg :=
          s.threadApprovalMsg.insert request.slackThreadKey (request.channelId, ts) }.finish h
        request
    else s.finish h request
  | none => s.finish h request

/-- `_handle_with_thinking` up to its first await. -/
def handleWithThinking (messageTs : Option String) : SlackConnector :=
  if request.isApprovalClick then
    if request.slackThreadKey ∈ s.approvalInFlight then s.enter h request .finished
    else
      let s := { s with approvalInFlight := s.approvalInFlight.insert request.slackThreadKey }
      let ui := request.action.bind fun action => approvalClickUi action.actionId
      match ui, truthy messageTs with
      | some (icon, outcome), some ts =>
        (s.call h (.update request.channelId ts (.consumed icon outcome))).enter h request
          .consuming
      | some _, none =>
        { s with
          threadApprovalMsg :=
            s.threadApprovalMsg.erase request.slackThreadKey }.postThinking h request
      | none, _ => s.postThinking h request
  else s.postThinking h request

/-- A call on Slack's API is over. -/
def called (result : SlackResult) : HandlingStage → Option SlackConnector
  | .consuming =>
    some ({ s with threadApprovalMsg :=
      s.threadApprovalMsg.erase request.slackThreadKey }.postThinking h request)
  | .postingThinking => some <| match result with
    | .ok ts => s.enter h request (.handling ts)
    | .raised => s.enter h request (.handling none)
  | .deleting => some (s.finish h request)
  | .superseding response thinkingTs => some (s.respond h request response thinkingTs)
  | .updating response thinkingTs => some <| match result with
    | .ok _ => s.posted h request response (some thinkingTs)
    | .raised => (s.call h (.post request.channelId none (.response response))).enter h request
        (.posting response)
  | .posting response => some <| match result with
    | .ok ts => s.posted h request response ts
    | .raised => s.posted h request response none
  | .handling _ | .finished => none

def step : SlackEvent → Option SlackConnector
  | .request h request messageTs =>
    if (s.handlings.lookup h).isSome then none else some (s.handleWithThinking h request messageTs)
  | .called h result =>
    (s.handlings.lookup h).bind fun x => s.called h x.request result x.stage
  | .status h text =>
    match s.handlings.lookup h with
    | some ⟨request, .handling thinkingTs⟩ => some <| match truthy thinkingTs with
      | none => s
      | some ts => s.call h (.update request.channelId ts (.status text))
    | _ => none
  | .handled h response now =>
    match s.handlings.lookup h with
    | some ⟨request, .handling thinkingTs⟩ =>
      if now < s.clock then none
      else some ({ s with clock := now }.handled h request response thinkingTs now)
    | _ => none
  | .handlerRaised h =>
    match s.handlings.lookup h with
    | some ⟨request, .handling _⟩ => some (s.finish h request)
    | _ => none

end SlackConnector

def slackMachine : Machine SlackConnector SlackEvent where
  init := {}
  step := SlackConnector.step

/-! ### What a coroutine does between two awaits -/

/-- The response that a call puts before the user, and the channel. -/
def SlackCall.shows : SlackCall → Option (String × ConnectorResponse)
  | .post channel _ (.response response) | .update channel _ (.response response) =>
    some (channel, response)
  | _ => none

/-- The response that a coroutine is about to put before the user. -/
def HandlingStage.response : HandlingStage → Option ConnectorResponse
  | .superseding response _ | .updating response _ | .posting response => some response
  | _ => none

/-- The orchestrator is done. -/
def HandlingStage.answered : HandlingStage → Bool
  | .consuming | .postingThinking | .handling _ => false
  | _ => true

namespace SlackConnector

/-- The coroutine `h` comes to `stage`. It shows no response but those of `shown`. -/
structure Enters (s : SlackConnector) (h : ℕ) (request : NormalizedRequest)
    (stage : HandlingStage) (shown : ConnectorResponse → Prop) (s' : SlackConnector) : Prop where
  handlings : s'.handlings = s.handlings.insert h ⟨request, stage⟩
  errors : s'.errors = s.errors
  timestamps : s'.errorTimestamps = s.errorTimestamps
  clock : s'.clock = s.clock
  response : ∀ r ∈ stage.response, shown r
  calls : ∀ p ∈ s'.calls, p ∈ s.calls ∨
    p.1 = h ∧ ∀ r ∈ p.2.shows, r.1 = request.channelId ∧ shown r.2

/-- A coroutine that runs goes on, and gives up its thread if it ends. -/
structure Acts (s : SlackConnector) (h : ℕ) (request : NormalizedRequest) (stage : HandlingStage)
    (shown : ConnectorResponse → Prop) (s' : SlackConnector) : Prop
    extends Enters s h request stage shown s' where
  inFlight : s'.approvalInFlight =
    if request.isApprovalClick = true ∧ stage = .finished then
      s.approvalInFlight.erase request.slackThreadKey
    else s.approvalInFlight

section

variable {s : SlackConnector} {h : ℕ} {request : NormalizedRequest} {stage : HandlingStage}
  {shown : ConnectorResponse → Prop} {response : ConnectorResponse}

theorem enters_enter (hr : ∀ r ∈ stage.response, shown r) :
    Enters s h request stage shown (s.enter h request stage) where
  handlings := rfl
  errors := rfl
  timestamps := rfl
  clock := rfl
  response := hr
  calls _ hp := Or.inl hp

theorem acts_enter (hr : ∀ r ∈ stage.response, shown r) (hstage : stage ≠ .finished) :
    Acts s h request stage shown (s.enter h request stage) where
  __ := enters_enter hr
  inFlight := by
    rw [if_neg fun hc => hstage hc.2]
    rfl

theorem acts_finish : Acts s h request .finished shown (s.finish h request) where
  __ := enters_enter (by simp [HandlingStage.response])
  inFlight := by
    simp only [and_true]
    rfl

/-- A call, after which the coroutine waits. -/
theorem acts_call {c : SlackCall} (hstage : stage ≠ .finished)
    (hr : ∀ r ∈ stage.response, shown r)
    (hc : ∀ r ∈ c.shows, r.1 = request.channelId ∧ shown r.2) :
    Acts s h request stage shown ((s.call h c).enter h request stage) := by
  have ha : Acts (s.call h c) h request stage shown ((s.call h c).enter h request stage) :=
    acts_enter hr hstage
  refine { ha with calls := ?_ }
  intro p hp
  rcases List.mem_append.1 hp with hp | hp
  · exact Or.inl hp
  · obtain rfl := List.mem_singleton.1 hp
    exact Or.inr ⟨rfl, hc⟩

theorem acts_postThinking :
    Acts s h request .postingThinking shown (s.postThinking h request) :=
  acts_call (by simp) (by simp [HandlingStage.response]) (by simp [SlackCall.shows])

theorem acts_deleteThinking (thinkingTs : Option String) :
    ∃ stage : HandlingStage, stage.answered = true ∧
      Acts s h request stage shown (s.deleteThinking h request thinkingTs) := by
  unfold deleteThinking
  split
  · exact ⟨.finished, rfl, acts_finish⟩
  · exact ⟨.deleting, rfl, acts_call (by simp) (by simp [HandlingStage.response])
      (by simp [SlackCall.shows])⟩

theorem acts_respond (hr : shown response) (thinkingTs : Option String) :
    ∃ stage : HandlingStage, stage.answered = true ∧
      Acts s h request stage shown (s.respond h request response thinkingTs) := by
  unfold respond
  split
  · exact ⟨.posting response, rfl, acts_call (by simp) (by simpa [HandlingStage.response])
      (by simpa [SlackCall.shows])⟩
  · exact ⟨.updating response _, rfl, acts_call (by simp) (by simpa [HandlingStage.response])
      (by simpa [SlackCall.shows])⟩

theorem acts_applyApprovalLifecycle (hr : shown response) (thinkingTs : Option String) :
    ∃ stage : HandlingStage, stage.answered = true ∧
      Acts s h request stage shown (s.applyApprovalLifecycle h request response thinkingTs) := by
  unfold applyApprovalLifecycle
  split
  · exact acts_deleteThinking thinkingTs
  · split
    · split
      · exact acts_respond hr thinkingTs
      · next channel ts _ =>
        have ha : Acts { s with
            threadApprovalMsg := s.threadApprovalMsg.erase request.slackThreadKey } h request
            (.superseding response thinkingTs) shown _ :=
          acts_call (c := .update channel ts .superseded) (by simp)
            (by simpa [HandlingStage.response]) (by simp [SlackCall.shows])
        exact ⟨_, rfl, { ha with }⟩
    · exact acts_respond hr thinkingTs

theorem acts_posted (postedTs : Option String) :
    Acts s h request .finished shown (s.posted h request response postedTs) := by
  unfold posted
  split
  · split
    · exact { acts_finish with }
    · exact acts_finish
  · exact acts_finish

/-- After a call on Slack's API a coroutine goes on with the response that it has. -/
theorem acts_called {result : SlackResult} {s' : SlackConnector}
    (hc : s.called h request result stage = some s') (hr : ∀ r ∈ stage.response, shown r) :
    stage ≠ .finished ∧ ∃ next : HandlingStage, (stage.answered = true → next.answered = true) ∧
      Acts s h request next shown s' := by
  cases stage with
  | consuming =>
    obtain rfl := Option.some.inj hc
    exact ⟨by simp, .postingThinking, id, { acts_postThinking with }⟩
  | postingThinking =>
    obtain rfl := Option.some.inj hc
    cases result <;>
      exact ⟨by simp, _, nofun, acts_enter (by simp [HandlingStage.response]) (by simp)⟩
  | deleting =>
    obtain rfl := Option.some.inj hc
    exact ⟨by simp, .finished, fun _ => rfl, acts_finish⟩
  | superseding response thinkingTs =>
    obtain rfl := Option.some.inj hc
    exact ⟨by simp, (acts_respond (hr response rfl) thinkingTs).imp
      fun _ ha => ⟨fun _ => ha.1, ha.2⟩⟩
  | updating response thinkingTs =>
    obtain rfl := Option.some.inj hc
    cases result with
    | ok ts => exact ⟨by simp, .finished, fun _ => rfl, acts_posted _⟩
    | raised =>
      exact ⟨by simp, .posting response, fun _ => rfl, acts_call (by simp)
        (by simpa [HandlingStage.response] using hr)
        (by simpa [SlackCall.shows, HandlingStage.response] using hr)⟩
  | posting response =>
    obtain rfl := Option.some.inj hc
    cases result with
    | ok ts => exact ⟨by simp, .finished, fun _ => rfl, acts_posted ts⟩
    | raised => exact ⟨by simp, .finished, fun _ => rfl, acts_posted none⟩
  | handling | finished => contradiction

/-- What the orchestrator's return leaves in the books: the error response, if it is one. -/
def noteHandled (s : SlackConnector) (h : ℕ) (request : NormalizedRequest)
    (response : ConnectorResponse) (now : ℚ) : SlackConnector :=
  if response.errorCategory.isSome then
    ({ s with clock := now }.isErrorRateLimited h request.channelId now).2
  else { s with clock := now }

/-- An error response is held back if the channel has had too many. -/
def letsThrough (s : SlackConnector) (h : ℕ) (request : NormalizedRequest)
    (response : ConnectorResponse) (now : ℚ) : Prop :=
  response.errorCategory.isSome = true →
    (s.isErrorRateLimited h request.channelId now).1 = false

theorem acts_handled (thinkingTs : Option String) (now : ℚ) :
    ∃ next : HandlingStage, next.answered = true ∧
      Acts (s.noteHandled h request response now) h request next
        (fun r => r = response ∧ s.letsThrough h request response now)
        ({ s with clock := now }.handled h request response thinkingTs now) := by
  rw [handled, noteHandled]
  split
  · dsimp only
    split
    · exact acts_deleteThinking thinkingTs
    · next hlimited =>
      have hthrough : s.letsThrough h request response now := fun _ => eq_false_of_ne_true hlimited
      exact acts_applyApprovalLifecycle ⟨rfl, hthrough⟩ thinkingTs
  · next hok =>
    exact acts_applyApprovalLifecycle ⟨rfl, fun he => absurd he hok⟩ thinkingTs

/-- What a step does. -/
inductive Steps (s : SlackConnector) : SlackEvent → SlackConnector → Prop
  | request {h request messageTs} (hfresh : s.handlings.lookup h = none) :
      Steps s (.request h request messageTs) (s.handleWithThinking h request messageTs)
  | acts {e h request stage next s'} (hx : s.handlings.lookup h = some ⟨request, stage⟩)
      (hrun : stage ≠ .finished) (hanswered : stage.answered = true → next.answered = true)
      (ha : Acts s h request next (fun r => stage.response = some r) s') : Steps s e s'
  | status {h text s'} (hhandlings : s'.handlings = s.handlings)
      (hinFlight : s'.approvalInFlight = s.approvalInFlight) (herrors : s'.errors = s.errors)
      (htimestamps : s'.errorTimestamps = s.errorTimestamps) (hclock : s'.clock = s.clock)
      (hcalls : ∀ p ∈ s'.calls, p ∈ s.calls ∨ p.2.shows = none) : Steps s (.status h text) s'
  | handled {h request thinkingTs response now next s'}
      (hx : s.handlings.lookup h = some ⟨request, .handling thinkingTs⟩) (hnow : s.clock ≤ now)
      (hanswered : next.answered = true)
      (ha : Acts (s.noteHandled h request response now) h request next
        (fun r => r = response ∧ s.letsThrough h request response now) s') :
      Steps s (.handled h response now) s'

theorem steps_of_step {e : SlackEvent} {s' : SlackConnector} (hs : s.step e = some s') :
    Steps s e s' := by
  cases e with
  | request h request messageTs =>
    simp only [step] at hs
    split at hs
    · contradiction
    · next hfresh =>
      obtain rfl := Option.some.inj hs
      exact .request (by simpa using hfresh)
  | called h result =>
    obtain ⟨⟨request, stage⟩, hx, hc⟩ := Option.bind_eq_some_iff.1 hs
    obtain ⟨hrun, next, hanswered, ha⟩ := acts_called hc fun r hr => hr
    exact .acts hx hrun hanswered ha
  | status h text =>
    simp only [step] at hs
    split at hs
    · obtain rfl := Option.some.inj hs
      split
      · exact .status rfl rfl rfl rfl rfl fun p hp => Or.inl hp
      · refine .status rfl rfl rfl rfl rfl ?_
        intro p hp
        rcases List.mem_append.1 hp with hp | hp
        · exact Or.inl hp
        · obtain rfl := List.mem_singleton.1 hp
          exact Or.inr rfl
    · contradiction
  | handled h response now =>
    simp only [step] at hs
    split at hs
    · next request thinkingTs hx =>
      split at hs
      · contradiction
      · next hnow =>
        obtain rfl := Option.some.inj hs
        obtain ⟨next, hanswered, ha⟩ := acts_handled thinkingTs now
        exact .handled hx (not_lt.1 hnow) hanswered ha
    · contradiction
  | handlerRaised h =>
    simp only [step] at hs
    split at hs
    · next request thinkingTs hx =>
      obtain rfl := Option.some.inj hs
      exact .acts hx (by simp) (fun _ => rfl) acts_finish
    · contradiction

end

end SlackConnector

end NemoClaw
