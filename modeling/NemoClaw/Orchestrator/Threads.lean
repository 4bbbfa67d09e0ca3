import NemoClaw.Lib.Simulation
import NemoClaw.Orchestrator.Approvals
import NemoClaw.Orchestrator.ThreadHistory

/-! One thread of the orchestrator: its history, the write that waits for approval in it and the
requests that are being handled. What the orchestrator is for a thread is made of the events of this
thread alone; nothing that happens in the others is any part of it. The replies to the finalization
buttons and to iteration feedback are left out: they are made from the registry of workflows, which
all threads share. -/

namespace NemoClaw

open Lib Dict

structure ThreadState where
  history : List Message := []
  pending : Option PendingApproval := none
  handlings : Dict HandlerId Handling := ∅

deriving instance DecidableEq for RunEvent

inductive ThreadEvent
  /-- a request; `feedback` tells whether a workflow awaits the next message -/
  | handle (h : HandlerId) (request : NormalizedRequest) (systemPrompt : String) (feedback : Bool)
  | run (h : HandlerId) (e : RunEvent)
  | cancel (h : HandlerId)
  deriving DecidableEq

namespace ThreadState

section

variable (E : OrchestratorEnv) (t : ThreadState) (h : HandlerId) (request : NormalizedRequest)

/-- The history with the next message of the user. -/
def withUserMessage (userText : String) : List Message :=
  PromptBuilder.capped E.maxThreadHistory (t.history ++ [.user userText])

def commitTurn (userText assistantContent : String) : ThreadState :=
  { t with
    history := PromptBuilder.capped E.maxThreadHistory
      (t.withUserMessage E userText ++ [.assistant assistantContent []]) }

def setPhase (phase : HandlingPhase) : ThreadState :=
  { t with handlings := t.handlings.insert h ⟨request, phase⟩ }

def setPending (pending : Option PendingApproval) : ThreadState := { t with pending := pending }

def respond (content : String) : ThreadState :=
  let content := if E.respondApproved content then content else
    "I generated a response but it was not approved. Please try rephrasing your request."
  (t.commitTurn E request.text content).setPhase h request
    (.replied (Orchestrator.shapeResponse request content))

def storeApproval (pending : PendingApproval) : ThreadState :=
  (t.setPending (some pending)).setPhase h request
    (.replied (Orchestrator.buildApprovalResponse request 0 pending))

def running (run : AgentRun) (category : ErrorCategory) : ThreadState :=
  match run.phase with
  | .returned result => t.respond E h request result.content
  | .blocked pending => t.storeApproval h request { pending with originalUserText := request.text }
  | .raised => t.setPhase h request (.replied (Orchestrator.errorResponse request category))
  | _ => t.setPhase h request (.running run)

def resuming (run : AgentRun) (approval : StoredApproval) : ThreadState :=
  match run.phase with
  | .returned result =>
    (t.commitTurn E approval.pending.originalUserText result.content).setPhase h request
      (.replied (Orchestrator.shapeResponse request result.content))
  | .blocked pending =>
    t.storeApproval h request { pending with originalUserText := approval.pending.originalUserText }
  | .raised => t.setPhase h request .raised
  | _ => t.setPhase h request (.resuming run approval)

def inferring (messages : List Message) (chunks : List String) (attempt : ℕ) :
    Except String InferenceResponse → ThreadState
  | .ok response =>
    match inferenceWithRepair E.agent chunks attempt response with
    | .inl content => t.respond E h request content
    | .inr chunks => t.setPhase h request (.inferring messages chunks (attempt + 1))
  | .error e =>
    t.setPhase h request (.replied (Orchestrator.errorResponse request (E.category e)))

/-- An Approve click. -/
def approve : ThreadState :=
  match t.pending with
  | none => t.setPhase h request (.replied (.suppressed request.channelId request.threadTs))
  | some pending =>
    if E.agent.tools.tools = [] then
      (t.setPending none).setPhase h request
        (.replied (Orchestrator.shapeResponse request "Tool execution is not available."))
    else (t.setPending none).setPhase h request (.resuming (AgentRun.resume pending) ⟨0, pending⟩)

/-- A Deny click. -/
def deny : ThreadState :=
  match t.pending with
  | none => t.setPhase h request (.replied (.suppressed request.channelId request.threadTs))
  | some _ =>
    (t.setPending none).setPhase h request
      (.replied (Orchestrator.shapeResponse request
        "Got it — the write operation was cancelled."))

/-- A message of the user, unless a workflow takes it. -/
def message (systemPrompt : String) (feedback : Bool) : ThreadState :=
  if feedback then t.setPhase h request .finalizing
  else
    let messages := .system systemPrompt :: t.withUserMessage E request.text
    if E.agent.tools.tools = [] then
      (t.setPending none).setPhase h request (.inferring messages [] 0)
    else (t.setPending none).running E h request
      (AgentRun.start E.agent request.requestId messages []) .unknown

def handle (systemPrompt : String) (feedback : Bool) : ThreadState :=
  match request.action with
  | none => t.message E h request systemPrompt feedback
  | some action =>
    if action.actionId = approvalActionApprove then t.approve E h request
    else if action.actionId = approvalActionDeny then t.deny h request
    else if E.finalizationActions ∧ isFinalizationAction action then
      t.setPhase h request .finalizing
    else t.message E h request systemPrompt feedback

def advance (e : RunEvent) : HandlingPhase → Option ThreadState
  | .running run => (run.step E.agent e).map fun run =>
      t.running E h request run (Orchestrator.errorCategory E e)
  | .resuming run approval => (run.step E.agent e).map fun run =>
      t.resuming E h request run approval
  | .inferring messages chunks attempt =>
    match e with
    | .answered response => some (t.inferring E h request messages chunks attempt response)
    | .toolReturned _ _ => none
  | _ => none

def step : ThreadEvent → Option ThreadState
  | .handle h request systemPrompt feedback => some (t.handle E h request systemPrompt feedback)
  | .run h e => (t.handlings.lookup h).bind fun x => t.advance E h x.request e x.phase
  | .cancel h =>
    match t.handlings.lookup h with
    | some ⟨request, .running _⟩ | some ⟨request, .resuming _ _⟩
    | some ⟨request, .inferring _ _ _⟩ => some (t.setPhase h request .cancelled)
    | _ => none

end

end ThreadState

def threadMachine (E : OrchestratorEnv) : Machine ThreadState ThreadEvent where
  init := {}
  step := ThreadState.step E

/-! ### What a thread sees -/

/-- The batches of all threads are numbered together; a thread does not see the numbers. -/
def HandlingPhase.unnumbered : HandlingPhase → HandlingPhase
  | .resuming run approval => .resuming run ⟨0, approval.pending⟩
  | .replied (.approval _ response value) => .replied (.approval 0 response value)
  | phase => phase

namespace Orchestrator

/-- What a thread sees of a request; of one that is with the `FinalizationActionHandler`, no more
than that it is there. -/
def seen (threadKey : String) (s : Orchestrator) (h : HandlerId) : Option Handling :=
  ((s.handlings.lookup h).filter fun x => decide (x.request.threadKey = threadKey)).map fun x =>
    ⟨x.request, x.phase.unnumbered⟩

/-- What a step is for a thread. -/
def threadEvent (E : OrchestratorEnv) (threadKey : String) (s : Orchestrator) :
    OrchestratorEvent → List ThreadEvent
  | .handle h request circumstances =>
    if request.threadKey = threadKey then
      [.handle h request circumstances.systemPrompt (s.pendingIteration E request).isSome]
    else []
  | .run h e => if (s.seen threadKey h).isSome then [.run h e] else []
  | .cancel h => if (s.seen threadKey h).isSome then [.cancel h] else []
  | .post _ | .actions _ => []

/-- `t` is what the thread sees of the orchestrator. -/
structure Shows (threadKey : String) (s : Orchestrator) (t : ThreadState) : Prop where
  history : t.history = s.prompt.stored threadKey
  pending : t.pending = (s.pendingApprovals.lookup threadKey).map StoredApproval.pending
  handlings : ∀ h, t.handlings.lookup h = s.seen threadKey h

end Orchestrator

/-- Do this if the request belongs to the thread. -/
def ThreadState.on (threadKey : String) (request : NormalizedRequest)
    (f : ThreadState → ThreadState) (t : ThreadState) : ThreadState :=
  if request.threadKey = threadKey then f t else t

namespace Orchestrator

variable {E : OrchestratorEnv} {s : Orchestrator} {t : ThreadState} {h : HandlerId}
  {request : NormalizedRequest} {threadKey : String}

theorem Shows.congr {s' : Orchestrator} (hst : Shows threadKey s t)
    (hprompt : s'.prompt = s.prompt) (hpending : s'.pendingApprovals = s.pendingApprovals)
    (hhandlings : s'.handlings = s.handlings) : Shows threadKey s' t where
  history := by rw [hst.history, hprompt]
  pending := by rw [hst.pending, hpending]
  handlings h := by rw [hst.handlings, seen, seen, hhandlings]

/-- The request of `h`, if there is one, is this one. -/
def Runs (s : Orchestrator) (h : HandlerId) (request : NormalizedRequest) : Prop :=
  ∀ x, s.handlings.lookup h = some x → x.request = request

theorem Shows.setPhase (hst : Shows threadKey s t) (hruns : s.Runs h request)
    (phase : HandlingPhase) : Shows threadKey (s.setPhase h request phase)
      (t.on threadKey request fun t => t.setPhase h request phase.unnumbered) := by
  unfold ThreadState.on
  split
  · next hkey =>
    refine ⟨hst.history, hst.pending, ?_⟩
    intro h'
    simp only [ThreadState.setPhase, Orchestrator.setPhase, seen]
    by_cases he : h' = h
    · subst he
      simp [hkey]
    · rw [AList.lookup_insert_ne he, AList.lookup_insert_ne he]
      exact hst.handlings h'
  · next hkey =>
    have hother : ∀ x : Handling, x.request = request →
        ((some x).filter fun x => decide (x.request.threadKey = threadKey)) = none := by
      rintro x rfl
      exact Option.filter_some_neg (by simpa using hkey)
    refine ⟨hst.history, hst.pending, ?_⟩
    intro h'
    rw [hst.handlings, seen, seen, Orchestrator.setPhase]
    by_cases he : h' = h
    · subst he
      rw [AList.lookup_insert, hother _ rfl]
      cases hx : s.handlings.lookup h' with
      | none => rfl
      | some x => rw [hother x (hruns x hx)]
    · rw [AList.lookup_insert_ne he]

theorem Shows.commitTurn (hst : Shows threadKey s t) (request : NormalizedRequest)
    (userText content : String) :
    Shows threadKey
      { s with prompt := s.prompt.commitTurn E.maxThreadHistory request.threadKey userText content }
      (t.on threadKey request fun t => t.commitTurn E userText content) := by
  unfold ThreadState.on
  have hstored := PromptBuilder.stored_commitTurn s.prompt E.maxThreadHistory threadKey
    request.threadKey userText content
  split
  · next hkey =>
    rw [if_pos hkey] at hstored
    refine ⟨?_, hst.pending, hst.handlings⟩
    rw [hstored]
    simp only [ThreadState.commitTurn, ThreadState.withUserMessage, hst.history]
    rfl
  · next hkey =>
    rw [if_neg hkey] at hstored
    exact ⟨hst.history.trans hstored.symm, hst.pending, hst.handlings⟩

theorem Shows.insertApproval (hst : Shows threadKey s t) (request : NormalizedRequest)
    (approval : StoredApproval) :
    Shows threadKey
      { s with pendingApprovals := s.pendingApprovals.insert request.threadKey approval }
      (t.on threadKey request fun t => t.setPending (some approval.pending)) := by
  unfold ThreadState.on
  split
  · next hkey =>
    refine ⟨hst.history, ?_, hst.handlings⟩
    simp [ThreadState.setPending, hkey]
  · next hkey =>
    refine ⟨hst.history, ?_, hst.handlings⟩
    rw [hst.pending]
    simp [AList.lookup_insert_ne (Ne.symm hkey)]

theorem Shows.eraseApproval (hst : Shows threadKey s t) (request : NormalizedRequest) :
    Shows threadKey { s with pendingApprovals := s.pendingApprovals.erase request.threadKey }
      (t.on threadKey request fun t => t.setPending none) := by
  unfold ThreadState.on
  split
  · next hkey =>
    refine ⟨hst.history, ?_, hst.handlings⟩
    simp [ThreadState.setPending, hkey]
  · next hkey =>
    refine ⟨hst.history, ?_, hst.handlings⟩
    rw [hst.pending]
    simp [AList.lookup_erase_ne (Ne.symm hkey)]

/-! ### What becomes of a request -/

theorem on_on (f g : ThreadState → ThreadState) :
    (t.on threadKey request f).on threadKey request g =
      t.on threadKey request fun t => g (f t) := by
  unfold ThreadState.on
  split <;> rfl

theorem on_congr {f g : ThreadState → ThreadState}
    (h : request.threadKey = threadKey → f t = g t) :
    t.on threadKey request f = t.on threadKey request g := by
  unfold ThreadState.on
  split
  · next hkey => exact h hkey
  · rfl

/-- A turn is over. -/
theorem Shows.answer (hst : Shows threadKey s t) (hruns : s.Runs h request)
    (userText content : String) : Shows threadKey
      ({ s with
        prompt := s.prompt.commitTurn E.maxThreadHistory request.threadKey userText content
      }.setPhase h request (.replied (shapeResponse request content)))
      (t.on threadKey request fun t => (t.commitTurn E userText content).setPhase h request
        (.replied (shapeResponse request content))) := by
  have hphase := (hst.commitTurn (E := E) request userText content).setPhase (h := h) hruns
    (.replied (shapeResponse request content))
  rw [on_on] at hphase
  exact hphase

theorem Shows.respond (hst : Shows threadKey s t) (hruns : s.Runs h request) (content : String) :
    Shows threadKey (s.respond E h request content)
      (t.on threadKey request fun t => t.respond E h request content) :=
  hst.answer hruns request.text _

theorem Shows.storeApproval (hst : Shows threadKey s t) (hruns : s.Runs h request)
    (pending : PendingApproval) : Shows threadKey (s.storeApproval h request pending)
      (t.on threadKey request fun t => t.storeApproval h request pending) := by
  have hstored : Shows threadKey { s with
      log := s.log ++ [.stored request.threadKey s.nextBatch pending.toolCalls pending.description]
      pendingApprovals := s.pendingApprovals.insert request.threadKey ⟨s.nextBatch, pending⟩
      nextBatch := s.nextBatch + 1 } _ :=
    (hst.insertApproval request ⟨s.nextBatch, pending⟩).congr rfl rfl rfl
  have hphase := hstored.setPhase (h := h) hruns
    (.replied (buildApprovalResponse request s.nextBatch pending))
  rw [on_on] at hphase
  exact hphase

theorem Shows.running (hst : Shows threadKey s t) (hruns : s.Runs h request) (run : AgentRun)
    (category : ErrorCategory) : Shows threadKey (s.running E h request run category)
      (t.on threadKey request fun t => t.running E h request run category) := by
  unfold Orchestrator.running ThreadState.running
  cases run.phase with
  | returned result => exact hst.respond hruns result.content
  | blocked pending => exact hst.storeApproval hruns _
  | _ => exact hst.setPhase hruns _

theorem Shows.resuming (hst : Shows threadKey s t) (hruns : s.Runs h request) (run : AgentRun)
    (approval : StoredApproval) : Shows threadKey (s.resuming E h request run approval)
      (t.on threadKey request fun t => t.resuming E h request run ⟨0, approval.pending⟩) := by
  unfold Orchestrator.resuming ThreadState.resuming
  cases run.phase with
  | returned result => exact hst.answer hruns approval.pending.originalUserText result.content
  | blocked pending => exact hst.storeApproval hruns _
  | _ => exact hst.setPhase hruns _

theorem Shows.inferring (hst : Shows threadKey s t) (hruns : s.Runs h request)
    (messages : List Message) (chunks : List String) (attempt : ℕ)
    (response : Except String InferenceResponse) :
    Shows threadKey (s.inferring E h request messages chunks attempt response)
      (t.on threadKey request fun t =>
        t.inferring E h request messages chunks attempt response) := by
  cases response with
  | error e => exact hst.setPhase hruns _
  | ok response =>
    unfold Orchestrator.inferring ThreadState.inferring
    dsimp only
    cases inferenceWithRepair E.agent chunks attempt response with
    | inl content => exact hst.respond hruns content
    | inr chunks => exact hst.setPhase hruns _

/-- The pending write is popped. -/
theorem Shows.pop (hst : Shows threadKey s t) (hruns : s.Runs h request) (e : OrchestratorEntry)
    (phase : HandlingPhase) : Shows threadKey
      (({ s with
        pendingApprovals := s.pendingApprovals.erase request.threadKey
      }.record e).setPhase h request phase)
      (t.on threadKey request fun t =>
        (t.setPending none).setPhase h request phase.unnumbered) := by
  have hpopped : Shows threadKey ({ s with
      pendingApprovals := s.pendingApprovals.erase request.threadKey }.record e) _ :=
    (hst.eraseApproval request).congr rfl rfl rfl
  have hphase := hpopped.setPhase (h := h) hruns phase
  rw [on_on] at hphase
  exact hphase

theorem Shows.stored (hst : Shows threadKey s t) (hkey : request.threadKey = threadKey)
    {found : Option StoredApproval} (hfound : s.pendingApprovals.lookup request.threadKey = found) :
    t.pending = found.map StoredApproval.pending := by
  rw [hst.pending, ← hkey, hfound]

/-- A click finds what the thread stored. -/
theorem Shows.approve (hst : Shows threadKey s t) (hruns : s.Runs h request)
    (prompt : Option BatchId) : Shows threadKey (s.handleWriteApproval E h request prompt)
      (t.on threadKey request fun t => t.approve E h request) := by
  unfold handleWriteApproval
  cases hlookup : s.pendingApprovals.lookup request.threadKey with
  | none =>
    have hsame : t.on threadKey request (fun t => t.approve E h request) =
        t.on threadKey request fun t => t.setPhase h request
          (.replied (.suppressed request.channelId request.threadTs)) := by
      refine on_congr fun hkey => ?_
      rw [ThreadState.approve, hst.stored hkey hlookup]
      rfl
    rw [hsame]
    exact hst.setPhase hruns (.replied (.suppressed request.channelId request.threadTs))
  | some approval =>
    have hsame : t.on threadKey request (fun t => t.approve E h request) =
        t.on threadKey request fun t => if E.agent.tools.tools = [] then
          (t.setPending none).setPhase h request
            (.replied (shapeResponse request "Tool execution is not available."))
        else (t.setPending none).setPhase h request
          (.resuming (AgentRun.resume approval.pending) ⟨0, approval.pending⟩) := by
      refine on_congr fun hkey => ?_
      rw [ThreadState.approve, hst.stored hkey hlookup]
      rfl
    rw [hsame]
    dsimp only
    split_ifs
    · exact hst.pop hruns _ (.replied (shapeResponse request "Tool execution is not available."))
    · exact hst.pop hruns _ (.resuming (AgentRun.resume approval.pending) approval)

theorem Shows.deny (hst : Shows threadKey s t) (hruns : s.Runs h request) :
    Shows threadKey (s.handleWriteDenial h request)
      (t.on threadKey request fun t => t.deny h request) := by
  unfold handleWriteDenial
  cases hlookup : s.pendingApprovals.lookup request.threadKey with
  | none =>
    have hsame : t.on threadKey request (fun t => t.deny h request) =
        t.on threadKey request fun t => t.setPhase h request
          (.replied (.suppressed request.channelId request.threadTs)) := by
      refine on_congr fun hkey => ?_
      rw [ThreadState.deny, hst.stored hkey hlookup]
      rfl
    rw [hsame]
    exact hst.setPhase hruns (.replied (.suppressed request.channelId request.threadTs))
  | some approval =>
    have hsame : t.on threadKey request (fun t => t.deny h request) =
        t.on threadKey request fun t => (t.setPending none).setPhase h request
          (.replied (shapeResponse request "Got it — the write operation was cancelled.")) := by
      refine on_congr fun hkey => ?_
      rw [ThreadState.deny, hst.stored hkey hlookup]
      rfl
    rw [hsame]
    exact hst.pop hruns _
      (.replied (shapeResponse request "Got it — the write operation was cancelled."))

theorem Shows.message (hst : Shows threadKey s t) (hruns : s.Runs h request)
    (systemPrompt : String) : Shows threadKey (s.handleMessage E h request systemPrompt)
      (t.on threadKey request fun t =>
        t.message E h request systemPrompt (s.pendingIteration E request).isSome) := by
  unfold handleMessage ThreadState.message
  cases hfeedback : (s.pendingIteration E request).isSome with
  | true =>
    simp only [hfeedback, if_true]
    refine Shows.setPhase (Shows.congr hst ?_ ?_ ?_) ?_ .finalizing
    all_goals first | rfl | exact hruns
  | false =>
    simp only [hfeedback, Bool.false_eq_true, if_false]
    have hpopped : Shows threadKey
        { s.record (.message request.threadKey request.action.isNone
            (s.pendingIteration E request)) with
          pendingApprovals := s.pendingApprovals.erase request.threadKey } _ :=
      (hst.eraseApproval request).congr rfl rfl rfl
    have hmessages : request.threadKey = threadKey →
        s.prompt.messagesForInference E.maxThreadHistory systemPrompt request.threadKey
          request.text = .system systemPrompt :: t.withUserMessage E request.text := by
      rintro rfl
      rw [ThreadState.withUserMessage, hst.history]
      rfl
    split_ifs with htools
    · have hphase := hpopped.setPhase (h := h) hruns
        (.inferring (s.prompt.messagesForInference E.maxThreadHistory systemPrompt
          request.threadKey request.text) [] 0)
      rw [on_on] at hphase
      rw [on_congr fun hkey => by rw [← hmessages hkey]]
      exact hphase
    · have hphase := hpopped.running (E := E) (h := h) hruns
        (AgentRun.start E.agent request.requestId
          (s.prompt.messagesForInference E.maxThreadHistory systemPrompt request.threadKey
            request.text) []) .unknown
      rw [on_on] at hphase
      rw [on_congr fun hkey => by rw [← hmessages hkey]]
      exact hphase

theorem Shows.handle (hst : Shows threadKey s t) (hruns : s.Runs h request)
    (circumstances : Circumstances) : Shows threadKey (s.handle E h request circumstances)
      (t.on threadKey request fun t => t.handle E h request circumstances.systemPrompt
        (s.pendingIteration E request).isSome) := by
  unfold Orchestrator.handle ThreadState.handle
  cases request.action with
  | none => exact hst.message hruns circumstances.systemPrompt
  | some action =>
    dsimp only
    split_ifs
    · exact hst.approve hruns circumstances.prompt
    · exact hst.deny hruns
    · unfold handleFinalizationAction
      refine Shows.setPhase (Shows.congr hst ?_ ?_ ?_) ?_ .finalizing
      all_goals split_ifs <;> first | rfl | exact hruns
    · exact hst.message hruns circumstances.systemPrompt

theorem Shows.advance (hst : Shows threadKey s t) (hruns : s.Runs h request) {e : RunEvent}
    {phase : HandlingPhase} {s' : Orchestrator}
    (hs : s.advance E h request e phase = some s') :
    ∃ f : ThreadState → ThreadState,
      (∀ t, t.advance E h request e phase.unnumbered = some (f t)) ∧
        Shows threadKey s' (t.on threadKey request f) := by
  unfold Orchestrator.advance at hs
  split at hs
  · next run =>
    obtain ⟨run', hrun, rfl⟩ := Option.map_eq_some_iff.1 hs
    refine ⟨_, fun t => ?_, hst.running hruns run' (errorCategory E e)⟩
    simp [HandlingPhase.unnumbered, ThreadState.advance, hrun]
  · next run approval =>
    obtain ⟨run', hrun, rfl⟩ := Option.map_eq_some_iff.1 hs
    refine ⟨_, fun t => ?_, hst.resuming hruns run' approval⟩
    simp [HandlingPhase.unnumbered, ThreadState.advance, hrun]
  · next messages chunks attempt =>
    split at hs
    · next response =>
      obtain rfl := Option.some.inj hs
      exact ⟨_, fun t => rfl, hst.inferring hruns messages chunks attempt response⟩
    · contradiction
  · contradiction

/-! ### Runs -/

theorem seen_eq_some {x : Handling} :
    s.seen threadKey h = some x ↔ ∃ y, s.handlings.lookup h = some y ∧
      y.request.threadKey = threadKey ∧ ⟨y.request, y.phase.unnumbered⟩ = x := by
  simp [seen, Option.filter_eq_some_iff, and_assoc]

theorem seen_isSome {x : Handling} (hx : s.handlings.lookup h = some x) :
    (s.seen threadKey h).isSome = decide (x.request.threadKey = threadKey) := by
  rw [seen, hx, Option.isSome_map, Option.filter_some]
  split <;> simp_all

theorem runs_of_lookup {x : Handling} (hx : s.handlings.lookup h = some x) :
    s.Runs h x.request := by
  intro y hy
  obtain rfl := Option.some.inj (hy.symm.trans hx)
  rfl

/-- An event of the request `h`, which the thread takes if the request is its own. -/
theorem Shows.own (hst : Shows threadKey s t) {x : Handling} (hx : s.handlings.lookup h = some x)
    {s' : Orchestrator} {e : ThreadEvent} {f : ThreadState → ThreadState}
    (hs : Shows threadKey s' (t.on threadKey x.request f))
    (hf : t.handlings.lookup h = some ⟨x.request, x.phase.unnumbered⟩ → t.step E e = some (f t)) :
    ∃ steps t', (threadMachine E).exec t
        (if (s.seen threadKey h).isSome then [e] else []) = some (steps, t') ∧
      Shows threadKey s' t' := by
  rw [seen_isSome hx]
  rw [ThreadState.on] at hs
  by_cases hkey : x.request.threadKey = threadKey
  · rw [if_pos hkey] at hs
    have hseen := (hst.handlings h).trans (seen_eq_some.2 ⟨x, hx, hkey, rfl⟩)
    refine ⟨[(t, e)], f t, ?_, hs⟩
    rw [decide_eq_true hkey]
    exact Machine.exec_one (hf hseen)
  · rw [if_neg hkey] at hs
    refine ⟨[], t, ?_, hs⟩
    rw [decide_eq_false hkey]
    rfl

/-- Seen from one thread, a step of the orchestrator is one of the thread, or nothing. -/
theorem simulation (E : OrchestratorEnv) (threadKey : String) :
    Machine.Simulation (orchestratorMachine E) (threadMachine E) (Shows threadKey)
      (threadEvent E threadKey) where
  init := ⟨rfl, rfl, fun _ => rfl⟩
  step s e s' t hst hs := by
    change s.step E e = some s' at hs
    cases e with
    | handle h request circumstances =>
      have hruns : s.Runs h request ∧ s' = s.handle E h request circumstances := by
        simp only [step, Option.ite_none_right_eq_some, isFresh, Bool.and_eq_true,
          Option.isNone_iff_eq_none] at hs
        refine ⟨?_, (Option.some.inj hs.2).symm⟩
        intro x hx
        cases hs.1.1.1.1.symm.trans hx
      obtain ⟨hruns, rfl⟩ := hruns
      have hhandled := hst.handle (E := E) hruns circumstances
      rw [threadEvent]
      by_cases hkey : request.threadKey = threadKey
      · rw [if_pos hkey]
        rw [ThreadState.on, if_pos hkey] at hhandled
        exact ⟨_, _, Machine.exec_one rfl, hhandled⟩
      · rw [if_neg hkey]
        rw [ThreadState.on, if_neg hkey] at hhandled
        exact ⟨[], t, rfl, hhandled⟩
    | run h e =>
      obtain ⟨x, hx, hs⟩ := Option.bind_eq_some_iff.1 hs
      obtain ⟨f, hf, hshows⟩ := hst.advance (runs_of_lookup hx) hs
      refine hst.own hx hshows ?_
      intro hlookup
      rw [ThreadState.step, hlookup]
      exact hf t
    | cancel h =>
      have hcancel : ∃ x, s.handlings.lookup h = some x ∧
          s' = s.setPhase h x.request .cancelled ∧
          (t.handlings.lookup h = some ⟨x.request, x.phase.unnumbered⟩ →
            t.step E (.cancel h) = some (t.setPhase h x.request .cancelled)) := by
        simp only [step] at hs
        split at hs
        · next request run hx =>
          exact ⟨_, hx, (Option.some.inj hs).symm, fun hl => by rw [ThreadState.step, hl]; rfl⟩
        · next request run approval hx =>
          exact ⟨_, hx, (Option.some.inj hs).symm, fun hl => by rw [ThreadState.step, hl]; rfl⟩
        · next request messages chunks attempt hx =>
          exact ⟨_, hx, (Option.some.inj hs).symm, fun hl => by rw [ThreadState.step, hl]; rfl⟩
        · contradiction
      obtain ⟨x, hx, rfl, hstep⟩ := hcancel
      exact hst.own hx (hst.setPhase (runs_of_lookup hx) .cancelled) hstep
    | post h =>
      refine ⟨[], t, rfl, ?_⟩
      simp only [step] at hs
      split at hs
      · obtain rfl := Option.some.inj hs
        exact hst.congr rfl rfl rfl
      · contradiction
    | actions e =>
      have hactions : ∃ actions, s' = { s with actions := actions } := by
        rcases step_cases hs with ⟨_, _, _, he, -⟩ | ⟨_, _, _, he, -⟩ | ⟨_, _, he, -⟩ |
          ⟨_, actions, -, -, -, -, hs⟩ | ⟨_, _, he, -⟩
        · contradiction
        · contradiction
        · contradiction
        · exact ⟨actions, hs⟩
        · contradiction
      obtain ⟨actions, rfl⟩ := hactions
      exact ⟨[], t, rfl, hst.congr rfl rfl rfl⟩

/-- What a thread sees of a run depends on the events of this thread alone: its history, its pending
write, and of each of its requests the whole run of the agent, with what the model is sent, and the
reply, unless the request went to the `FinalizationActionHandler`. -/
theorem threads_isolated (E : OrchestratorEnv) (threadKey : String)
    {tr₁ tr₂ : List (Orchestrator × OrchestratorEvent)} {s₁ s₂ : Orchestrator}
    (h₁ : (orchestratorMachine E).Trace tr₁ s₁) (h₂ : (orchestratorMachine E).Trace tr₂ s₂)
    (hsame : Machine.image (threadEvent E threadKey) tr₁ =
      Machine.image (threadEvent E threadKey) tr₂) :
    s₁.prompt.stored threadKey = s₂.prompt.stored threadKey ∧
      (s₁.pendingApprovals.lookup threadKey).map StoredApproval.pending =
        (s₂.pendingApprovals.lookup threadKey).map StoredApproval.pending ∧
      ∀ h, s₁.seen threadKey h = s₂.seen threadKey h := by
  obtain ⟨own₁, t₁, hrun₁, hshows₁, hevents₁⟩ := (simulation E threadKey).run h₁
  obtain ⟨own₂, t₂, hrun₂, hshows₂, hevents₂⟩ := (simulation E threadKey).run h₂
  obtain rfl : t₁ = t₂ := hrun₁.state_unique hrun₂ (by rw [hevents₁, hevents₂, hsame])
  refine ⟨hshows₁.history.symm.trans hshows₂.history,
    hshows₁.pending.symm.trans hshows₂.pending, ?_⟩
  intro h
  exact (hshows₁.handlings h).symm.trans (hshows₂.handlings h)

/-- A thread in which a write is asked for and approved, while another thread talks. -/
def asideOthers : List OrchestratorEvent :=
  let other : NormalizedRequest := { saying "r-8" "Hello." with threadTs := some "t-2" }
  [.handle 8 other {}, .handle 0 (saying "r-0" "Write a note.") {},
    .run 8 (.answered (.ok { content := "Hi." })), answersWrite 0 "notes.txt", .post 0,
    .handle 9 { other with text := "And you?" } {},
    .handle 1 (clicking "r-1" approvalActionApprove "t-1") { prompt := some 0 }]

/-- The same thread alone. -/
def alone : List OrchestratorEvent :=
  [.handle 0 (saying "r-0" "Write a note.") {}, answersWrite 0 "notes.txt", .post 0,
    .handle 1 (clicking "r-1" approvalActionApprove "t-1") { prompt := some 0 }]

theorem threads_isolated_asideOthers : ∃ tr₁ s₁ tr₂ s₂,
    (orchestratorMachine fileWriter).Trace tr₁ s₁ ∧ (orchestratorMachine fileWriter).Trace tr₂ s₂ ∧
    tr₁.map Prod.snd = asideOthers ∧ tr₂.map Prod.snd = alone ∧
    s₁.prompt.stored "t-2" ≠ s₂.prompt.stored "t-2" ∧
    s₁.prompt.stored "t-1" = s₂.prompt.stored "t-1" ∧
    ∀ h, s₁.seen "t-1" h = s₂.seen "t-1" h := by
  let own : List ThreadEvent :=
    [.handle 0 (saying "r-0" "Write a note.") "" false,
      .run 0 (.answered (.ok { content := "", toolCalls := [writeCall "notes.txt"] })),
      .handle 1 (clicking "r-1" approvalActionApprove "t-1") "" false]
  obtain ⟨tr₁, s₁, h₁, hevents₁, hp₁⟩ := Machine.Trace.of_check
    (M := orchestratorMachine fileWriter) asideOthers
    (p := fun tr s => decide (Machine.image (threadEvent fileWriter "t-1") tr = own ∧
      s.prompt.stored "t-2" ≠ [])) (by decide +kernel)
  obtain ⟨tr₂, s₂, h₂, hevents₂, hp₂⟩ := Machine.Trace.of_check
    (M := orchestratorMachine fileWriter) alone
    (p := fun tr s => decide (Machine.image (threadEvent fileWriter "t-1") tr = own ∧
      s.prompt.stored "t-2" = [])) (by decide +kernel)
  obtain ⟨hown₁, htalk⟩ := of_decide_eq_true hp₁
  obtain ⟨hown₂, hsilent⟩ := of_decide_eq_true hp₂
  obtain ⟨hhistory, -, hseen⟩ :=
    threads_isolated fileWriter "t-1" h₁ h₂ (hown₁.trans hown₂.symm)
  exact ⟨tr₁, s₁, tr₂, s₂, h₁, h₂, hevents₁, hevents₂, by rw [hsilent]; exact htalk, hhistory,
    hseen⟩

end Orchestrator

end NemoClaw
