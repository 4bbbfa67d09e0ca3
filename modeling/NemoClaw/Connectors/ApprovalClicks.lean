import NemoClaw.Connectors.Handling

/-! Approval clicks in one thread. A click is let in only while no other click of its thread runs,
so the orchestrator never has two of them, and the thread is free again when the click is over. -/

namespace NemoClaw

open Lib Dict

/-- The thread that a running approval click has to itself. -/
def SlackHandling.holds (x : SlackHandling) : Option String :=
  if x.request.isApprovalClick = true ∧ x.stage ≠ .finished then some x.request.slackThreadKey
  else none

namespace SlackConnector

variable {s s' : SlackConnector} {h : ℕ} {request : NormalizedRequest} {stage : HandlingStage}

abbrev Locked (s : SlackConnector) : Prop :=
  KeyLocks SlackHandling.holds s.approvalInFlight s.handlings

theorem locked_acts {next : HandlingStage} {shown : ConnectorResponse → Prop} (hl : Locked s)
    (hx : s.handlings.lookup h = some ⟨request, stage⟩) (hrun : stage ≠ .finished)
    (ha : Acts s h request next shown s') : Locked s' := by
  rw [Locked, ha.handlings, ha.inFlight]
  by_cases hend : request.isApprovalClick = true ∧ next = .finished
  · obtain ⟨hclick, rfl⟩ := hend
    rw [if_pos ⟨hclick, rfl⟩]
    exact hl.release hx (if_pos ⟨hclick, hrun⟩) (if_neg fun hw => hw.2 rfl)
  · rw [if_neg hend]
    refine hl.keep ?_
    rw [hx]
    by_cases hclick : request.isApprovalClick = true
    · have hnext : next ≠ .finished := fun he => hend ⟨hclick, he⟩
      exact (if_pos ⟨hclick, hrun⟩).trans (if_pos ⟨hclick, hnext⟩).symm
    · exact (if_neg fun hw => hclick hw.1).trans (if_neg fun hw => hclick hw.1).symm

/-- A coroutine that holds no thread begins. -/
theorem locked_enter (hl : Locked s) (hfresh : s.handlings.lookup h = none)
    (hw : SlackHandling.holds ⟨request, stage⟩ = none) :
    Locked (s.enter h request stage) :=
  hl.keep (by rw [hfresh, hw]; rfl)

theorem locked_handleWithThinking (hl : Locked s) (hfresh : s.handlings.lookup h = none)
    (messageTs : Option String) : Locked (s.handleWithThinking h request messageTs) := by
  unfold handleWithThinking
  by_cases hclick : request.isApprovalClick = true
  · rw [if_pos hclick]
    by_cases hbusy : request.slackThreadKey ∈ s.approvalInFlight
    · rw [if_pos hbusy]
      exact locked_enter hl hfresh (if_neg fun hw => hw.2 rfl)
    · rw [if_neg hbusy]
      have htake : ∀ stage : HandlingStage, stage ≠ .finished →
          KeyLocks SlackHandling.holds (s.approvalInFlight.insert request.slackThreadKey)
            (s.handlings.insert h ⟨request, stage⟩) := by
        intro stage hrun
        exact hl.take hbusy (by rw [hfresh]; rfl) (if_pos ⟨hclick, hrun⟩)
      dsimp only
      split
      · exact htake .consuming (by simp)
      · exact htake .postingThinking (by simp)
      · exact htake .postingThinking (by simp)
  · rw [if_neg hclick]
    exact locked_enter (s := s.call h _) hl hfresh (if_neg fun hw => hclick hw.1)

theorem locked_step {e : SlackEvent} (hl : Locked s) (hs : s.step e = some s') : Locked s' := by
  cases steps_of_step hs with
  | request hfresh => exact locked_handleWithThinking hl hfresh _
  | acts hx hrun _ ha => exact locked_acts hl hx hrun ha
  | status hhandlings hinFlight =>
    rw [Locked, hhandlings, hinFlight]
    exact hl
  | @handled h request thinkingTs response now next s' hx _ _ ha =>
    have hbooks : (s.noteHandled h request response now).approvalInFlight = s.approvalInFlight ∧
        (s.noteHandled h request response now).handlings = s.handlings := by
      unfold noteHandled
      split <;> exact ⟨rfl, rfl⟩
    have hnoted : Locked (s.noteHandled h request response now) := by
      rw [Locked, hbooks.1, hbooks.2]
      exact hl
    exact locked_acts hnoted (by rw [hbooks.2]; exact hx) (by simp) ha

theorem locked_of_trace {tr : List (SlackConnector × SlackEvent)} (h : slackMachine.Trace tr s) :
    Machine.Always Locked tr s :=
  h.always_of_invariant KeyLocks.empty fun _ _ _ hl hs => locked_step hl hs

/-- The threads in flight are the threads of the running approval clicks, each of one click. A click
that finds another one of its thread running is dropped at once, and otherwise it is let in. -/
theorem approval_clicks_exclusive {tr : List (SlackConnector × SlackEvent)}
    (h : slackMachine.Trace tr s) :
    Machine.Always (fun s =>
      (∀ key, key ∈ s.approvalInFlight ↔
        ∃ i x, s.handlings.lookup i = some x ∧ x.holds = some key) ∧
      ∀ i j x y key, s.handlings.lookup i = some x → s.handlings.lookup j = some y →
        x.holds = some key → y.holds = some key → i = j) tr s ∧
    ∀ p ∈ tr, ∀ i request messageTs, p.2 = .request i request messageTs →
      request.isApprovalClick = true → ∀ s', slackMachine.step p.1 p.2 = some s' →
        ((∃ j x, p.1.handlings.lookup j = some x ∧ x.holds = some request.slackThreadKey) →
          s' = p.1.enter i request .finished) ∧
        ((∀ j x, p.1.handlings.lookup j = some x → x.holds ≠ some request.slackThreadKey) →
          ∃ x, s'.handlings.lookup i = some x ∧ x.holds = some request.slackThreadKey) := by
  have hlocked := locked_of_trace h
  refine ⟨hlocked.imp fun s hl => ⟨hl.mem_iff, ?_⟩, ?_⟩
  · intro i j x y key hx hy hxk hyk
    exact hl.single i j x y hx hy (hxk.trans hyk.symm) (by rw [hxk]; rfl)
  · intro p hp i request messageTs he hclick s' hs
    have hl : Locked p.1 := hlocked.1 p hp
    have hl' : Locked s' := h.next_of_always hlocked hp hs
    obtain ⟨s₀, e⟩ := p
    obtain rfl := he
    simp only [slackMachine, step] at hs
    split at hs
    · contradiction
    · obtain rfl := Option.some.inj hs
      constructor
      · intro hheld
        rw [handleWithThinking, if_pos hclick, if_pos ((hl.mem_iff _).2 hheld)]
      · intro hfree
        have hmem : request.slackThreadKey ∉ s₀.approvalInFlight := by
          intro hmem
          obtain ⟨j, x, hj, hx⟩ := (hl.mem_iff _).1 hmem
          exact hfree j x hj hx
        rw [handleWithThinking, if_pos hclick, if_neg hmem]
        dsimp only
        split
        all_goals exact ⟨_, AList.lookup_insert _, if_pos ⟨hclick, by simp⟩⟩

/-- A second click while the first one runs, and a third after it. -/
def threeClicks : List SlackEvent :=
  let click : NormalizedRequest := ⟨"", "C1", "r-1", some "17.5", some ⟨approvalActionApprove, ""⟩⟩
  [.request 0 click (some "17.6"), .request 1 click (some "17.6"), .called 0 .raised,
    .called 0 (.ok (some "17.7")), .handled 0 {} 3, .called 0 (.ok none),
    .request 2 click (some "17.6")]

theorem approval_clicks_exclusive_threeClicks : ∃ tr s, slackMachine.Trace tr s ∧
    tr.map Prod.snd = threeClicks ∧ s.approvalInFlight = ["17.5"] ∧
    (s.handlings.lookup 1).map SlackHandling.stage = some .finished ∧
    ∀ key, key ∈ s.approvalInFlight ↔
      ∃ i x, s.handlings.lookup i = some x ∧ x.holds = some key := by
  obtain ⟨tr, s, hrun, hevents, hp⟩ := Machine.Trace.of_check (M := slackMachine) threeClicks
    (p := fun _ s => decide (s.approvalInFlight = ["17.5"] ∧
      (s.handlings.lookup 1).map SlackHandling.stage = some .finished)) (by decide +kernel)
  have hends := of_decide_eq_true hp
  exact ⟨tr, s, hrun, hevents, hends.1, hends.2, ((approval_clicks_exclusive hrun).1.2).1⟩

end SlackConnector

end NemoClaw
