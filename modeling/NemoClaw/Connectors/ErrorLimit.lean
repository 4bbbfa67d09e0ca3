import NemoClaw.Connectors.Handling

/-! Error responses of the Slack connector. A channel shows at most three of them in a minute, and
one is held back exactly if three were produced in the minute before it. -/

namespace NemoClaw

open Lib Dict

namespace SlackConnector

/-- The error responses of a channel. -/
def errorsIn (log : List ErrorNote) (channel : String) : List ErrorNote :=
  log.filter fun e => decide (e.channel = channel)

/-- The error responses of the minute up to `now` in a channel. -/
def errorsBefore (log : List ErrorNote) (channel : String) (now : ℚ) : List ErrorNote :=
  log.filter fun e => decide (e.channel = channel ∧ now - e.time < errorWindowS)

/-- Let through if the channel had room. -/
def RoomDecides (before : List ErrorNote) (e : ErrorNote) : Prop :=
  e.shown = true ↔ (errorsBefore before e.channel e.time).length < errorMaxPerWindow

/-- The books of the limit. -/
structure ErrorBooks (s : SlackConnector) : Prop where
  sorted : (s.errors.map ErrorNote.time).Pairwise (· ≤ ·)
  past : ∀ e ∈ s.errors, e.time ≤ s.clock
  kept : ∀ channel, (s.errorTimestamps.lookup channel).getD [] =
    noteCalls errorWindowS ((errorsIn s.errors channel).map ErrorNote.time)
  verdicts : ∀ channel, Verdicts errorWindowS errorMaxPerWindow
    ((errorsIn s.errors channel).map fun e => (e.time, e.shown))
  legal : Legal RoomDecides s.errors

/-- Every error response that is shown, or is about to be, was let through. -/
structure ErrorsNoted (s : SlackConnector) : Prop where
  single : (s.errors.map ErrorNote.handling).Nodup
  begun : ∀ e ∈ s.errors, ∃ x, s.handlings.lookup e.handling = some x ∧ x.stage.answered = true
  pending : ∀ h x, s.handlings.lookup h = some x → ∀ r ∈ x.stage.response,
    r.errorCategory.isSome = true →
      ∃ e ∈ s.errors, e.handling = h ∧ e.channel = x.request.channelId ∧ e.shown = true
  shown : ∀ p ∈ s.calls, ∀ r ∈ p.2.shows, r.2.errorCategory.isSome = true →
    ∃ e ∈ s.errors, e.handling = p.1 ∧ e.channel = r.1 ∧ e.shown = true

variable {s s' : SlackConnector} {h : ℕ} {request : NormalizedRequest} {stage : HandlingStage}
  {shown : ConnectorResponse → Prop} {response : ConnectorResponse} {now : ℚ}

/-! ### The books -/

theorem errorsIn_map_time_sublist (log : List ErrorNote) (channel : String) :
    List.Sublist ((errorsIn log channel).map ErrorNote.time) (log.map ErrorNote.time) :=
  List.filter_sublist.map _

theorem errorsIn_append_of_ne {log : List ErrorNote} {e : ErrorNote} {channel : String}
    (hne : e.channel ≠ channel) : errorsIn (log ++ [e]) channel = errorsIn log channel := by
  rw [errorsIn, List.filter_append, List.filter_cons_of_neg (by simpa using hne)]
  exact List.append_nil _

theorem errorsIn_append_self (log : List ErrorNote) (e : ErrorNote) :
    errorsIn (log ++ [e]) e.channel = errorsIn log e.channel ++ [e] := by
  rw [errorsIn, List.filter_append, List.filter_cons_of_pos (by simp)]
  rfl

/-- The window of a channel, read off the error responses themselves. -/
theorem length_recent_errorsIn (log : List ErrorNote) (channel : String) (now : ℚ) :
    (recent errorWindowS ((errorsIn log channel).map ErrorNote.time) now).length =
      (errorsBefore log channel now).length := by
  rw [recent, List.filter_map, List.length_map, errorsIn, List.filter_filter, errorsBefore]
  congr 1
  refine List.filter_congr ?_
  intro e _
  rw [Bool.decide_and, Bool.and_comm]
  rfl

theorem ErrorBooks.congr (hb : ErrorBooks s) (herrors : s'.errors = s.errors)
    (htimestamps : s'.errorTimestamps = s.errorTimestamps) (hclock : s.clock ≤ s'.clock) :
    ErrorBooks s' where
  sorted := by
    rw [herrors]
    exact hb.sorted
  past e he := by
    rw [herrors] at he
    exact (hb.past e he).trans hclock
  kept channel := by
    rw [htimestamps, herrors]
    exact hb.kept channel
  verdicts channel := by
    rw [herrors]
    exact hb.verdicts channel
  legal := by
    rw [herrors]
    exact hb.legal

/-- An error response is noted at the present time. -/
theorem ErrorBooks.note (hb : ErrorBooks s) (h : ℕ) (channel : String) :
    ErrorBooks (s.isErrorRateLimited h channel s.clock).2 := by
  have hpast : ∀ t ∈ (errorsIn s.errors channel).map ErrorNote.time, t ≤ s.clock := by
    intro t ht
    obtain ⟨e, he, rfl⟩ := List.mem_map.1 ht
    exact hb.past e (List.mem_of_mem_filter he)
  have hsorted : ((errorsIn s.errors channel).map ErrorNote.time).Pairwise (· ≤ ·) :=
    hb.sorted.sublist (errorsIn_map_time_sublist _ _)
  have hverdict : (!decide (errorMaxPerWindow <
      (noteCall errorWindowS ((s.errorTimestamps.lookup channel).getD []) s.clock).length)) =
        admits errorWindowS errorMaxPerWindow ((errorsIn s.errors channel).map ErrorNote.time)
          s.clock := by
    rw [hb.kept, admits, ← decide_not]
    exact decide_eq_decide.2 not_lt
  constructor
  · simp only [isErrorRateLimited, List.map_append, List.map_cons, List.map_nil]
    refine List.pairwise_append.2 ⟨hb.sorted, List.pairwise_singleton _ _, ?_⟩
    intro t ht t' ht'
    obtain rfl := List.mem_singleton.1 ht'
    obtain ⟨e, he, rfl⟩ := List.mem_map.1 ht
    exact hb.past e he
  · intro e he
    rcases List.mem_append.1 he with he | he
    · exact hb.past e he
    · obtain rfl := List.mem_singleton.1 he
      exact le_refl s.clock
  · intro channel'
    by_cases hc : channel = channel'
    · subst hc
      simp only [isErrorRateLimited]
      rw [AList.lookup_insert, errorsIn_append_self s.errors ⟨h, channel, s.clock, _⟩,
        List.map_append, noteCalls, List.foldl_append, ← noteCalls, ← hb.kept]
      rfl
    · simp only [isErrorRateLimited]
      rw [AList.lookup_insert_ne (Ne.symm hc), errorsIn_append_of_ne hc]
      exact hb.kept channel'
  · intro channel'
    by_cases hc : channel = channel'
    · subst hc
      simp only [isErrorRateLimited]
      rw [errorsIn_append_self s.errors ⟨h, channel, s.clock, _⟩, List.map_append, hverdict]
      have hsnoc := (hb.verdicts channel).snoc (t := s.clock)
      rw [List.map_map] at hsnoc
      exact hsnoc
    · simp only [isErrorRateLimited]
      rw [errorsIn_append_of_ne hc]
      exact hb.verdicts channel'
  · refine legal_snoc.2 ⟨hb.legal, ?_⟩
    rw [RoomDecides, hverdict, admits_iff hsorted hpast, length_recent_errorsIn]

theorem ErrorBooks.noteHandled (hb : ErrorBooks s) (hnow : s.clock ≤ now) :
    ErrorBooks (s.noteHandled h request response now) := by
  have hlater : ErrorBooks { s with clock := now } := hb.congr rfl rfl hnow
  unfold SlackConnector.noteHandled
  split
  · exact hlater.note h request.channelId
  · exact hlater

theorem enters_handleWithThinking (messageTs : Option String) :
    ∃ stage : HandlingStage,
      Enters s h request stage (fun _ => False) (s.handleWithThinking h request messageTs) := by
  have hthinking : ∀ s₀ : SlackConnector, Enters s₀ h request .postingThinking (fun _ => False)
      (s₀.postThinking h request) := fun s₀ => acts_postThinking.toEnters
  unfold handleWithThinking
  split
  · split
    · exact ⟨.finished, enters_enter (by simp [HandlingStage.response])⟩
    · dsimp only
      split
      · next icon outcome ts _ _ =>
        have ha : Acts { s with
            approvalInFlight := s.approvalInFlight.insert request.slackThreadKey } h request
            .consuming (fun _ => False) _ :=
          acts_call (c := .update request.channelId ts (.consumed icon outcome)) (by simp)
            (by simp [HandlingStage.response]) (by simp [SlackCall.shows])
        exact ⟨.consuming, { ha.toEnters with }⟩
      · exact ⟨.postingThinking, { hthinking _ with }⟩
      · exact ⟨.postingThinking, { hthinking _ with }⟩
  · exact ⟨.postingThinking, hthinking s⟩

theorem errorBooks_step {e : SlackEvent} (hb : ErrorBooks s) (hs : s.step e = some s') :
    ErrorBooks s' := by
  cases steps_of_step hs with
  | @request h request messageTs _ =>
    obtain ⟨stage, hn⟩ := enters_handleWithThinking (s := s) (h := h) messageTs
    exact hb.congr hn.errors hn.timestamps hn.clock.ge
  | acts _ _ _ ha => exact hb.congr ha.errors ha.timestamps ha.clock.ge
  | status _ _ herrors htimestamps hclock => exact hb.congr herrors htimestamps hclock.ge
  | handled _ hnow _ ha =>
    exact (hb.noteHandled hnow).congr ha.errors ha.timestamps ha.clock.ge

/-! ### What is shown -/

theorem Enters.again (he : Enters s h request stage shown s') (before : HandlingStage) :
    Enters (s.enter h request before) h request stage shown s' where
  handlings := by
    rw [he.handlings]
    exact (AList.insert_insert s.handlings).symm
  errors := he.errors
  timestamps := he.timestamps
  clock := he.clock
  response := he.response
  calls := he.calls

theorem ErrorsNoted.enters (hn : ErrorsNoted s) (he : Enters s h request stage shown s')
    (hanswered : ∀ x, s.handlings.lookup h = some x → x.stage.answered = true →
      stage.answered = true)
    (hshown : ∀ r, shown r → r.errorCategory.isSome = true →
      ∃ e ∈ s.errors, e.handling = h ∧ e.channel = request.channelId ∧ e.shown = true) :
    ErrorsNoted s' := by
  constructor
  · rw [he.errors]
    exact hn.single
  · intro e hmem
    rw [he.errors] at hmem
    rw [he.handlings]
    obtain ⟨x, hx, hdone⟩ := hn.begun e hmem
    by_cases hh : e.handling = h
    · rw [hh] at hx ⊢
      exact ⟨_, AList.lookup_insert _, hanswered x hx hdone⟩
    · exact ⟨x, (AList.lookup_insert_ne hh).trans hx, hdone⟩
  · intro i x hx r hr herror
    rw [he.handlings] at hx
    rw [he.errors]
    rcases lookup_insert_eq_some.1 hx with ⟨rfl, rfl⟩ | ⟨-, hx⟩
    · exact hshown r (he.response r hr) herror
    · exact hn.pending i x hx r hr herror
  · intro p hp r hr herror
    rw [he.errors]
    rcases he.calls p hp with hp | ⟨hh, hcall⟩
    · exact hn.shown p hp r hr herror
    · obtain ⟨hchannel, hr⟩ := hcall r hr
      obtain ⟨e, hmem, hhandling, hof, hes⟩ := hshown r.2 hr herror
      exact ⟨e, hmem, hhandling.trans hh.symm, hof.trans hchannel.symm, hes⟩

/-- The handler of the orchestrator returned: a note is written if the response is an error. -/
theorem ErrorsNoted.noteHandled (hn : ErrorsNoted s) {thinkingTs : Option String}
    (hx : s.handlings.lookup h = some ⟨request, .handling thinkingTs⟩) :
    ErrorsNoted ((s.noteHandled h request response now).enter h request .finished) := by
  have hnew : ∀ e ∈ s.errors, e.handling ≠ h := by
    rintro e he rfl
    obtain ⟨x, hx', hdone⟩ := hn.begun e he
    obtain rfl := Option.some.inj (hx'.symm.trans hx)
    contradiction
  have hplain : ErrorsNoted ({ s with clock := now }.enter h request .finished) := by
    have hends : Enters s h request .finished (fun _ => False)
        (s.enter h request .finished) := enters_enter (by simp [HandlingStage.response])
    exact { hn.enters hends (fun _ _ _ => rfl) fun _ hf => hf.elim with }
  unfold SlackConnector.noteHandled
  split
  · have hsub : ∀ e ∈ s.errors, e ∈ (({ s with clock := now }.isErrorRateLimited h
        request.channelId now).2).errors := fun e he => List.mem_append_left _ he
    constructor
    · simp only [enter, isErrorRateLimited, List.map_append, List.map_cons, List.map_nil]
      refine List.nodup_append.2 ⟨hn.single, List.nodup_singleton _, ?_⟩
      intro i hi j hj
      obtain ⟨e, he, rfl⟩ := List.mem_map.1 hi
      obtain rfl := List.mem_singleton.1 hj
      exact hnew e he
    · intro e he
      rcases List.mem_append.1 he with he | he
      · exact hplain.begun e he
      · obtain rfl := List.mem_singleton.1 he
        exact ⟨_, AList.lookup_insert _, rfl⟩
    · intro i x hx' r hr herror
      obtain ⟨e, he, hrest⟩ := hplain.pending i x hx' r hr herror
      exact ⟨e, hsub e he, hrest⟩
    · intro p hp r hr herror
      obtain ⟨e, he, hrest⟩ := hn.shown p hp r hr herror
      exact ⟨e, hsub e he, hrest⟩
  · exact hplain

/-- An error response that is let through has its note. -/
theorem exists_note_of_letsThrough (hthrough : s.letsThrough h request response now)
    (herror : response.errorCategory.isSome = true) :
    ∃ e ∈ (s.noteHandled h request response now).errors,
      e.handling = h ∧ e.channel = request.channelId ∧ e.shown = true := by
  have hfree := hthrough herror
  rw [noteHandled, if_pos herror]
  refine ⟨_, List.mem_append_right _ (List.mem_singleton_self _), rfl, rfl, ?_⟩
  exact (congrArg not hfree).trans rfl

theorem errorsNoted_step {e : SlackEvent} (hn : ErrorsNoted s) (hs : s.step e = some s') :
    ErrorsNoted s' := by
  cases steps_of_step hs with
  | @request h request messageTs hfresh =>
    obtain ⟨stage, he⟩ := enters_handleWithThinking (s := s) (h := h) messageTs
    refine hn.enters he ?_ fun _ hf => hf.elim
    intro x hx
    rw [hfresh] at hx
    contradiction
  | @acts e h request stage next s' hx hrun hanswered ha =>
    refine hn.enters ha.toEnters ?_ fun r hr => hn.pending h _ hx r hr
    intro x hx'
    obtain rfl := Option.some.inj (hx'.symm.trans hx)
    exact hanswered
  | status hhandlings hinFlight herrors htimestamps hclock hcalls =>
    constructor
    · rw [herrors]
      exact hn.single
    · rw [herrors, hhandlings]
      exact hn.begun
    · rw [herrors, hhandlings]
      exact hn.pending
    · intro p hp r hr herror
      rw [herrors]
      rcases hcalls p hp with hp | hnone
      · exact hn.shown p hp r hr herror
      · rw [hnone] at hr
        contradiction
  | @handled h request thinkingTs response now next s' hx hnow hanswered ha =>
    refine (hn.noteHandled hx).enters (ha.toEnters.again .finished) (fun _ _ _ => hanswered) ?_
    rintro r ⟨rfl, hthrough⟩ herror
    exact exists_note_of_letsThrough hthrough herror

theorem errors_of_trace {tr : List (SlackConnector × SlackEvent)} (h : slackMachine.Trace tr s) :
    ErrorBooks s ∧ ErrorsNoted s := by
  refine h.invariant (I := fun s => ErrorBooks s ∧ ErrorsNoted s) ⟨?_, ?_⟩ ?_
  · exact ⟨List.Pairwise.nil, nofun, fun channel => by rfl, fun channel => .nil, legal_nil⟩
  · refine ⟨List.nodup_nil, nofun, ?_, nofun⟩
    intro i x hx
    cases hx
  · intro s e s' hi hs
    exact ⟨errorBooks_step hi.1 hs, errorsNoted_step hi.2 hs⟩

/-- In a channel no more than three error responses are shown in any minute, and one is held back
exactly if three were produced in the minute before it, shown or not. No request has two of them,
and none is put before the user but those that were let through. -/
theorem error_responses_rate_limited {tr : List (SlackConnector × SlackEvent)}
    (h : slackMachine.Trace tr s) :
    (∀ channel start, (s.errors.filter fun e => decide (e.channel = channel ∧ e.shown = true ∧
      start ≤ e.time ∧ e.time < start + errorWindowS)).length ≤ errorMaxPerWindow) ∧
    (∀ before e after, s.errors = before ++ e :: after → (e.shown = true ↔
      (before.filter fun e' => decide (e'.channel = e.channel ∧
        e.time - e'.time < errorWindowS)).length < errorMaxPerWindow)) ∧
    (s.errors.map ErrorNote.handling).Nodup ∧
    ∀ p ∈ s.calls, ∀ r ∈ p.2.shows, r.2.errorCategory.isSome = true →
      ∃ e ∈ s.errors, e.handling = p.1 ∧ e.channel = r.1 ∧ e.shown = true := by
  obtain ⟨hb, hn⟩ := errors_of_trace h
  refine ⟨?_, hb.legal, hn.single, hn.shown⟩
  intro channel start
  have hsorted : (((errorsIn s.errors channel).map fun e => (e.time, e.shown)).map
      Prod.fst).Pairwise (· ≤ ·) := by
    rw [List.map_map]
    exact hb.sorted.sublist (errorsIn_map_time_sublist _ _)
  have hle := (hb.verdicts channel).length_le hsorted start
  rw [List.filter_map, List.length_map, errorsIn, List.filter_filter] at hle
  refine le_trans (le_of_eq ?_) hle
  congr 1
  refine List.filter_congr ?_
  intro e _
  simp only [Function.comp_apply, ← Bool.decide_and]
  exact decide_eq_decide.2 and_comm

/-- Four requests of a channel fail within a minute. -/
def fourErrors : List SlackEvent :=
  let failed : ConnectorResponse := { errorCategory := some .unknown }
  let fails (h : ℕ) : List SlackEvent :=
    [.request h ⟨"", "C1", "r", none, none⟩ none, .called h (.ok none), .handled h failed h]
  fails 0 ++ fails 1 ++ fails 2 ++ [.called 0 .raised, .called 1 .raised] ++ fails 3

theorem error_responses_rate_limited_fourErrors : ∃ tr s, slackMachine.Trace tr s ∧
    tr.map Prod.snd = fourErrors ∧ s.errors.map ErrorNote.shown = [true, true, true, false] ∧
    s.calls.length = 7 ∧ ∀ p ∈ s.calls, ∀ r ∈ p.2.shows, r.2.errorCategory.isSome = true →
      ∃ e ∈ s.errors, e.handling = p.1 ∧ e.channel = r.1 ∧ e.shown = true := by
  obtain ⟨tr, s, hrun, hevents, hp⟩ := Machine.Trace.of_check (M := slackMachine) fourErrors
    (p := fun _ s => decide (s.errors.map ErrorNote.shown = [true, true, true, false] ∧
      s.calls.length = 7)) (by decide +kernel)
  have hends := of_decide_eq_true hp
  exact ⟨tr, s, hrun, hevents, hends.1, hends.2, (error_responses_rate_limited hrun).2.2.2⟩

end SlackConnector

end NemoClaw
