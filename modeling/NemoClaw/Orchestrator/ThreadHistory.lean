import NemoClaw.Lib.Recent
import NemoClaw.Orchestrator.Orchestrator

/-! The history of a thread over any calls of the prompt builder: the last messages of the turns
that were committed to it. The cap counts messages, so that it can part a turn. -/

namespace NemoClaw

open Lib

/-- The second message takes the turn. -/
def Message.TakesTurn : Message → Message → Prop
  | .user _, .assistant _ [] | .assistant _ [], .user _ => True
  | _, _ => False

def Message.isUser : Message → Bool
  | .user _ => true
  | _ => false

inductive PromptCall
  | messagesForInference (systemPrompt threadKey userText : String)
  | commitTurn (threadKey userText assistantContent : String)

/-- A turn: the user's text and the assistant's. -/
abbrev ThreadTurn := String × String

def turnMessages (turn : ThreadTurn) : List Message := [.user turn.1, .assistant turn.2 []]

def transcript (turns : List ThreadTurn) : List Message := turns.flatMap turnMessages

/-- The turns that these calls commit to the thread. -/
def committedTurns (threadKey : String) (calls : List PromptCall) : List ThreadTurn :=
  calls.filterMap fun call =>
    match call with
    | .messagesForInference _ _ _ => none
    | .commitTurn threadKey' userText assistantContent =>
      if threadKey' = threadKey then some (userText, assistantContent) else none

namespace PromptBuilder

def call (maxHistory : ℤ) (b : PromptBuilder) : PromptCall → PromptBuilder
  | .messagesForInference _ _ _ => b
  | .commitTurn threadKey userText assistantContent =>
    b.commitTurn maxHistory threadKey userText assistantContent

def afterCalls (maxHistory : ℤ) (calls : List PromptCall) : PromptBuilder :=
  calls.foldl (call maxHistory) {}

def stored (b : PromptBuilder) (threadKey : String) : List Message :=
  (b.threadHistory.lookup threadKey).getD []

/-- The thread is well formed, with these turns committed to it: whole turns are stored, no more
messages than the cap, and the model gets a list that begins and ends with the user. -/
structure WellFormedThread (maxHistory : ℕ) (b : PromptBuilder) (turns : List ThreadTurn)
    (threadKey : String) : Prop where
  capped : (b.stored threadKey).length ≤ maxHistory
  whole : ∃ kept, kept <:+ turns ∧ b.stored threadKey = transcript kept
  inferred : ∀ systemPrompt userText, ∃ messages,
    b.messagesForInference maxHistory systemPrompt threadKey userText =
      .system systemPrompt :: messages ∧
    (∃ text, messages.head? = some (.user text)) ∧ messages.IsChain Message.TakesTurn ∧
    messages.getLast? = some (.user userText)

/-- What the cap leaves of the thread: the last messages of these turns, which are whole turns
exactly if the cap is even or not exceeded, and for the model the last ones with the new message,
which begin with the user exactly if the cap is odd or not exceeded. -/
structure RecentThread (maxHistory : ℕ) (b : PromptBuilder) (turns : List ThreadTurn)
    (threadKey : String) : Prop where
  capped : (b.stored threadKey).length ≤ maxHistory
  recent : b.stored threadKey <:+ transcript turns
  whole : (∃ kept, kept <:+ turns ∧ b.stored threadKey = transcript kept) ↔
    Even maxHistory ∨ 2 * turns.length ≤ maxHistory
  inferred : ∀ systemPrompt userText, ∃ messages,
    b.messagesForInference maxHistory systemPrompt threadKey userText =
      .system systemPrompt :: messages ∧
    messages.length ≤ maxHistory ∧ messages <:+ transcript turns ++ [.user userText] ∧
    messages.IsChain Message.TakesTurn ∧ messages.getLast? = some (.user userText) ∧
    ((∃ text, messages.head? = some (.user text)) ↔
      Odd maxHistory ∨ 2 * turns.length < maxHistory)

/-! ### The transcript -/

theorem length_turnMessages (turn : ThreadTurn) : (turnMessages turn).length = 2 := rfl

theorem length_transcript (turns : List ThreadTurn) :
    (transcript turns).length = 2 * turns.length :=
  length_flatMap_blocks length_turnMessages turns

/-- A transcript and the next message of the user alternate. -/
theorem isChain_transcript (turns : List ThreadTurn) (userText : String) :
    (transcript turns ++ [Message.user userText]).IsChain Message.TakesTurn := by
  induction turns with
  | nil => exact List.isChain_singleton _
  | cons turn turns ih =>
    have hnext : ∀ m ∈ (transcript turns ++ [Message.user userText]).head?,
        Message.TakesTurn (.assistant turn.2 []) m := by
      cases turns with
      | nil =>
        intro m hm
        obtain rfl := Option.mem_some_iff.1 hm
        trivial
      | cons turn' turns =>
        intro m hm
        obtain rfl := Option.mem_some_iff.1 hm
        trivial
    exact List.isChain_cons_cons.2 ⟨trivial, List.isChain_cons.2 ⟨hnext, ih⟩⟩

theorem Message.TakesTurn.isUser_ne {m m' : Message} (h : Message.TakesTurn m m') :
    m.isUser ≠ m'.isUser := by
  unfold Message.TakesTurn at h
  split at h
  · simp [Message.isUser]
  · simp [Message.isUser]
  · exact h.elim

/-- Of messages that alternate up to the user's, the first is the user's if their number is odd. -/
theorem head_isUser_iff {messages : List Message} {userText : String}
    (hchain : messages.IsChain Message.TakesTurn)
    (hlast : messages.getLast? = some (.user userText)) :
    (∃ text, messages.head? = some (.user text)) ↔ Odd messages.length := by
  cases messages with
  | nil => simp at hlast
  | cons m rest =>
    have hends := head_eq_last_iff (c := Message.isUser)
      (hchain.imp fun _ _ h => Message.TakesTurn.isUser_ne h)
    have hm : m.isUser = true ↔ ∃ text, (m :: rest).head? = some (.user text) := by
      cases m <;> simp [Message.isUser]
    rw [List.getLast?_eq_some_getLast (by simp)] at hlast
    rw [Option.some.inj hlast] at hends
    rw [← hm, ← hends]
    simp [Message.isUser]

/-! ### The cap -/

theorem capped_zero (messages : List Message) : capped 0 messages = messages := by
  simp [capped, sliceFrom]

theorem capped_eq_rtake {maxHistory : ℕ} (hpos : 0 < maxHistory) (messages : List Message) :
    capped maxHistory messages = messages.rtake maxHistory := by
  unfold capped sliceFrom
  split
  · rw [if_neg (by omega), Int.natAbs_neg, Int.natAbs_natCast, List.rtake]
  · exact (rtake_eq_self (by omega)).symm

theorem stored_commitTurn (b : PromptBuilder) (maxHistory : ℤ)
    (threadKey threadKey' userText assistantContent : String) :
    (b.commitTurn maxHistory threadKey' userText assistantContent).stored threadKey =
      if threadKey' = threadKey then
        capped maxHistory (b.historyWithUserMessage maxHistory threadKey userText ++
          [.assistant assistantContent []])
      else b.stored threadKey := by
  unfold stored commitTurn
  split
  · rename_i hkey
    subst hkey
    rw [AList.lookup_insert, Option.getD_some]
  · rename_i hkey
    rw [AList.lookup_insert_ne (Ne.symm hkey)]

theorem committedTurns_snoc (threadKey : String) (calls : List PromptCall) (c : PromptCall) :
    committedTurns threadKey (calls ++ [c]) =
      committedTurns threadKey calls ++ committedTurns threadKey [c] :=
  List.filterMap_append

theorem afterCalls_snoc (maxHistory : ℤ) (calls : List PromptCall) (c : PromptCall) :
    afterCalls maxHistory (calls ++ [c]) = (afterCalls maxHistory calls).call maxHistory c :=
  List.foldl_concat ..

theorem transcript_snoc (turns : List ThreadTurn) (turn : ThreadTurn) :
    transcript (turns ++ [turn]) = transcript turns ++ turnMessages turn := by
  simp [transcript]

theorem capped_capped_append (maxHistory : ℕ) (xs ys : List Message) :
    capped maxHistory (capped maxHistory xs ++ ys) = capped maxHistory (xs ++ ys) := by
  rcases Nat.eq_zero_or_pos maxHistory with rfl | hpos
  · change capped 0 (capped 0 xs ++ ys) = capped 0 (xs ++ ys)
    rw [capped_zero, capped_zero, capped_zero]
  · rw [capped_eq_rtake hpos, capped_eq_rtake hpos, capped_eq_rtake hpos, rtake_rtake_append]

/-- Capping at each call caps the transcript. -/
theorem stored_afterCalls (maxHistory : ℕ) (calls : List PromptCall) (threadKey : String) :
    (afterCalls maxHistory calls).stored threadKey =
      capped maxHistory (transcript (committedTurns threadKey calls)) := by
  induction calls using List.reverseRecOn with
  | nil => simp [afterCalls, stored, committedTurns, transcript, capped, sliceFrom]
  | append_singleton calls c ih =>
    rw [afterCalls_snoc, committedTurns_snoc]
    cases c with
    | messagesForInference =>
      rw [call, ih]
      simp [committedTurns]
    | commitTurn threadKey' userText assistantContent =>
      rw [call, stored_commitTurn]
      split
      · rename_i hkey
        have hturn : committedTurns threadKey
            [.commitTurn threadKey' userText assistantContent] =
              [(userText, assistantContent)] := by
          simp [committedTurns, hkey]
        have hhistory : (afterCalls maxHistory calls).historyWithUserMessage maxHistory threadKey
            userText = capped maxHistory (capped maxHistory
              (transcript (committedTurns threadKey calls)) ++ [.user userText]) := by
          rw [← ih]
          rfl
        rw [hhistory, capped_capped_append, List.append_assoc, capped_capped_append, hturn,
          transcript_snoc]
        rfl
      · rename_i hkey
        rw [ih]
        simp [committedTurns, hkey]

theorem messagesForInference_afterCalls (maxHistory : ℕ) (calls : List PromptCall)
    (systemPrompt threadKey userText : String) :
    (afterCalls maxHistory calls).messagesForInference maxHistory systemPrompt threadKey userText =
      .system systemPrompt :: capped maxHistory
        (transcript (committedTurns threadKey calls) ++ [.user userText]) := by
  rw [← capped_capped_append, ← stored_afterCalls]
  rfl

theorem last_capped (maxHistory : ℕ) (turns : List ThreadTurn) (userText : String) :
    (capped maxHistory (transcript turns ++ [.user userText])).getLast? =
      some (.user userText) := by
  rcases Nat.eq_zero_or_pos maxHistory with rfl | hpos
  · change (capped 0 _).getLast? = _
    simp [capped_zero]
  · obtain ⟨n, rfl⟩ := Nat.exists_eq_succ_of_ne_zero hpos.ne'
    rw [capped_eq_rtake hpos, List.rtake_concat_succ]
    simp

theorem capped_suffix (maxHistory : ℕ) (messages : List Message) :
    capped maxHistory messages <:+ messages := by
  rcases Nat.eq_zero_or_pos maxHistory with rfl | hpos
  · change capped 0 messages <:+ messages
    rw [capped_zero]
  · rw [capped_eq_rtake hpos]
    exact rtake_suffix messages maxHistory

/-- After any calls, the cap leaves the last messages of each thread. -/
theorem recentThread_afterCalls (maxHistory : ℕ) (hpos : 0 < maxHistory)
    (calls : List PromptCall) (threadKey : String) :
    (afterCalls maxHistory calls).RecentThread maxHistory (committedTurns threadKey calls)
      threadKey := by
  have hstored := stored_afterCalls maxHistory calls threadKey
  refine ⟨?_, ?_, ?_, ?_⟩
  · rw [hstored, capped_eq_rtake hpos, length_rtake]
    exact Nat.min_le_left _ _
  · rw [hstored]
    exact capped_suffix maxHistory _
  · rw [hstored, capped_eq_rtake hpos, even_iff_two_dvd]
    exact rtake_blocks_iff length_turnMessages _ _
  · intro systemPrompt userText
    have hchain := (isChain_transcript (committedTurns threadKey calls) userText).suffix
      (capped_suffix maxHistory _)
    have hlast := last_capped maxHistory (committedTurns threadKey calls) userText
    refine ⟨_, messagesForInference_afterCalls maxHistory calls systemPrompt threadKey userText,
      ?_, capped_suffix maxHistory _, hchain, hlast, ?_⟩
    · rw [capped_eq_rtake hpos, length_rtake]
      exact Nat.min_le_left _ _
    · rw [head_isUser_iff hchain hlast, capped_eq_rtake hpos, length_rtake, List.length_append,
        length_transcript, List.length_singleton]
      rcases Nat.lt_or_ge (2 * (committedTurns threadKey calls).length) maxHistory with hlt | hge
      · rw [Nat.min_eq_right hlt]
        simp [hlt]
      · rw [Nat.min_eq_left (by omega)]
        simp [hge.not_gt]

/-- Three turns of a thread, with one of another thread between them. -/
def threeTurns : List PromptCall :=
  [.commitTurn "t-1" "u-1" "a-1", .commitTurn "t-2" "v-1" "b-1", .commitTurn "t-1" "u-2" "a-2",
    .commitTurn "t-1" "u-3" "a-3"]

/-- A cap of four leaves the last two turns. -/
theorem recentThread_four :
    (afterCalls (4 : ℕ) threeTurns).stored "t-1" =
        [.user "u-2", .assistant "a-2" [], .user "u-3", .assistant "a-3" []] ∧
      (afterCalls (4 : ℕ) threeTurns).RecentThread 4 (committedTurns "t-1" threeTurns) "t-1" :=
  ⟨by decide, recentThread_afterCalls 4 (by decide) threeTurns "t-1"⟩

def twoTurns : List PromptCall :=
  [.commitTurn "t-1" "u-1" "a-1", .commitTurn "t-1" "u-2" "a-2"]

/-- With a cap of four and two turns, the third message is put to the model behind a reply. -/
theorem full_history_opens_with_reply :
    ¬ (afterCalls (4 : ℕ) twoTurns).WellFormedThread 4 (committedTurns "t-1" twoTurns) "t-1" := by
  intro h
  obtain ⟨messages, heq, ⟨text, hhead⟩, -⟩ := h.inferred "system" "u-3"
  obtain rfl : [.assistant "a-1" [], .user "u-2", .assistant "a-2" [], .user "u-3"] = messages :=
    (List.cons.inj heq).2
  simp at hhead

/-- The thread is well formed exactly as long as its turns have not filled the cap. -/
theorem wellFormedThread_iff (maxHistory : ℕ) (calls : List PromptCall) (threadKey : String) :
    (afterCalls maxHistory calls).WellFormedThread maxHistory (committedTurns threadKey calls)
      threadKey ↔
    committedTurns threadKey calls = [] ∨
      2 * (committedTurns threadKey calls).length < maxHistory := by
  have hstored := stored_afterCalls maxHistory calls threadKey
  have hmessages := fun systemPrompt userText =>
    messagesForInference_afterCalls maxHistory calls systemPrompt threadKey userText
  rcases Nat.eq_zero_or_pos maxHistory with rfl | hpos
  · constructor
    · intro h
      have hlen := h.capped
      rw [hstored] at hlen
      change (capped 0 _).length ≤ 0 at hlen
      rw [capped_zero, length_transcript] at hlen
      exact Or.inl (List.length_eq_zero_iff.1 (by omega))
    · rintro (hnil | hlt)
      · rw [hnil] at hstored hmessages ⊢
        exact ⟨by rw [hstored]; exact Nat.le_refl 0, ⟨[], List.suffix_rfl, hstored⟩,
          fun systemPrompt userText => ⟨_, hmessages systemPrompt userText, ⟨userText, rfl⟩,
            List.isChain_singleton _, rfl⟩⟩
      · omega
  · have hrecent := recentThread_afterCalls maxHistory hpos calls threadKey
    constructor
    · intro h
      obtain ⟨messages, heq, hhead, -⟩ := h.inferred "" ""
      obtain ⟨messages', heq', -, -, -, -, hopens⟩ := hrecent.inferred "" ""
      obtain rfl := (List.cons.inj (heq.symm.trans heq')).2
      rcases hopens.1 hhead with hodd | hlt
      · rcases hrecent.whole.1 h.whole with heven | hle
        · exact (Nat.not_even_iff_odd.2 hodd heven).elim
        · refine Or.inr (Nat.lt_of_le_of_ne hle fun heq => ?_)
          rw [← heq] at hodd
          exact Nat.not_odd_iff_even.2 (even_two_mul _) hodd
      · exact Or.inr hlt
    · intro h
      have hlt : 2 * (committedTurns threadKey calls).length < maxHistory := by
        rcases h with hnil | hlt
        · rw [hnil]
          exact hpos
        · exact hlt
      refine ⟨hrecent.capped, hrecent.whole.2 (Or.inr hlt.le), fun systemPrompt userText => ?_⟩
      obtain ⟨messages, heq, -, -, hchain, hlast, hopens⟩ := hrecent.inferred systemPrompt userText
      exact ⟨messages, heq, hopens.2 (Or.inr hlt), hchain, hlast⟩

end PromptBuilder

/-! ### In the orchestrator -/

namespace Orchestrator

open PromptBuilder

variable {E : OrchestratorEnv} {s s' : Orchestrator} {h : HandlerId} {request : NormalizedRequest}

/-- From `s` to `s'` the prompt builder is called once, or not at all. -/
def CallsPrompt (E : OrchestratorEnv) (s s' : Orchestrator) : Prop :=
  s'.prompt = s.prompt ∨ ∃ c, s'.prompt = s.prompt.call E.maxThreadHistory c

theorem callsPrompt_respond (content : String) :
    CallsPrompt E s (s.respond E h request content) :=
  Or.inr ⟨.commitTurn request.threadKey request.text _, rfl⟩

theorem callsPrompt_running (run : AgentRun) (category : ErrorCategory) :
    CallsPrompt E s (s.running E h request run category) := by
  unfold running
  split
  · exact callsPrompt_respond _
  · exact Or.inl rfl
  · exact Or.inl rfl
  · exact Or.inl rfl

theorem callsPrompt_resuming (run : AgentRun) (approval : StoredApproval) :
    CallsPrompt E s (s.resuming E h request run approval) := by
  unfold resuming
  split
  · exact Or.inr ⟨.commitTurn request.threadKey approval.pending.originalUserText _, rfl⟩
  · exact Or.inl rfl
  · exact Or.inl rfl
  · exact Or.inl rfl

theorem callsPrompt_inferring (messages : List Message) (chunks : List String) (attempt : ℕ)
    (response : Except String InferenceResponse) :
    CallsPrompt E s (s.inferring E h request messages chunks attempt response) := by
  unfold inferring
  split
  · split
    · exact callsPrompt_respond _
    · exact Or.inl rfl
  · exact Or.inl rfl

theorem callsPrompt_handleMessage (systemPrompt : String) :
    CallsPrompt E s (s.handleMessage E h request systemPrompt) := by
  unfold handleMessage
  dsimp only
  split
  · exact Or.inl rfl
  · split
    · exact Or.inl rfl
    · exact callsPrompt_running _ _

theorem callsPrompt_handle (circumstances : Circumstances) :
    CallsPrompt E s (s.handle E h request circumstances) := by
  unfold handle
  split
  · exact callsPrompt_handleMessage _
  · split
    · unfold handleWriteApproval
      split
      · exact Or.inl rfl
      · dsimp only
        split <;> exact Or.inl rfl
    · split
      · unfold handleWriteDenial
        split <;> exact Or.inl rfl
      · split
        · unfold handleFinalizationAction
          dsimp only
          split <;> exact Or.inl rfl
        · exact callsPrompt_handleMessage _

theorem callsPrompt_step {e : OrchestratorEvent} (hs : s.step E e = some s') :
    CallsPrompt E s s' := by
  obtain ⟨h, request, circumstances, -, rfl⟩ | ⟨h, e', t, -, -, hadvance⟩ | ⟨h, batch, -, rfl⟩ |
    ⟨e', actions, -, -, -, -, rfl⟩ | ⟨h, request, -, rfl⟩ := step_cases hs
  · exact callsPrompt_handle circumstances
  · obtain ⟨run, run', -, -, rfl⟩ | ⟨run, run', approval, -, -, rfl⟩ |
      ⟨messages, chunks, attempt, response, rfl⟩ := advance_cases hadvance
    · exact callsPrompt_running run' _
    · exact callsPrompt_resuming run' approval
    · exact callsPrompt_inferring messages chunks attempt response
  · exact Or.inl rfl
  · exact Or.inl rfl
  · exact Or.inl rfl

/-- However requests interleave, the builder is as calls of it one after the other leave it. -/
theorem prompt_afterCalls {tr : List (Orchestrator × OrchestratorEvent)}
    (h : (orchestratorMachine E).Trace tr s) :
    ∃ calls, s.prompt = afterCalls E.maxThreadHistory calls := by
  refine h.invariant (I := fun s => ∃ calls, s.prompt = afterCalls E.maxThreadHistory calls)
    ⟨[], rfl⟩ fun s e s' hcalls hs => ?_
  obtain ⟨calls, hcalls⟩ := hcalls
  rcases callsPrompt_step hs with hsame | ⟨c, hcall⟩
  · exact ⟨calls, hsame.trans hcalls⟩
  · refine ⟨calls ++ [c], ?_⟩
    rw [afterCalls_snoc, ← hcalls, hcall]

end Orchestrator

end NemoClaw
