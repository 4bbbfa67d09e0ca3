import NemoClaw.Nmb.Endings

/-! Who can answer a request. The pending table keeps no target, and a client looks at nothing but
`reply_to`, so any connected sandbox that names the id of a request there answers it, with a REPLY
or with any message that gets to the requester. What it cannot do is answer under another name than
its own, and no sandbox touches the entry of a request whose id it does not name. -/

namespace NemoClaw

open Lib

namespace Broker

variable {π : Type} {E : BrokerEnv π} {b b' : Broker π}

/-- Every timeout task belongs to one message id: that of its entry, of its arguments and of the
handler that forwards its request. -/
structure Tied (tag : TaskId → String) (b : Broker π) : Prop where
  entry : ∀ id tracked, b.pending.lookup id = some tracked →
    tracked.timeoutTask < b.nextTask ∧ tag tracked.timeoutTask = id
  timer : ∀ task t, b.timers.lookup task = some t → task < b.nextTask ∧ tag task = t.requestId
  forwarding : ∀ ws s m task, b.handlers.lookup ws = some ⟨s, .requestDeliver m task⟩ →
    task < b.nextTask ∧ tag task = m.id

/-- A handler that forwards a request has just registered it, or it did before the step. -/
theorem forwarding_step {e : BrokerEvent π} (h : b.step E e = some b') {ws : Ws} {s : String}
    {m : NMBMessage π} {task : TaskId}
    (hh : b'.handlers.lookup ws = some ⟨s, .requestDeliver m task⟩) :
    b.handlers.lookup ws = some ⟨s, .requestDeliver m task⟩ ∨
      ∃ m₀ now, e = .frame ws (.ok m₀) now ∧ b.handlers.lookup ws = some ⟨s, .recv⟩ ∧
        b.Admits E s m₀ now ∧ m = stamp m₀ s now ∧ task = b.nextTask := by
  cases phase_step h hh with
  | before hold => exact Or.inl hold
  | opened hphase => contradiction
  | ended hphase => simp at hphase
  | served hh₁ ho =>
    cases ho with
    | forward hop ht hc hphase =>
      rcases hphase with hphase | hphase | ⟨hadm, hphase⟩
      · contradiction
      · contradiction
      · obtain ⟨rfl, rfl⟩ := Phase.requestDeliver.inj hphase
        exact Or.inr ⟨_, _, rfl, hh₁, hadm, rfl, rfl⟩
    | quiet hphase => simp at hphase

/-- The books half of `Tied`, for what a step does to the books. -/
theorem book_step_tied {tag : TaskId → String} (ht : Tied tag b) {e : BrokerEvent π} {k : Books}
    (hk : BookStep E b e k) (hnext : k.nextTask = b.nextTask) :
    (∀ id tracked, k.pending.lookup id = some tracked →
      tracked.timeoutTask < b.nextTask ∧ tag tracked.timeoutTask = id) ∧
    ∀ task t, k.timers.lookup task = some t → task < b.nextTask ∧ tag task = t.requestId := by
  cases hk with
  | same => exact ⟨ht.entry, ht.timer⟩
  | admitted hh hm => exact absurd hnext (Nat.succ_ne_self b.nextTask)
  | reply hh hop hrid hp hnew =>
    exact ⟨fun id tracked hid => ht.entry id tracked (Dict.lookup_erase_eq_some.1 hid).2,
      fun task t htask => ht.timer task t (Dict.lookup_erase_eq_some.1 htask).2⟩
  | rollback hh =>
    exact ⟨fun id tracked hid => ht.entry id tracked (Dict.lookup_erase_eq_some.1 hid).2,
      fun task t htask => ht.timer task t (Dict.lookup_erase_eq_some.1 htask).2⟩
  | stale htask₀ hs hp =>
    exact ⟨ht.entry, fun task t htask => ht.timer task t (Dict.lookup_erase_eq_some.1 htask).2⟩
  | timedOut htask₀ hs =>
    exact ⟨ht.entry, fun task t htask => ht.timer task t (Dict.lookup_erase_eq_some.1 htask).2⟩
  | expire htask₀ hs hp htimers hnew =>
    refine ⟨fun id tracked hid => ht.entry id tracked (Dict.lookup_erase_eq_some.1 hid).2, ?_⟩
    intro task t htask
    rcases htimers with rfl | rfl
    · exact ht.timer task t (Dict.lookup_erase_eq_some.1 htask).2
    · rcases Dict.lookup_insert_eq_some.1 htask with ⟨rfl, rfl⟩ | ⟨-, hold⟩
      · obtain ⟨hlt, htag⟩ := ht.timer _ _ htask₀
        exact ⟨hlt, htag⟩
      · exact ht.timer task t hold
  | clear hh hc =>
    refine ⟨fun id tracked hid => ht.entry id tracked (Dict.lookup_drop_eq_some.1 hid).1, ?_⟩
    intro task t htask
    exact ht.timer task t (lookup_timersWithout.1 htask).1

/-- A step that registers no request keeps the tags. -/
theorem tied_of_not_admitted {tag : TaskId → String} (ht : Tied tag b) {e : BrokerEvent π}
    (h : b.step E e = some b') (hnext : b'.nextTask = b.nextTask) : Tied tag b' := by
  obtain ⟨hentry, htimer⟩ := book_step_tied ht (book_step h) hnext
  refine ⟨?_, ?_, ?_⟩
  · rw [hnext]
    exact hentry
  · rw [hnext]
    exact htimer
  · intro ws s m task hh
    rw [hnext]
    rcases forwarding_step h hh with hold | ⟨m₀, now, rfl, hrecv, hadm, -, -⟩
    · exact ht.forwarding ws s m task hold
    · -- a registered request moves the task counter
      simp only [step, hrecv] at h
      obtain rfl := Option.some.inj h
      have := congrArg Books.nextTask (books_dispatch_of_admits hadm ws)
      exact absurd (this.symm.trans hnext) (Nat.succ_ne_self b.nextTask)

theorem tied_of_admitted {tag : TaskId → String} (ht : Tied tag b) {ws : Ws} {s : String}
    {m : NMBMessage π} {now : ℚ} (hh : b.handlers.lookup ws = some ⟨s, .recv⟩)
    (hm : b.Admits E s m now) (h : b.step E (.frame ws (.ok m) now) = some b') :
    Tied (Function.update tag b.nextTask m.id) b' := by
  have hbooks : b'.books = (b.tracked E s m).books := by
    simp only [step, hh] at h
    obtain rfl := Option.some.inj h
    exact books_dispatch_of_admits hm ws
  have hpending := congrArg Books.pending hbooks
  have htimers := congrArg Books.timers hbooks
  have hnext := congrArg Books.nextTask hbooks
  simp only [books, tracked, track] at hpending htimers hnext
  have hold : ∀ task, task < b.nextTask →
      task < b.nextTask + 1 ∧ Function.update tag b.nextTask m.id task = tag task := fun task hlt =>
    ⟨Nat.lt_succ_of_lt hlt, Function.update_of_ne (Nat.ne_of_lt hlt) _ _⟩
  refine ⟨?_, ?_, ?_⟩
  · intro id tracked hid
    rw [hpending] at hid
    rw [hnext]
    rcases Dict.lookup_insert_eq_some.1 hid with ⟨rfl, rfl⟩ | ⟨-, hid⟩
    · exact ⟨Nat.lt_succ_self _, Function.update_self ..⟩
    · obtain ⟨hlt, htag⟩ := ht.entry id tracked hid
      exact ⟨(hold _ hlt).1, (hold _ hlt).2.trans htag⟩
  · intro task t htask
    rw [htimers] at htask
    rw [hnext]
    rcases Dict.lookup_insert_eq_some.1 htask with ⟨rfl, rfl⟩ | ⟨-, htask⟩
    · exact ⟨Nat.lt_succ_self _, Function.update_self ..⟩
    · obtain ⟨hlt, htag⟩ := ht.timer task t htask
      exact ⟨(hold _ hlt).1, (hold _ hlt).2.trans htag⟩
  · intro ws' s' m' task hh'
    rw [hnext]
    rcases forwarding_step h hh' with hfw | ⟨m₀, now', he, -, -, rfl, rfl⟩
    · obtain ⟨hlt, htag⟩ := ht.forwarding ws' s' m' task hfw
      exact ⟨(hold _ hlt).1, (hold _ hlt).2.trans htag⟩
    · obtain ⟨-, hraw, -⟩ := BrokerEvent.frame.inj he
      obtain rfl := Except.ok.inj hraw
      exact ⟨Nat.lt_succ_self _, Function.update_self ..⟩

theorem tied_step {tag : TaskId → String} (ht : Tied tag b) {e : BrokerEvent π}
    (h : b.step E e = some b') : ∃ tag', Tied tag' b' := by
  by_cases hnext : b'.nextTask = b.nextTask
  · exact ⟨tag, tied_of_not_admitted ht h hnext⟩
  · have hk := book_step h
    generalize hb : b'.books = k at hk
    have hne : k.nextTask ≠ b.nextTask := hb ▸ hnext
    cases hk with
    | admitted hh hm => exact ⟨_, tied_of_admitted ht hh hm h⟩
    | same | reply | rollback | stale | expire | timedOut | clear => exact absurd rfl hne

theorem tied_initial : Tied (fun _ => "") ({} : Broker π) := by
  refine ⟨fun id tracked h => ?_, fun task t h => ?_, fun ws s m task h => ?_⟩ <;> cases h

theorem tied_run {tr : List (Broker π × BrokerEvent π)} (h : (brokerMachine E).Trace tr b) :
    ∃ tag, Tied tag b :=
  h.invariant (I := fun b => ∃ tag, Tied tag b)
    ⟨_, tied_initial⟩ fun _ _ _ ⟨_, ht⟩ hs => tied_step ht hs

/-! ### Steps that do not name a request -/

/-- The step acts under the message id `id`: a REPLY to it or a REQUEST with it is read, the
forwarding of a request with it failed, a timeout task started for it wakes up, or the requester
of the entry under it disconnects. -/
def Names (b : Broker π) (id : String) : BrokerEvent π → Prop
  | .frame _ (.ok m) _ => m.op = .reply ∧ m.replyTo = some id ∨ m.op = .request ∧ m.id = id
  | .resume ws .connectionClosed =>
    ∃ s m task, b.handlers.lookup ws = some ⟨s, .requestDeliver m task⟩ ∧ m.id = id
  | .timer task => ∃ t, b.timers.lookup task = some t ∧ t.requestId = id
  | .disconnect ws _ _ => ∃ s tracked, b.handlers.lookup ws = some ⟨s, .recv⟩ ∧
      b.pending.lookup id = some tracked ∧ tracked.owner = s
  | _ => False

/-- The request pending under `id` is still pending, its timeout task still sleeps, and a slot of
its requester was freed for another request only. -/
structure Kept (b : Broker π) (e : BrokerEvent π) (k : Books) (id : String)
    (tracked : TrackedPending) : Prop where
  entry : k.pending.lookup id = some tracked
  timer : ∀ t, b.timers.lookup tracked.timeoutTask = some t → t.sending = false →
    k.timers.lookup tracked.timeoutTask = some t
  slot : (k.counts.lookup tracked.owner).getD 0 < (b.pendingCounts.lookup tracked.owner).getD 0 →
    ∃ other, other ≠ id ∧ b.Names other e

/-- An entry other than the one under `id` is popped, and a task with another tag cancelled. -/
theorem kept_of_other {tag : TaskId → String} (ht : Tied tag b) {e : BrokerEvent π}
    {id other : String} {tracked : TrackedPending} (hp : b.pending.lookup id = some tracked)
    (hne : other ≠ id) (hn : b.Names other e) {timers : Dict TaskId TimeoutTask} {task : TaskId}
    (htask : tag task = other)
    (htimers : ∀ u, u ≠ task → timers.lookup u = b.timers.lookup u) {counts : Dict String ℕ}
    {n : TaskId} {new : List TaskId} :
    Kept b e ⟨b.pending.erase other, counts, timers, n, new⟩ id tracked := by
  refine ⟨Dict.lookup_erase_eq_some.2 ⟨hne.symm, hp⟩, ?_, fun _ => ⟨other, hne, hn⟩⟩
  intro t hs _
  rw [htimers _ ?_]
  · exact hs
  · intro he
    rw [← he, (ht.entry id tracked hp).2] at htask
    exact hne htask.symm

theorem kept_of_not_names {tag : TaskId → String} (ht : Tied tag b) {e : BrokerEvent π}
    {k : Books} (hk : BookStep E b e k) {id : String} {tracked : TrackedPending}
    (hp : b.pending.lookup id = some tracked) (hn : ¬ b.Names id e) : Kept b e k id tracked := by
  cases hk with
  | same => exact ⟨hp, fun _ hs _ => hs, fun hlt => absurd hlt (Nat.lt_irrefl _)⟩
  | @admitted ws s m now hh hm =>
    have hne : id ≠ m.id := fun he => hn (Or.inr ⟨hm.op, he.symm⟩)
    have hlt := (ht.entry id tracked hp).1
    refine ⟨(AList.lookup_insert_ne hne).trans hp,
      fun t hs _ => (AList.lookup_insert_ne (Nat.ne_of_lt hlt)).trans hs, ?_⟩
    intro hdown
    -- registering a request lowers no count
    simp only [books, Broker.tracked, track, Tally.getD_insert] at hdown
    split_ifs at hdown with hs
    · rw [hs] at hdown
      exact absurd hdown (Nat.not_lt.2 (Nat.le_succ _))
    · exact absurd hdown (Nat.lt_irrefl _)
  | @reply ws s m now rid tracked' new hh hop hrid hp' hnew =>
    have hne : rid ≠ id := by
      intro heq
      subst heq
      exact hn (Or.inl ⟨hop, hrid⟩)
    have hother : b.Names rid (.frame ws (.ok m) now) := Or.inl ⟨hop, hrid⟩
    exact kept_of_other ht hp hne hother (ht.entry rid tracked' hp').2
      fun u hu => AList.lookup_erase_ne hu
  | @rollback ws s m task hh =>
    have hne : m.id ≠ id := fun he => hn ⟨s, m, task, hh, he⟩
    have hother : b.Names m.id (.resume ws .connectionClosed) := ⟨s, m, task, hh, rfl⟩
    exact kept_of_other ht hp hne hother (ht.forwarding ws s m task hh).2
      fun u hu => AList.lookup_erase_ne hu
  | @stale task t htask hs hp' =>
    have hne : tracked.timeoutTask ≠ task := by
      intro heq
      subst heq
      refine hn ⟨t, htask, ?_⟩
      rw [← (ht.timer _ _ htask).2, (ht.entry id tracked hp).2]
    exact ⟨hp, fun _ hs' _ => (AList.lookup_erase_ne hne).trans hs',
      fun hlt => absurd hlt (Nat.lt_irrefl _)⟩
  | @expire task t tracked' timers new htask hs hp' htimers hnew =>
    have hne : t.requestId ≠ id := fun he => hn ⟨t, htask, he⟩
    have hother : b.Names t.requestId (.timer task) := ⟨t, htask, rfl⟩
    apply kept_of_other ht hp hne hother (ht.timer task t htask).2
    intro u hu
    rcases htimers with rfl | rfl
    · exact AList.lookup_erase_ne hu
    · exact AList.lookup_insert_ne hu
  | @timedOut task t htask hsend =>
    refine ⟨hp, ?_, fun hlt => absurd hlt (Nat.lt_irrefl _)⟩
    intro t' hs hsleep
    refine Dict.lookup_erase_eq_some.2 ⟨?_, hs⟩
    -- a task in `ws.send` is not asleep
    intro heq
    subst heq
    obtain rfl := Option.some.inj (htask.symm.trans hs)
    simp [hsend] at hsleep
  | @clear ws s msgId now hh hc =>
    have howner : tracked.owner ≠ s := fun he => hn ⟨s, tracked, hh, hp, he⟩
    refine ⟨Dict.lookup_drop_eq_some.2 ⟨hp, decide_eq_false howner⟩, ?_, ?_⟩
    · intro t hs _
      refine lookup_timersWithout.2 ⟨hs, ?_⟩
      intro id' tracked' hp' htask howner'
      have hid : id' = id := by
        rw [← (ht.entry id' tracked' hp').2, htask, (ht.entry id tracked hp).2]
      rw [hid] at hp'
      obtain rfl := Option.some.inj (hp.symm.trans hp')
      exact howner howner'
    · intro hdown
      simp only [AList.lookup_erase_ne howner] at hdown
      exact absurd hdown (Nat.lt_irrefl _)

/-! ### Where an answer comes from -/

/-- The message of `s`, which names `id` in its `reply_to`, is for the connection `ws`. -/
def Addressed (b : Broker π) (s id : String) (m : NMBMessage π) (ws : Ws) : Prop :=
  match m.op with
  | .reply => ∃ tracked, b.pending.lookup id = some tracked ∧
      b.connections.lookup tracked.owner = some ws
  | .send | .request | .stream => ∃ target, m.toSandbox = some target ∧
      b.connections.lookup target = some ws
  | .publish => ∃ c, m.channel = some c ∧ ws ∈ b.subscriberSockets c (some s)
  | _ => False

/-- Where a frame that ends `id` for its receiver comes from: a message of some sandbox `s`, which
carries the name of `s`, a failure of the receiver's own, or the timeout task of a request under
this id. -/
inductive AnswerOrigin (E : BrokerEnv π) (tr : List (Broker π × BrokerEvent π)) (id : String)
    (f : SentFrame π) : Prop
  | message {q ws s m now} (hq : (q, .frame ws (.ok m) now) ∈ tr)
      (hh : q.handlers.lookup ws = some ⟨s, .recv⟩) (hrid : m.replyTo = some id)
      (hto : q.Addressed s id m f.ws) (hf : f.frame = (stamp m s now).makeDeliver)
  | failure {q e s old} (hq : (q, e) ∈ tr) (hh : q.handlers.lookup f.ws = some ⟨s, old⟩)
      (hwhy : Fails E q f.ws s e old id) (hop : f.frame.op = .error)
  | timeout {q task t} (hq : (q, .timer task) ∈ tr) (ht : q.timers.lookup task = some t)
      (hid : t.requestId = id) (hc : q.connections.lookup t.requesterId = some f.ws)
      (hop : f.frame.op = .timeout)

theorem AnswerOrigin.of_ending {tr pre : List (Broker π × BrokerEvent π)} {e : BrokerEvent π}
    {id : String} {f : SentFrame π} (hpre : (brokerMachine E).Trace pre b) (hsub : pre ⊆ tr)
    (hmem : (b, e) ∈ tr) (h : Ending E b e id f) : AnswerOrigin E tr id f := by
  cases h with
  | copied he hh hop hr hrid ht hc hf =>
    subst he
    refine .message hmem hh hrid ?_ hf
    rcases hop with hop | hop | hop
    all_goals
      rw [Addressed, hop]
      exact ⟨_, (truthy_eq_some.1 ht).1, hc⟩
  | replied he hh hop hr hrid hp hc hf =>
    subst he
    refine .message hmem hh hrid ?_ hf
    rw [Addressed, hop]
    exact ⟨_, hp, hc⟩
  | fanned he hh ht hrid hf =>
    obtain ⟨⟨q, e'⟩, hq, m₀, now, c, rfl, hrecv, hop, rfl, hc, hleft⟩ := publish_read hpre hh
    refine .message (hsub hq) hrecv hrid ?_ hf
    rw [Addressed, hop]
    exact ⟨c, (truthy_eq_some.1 hc).1, hleft _ ht⟩
  | failed hh hop hwhy => exact .failure hmem hh hwhy hop
  | expired he ht hs hid hp hc hop =>
    subst he
    exact .timeout hmem ht hid hc hop

theorem noticesDeliver_run {tr : List (Broker π × BrokerEvent π)}
    (h : (brokerMachine E).Trace tr b) : b.NoticesDeliver :=
  h.invariant (fun _ _ _ _ hh => by contradiction) fun _ _ _ hn hs => noticesDeliver_step hn hs

theorem answer_origin {tr : List (Broker π × BrokerEvent π)} (h : (brokerMachine E).Trace tr b)
    {f : SentFrame π} (hf : f ∈ b.sent) {id : String} (hends : Ends id f.frame) :
    AnswerOrigin E tr id f := by
  rw [sent_eq_writes h] at hf
  obtain ⟨⟨q, e⟩, hmem, hwritten⟩ := List.mem_flatMap.1 hf
  obtain ⟨pre, hprefix, hpre, q', hs⟩ := h.prefix_of_mem hmem
  exact .of_ending hpre hprefix.subset hmem
    (ending_of_write hs (noticesDeliver_run hpre) hwritten hends)

/-- A frame resolves `request()` in the client that it reaches exactly if it ends the request, every
such frame has its origin in the run, and a step that does not name a request leaves it pending, its
timeout task asleep and its slot taken. -/
theorem reply_attributed {tr : List (Broker π × BrokerEvent π)}
    (h : (brokerMachine E).Trace tr b) :
    (∀ f ∈ b.sent, ∀ id, (∀ bus : MessageBus π, bus.Waits id →
        ((bus.dispatch f.frame).futures.lookup id ≠ some .pending ↔ Ends id f.frame)) ∧
      (Ends id f.frame → AnswerOrigin E tr id f)) ∧
    ∀ p ∈ tr, ∀ b' id tracked, p.1.step E p.2 = some b' → p.1.pending.lookup id = some tracked →
      ¬ p.1.Names id p.2 → Kept p.1 p.2 b'.books id tracked := by
  constructor
  · intro f hf id
    exact ⟨fun bus hw => MessageBus.settles_iff_ends hw f.frame, answer_origin h hf⟩
  · intro p hp b' id tracked hs hid hn
    obtain ⟨pre, -, hpre, -⟩ := h.prefix_of_mem hp
    obtain ⟨tag, ht⟩ := tied_run hpre
    exact kept_of_not_names ht (book_step hs) hid hn

/-! ### A reply of a third sandbox -/

def deployRequest : NMBMessage String :=
  { op := .request, id := "m-1", toSandbox := some "b", type := some "deploy.check",
    payload := some "\x7b\x7d" }

def forgedReply : NMBMessage String :=
  { op := .reply, id := "m-2", replyTo := some "m-1", type := some "deploy.ok",
    payload := some "\x7b\x7d" }

/-- Sandbox `a` asks `b`, and `c` replies. -/
def thirdParty : List (BrokerEvent String) :=
  [.connect 0 "a", .connect 1 "b", .connect 2 "c", .frame 0 (.ok deployRequest) 0,
    .frame 2 (.ok forgedReply) 1]

theorem reply_attributed_thirdParty : ∃ tr b, (brokerMachine jsonText).Trace tr b ∧
    tr.map Prod.snd = thirdParty ∧
    (∃ f ∈ b.sent, Ends "m-1" f.frame ∧ f.frame.fromSandbox = some "c") ∧
    (∀ f ∈ b.sent, ∀ id, (∀ bus : MessageBus String, bus.Waits id →
        ((bus.dispatch f.frame).futures.lookup id ≠ some .pending ↔ Ends id f.frame)) ∧
      (Ends id f.frame → AnswerOrigin jsonText tr id f)) ∧
    ∀ p ∈ tr, ∀ b' id tracked, p.1.step jsonText p.2 = some b' →
      p.1.pending.lookup id = some tracked → ¬ p.1.Names id p.2 →
        Kept p.1 p.2 b'.books id tracked := by
  obtain ⟨tr, b, h, hevents, hforged⟩ := Machine.Trace.of_check (M := brokerMachine jsonText)
    thirdParty (p := fun _ b => decide (∃ f ∈ b.sent, Ends "m-1" f.frame ∧
      f.frame.fromSandbox = some "c")) (by decide)
  exact ⟨tr, b, h, hevents, of_decide_eq_true hforged, reply_attributed h⟩

/-- At this step a request `id` of `s` that is addressed to `target` is registered. -/
def registers (s id target : String) (p : Broker String × BrokerEvent String) : Bool :=
  match p.2 with
  | .frame ws (.ok m) now => decide (p.1.handlers.lookup ws = some ⟨s, .recv⟩ ∧
      p.1.Admits jsonText s m now ∧ m.id = id ∧ m.toSandbox = some target)
  | _ => false

/-- The reply that `a` gets to its request is not from the sandbox that `a` addressed. -/
theorem reply_forged : ¬ ∀ tr b, (brokerMachine jsonText).Trace tr b →
    ∀ p ∈ tr, ∀ s id target, registers s id target p = true →
      ∀ f ∈ b.sent, b.Behind f.ws s → f.frame.op = .deliver → f.frame.replyTo = some id →
        f.frame.fromSandbox = some target := by
  intro hall
  obtain ⟨tr, b, h, -, hcheck⟩ := Machine.Trace.of_check (M := brokerMachine jsonText)
    thirdParty (p := fun tr b => decide (∃ p ∈ tr, registers "a" "m-1" "b" p = true ∧
      ∃ f ∈ b.sent, b.Behind f.ws "a" ∧ f.frame.op = .deliver ∧
        f.frame.replyTo = some "m-1" ∧ f.frame.fromSandbox = some "c")) (by decide)
  obtain ⟨p, hp, hregisters, f, hf, hbehind, hop, hrid, hfrom⟩ := of_decide_eq_true hcheck
  have htarget := hall tr b h p hp "a" "m-1" "b" hregisters f hf hbehind hop hrid
  rw [hfrom] at htarget
  simp at htarget

end Broker

end NemoClaw
