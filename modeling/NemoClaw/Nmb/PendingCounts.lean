import NemoClaw.Nmb.Books

/-! The pending counter against the pending table. The counter of a sandbox is raised when a
request of it is registered and lowered on four other paths, each keyed by the id that the client
chose. A run keeps the two in step exactly as long as no step meets an id that has changed
hands. -/

namespace NemoClaw

open Lib

namespace Broker

variable {π : Type}

/-- The number of pending requests of `s`. -/
def pendingOf (b : Broker π) (s : String) : ℕ :=
  Dict.count (fun t => decide (t.owner = s)) b.pending

/-- Every counter reads the number of pending requests of its sandbox, and none is over the
limit. -/
structure Accounted (E : BrokerEnv π) (b : Broker π) : Prop where
  counts : ∀ s, (b.pendingCounts.lookup s).getD 0 = b.pendingOf s
  limit : ∀ s, b.pendingOf s ≤ E.config.maxPendingPerSandbox

/-- What the accounting needs of a step: no request is registered under an id still pending; one
whose forwarding fails is still the entry under its id, or its owner has nothing counted; a
timeout task fires on an entry of its own requester. -/
def KeepsCounts (E : BrokerEnv π) (b : Broker π) : BrokerEvent π → Prop
  | .frame ws (.ok m) now => ∀ s, b.handlers.lookup ws = some ⟨s, .recv⟩ → b.Admits E s m now →
      b.pending.lookup m.id = none
  | .resume ws .connectionClosed => ∀ s m task,
      b.handlers.lookup ws = some ⟨s, .requestDeliver m task⟩ →
        (∀ t, b.pending.lookup m.id = some t → t.owner = s) ∧
          (b.pending.lookup m.id = none → (b.pendingCounts.lookup s).getD 0 = 0)
  | .timer task => ∀ t tracked, b.timers.lookup task = some t → t.sending = false →
      b.pending.lookup t.requestId = some tracked → tracked.owner = t.requesterId
  | _ => True

def BooksAccounted (E : BrokerEnv π) (k : Books) : Prop :=
  Tally TrackedPending.owner k.pending k.counts ∧
    ∀ s, Dict.count (fun t => decide (t.owner = s)) k.pending ≤ E.config.maxPendingPerSandbox

theorem accounted_iff {E : BrokerEnv π} {b : Broker π} :
    Accounted E b ↔ BooksAccounted E b.books :=
  ⟨fun h => ⟨h.counts, h.limit⟩, fun h => ⟨h.1, h.2⟩⟩

theorem accounted_initial (E : BrokerEnv π) : Accounted E ({} : Broker π) :=
  ⟨Tally.empty, fun _ => Nat.zero_le _⟩

/-! ### The five paths -/

section

variable {E : BrokerEnv π} {b : Broker π} (h : Accounted E b)
include h

theorem tracked_accounted_iff {s : String} {m : NMBMessage π} (ha : b.Admissible E s m) :
    BooksAccounted E (b.tracked E s m).books ↔ b.pending.lookup m.id = none := by
  have htally := Tally.insert_iff h.counts m.id ⟨⟨m.id, s, requestTimeout E m⟩, b.nextTask⟩
  refine ⟨fun hb => htally.1 hb.1, fun hnew => ⟨htally.2 hnew, ?_⟩⟩
  intro r
  have hcount := Dict.count_insert_new (fun t : TrackedPending => decide (t.owner = r))
    ⟨⟨m.id, s, requestTimeout E m⟩, b.nextTask⟩ hnew
  have hlimit := h.limit r
  have hroom := ha.1
  rw [h.counts s] at hroom
  simp only [pendingOf] at hlimit hroom
  simp only [books, tracked, track, hcount]
  by_cases hr : s = r
  · subst hr
    simp only [TrackedPending.owner, decide_true, ite_true]
    exact hroom
  · simpa only [TrackedPending.owner, hr, decide_false, Bool.false_eq_true, ite_false,
      Nat.add_zero] using hlimit

theorem forget_accounted_iff (id s : String) {timers : Dict TaskId TimeoutTask} {n : TaskId}
    {new : List TaskId} :
    BooksAccounted E ⟨b.pending.erase id, b.lowered s, timers, n, new⟩ ↔
      (∀ t, b.pending.lookup id = some t → t.owner = s) ∧
        (b.pending.lookup id = none → (b.pendingCounts.lookup s).getD 0 = 0) := by
  have htally := Tally.forget_iff h.counts id s
  refine ⟨fun hb => htally.1 hb.1, fun hs => ⟨htally.2 hs, ?_⟩⟩
  intro r
  exact (Dict.count_erase_le _ _ _).trans (h.limit r)

theorem drop_accounted (s : String) {timers : Dict TaskId TimeoutTask} {n : TaskId}
    {new : List TaskId} :
    BooksAccounted E ⟨Dict.drop (fun t => decide (t.owner = s)) b.pending,
      b.pendingCounts.erase s, timers, n, new⟩ :=
  ⟨Tally.drop h.counts s, fun r => (Dict.count_drop_le _ _ _).trans (h.limit r)⟩

theorem book_step_accounted {e : BrokerEvent π} {k : Books} (hk : BookStep E b e k)
    (hg : KeepsCounts E b e) : BooksAccounted E k := by
  cases hk with
  | same => exact accounted_iff.1 h
  | admitted hh hm => exact (tracked_accounted_iff h hm.admissible).2 (hg _ hh hm)
  | reply hh hop hrid hp hnew =>
    -- the counter that is lowered is that of the entry just popped
    refine (forget_accounted_iff h _ _).2 ⟨?_, ?_⟩
    · intro t ht
      rw [Option.some.inj (ht.symm.trans hp)]
    · intro hn
      rw [hp] at hn
      contradiction
  | rollback hh => exact (forget_accounted_iff h _ _).2 (hg _ _ _ hh)
  | stale ht hs hp => exact accounted_iff.1 h
  | expire ht hs hp htimers hnew =>
    refine (forget_accounted_iff h _ _).2 ⟨fun t' ht' => hg _ _ ht hs ht', ?_⟩
    intro hn
    rw [hp] at hn
    contradiction
  | timedOut ht hs => exact accounted_iff.1 h
  | clear hh hc => exact drop_accounted h _

/-- A step keeps the accounting exactly if it meets `KeepsCounts`. -/
theorem step_accounted_iff {b' : Broker π} {e : BrokerEvent π} (hs : b.step E e = some b') :
    Accounted E b' ↔ KeepsCounts E b e := by
  refine ⟨?_, fun hg => accounted_iff.2 (book_step_accounted h (book_step hs) hg)⟩
  intro hb
  rw [accounted_iff] at hb
  cases e with
  | frame ws raw now =>
    cases raw with
    | error why => trivial
    | ok m =>
      intro s hh hm
      simp only [step, hh] at hs
      obtain rfl := Option.some.inj hs
      rw [books_dispatch_of_admits hm] at hb
      exact (tracked_accounted_iff h hm.admissible).1 hb
  | resume ws r =>
    cases r with
    | ok => trivial
    | connectionClosed =>
      intro s m task hh
      simp only [step, hh, Option.bind_some, resume] at hs
      obtain rfl := Option.some.inj hs
      rw [books_rollbackRequest] at hb
      exact (forget_accounted_iff h _ _).1 hb
  | timer task =>
    intro t tracked ht hsleep hp
    simp only [step, ht, hsleep, Bool.false_eq_true, ite_false] at hs
    obtain rfl := Option.some.inj hs
    obtain ⟨timers, new, -, -, hbooks⟩ := books_timeoutRequest E hp task
    rw [hbooks] at hb
    exact ((forget_accounted_iff h _ _).1 hb).1 tracked hp
  | connect | safeSend | disconnect | timerSent => trivial

end

/-- In a run of the broker the counters always agree with the pending table exactly if every step
meets `KeepsCounts`. -/
theorem pending_counts_exact_iff {E : BrokerEnv π} {tr : List (Broker π × BrokerEvent π)}
    {b : Broker π} (h : (brokerMachine E).Trace tr b) :
    Machine.Always (Accounted E) tr b ↔ Machine.Guarded (KeepsCounts E) tr :=
  h.always_iff_guarded (accounted_initial E) fun _ _ _ _ _ hb hs => step_accounted_iff hb hs

/-! ### One sandbox, one id, two requests -/

def lintRequest : NMBMessage String :=
  { op := .request, id := "m-1", toSandbox := some "b", type := some "lint.run",
    payload := some "\x7b\x7d" }

/-- Sandbox `a` sends the same request twice, and nobody has answered the first one yet. -/
def repeatedId : List (BrokerEvent String) :=
  [.connect 0 "a", .connect 1 "b", .frame 0 (.ok lintRequest) 0, .resume 0 .ok, .resume 0 .ok,
    .frame 0 (.ok lintRequest) 1]

theorem pending_counts_exact_iff_repeatedId : ∃ tr b, (brokerMachine jsonText).Trace tr b ∧
    tr.map Prod.snd = repeatedId ∧
      (Machine.Always (Accounted jsonText) tr b ↔ Machine.Guarded (KeepsCounts jsonText) tr) := by
  obtain ⟨tr, b, h, hevents, -⟩ := Machine.Trace.of_check (M := brokerMachine jsonText)
    repeatedId (p := fun _ _ => true) (by decide)
  exact ⟨tr, b, h, hevents, pending_counts_exact_iff h⟩

/-- The second request overwrites the first: the counter of `a` reads 2 with one entry left. -/
theorem pending_counts_drift : ¬ ∀ tr b, (brokerMachine jsonText).Trace tr b →
    Machine.Always (Accounted jsonText) tr b := by
  intro hall
  obtain ⟨tr, b, h, -, hb⟩ := Machine.Trace.of_check (M := brokerMachine jsonText)
    repeatedId
    (p := fun _ b => (b.pendingCounts.lookup "a").getD 0 == 2 && b.pendingOf "a" == 1) (by decide)
  have hcounts := (hall tr b h).2.counts "a"
  simp only [Bool.and_eq_true, beq_iff_eq] at hb
  omega

end Broker

end NemoClaw
