import NemoClaw.Lib.OneShot
import NemoClaw.Nmb.Endings
import NemoClaw.Nmb.Replies

/-! The outcomes of admitted requests. A timeout task stands for the request it was started for:
as long as no request is registered under a pending id and no failed forwarding rolls back an
entry that is gone, the entries and the sleeping tasks correspond. The entry of a request is then a
one-shot ticket for its outcome, and what else ends the id for the requester is a stray frame. -/

namespace NemoClaw

open Lib

/-- Timeout task `task` has not woken up yet. -/
def Books.Sleeping (k : Books) (task : TaskId) (t : TimeoutTask) : Prop :=
  k.timers.lookup task = some t ∧ t.sending = false

/-- `task` is no longer asleep, and the other tasks are as before. -/
structure Wakes (timers timers' : Dict TaskId TimeoutTask) (task : TaskId) : Prop where
  awake : ∀ t, timers'.lookup task = some t → t.sending = true
  others : ∀ u, u ≠ task → timers'.lookup u = timers.lookup u

theorem wakes_erase (timers : Dict TaskId TimeoutTask) (task : TaskId) :
    Wakes timers (timers.erase task) task :=
  ⟨by simp, fun _ hu => AList.lookup_erase_ne hu⟩

theorem wakes_insert (timers : Dict TaskId TimeoutTask) (task : TaskId) {t : TimeoutTask}
    (ht : t.sending = true) : Wakes timers (timers.insert task t) task :=
  ⟨by simpa using ht, fun _ hu => AList.lookup_insert_ne hu⟩

/-- Pending entries and sleeping tasks correspond. -/
structure Ticketed (k : Books) : Prop where
  entry_task : ∀ id tracked, k.pending.lookup id = some tracked →
    ∃ t, k.Sleeping tracked.timeoutTask t ∧ t.requestId = id ∧ t.requesterId = tracked.owner
  task_entry : ∀ task t, k.Sleeping task t →
    ∃ tracked, k.pending.lookup t.requestId = some tracked ∧ tracked.timeoutTask = task
  known : ∀ task t, k.Sleeping task t → task < k.nextTask

namespace Ticketed

variable {k : Books} (h : Ticketed k) {id : String} {tracked : TrackedPending}
include h

theorem eq_of_task {id' : String} {tracked' : TrackedPending}
    (hp : k.pending.lookup id = some tracked) (hp' : k.pending.lookup id' = some tracked')
    (htask : tracked'.timeoutTask = tracked.timeoutTask) : id' = id := by
  obtain ⟨t, hs, hid, -⟩ := h.entry_task id tracked hp
  obtain ⟨t', hs', hid', -⟩ := h.entry_task id' tracked' hp'
  rw [htask] at hs'
  obtain rfl := Option.some.inj (hs.1.symm.trans hs'.1)
  exact hid'.symm.trans hid

/-- An entry is popped and its task wakes up or is cancelled. -/
theorem close (hp : k.pending.lookup id = some tracked) {counts : Dict String ℕ}
    {timers : Dict TaskId TimeoutTask} (hw : Wakes k.timers timers tracked.timeoutTask)
    {settled : List TaskId} :
    Ticketed ⟨k.pending.erase id, counts, timers, k.nextTask, settled⟩ := by
  have hlive : ∀ u t, Books.Sleeping ⟨k.pending.erase id, counts, timers, k.nextTask,
      settled⟩ u t → k.Sleeping u t ∧ u ≠ tracked.timeoutTask := by
    intro u t hsleeping
    obtain ⟨hu, hsleep⟩ := hsleeping
    have hne : u ≠ tracked.timeoutTask := by
      intro heq
      subst heq
      simp [hw.awake t hu] at hsleep
    exact ⟨⟨(hw.others u hne).symm.trans hu, hsleep⟩, hne⟩
  refine ⟨?_, ?_, fun u t hu => h.known u t (hlive u t hu).1⟩
  · intro id' tracked' hp'
    obtain ⟨hne, hp'⟩ := Dict.lookup_erase_eq_some.1 hp'
    obtain ⟨t, ⟨ht, hsleep⟩, hid, howner⟩ := h.entry_task id' tracked' hp'
    have htask : tracked'.timeoutTask ≠ tracked.timeoutTask := fun he =>
      hne (h.eq_of_task hp hp' he)
    exact ⟨t, ⟨(hw.others _ htask).trans ht, hsleep⟩, hid, howner⟩
  · intro u t hu
    obtain ⟨hu, hne⟩ := hlive u t hu
    obtain ⟨tracked', hp', htask⟩ := h.task_entry u t hu
    refine ⟨tracked', Dict.lookup_erase_eq_some.2 ⟨?_, hp'⟩, htask⟩
    intro he
    rw [he] at hp'
    obtain rfl := Option.some.inj (hp.symm.trans hp')
    exact hne htask.symm

/-- A request is registered under an id that is not pending. -/
theorem admission (hid : k.pending.lookup id = none) {counts : Dict String ℕ}
    {t : TimeoutTask} (ht : t.requestId = id) (hsleep : t.sending = false)
    (htracked : tracked.timeoutTask = k.nextTask) (howner : t.requesterId = tracked.owner) :
    Ticketed ⟨k.pending.insert id tracked, counts, k.timers.insert k.nextTask t,
      k.nextTask + 1, k.settled⟩ := by
  have hlive : ∀ u t', Books.Sleeping ⟨k.pending.insert id tracked, counts,
      k.timers.insert k.nextTask t, k.nextTask + 1, k.settled⟩ u t' →
        k.Sleeping u t' ∨ u = k.nextTask ∧ t' = t := by
    intro u t' hsleeping
    obtain ⟨hu, hs⟩ := hsleeping
    rcases Dict.lookup_insert_eq_some.1 hu with ⟨rfl, rfl⟩ | ⟨-, hu⟩
    · exact Or.inr ⟨rfl, rfl⟩
    · exact Or.inl ⟨hu, hs⟩
  refine ⟨?_, ?_, ?_⟩
  · intro id' tracked' hp'
    rcases Dict.lookup_insert_eq_some.1 hp' with ⟨rfl, rfl⟩ | ⟨-, hp'⟩
    · refine ⟨t, ⟨?_, hsleep⟩, ht, howner⟩
      rw [htracked]
      exact AList.lookup_insert k.timers
    · obtain ⟨t', ⟨ht', hs'⟩, hid', howner'⟩ := h.entry_task id' tracked' hp'
      have hlt := h.known _ t' ⟨ht', hs'⟩
      exact ⟨t', ⟨(AList.lookup_insert_ne (Nat.ne_of_lt hlt)).trans ht', hs'⟩, hid', howner'⟩
  · intro u t' hu
    rcases hlive u t' hu with hu | ⟨rfl, rfl⟩
    · obtain ⟨tracked', hp', htask⟩ := h.task_entry u t' hu
      refine ⟨tracked', Dict.lookup_insert_eq_some.2 (Or.inr ⟨?_, hp'⟩), htask⟩
      intro he
      rw [he, hid] at hp'
      contradiction
    · exact ⟨tracked, by rw [ht]; exact AList.lookup_insert k.pending, htracked⟩
  · intro u t' hu
    rcases hlive u t' hu with hu | ⟨rfl, -⟩
    · exact Nat.lt_succ_of_lt (h.known u t' hu)
    · exact Nat.lt_succ_self _

/-- The entries that satisfy `p` are dropped and their tasks cancelled. -/
theorem dropped {p : TrackedPending → Bool} {counts : Dict String ℕ}
    {timers : Dict TaskId TimeoutTask}
    (htimers : timers = ((k.pending.entries.map Sigma.snd).filter p).foldl
      (fun timers t => timers.erase t.timeoutTask) k.timers) :
    Ticketed ⟨Dict.drop p k.pending, counts, timers, k.nextTask, k.settled⟩ := by
  have hlookup : ∀ u t, timers.lookup u = some t ↔ k.timers.lookup u = some t ∧
      ∀ id tracked, k.pending.lookup id = some tracked → tracked.timeoutTask = u →
        p tracked = false := by
    intro u t
    rw [htimers, Dict.lookup_foldl_erase (fun t : TrackedPending => t.timeoutTask)]
    split_ifs with hu
    · obtain ⟨tracked, hmem, htask⟩ := List.mem_map.1 hu
      obtain ⟨hmem, hpt⟩ := List.mem_filter.1 hmem
      obtain ⟨id, hid⟩ := Dict.mem_values.1 hmem
      simp only [false_iff, not_and]
      intro _ hall
      simp [hall id tracked hid htask] at hpt
    · refine ⟨fun hk => ⟨hk, ?_⟩, fun hk => hk.1⟩
      intro id tracked hid htask
      by_contra hpt
      refine hu (List.mem_map.2 ⟨tracked, List.mem_filter.2 ⟨?_, by simpa using hpt⟩, htask⟩)
      exact Dict.mem_values.2 ⟨id, hid⟩
  refine ⟨?_, ?_, ?_⟩
  · intro id tracked hp
    obtain ⟨hp, hkeep⟩ := Dict.lookup_drop_eq_some.1 hp
    obtain ⟨t, ⟨ht, hs⟩, hid, howner⟩ := h.entry_task id tracked hp
    refine ⟨t, ⟨(hlookup _ _).2 ⟨ht, ?_⟩, hs⟩, hid, howner⟩
    intro id' tracked' hp' htask
    obtain rfl := h.eq_of_task hp hp' htask
    obtain rfl := Option.some.inj (hp.symm.trans hp')
    exact hkeep
  · intro u t hu
    obtain ⟨ht, hall⟩ := (hlookup u t).1 hu.1
    obtain ⟨tracked, hp, htask⟩ := h.task_entry u t ⟨ht, hu.2⟩
    exact ⟨tracked, Dict.lookup_drop_eq_some.2 ⟨hp, hall _ tracked hp htask⟩, htask⟩
  · intro u t hu
    exact h.known u t ⟨((hlookup u t).1 hu.1).1, hu.2⟩

/-- The task that wakes up is that of the entry under its request id. -/
theorem own_entry {task : TaskId} {t : TimeoutTask} (ht : k.Sleeping task t)
    (hp : k.pending.lookup t.requestId = some tracked) :
    tracked.timeoutTask = task ∧ tracked.owner = t.requesterId := by
  obtain ⟨tracked', hp', htask⟩ := h.task_entry task t ht
  obtain rfl := Option.some.inj (hp.symm.trans hp')
  obtain ⟨t', ht', -, howner⟩ := h.entry_task _ tracked hp
  rw [htask] at ht'
  obtain rfl := Option.some.inj (ht.1.symm.trans ht'.1)
  exact ⟨htask, howner.symm⟩

end Ticketed

namespace Broker

variable {π : Type} {E : BrokerEnv π} {b b' : Broker π}

/-- What the outcomes need of a step: no request is registered under an id still pending, and a
request whose forwarding fails is still the entry under its id. -/
def KeepsTickets (E : BrokerEnv π) (b : Broker π) : BrokerEvent π → Prop
  | .frame ws (.ok m) now => ∀ s, b.handlers.lookup ws = some ⟨s, .recv⟩ → b.Admits E s m now →
      b.pending.lookup m.id = none
  | .resume ws .connectionClosed => ∀ s m task,
      b.handlers.lookup ws = some ⟨s, .requestDeliver m task⟩ →
        ∃ tracked, b.pending.lookup m.id = some tracked ∧ tracked.timeoutTask = task
  | _ => True

theorem book_step_ticketed {e : BrokerEvent π} {k : Books} (h : Ticketed b.books)
    (hk : BookStep E b e k) (hg : KeepsTickets E b e) : Ticketed k := by
  cases hk with
  | same => exact h
  | admitted hh hm => exact h.admission (hg _ hh hm) rfl rfl rfl rfl
  | reply hh hop hrid hp hnew => exact h.close hp (wakes_erase _ _)
  | rollback hh =>
    obtain ⟨tracked, hp, rfl⟩ := hg _ _ _ hh
    exact h.close hp (wakes_erase _ _)
  | stale ht hs hp =>
    -- a sleeping task has an entry
    obtain ⟨tracked, hp', -⟩ := h.task_entry _ _ ⟨ht, hs⟩
    cases hp.symm.trans hp'
  | expire ht hs hp htimers hnew =>
    obtain ⟨rfl, -⟩ := h.own_entry ⟨ht, hs⟩ hp
    apply h.close hp
    rcases htimers with rfl | rfl
    · exact wakes_erase _ _
    · exact wakes_insert _ _ rfl
  | @timedOut task t ht hs =>
    have hsleep : ∀ u t', Books.Sleeping ⟨b.pending, b.pendingCounts, b.timers.erase task,
        b.nextTask, b.settled⟩ u t' ↔ b.books.Sleeping u t' := by
      intro u t'
      refine ⟨fun ⟨hu, hs'⟩ => ⟨(Dict.lookup_erase_eq_some.1 hu).2, hs'⟩, fun ⟨hu, hs'⟩ => ?_⟩
      refine ⟨Dict.lookup_erase_eq_some.2 ⟨?_, hu⟩, hs'⟩
      intro heq
      subst heq
      obtain rfl := Option.some.inj (ht.symm.trans hu)
      simp [hs] at hs'
    refine ⟨?_, fun u t' hu => h.task_entry u t' ((hsleep u t').1 hu),
      fun u t' hu => h.known u t' ((hsleep u t').1 hu)⟩
    intro id tracked hp
    obtain ⟨t', ht', hrest⟩ := h.entry_task id tracked hp
    exact ⟨t', (hsleep _ _).2 ht', hrest⟩
  | clear hh hc => exact h.dropped rfl

theorem ticketed_initial : Ticketed ({} : Broker π).books := by
  refine ⟨?_, ?_, ?_⟩
  · intro id tracked hp
    contradiction
  · intro task t ht
    cases ht.1
  · intro task t ht
    cases ht.1

/-- What the timeout task of a request does when it wakes up concerns that request only: the entry
it removes, the count it lowers and the request its frame names. -/
structure OwnTimeout (b b' : Broker π) (task : TaskId) : Prop where
  removes : ∀ id tracked, b.pending.lookup id = some tracked →
    b'.pending.lookup id = some tracked ∨ tracked.timeoutTask = task
  recounts : ∀ s, b'.pendingCounts.lookup s ≠ b.pendingCounts.lookup s →
    ∃ id tracked, b.pending.lookup id = some tracked ∧ tracked.timeoutTask = task ∧
      tracked.owner = s
  timesOut : b'.sent = b.sent ∨ ∃ f tracked, b'.sent = b.sent ++ [f] ∧
    b.pending.lookup f.frame.id = some tracked ∧ tracked.timeoutTask = task ∧
      b.connections.lookup tracked.owner = some f.ws

theorem timeout_own {task : TaskId} (h : Ticketed b.books)
    (hs : b.step E (.timer task) = some b') : OwnTimeout b b' task := by
  simp only [step] at hs
  split at hs
  · rename_i t ht
    simp only [Option.ite_none_left_eq_some] at hs
    obtain ⟨hsleep, hs⟩ := hs
    obtain rfl := Option.some.inj hs
    cases hp : b.pending.lookup t.requestId with
    | none =>
      simp only [timeoutRequest, hp]
      exact ⟨fun id tracked hid => Or.inl hid, fun s hne => absurd rfl hne, Or.inl rfl⟩
    | some tracked =>
      obtain ⟨htask, howner⟩ := h.own_entry ⟨ht, by simpa using hsleep⟩ hp
      obtain ⟨timers, new, -, -, hbooks⟩ := books_timeoutRequest E hp task
      have hpending := congrArg Books.pending hbooks
      have hcounts := congrArg Books.counts hbooks
      simp only [books] at hpending hcounts
      refine ⟨?_, ?_, ?_⟩
      · intro id tracked' hid
        rw [hpending]
        by_cases he : id = t.requestId
        · subst he
          obtain rfl := Option.some.inj (hp.symm.trans hid)
          exact Or.inr htask
        · exact Or.inl (Dict.lookup_erase_eq_some.2 ⟨he, hid⟩)
      · intro s hne
        rw [hcounts] at hne
        by_cases he : s = t.requesterId
        · exact ⟨_, tracked, hp, htask, howner.trans he.symm⟩
        · exact absurd (AList.lookup_insert_ne he) hne
      · unfold timeoutRequest
        simp only [hp]
        split
        · exact Or.inl rfl
        · rename_i ws hws
          refine Or.inr ⟨_, tracked, rfl, hp, htask, ?_⟩
          rw [howner]
          exact hws
  · contradiction

/-! ### What ends a request for its requester -/

/-- The requester and the id of the request that this step admits. -/
def asked (E : BrokerEnv π) (p : Broker π × BrokerEvent π) : Option (String × String) :=
  match p.2 with
  | .frame ws (.ok m) now =>
    match p.1.handlers.lookup ws with
    | some ⟨s, .recv⟩ => if p.1.Admits E s m now then some (s, m.id) else none
    | _ => none
  | _ => none

/-- The frames by which these steps end `id` for `s`, on whichever connection of it. -/
def outcomes (E : BrokerEnv π) (s id : String) (steps : List (Broker π × BrokerEvent π)) :
    List (SentFrame π) :=
  steps.flatMap fun p => (writes E p).filter fun f => decide (p.1.Behind f.ws s ∧ Ends id f.frame)

/-- From the step that admits a request of `s` until the next one that admits a request of `s` under
the same id, `s` is sent one frame at most that ends it. -/
def SingleOutcomes (E : BrokerEnv π) (tr : List (Broker π × BrokerEvent π)) : Prop :=
  ∀ pre r mid post s id, tr = pre ++ r :: (mid ++ post) → asked E r = some (s, id) →
    (∀ p ∈ mid, asked E p ≠ some (s, id)) → (outcomes E s id (r :: mid)).length ≤ 1

/-- The step ends `id` for `s` with a frame that is not about the request pending under it: a frame
of `s` with this id is malformed, refused or lost on its way, or somebody names the id in the
`reply_to` of a SEND, REQUEST or STREAM to `s` or of a PUBLISH that gets to `s`. -/
def Stray (E : BrokerEnv π) (s id : String) (b : Broker π) : BrokerEvent π → Prop
  | .frame ws (.error _) _ => b.handlers.lookup ws = some ⟨s, .recv⟩ ∧ id = ""
  | .frame ws (.ok m) now => ∃ sender, b.handlers.lookup ws = some ⟨sender, .recv⟩ ∧
      (b.Refused E sender m now ∧ sender = s ∧ m.id = id ∨
        ¬ b.Refused E sender m now ∧ (m.op = .send ∨ m.op = .request ∨ m.op = .stream) ∧
          m.toSandbox = some s ∧ m.replyTo = some id)
  | .resume ws .connectionClosed => ∃ m, m.id = id ∧
      (b.handlers.lookup ws = some ⟨s, .sendDeliver m⟩ ∨
        b.handlers.lookup ws = some ⟨s, .streamDeliver m⟩)
  | .safeSend ws target => ∃ sender m left, m.replyTo = some id ∧ b.Behind target s ∧
      b.handlers.lookup ws = some ⟨sender, .publishFanout m left⟩
  | _ => False

/-- No stray frame ends an id for a sandbox that was admitted a request under it. -/
def Undisturbed (E : BrokerEnv π) (tr : List (Broker π × BrokerEvent π)) : Prop :=
  ∀ pre r post s id, tr = pre ++ r :: post → asked E r = some (s, id) →
    ∀ p ∈ r :: post, ¬ Stray E s id p.1 p.2

/-- What the outcomes of a run rest on. -/
structure Correlated (b : Broker π) : Prop where
  ticketed : Ticketed b.books
  tied : ∃ tag, Tied tag b
  forwards : ∀ ws s m task id tracked, b.handlers.lookup ws = some ⟨s, .requestDeliver m task⟩ →
    b.pending.lookup id = some tracked → tracked.timeoutTask = task → tracked.owner = s
  named : ∀ s ws, b.connections.lookup s = some ws → b.Behind ws s
  notices : b.NoticesDeliver

/-- A request of `s` is pending under `id`. -/
def Open (b : Broker π) (s id : String) : Prop :=
  ∃ tracked, b.pending.lookup id = some tracked ∧ tracked.owner = s

section

variable {e : BrokerEvent π} {s id : String}

theorem asked_eq_some (h : asked E (b, e) = some (s, id)) : ∃ ws m now,
    e = .frame ws (.ok m) now ∧ b.handlers.lookup ws = some ⟨s, .recv⟩ ∧ b.Admits E s m now ∧
      m.id = id := by
  unfold asked at h
  split at h
  · split at h
    · obtain ⟨hadm, heq⟩ := Option.ite_none_right_eq_some.1 h
      obtain ⟨rfl, hid⟩ := Prod.mk.inj (Option.some.inj heq)
      exact ⟨_, _, _, ‹_›, ‹_›, hadm, hid⟩
    · contradiction
  · contradiction

theorem asked_of_admits {ws : Ws} {m : NMBMessage π} {now : ℚ}
    (hh : b.handlers.lookup ws = some ⟨s, .recv⟩) (hm : b.Admits E s m now) :
    asked E (b, .frame ws (.ok m) now) = some (s, m.id) := by
  simp [asked, hh, hm]

/-- A handler and an entry that have the same timeout task are of the same request. -/
theorem forwards_step (hb : Correlated b) (h : b.step E e = some b') {ws : Ws}
    {m : NMBMessage π} {task : TaskId} {tracked : TrackedPending}
    (hh : b'.handlers.lookup ws = some ⟨s, .requestDeliver m task⟩)
    (hp : b'.pending.lookup id = some tracked) (htask : tracked.timeoutTask = task) :
    tracked.owner = s := by
  obtain ⟨tag, ht⟩ := hb.tied
  rcases forwarding_step h hh with hold | ⟨m₀, now, rfl, hrecv, -, -, rfl⟩
  · rcases pending_origin h hp with hpold | ⟨_, _, _, -, -, -, -, hnew⟩
    · exact hb.forwards ws s m task id tracked hold hpold htask
    · have hlt := (ht.forwarding ws s m task hold).1
      exact absurd (htask.symm.trans hnew) (Nat.ne_of_lt hlt)
  · rcases pending_origin h hp with hpold | ⟨ws', m', now', he, hrecv', -, -, -⟩
    · have hlt := (ht.entry id tracked hpold).1
      exact absurd htask (Nat.ne_of_lt hlt)
    · obtain ⟨rfl, -, -⟩ := BrokerEvent.frame.inj he
      exact (Handler.mk.inj (Option.some.inj (hrecv'.symm.trans hrecv))).1

theorem correlated_step (hb : Correlated b) (hg : KeepsTickets E b e) (h : b.step E e = some b') :
    Correlated b' := by
  obtain ⟨tag, ht⟩ := hb.tied
  exact ⟨book_step_ticketed hb.ticketed (book_step h) hg, tied_step ht h,
    fun ws s m task id tracked => forwards_step hb h, fun s ws => named_step hb.named h,
    noticesDeliver_step hb.notices h⟩

theorem correlated_initial : Correlated ({} : Broker π) := by
  refine ⟨ticketed_initial, ⟨_, tied_initial⟩, ?_, ?_, ?_⟩
  · intro ws s m task id tracked hh
    contradiction
  · intro s ws hc
    contradiction
  · intro ws s f left hh
    contradiction

/-- A request is pending because it was, or because it is admitted. -/
theorem open_step (h : b.step E e = some b') (hasked : asked E (b, e) ≠ some (s, id))
    (ho : b'.Open s id) : b.Open s id := by
  obtain ⟨tracked, hp, rfl⟩ := ho
  rcases pending_origin h hp with hold | ⟨ws, m, now, rfl, hh, hm, rfl, -⟩
  · exact ⟨tracked, hold, rfl⟩
  · exact absurd (asked_of_admits hh hm) hasked

theorem not_open_of_erased (h : b'.pending = b.pending.erase id) : ¬ b'.Open s id := by
  rintro ⟨tracked, hp, -⟩
  rw [h, AList.lookup_erase] at hp
  contradiction

/-- A REPLY pops the entry that it names. -/
theorem pending_of_reply {ws : Ws} {sender : String} {m : NMBMessage π} {now : ℚ}
    (hh : b.handlers.lookup ws = some ⟨sender, .recv⟩) (hop : m.op = .reply)
    (hr : ¬ b.Refused E sender m now) (hrid : m.replyTo = some id)
    (h : b.step E (.frame ws (.ok m) now) = some b') : b'.pending = b.pending.erase id := by
  rcases (dispatched_of_frame hh h).of_reply hop with
    ⟨hr', -⟩ | ⟨rid, tracked, hrid', -, ⟨-, rfl⟩ | ⟨targetWs, -, rfl⟩⟩
  · exact absurd hr' hr
  · obtain rfl := Option.some.inj (hrid.symm.trans (truthy_eq_some.1 hrid').1)
    rfl
  · obtain rfl := Option.some.inj (hrid.symm.trans (truthy_eq_some.1 hrid').1)
    rfl

/-- A frame that ends `id` for `s` and is not a stray one takes the entry of the request with it. -/
theorem closes_of_ending (hb : Correlated b) (hg : KeepsTickets E b e)
    (hstray : ¬ Stray E s id b e) (h : b.step E e = some b') {f : SentFrame π}
    (hbehind : b.Behind f.ws s) (hf : Ending E b e id f) : b.Open s id ∧ ¬ b'.Open s id := by
  cases hf with
  | copied he hh hop hr hrid ht hc =>
    subst he
    obtain rfl := eq_of_behind hbehind (hb.named _ _ hc)
    exact absurd ⟨_, hh, Or.inr ⟨hr, hop, (truthy_eq_some.1 ht).1, hrid⟩⟩ hstray
  | @replied _ _ _ _ tracked he hh hop hr hrid hp hc =>
    subst he
    have howner := eq_of_behind (hb.named _ _ hc) hbehind
    exact ⟨⟨tracked, hp, howner⟩, not_open_of_erased (pending_of_reply hh hop hr hrid h)⟩
  | fanned he hh ht hrid =>
    subst he
    exact absurd ⟨_, _, _, hrid, hbehind, hh⟩ hstray
  | @failed sender old hh hop hwhy =>
    obtain rfl := eq_of_behind ⟨old, hh⟩ hbehind
    cases hwhy with
    | malformed => exact absurd ⟨hh, rfl⟩ hstray
    | refused hr => exact absurd ⟨_, hh, Or.inl ⟨hr, rfl, rfl⟩⟩ hstray
    | lost ho =>
      rcases ho with rfl | rfl
      · exact absurd ⟨_, rfl, Or.inl hh⟩ hstray
      · exact absurd ⟨_, rfl, Or.inr hh⟩ hstray
    | @rolledBack m task =>
      obtain ⟨tracked, hp, htask⟩ := hg _ _ _ hh
      refine ⟨⟨tracked, hp, hb.forwards _ _ _ _ _ _ hh hp htask⟩, ?_⟩
      apply not_open_of_erased
      simp only [step, hh] at h
      obtain rfl := Option.some.inj h
      exact congrArg Books.pending (books_rollbackRequest b sender f.ws m task)
  | @expired task t tracked he ht hs hid hp hc =>
    subst he
    subst hid
    have howner := (hb.ticketed.own_entry ⟨ht, hs⟩ hp).2
    have hrequester := eq_of_behind (hb.named _ _ hc) hbehind
    refine ⟨⟨tracked, hp, howner.trans hrequester⟩, ?_⟩
    apply not_open_of_erased
    simp only [step, ht, hs] at h
    obtain rfl := Option.some.inj h
    obtain ⟨_, _, -, -, hbooks⟩ := books_timeoutRequest E hp task
    exact congrArg Books.pending hbooks

theorem outcomes_append (steps later : List (Broker π × BrokerEvent π)) :
    outcomes E s id (steps ++ later) = outcomes E s id steps ++ outcomes E s id later :=
  List.flatMap_append

/-- A step without stray frames ends nothing, or closes the request that is pending. -/
theorem outcomes_step (hb : Correlated b) (hg : KeepsTickets E b e) (hstray : ¬ Stray E s id b e)
    (h : b.step E e = some b') : outcomes E s id [(b, e)] = [] ∨
      b.Open s id ∧ ¬ b'.Open s id ∧ (outcomes E s id [(b, e)]).length ≤ 1 := by
  refine or_iff_not_imp_left.2 fun hnone => ?_
  obtain ⟨f, hf⟩ := List.exists_mem_of_ne_nil _ hnone
  simp only [outcomes, List.flatMap_singleton] at hf ⊢
  obtain ⟨hwritten, hcheck⟩ := List.mem_filter.1 hf
  obtain ⟨hbehind, hends⟩ := of_decide_eq_true hcheck
  obtain ⟨hopen, hclosed⟩ := closes_of_ending hb hg hstray h hbehind
    (ending_of_write h hb.notices hwritten hends)
  exact ⟨hopen, hclosed, (List.length_filter_le _ _).trans (length_writes h)⟩

/-- The step that admits a request ends nothing. -/
theorem outcomes_of_asked (hb : Correlated b) (hg : KeepsTickets E b e)
    (hstray : ¬ Stray E s id b e) (h : b.step E e = some b')
    (hasked : asked E (b, e) = some (s, id)) : outcomes E s id [(b, e)] = [] := by
  rcases outcomes_step hb hg hstray h with hnone | ⟨⟨tracked, hp, -⟩, -⟩
  · exact hnone
  · obtain ⟨ws, m, now, rfl, hh, hm, rfl⟩ := asked_eq_some hasked
    cases hp.symm.trans (hg s hh hm)

theorem oneShot_step (hb : Correlated b) (hg : KeepsTickets E b e) (hstray : ¬ Stray E s id b e)
    (h : b.step E e = some b') (hasked : asked E (b, e) ≠ some (s, id))
    {steps : List (Broker π × BrokerEvent π)}
    (ho : OneShot (b.Open s id) (outcomes E s id steps)) :
    OneShot (b'.Open s id) (outcomes E s id (steps ++ [(b, e)])) := by
  rw [outcomes_append]
  rcases outcomes_step hb hg hstray h with hnone | ⟨hopen, hclosed, hlength⟩
  · rw [hnone]
    exact ho.keep (open_step h hasked)
  · exact ho.call hopen hclosed hlength

end

/-- What follows the admission of a request, up to the next one under its id, ends it at most
once. -/
theorem oneShot_since {pre mid : List (Broker π × BrokerEvent π)} {r : Broker π × BrokerEvent π}
    {s id : String} (h : (brokerMachine E).Trace (pre ++ r :: mid) b) (hr : Correlated r.1)
    (hg : Machine.Guarded (KeepsTickets E) (r :: mid))
    (hstray : ∀ p ∈ r :: mid, ¬ Stray E s id p.1 p.2) (hasked : asked E r = some (s, id))
    (hmid : ∀ p ∈ mid, asked E p ≠ some (s, id)) :
    OneShot (b.Open s id) (outcomes E s id (r :: mid)) := by
  have hG : Machine.Guarded (fun b e => KeepsTickets E b e ∧ ¬ Stray E s id b e ∧
      asked E (b, e) ≠ some (s, id)) mid := fun p hp =>
    ⟨hg p (List.mem_cons_of_mem r hp), hstray p (List.mem_cons_of_mem r hp), hmid p hp⟩
  have hgr := hg r List.mem_cons_self
  refine (h.since (I := fun l b => Correlated b ∧ OneShot (b.Open s id) (outcomes E s id (r :: l)))
    hG ?_ ?_).2
  · intro b' hs
    refine ⟨correlated_step hr hgr hs, ?_⟩
    rw [outcomes_of_asked hr hgr (hstray r List.mem_cons_self) hs hasked]
    exact .issue _
  · intro l b e b' ⟨hb, ho⟩ ⟨hkeeps, hnot, hne⟩ hs
    exact ⟨correlated_step hb hkeeps hs, oneShot_step hb hkeeps hnot hs hne ho⟩

/-- In a run whose steps all meet `KeepsTickets` and that no stray frame disturbs, each admitted
request has at most one outcome, and each timeout task acts on its own request only. -/
theorem outcome_at_most_once {tr : List (Broker π × BrokerEvent π)}
    (h : (brokerMachine E).Trace tr b) (hg : Machine.Guarded (KeepsTickets E) tr)
    (hu : Undisturbed E tr) :
    SingleOutcomes E tr ∧
      ∀ p ∈ tr, ∀ task b', p.2 = .timer task → p.1.step E p.2 = some b' →
        OwnTimeout p.1 b' task := by
  have hall : Machine.Always Correlated tr b :=
    h.always_of_guarded hg correlated_initial fun b e b' hb hge hs => correlated_step hb hge hs
  constructor
  · rintro pre r mid post s id rfl hasked hmid
    have hrun : (brokerMachine E).Trace ((pre ++ r :: mid) ++ post) b := by simpa using h
    obtain ⟨b₁, hrun⟩ := hrun.of_append
    have hsubset : ∀ p ∈ r :: mid, p ∈ r :: (mid ++ post) := by
      intro p hp
      rw [← List.cons_append]
      exact List.mem_append_left _ hp
    have hshot : OneShot (b₁.Open s id) (outcomes E s id (r :: mid)) :=
      oneShot_since hrun (hall.1 r (by simp))
        (fun p hp => hg p (List.mem_append_right _ (hsubset p hp)))
        (fun p hp => hu pre r (mid ++ post) s id rfl hasked p (hsubset p hp)) hasked hmid
    exact hshot.once
  · intro p hp task b' he hs
    rw [he] at hs
    exact timeout_own (hall.1 p hp).ticketed hs

/-! ### A slow forward -/

def reviewRequest : NMBMessage String :=
  { op := .request, id := "m-1", toSandbox := some "b", type := some "review.run",
    timeout := some 1, payload := some "\x7b\x7d" }

/-- Sandbox `b` is slow to take the request: the timeout task of `a` wakes up first, and then the
forwarding fails. -/
def slowForward : List (BrokerEvent String) :=
  [.connect 0 "a", .connect 1 "b", .frame 0 (.ok reviewRequest) 0, .timer 0,
    .resume 0 .connectionClosed]

/-- A step that fans nothing out, fails no forwarding and reads no frame but one under a fresh id
that replies to nothing and is not refused. -/
def freshStep (E : BrokerEnv π) (b : Broker π) : BrokerEvent π → Bool
  | .frame ws (.ok m) now => (b.pending.lookup m.id).isNone && m.replyTo.isNone &&
      (b.handlers.lookup ws).all fun h => !decide (b.Refused E h.sandboxId m now)
  | .frame _ (.error _) _ | .resume _ .connectionClosed | .safeSend _ _ => false
  | _ => true

theorem keepsTickets_of_fresh {e : BrokerEvent π} (h : freshStep E b e = true) :
    KeepsTickets E b e := by
  unfold KeepsTickets
  split
  · simp only [freshStep, Bool.and_eq_true] at h
    exact fun _ _ _ => Option.isNone_iff_eq_none.1 h.1.1
  · contradiction
  · trivial

theorem not_stray_of_fresh {e : BrokerEvent π} (h : freshStep E b e = true) (s id : String) :
    ¬ Stray E s id b e := by
  intro hstray
  unfold Stray at hstray
  split at hstray
  · contradiction
  · obtain ⟨sender, hh, hstray⟩ := hstray
    simp only [freshStep, hh, Bool.and_eq_true, Option.all_some, Bool.not_eq_true',
      decide_eq_false_iff_not] at h
    rcases hstray with ⟨hr, -⟩ | ⟨-, -, -, hrid⟩
    · exact h.2 hr
    · simp [hrid] at h
  · contradiction
  · contradiction
  · exact hstray

/-- The same run up to the wake-up. -/
theorem outcome_at_most_once_timeout : ∃ tr b, (brokerMachine jsonText).Trace tr b ∧
    tr.map Prod.snd = slowForward.take 4 ∧
      (outcomes jsonText "a" "m-1" tr).map (fun f => (f.ws, f.frame.op)) = [(0, .timeout)] ∧
      SingleOutcomes jsonText tr ∧
      ∀ p ∈ tr, ∀ task b', p.2 = .timer task → p.1.step jsonText p.2 = some b' →
        OwnTimeout p.1 b' task := by
  obtain ⟨tr, b, h, hevents, hcheck⟩ := Machine.Trace.of_check (M := brokerMachine jsonText)
    (slowForward.take 4) (p := fun tr _ => tr.all (fun q => freshStep jsonText q.1 q.2) &&
      decide ((outcomes jsonText "a" "m-1" tr).map (fun f => (f.ws, f.frame.op)) =
        [(0, .timeout)])) (by decide)
  rw [Bool.and_eq_true, List.all_eq_true] at hcheck
  obtain ⟨hfresh, houtcomes⟩ := hcheck
  have hundisturbed : Undisturbed jsonText tr := by
    rintro pre r post s id rfl - p hp
    exact not_stray_of_fresh (hfresh p (List.mem_append_right pre hp)) s id
  exact ⟨tr, b, h, hevents, of_decide_eq_true houtcomes,
    outcome_at_most_once h (fun p hp => keepsTickets_of_fresh (hfresh p hp)) hundisturbed⟩

/-- The requester is sent a TIMEOUT frame and then an ERROR frame for one request. -/
theorem two_outcomes : ¬ ∀ tr b, (brokerMachine jsonText).Trace tr b →
    SingleOutcomes jsonText tr := by
  intro hall
  obtain ⟨tr, b, h, -, hcheck⟩ := Machine.Trace.of_check (M := brokerMachine jsonText)
    slowForward (p := fun tr _ => decide (∃ r ∈ tr[2]?, asked jsonText r = some ("a", "m-1") ∧
      (∀ p ∈ tr.drop 3, asked jsonText p ≠ some ("a", "m-1")) ∧
        (outcomes jsonText "a" "m-1" (r :: tr.drop 3)).length = 2)) (by decide)
  obtain ⟨r, hr, hasked, hlater, htwo⟩ := of_decide_eq_true hcheck
  have hsplit : tr = tr.take 2 ++ r :: (tr.drop 3 ++ []) := by
    obtain ⟨hlt, rfl⟩ := List.getElem?_eq_some_iff.1 hr
    rw [List.append_nil, List.getElem_cons_drop, List.take_append_drop]
  have hone := hall tr b h _ r _ [] "a" "m-1" hsplit hasked hlater
  omega

end Broker

end NemoClaw
