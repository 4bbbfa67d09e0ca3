import NemoClaw.Nmb.Deliveries
import NemoClaw.Nmb.Outcomes
import NemoClaw.Nmb.Replies

/-! No admitted request is forgotten. As long as clients give their requests ids of their own, a
request stays pending, with its timeout task asleep, until a frame ends it for its requester, or
until its requester is gone. -/

namespace NemoClaw

open Lib

namespace Broker

variable {π : Type}

/-- The id of the request that this step admits. -/
def admittedId (E : BrokerEnv π) (p : Broker π × BrokerEvent π) : Option String :=
  match p.2 with
  | .frame ws (.ok m) now =>
    match p.1.handlers.lookup ws with
    | some ⟨s, .recv⟩ => if p.1.Admits E s m now then some m.id else none
    | _ => none
  | _ => none

/-- The ids of the admitted requests, in order. The timeout task of each is its place. -/
def admittedIds (E : BrokerEnv π) (tr : List (Broker π × BrokerEvent π)) : List String :=
  tr.filterMap (admittedId E)

/-- The request is pending, and its timeout task asleep. -/
def Awaited (b : Broker π) (task : TaskId) (id : String) : Prop :=
  ∃ tracked t, b.pending.lookup id = some tracked ∧ tracked.timeoutTask = task ∧
    b.books.Sleeping task t ∧ t.requestId = id ∧ t.requesterId = tracked.owner

/-- The entry of the request goes, and its requester has no connection. -/
def Abandons (E : BrokerEnv π) (task : TaskId) (p : Broker π × BrokerEvent π) : Prop :=
  ∃ id tracked b', p.1.pending.lookup id = some tracked ∧ tracked.timeoutTask = task ∧
    p.1.step E p.2 = some b' ∧ b'.pending.lookup id = none ∧
      b'.connections.lookup tracked.owner = none

variable {E : BrokerEnv π} {b b' : Broker π} {e : BrokerEvent π} {tag : TaskId → String}
  {id : String} {tracked : TrackedPending}

theorem admittedId_eq_some (h : admittedId E (b, e) = some id) : ∃ ws s m now,
    e = .frame ws (.ok m) now ∧ b.handlers.lookup ws = some ⟨s, .recv⟩ ∧ b.Admits E s m now ∧
      m.id = id := by
  unfold admittedId at h
  split at h
  · split at h
    · simp only [Option.ite_none_right_eq_some, Option.some.injEq] at h
      exact ⟨_, _, _, _, ‹_›, ‹_›, h.1, h.2⟩
    · contradiction
  · contradiction

theorem admittedId_of_admits {ws : Ws} {s : String} {m : NMBMessage π} {now : ℚ}
    (hh : b.handlers.lookup ws = some ⟨s, .recv⟩) (hm : b.Admits E s m now) :
    admittedId E (b, .frame ws (.ok m) now) = some m.id := by
  simp [admittedId, hh, hm]

/-- A step that admits no request gives out no timeout task. -/
theorem nextTask_of_not_admitted (h : b.step E e = some b') (hnone : admittedId E (b, e) = none) :
    b'.nextTask = b.nextTask := by
  have hk := book_step h
  generalize hb : b'.books = k at hk
  have hnext : b'.nextTask = k.nextTask := congrArg Books.nextTask hb
  rw [hnext]
  cases hk with
  | admitted hh hm =>
    rw [admittedId_of_admits hh hm] at hnone
    contradiction
  | same | reply | rollback | stale | expire | timedOut | clear => rfl

theorem books_of_admitted {ws : Ws} {s : String} {m : NMBMessage π} {now : ℚ}
    (hh : b.handlers.lookup ws = some ⟨s, .recv⟩) (hm : b.Admits E s m now)
    (h : b.step E (.frame ws (.ok m) now) = some b') : b'.books = (b.tracked E s m).books := by
  simp only [step, hh] at h
  obtain rfl := Option.some.inj h
  exact books_dispatch_of_admits hm ws

/-! ### The timeout tasks -/

/-- The entry under an id has the timeout task that was started for it, asleep. -/
def Armed (k : Books) : Prop :=
  ∀ id tracked, k.pending.lookup id = some tracked → ∃ t, k.Sleeping tracked.timeoutTask t ∧
    t.requestId = id ∧ t.requesterId = tracked.owner

theorem armed_step (ht : Tied tag b) (ha : Armed b.books) {k : Books} (hk : BookStep E b e k) :
    Armed k := by
  -- an entry that stays keeps its task, if it is not the one that goes
  have hkeep : ∀ {timers : Dict TaskId TimeoutTask} {id : String} {tracked : TrackedPending},
      b.pending.lookup id = some tracked →
      timers.lookup tracked.timeoutTask = b.timers.lookup tracked.timeoutTask →
      ∃ t, (timers.lookup tracked.timeoutTask = some t ∧ t.sending = false) ∧ t.requestId = id ∧
        t.requesterId = tracked.owner := by
    intro timers id tracked hid hsame
    obtain ⟨t, ⟨hlookup, hsleep⟩, hnames⟩ := ha id tracked hid
    exact ⟨t, ⟨hsame.trans hlookup, hsleep⟩, hnames⟩
  cases hk with
  | same => exact ha
  | @admitted ws s m now hh hm =>
    intro id tracked hid
    rcases Dict.lookup_insert_eq_some.1 hid with ⟨rfl, rfl⟩ | ⟨-, hid⟩
    · exact ⟨_, ⟨AList.lookup_insert _, rfl⟩, rfl, rfl⟩
    · have hlt := (ht.entry id tracked hid).1
      exact hkeep hid (AList.lookup_insert_ne (Nat.ne_of_lt hlt))
  | @reply ws s m now rid gone new hh hop hrid hp hnew =>
    intro id tracked hid
    obtain ⟨hne, hid⟩ := Dict.lookup_erase_eq_some.1 hid
    refine hkeep hid (AList.lookup_erase_ne ?_)
    intro htask
    apply hne
    rw [← (ht.entry id tracked hid).2, htask, (ht.entry rid gone hp).2]
  | @rollback ws s m task hh =>
    intro id tracked hid
    obtain ⟨hne, hold⟩ := Dict.lookup_erase_eq_some.1 hid
    refine hkeep hold (AList.lookup_erase_ne ?_)
    rintro rfl
    exact hne ((ht.entry id tracked hold).2.symm.trans (ht.forwarding _ _ _ _ hh).2)
  | @stale task t hlookup hs hp =>
    intro id tracked hid
    refine hkeep hid (AList.lookup_erase_ne ?_)
    rintro rfl
    rw [← (ht.timer _ t hlookup).2, (ht.entry id tracked hid).2] at hp
    cases hid.symm.trans hp
  | @expire task t gone timers new hlookup hs hp htimers hnew =>
    intro id tracked hid
    obtain ⟨hne, hold⟩ := Dict.lookup_erase_eq_some.1 hid
    have htask : tracked.timeoutTask ≠ task := by
      rintro rfl
      exact hne ((ht.entry id tracked hold).2.symm.trans (ht.timer _ t hlookup).2)
    rcases htimers with rfl | rfl
    · exact hkeep hold (AList.lookup_erase_ne htask)
    · exact hkeep hold (AList.lookup_insert_ne htask)
  | @timedOut task t hlookup hs =>
    intro id tracked hid
    refine hkeep hid (AList.lookup_erase_ne ?_)
    rintro rfl
    obtain ⟨t', ⟨hlookup', hsleep⟩, -⟩ := ha id tracked hid
    obtain rfl := Option.some.inj (hlookup.symm.trans hlookup')
    rw [hs] at hsleep
    contradiction
  | @clear ws s msgId now hh hc =>
    intro id tracked hid
    obtain ⟨hid, howner⟩ := Dict.lookup_drop_eq_some.1 hid
    obtain ⟨t, ⟨hlookup, hsleep⟩, hnames⟩ := ha id tracked hid
    refine ⟨t, ⟨lookup_timersWithout.2 ⟨hlookup, ?_⟩, hsleep⟩, hnames⟩
    intro id' tracked' hid' htask
    have hsame : id' = id := by
      rw [← (ht.entry id' tracked' hid').2, htask, (ht.entry id tracked hid).2]
    subst hsame
    obtain rfl := Option.some.inj (hid.symm.trans hid')
    simpa using howner

/-! ### How an entry goes -/

/-- The entry is still there, or a frame ended its request, or it is gone with its requester. -/
def Followed (b' : Broker π) (id : String) (tracked : TrackedPending) : Prop :=
  b'.pending.lookup id = some tracked ∨ tracked.timeoutTask ∈ b'.settled ∨
    b'.pending.lookup id = none ∧ b'.connections.lookup tracked.owner = none

theorem followed_reply (hp : b.pending.lookup id = some tracked) {s : String} {ws : Ws}
    {m : NMBMessage π} {now : ℚ} (hop : m.op = .reply)
    (hd : Dispatched E b s ws (.ok m) now b') : Followed b' id tracked := by
  have hanswered : ∀ {rid : String}, id ≠ rid → (b.pending.erase rid).lookup id = some tracked :=
    fun hne => (AList.lookup_erase_ne hne).trans hp
  rcases hd.of_reply hop with ⟨-, code, text, a, rfl⟩ | ⟨rid, gone, -, hgone, hb'⟩
  · exact Or.inl hp
  · by_cases hid : id = rid
    · subst hid
      obtain rfl := Option.some.inj (hp.symm.trans hgone)
      rcases hb' with ⟨howner, rfl⟩ | ⟨targetWs, howner, rfl⟩
      · exact Or.inr (Or.inr ⟨AList.lookup_erase _ _, howner⟩)
      · refine Or.inr (Or.inl ?_)
        simp [settled, send, await]
    · rcases hb' with ⟨-, rfl⟩ | ⟨targetWs, -, rfl⟩
      · exact Or.inl (hanswered hid)
      · exact Or.inl (hanswered hid)

theorem followed_timeoutRequest (ha : Armed b.books)
    (hinj : ∀ i j, i < b.nextTask → j < b.nextTask → tag i = tag j → i = j) (ht : Tied tag b)
    (hp : b.pending.lookup id = some tracked) {task : TaskId} {t : TimeoutTask}
    (hlookup : b.timers.lookup task = some t) :
    Followed (b.timeoutRequest E task t) id tracked := by
  unfold timeoutRequest
  split
  · exact Or.inl hp
  · rename_i gone hgone
    by_cases hid : id = t.requestId
    · have hentry := ht.entry id tracked hp
      have htimer := ht.timer task t hlookup
      have htask : tracked.timeoutTask = task :=
        hinj _ _ hentry.1 htimer.1 (hentry.2.trans (hid.trans htimer.2.symm))
      subst htask
      obtain ⟨t', ⟨hlookup', -⟩, -, howner⟩ := ha id tracked hp
      obtain rfl := Option.some.inj (hlookup.symm.trans hlookup')
      dsimp only
      split
      · rename_i hgone'
        refine Or.inr (Or.inr ⟨?_, ?_⟩)
        · rw [hid]
          exact AList.lookup_erase _ _
        · rw [← howner]
          exact hgone'
      · refine Or.inr (Or.inl ?_)
        simp [settled, send]
    · have hold : (b.pending.erase t.requestId).lookup id = some tracked :=
        (AList.lookup_erase_ne hid).trans hp
      dsimp only
      split
      · exact Or.inl hold
      · exact Or.inl hold

/-- What a step does to an entry. -/
theorem followed_step (ha : Armed b.books)
    (hinj : ∀ i j, i < b.nextTask → j < b.nextTask → tag i = tag j → i = j) (ht : Tied tag b)
    (hp : b.pending.lookup id = some tracked) (h : b.step E e = some b')
    (hfresh : ∀ id', admittedId E (b, e) = some id' → b.pending.lookup id' = none) :
    Followed b' id tracked := by
  have hk := book_step h
  generalize hb : b'.books = k at hk
  have hpending : b'.pending = k.pending := congrArg Books.pending hb
  have hsettled : b'.settled = k.settled := congrArg Books.settled hb
  cases hk with
  | same | stale | timedOut => exact Or.inl (by rw [hpending]; exact hp)
  | @admitted ws s m now hh hm =>
    left
    have hne : id ≠ m.id := by
      rintro rfl
      cases hp.symm.trans (hfresh m.id (admittedId_of_admits hh hm))
    rw [hpending]
    exact (AList.lookup_insert_ne hne).trans hp
  | @reply ws s m now rid gone new hh hop hrid hgone hnew =>
    exact followed_reply hp hop (dispatched_of_frame hh h)
  | @rollback ws s m task hh =>
    obtain ⟨hlt, htask⟩ := ht.forwarding _ _ _ _ hh
    obtain ⟨hlt', hentry⟩ := ht.entry id tracked hp
    by_cases hid : id = m.id
    · have hsame : tracked.timeoutTask = task :=
        hinj _ _ hlt' hlt (hentry.trans (hid.trans htask.symm))
      refine Or.inr (Or.inl ?_)
      rw [hsettled, hsame]
      simp
    · left
      rw [hpending]
      exact (AList.lookup_erase_ne hid).trans hp
  | @expire task t gone timers new hlookup hs hgone htimers hnew =>
    simp only [step, hlookup, hs] at h
    obtain rfl := Option.some.inj h
    exact followed_timeoutRequest ha hinj ht hp hlookup
  | @clear ws s msgId now hh hc =>
    by_cases howner : tracked.owner = s
    · refine Or.inr (Or.inr ⟨?_, ?_⟩)
      · rw [hpending, Option.eq_none_iff_forall_ne_some]
        intro tracked' hold
        obtain ⟨hold, hother⟩ := Dict.lookup_drop_eq_some.1 hold
        obtain rfl := Option.some.inj (hp.symm.trans hold)
        simp [howner] at hother
      · simp only [step, hh] at h
        obtain rfl := Option.some.inj h
        rw [(unregister_of_registered E hc msgId now).1, howner]
        exact AList.lookup_erase _ _
    · left
      rw [hpending]
      exact Dict.lookup_drop_eq_some.2 ⟨hp, by simpa using howner⟩

/-! ### What ends a request -/

/-- The new frames that end a request name it. -/
def EndsNamed (tag : TaskId → String) (b b' : Broker π) : Prop :=
  ∃ new, b'.sent = b.sent ++ new ∧ ∀ f ∈ new, ∀ task, f.settles = some task →
    task < b.nextTask ∧ Ends (tag task) f.frame

theorem endsNamed_none {f : SentFrame π} (hsent : b'.sent = b.sent ++ [f])
    (hf : f.settles = none) : EndsNamed tag b b' := by
  refine ⟨_, hsent, ?_⟩
  intro g hg task hsettles
  obtain rfl := List.mem_singleton.1 hg
  rw [hf] at hsettles
  contradiction

theorem endsNamed_some {f : SentFrame π} {task : TaskId} (hsent : b'.sent = b.sent ++ [f])
    (hf : f.settles = some task) (hlt : task < b.nextTask) (hends : Ends (tag task) f.frame) :
    EndsNamed tag b b' := by
  refine ⟨_, hsent, ?_⟩
  intro g hg task' hsettles
  obtain rfl := List.mem_singleton.1 hg
  obtain rfl := Option.some.inj (hf.symm.trans hsettles)
  exact ⟨hlt, hends⟩

theorem endsNamed_quiet (hsent : b'.sent = b.sent) : EndsNamed tag b b' :=
  ⟨[], by rw [hsent, List.append_nil], by simp⟩

/-- A step that settles nothing ends no request. -/
theorem endsNamed_of_settled (h : b.step E e = some b') (hsettled : b'.settled = b.settled) :
    EndsNamed tag b b' := by
  obtain ⟨new, hsent⟩ := sent_grows h
  refine ⟨new, hsent, ?_⟩
  intro f hf task hsettles
  have hnone : new.filterMap SentFrame.settles = [] := by
    rw [settled, settled, hsent, List.filterMap_append] at hsettled
    exact List.append_right_eq_self.1 hsettled
  rw [List.filterMap_eq_nil_iff.1 hnone f hf] at hsettles
  contradiction

theorem endsNamed_reply (ht : Tied tag b) {s : String} {ws : Ws} {m : NMBMessage π} {now : ℚ}
    (hop : m.op = .reply) (hd : Dispatched E b s ws (.ok m) now b') : EndsNamed tag b b' := by
  rcases hd.of_reply hop with ⟨-, code, text, a, rfl⟩ |
    ⟨rid, gone, hrid, hgone, ⟨-, rfl⟩ | ⟨targetWs, -, rfl⟩⟩
  · exact endsNamed_none rfl rfl
  · exact endsNamed_quiet rfl
  · obtain ⟨hlt, htag⟩ := ht.entry rid gone hgone
    refine endsNamed_some rfl rfl hlt (Or.inl ⟨rfl, ?_⟩)
    rw [htag]
    exact (truthy_eq_some.1 hrid).1

theorem endsNamed_step (ht : Tied tag b) (h : b.step E e = some b') : EndsNamed tag b b' := by
  have hk := book_step h
  generalize hb : b'.books = k at hk
  have hsettled : b'.settled = k.settled := congrArg Books.settled hb
  cases hk with
  | same | admitted | stale | timedOut | clear => exact endsNamed_of_settled h hsettled
  | @reply ws s m now rid gone new hh hop hrid hgone hnew =>
    exact endsNamed_reply ht hop (dispatched_of_frame hh h)
  | @rollback ws s m task hh =>
    obtain ⟨hlt, htag⟩ := ht.forwarding _ _ _ _ hh
    simp only [step, hh, Option.bind_some, resume] at h
    obtain rfl := Option.some.inj h
    exact endsNamed_some rfl rfl hlt (Or.inr ⟨Or.inr rfl, htag.symm⟩)
  | @expire task t gone timers new hlookup hs hgone htimers hnew =>
    obtain ⟨hlt, htag⟩ := ht.timer task t hlookup
    simp only [step, hlookup, hs] at h
    obtain rfl := Option.some.inj h
    unfold timeoutRequest
    split
    · exact endsNamed_quiet rfl
    · dsimp only
      split
      · exact endsNamed_quiet rfl
      · exact endsNamed_some rfl rfl hlt (Or.inr ⟨Or.inl rfl, htag.symm⟩)

/-! ### Runs -/

/-- The ids of the requests, by their timeout tasks. -/
def tagOf (ids : List String) (task : TaskId) : String := ids.getD task ""

theorem tagOf_concat (ids : List String) (id : String) :
    tagOf (ids ++ [id]) = Function.update (tagOf ids) ids.length id := by
  funext task
  rcases Nat.lt_trichotomy task ids.length with hlt | rfl | hgt
  · rw [Function.update_of_ne (Nat.ne_of_lt hlt)]
    simp [tagOf, List.getElem?_append_left hlt]
  · rw [Function.update_self]
    simp [tagOf]
  · rw [Function.update_of_ne (Nat.ne_of_gt hgt)]
    have hover : (ids ++ [id]).length ≤ task := by
      simp only [List.length_append, List.length_singleton]
      omega
    simp [tagOf, List.getElem?_eq_none hover, List.getElem?_eq_none hgt.le]

theorem tagOf_eq_iff {ids : List String} {task : TaskId} (hlt : task < ids.length) :
    tagOf ids task = id ↔ ids[task]? = some id := by
  simp [tagOf, List.getElem?_eq_getElem hlt]

theorem tagOf_injective {ids : List String} (hids : ids.Nodup) (i j : TaskId)
    (hi : i < ids.length) (hj : j < ids.length) (h : tagOf ids i = tagOf ids j) : i = j := by
  have hget : ids[i]? = ids[j]? := by
    rw [(tagOf_eq_iff hj).1 rfl]
    exact (tagOf_eq_iff hi).1 h
  exact (List.getElem?_inj hi hids).1 hget

/-- What holds of the broker after these admissions. -/
structure Remembered (ids : List String) (b : Broker π) : Prop where
  next : b.nextTask = ids.length
  tied : Tied (tagOf ids) b
  armed : Armed b.books
  ends : ∀ f ∈ b.sent, ∀ task, f.settles = some task →
    task < ids.length ∧ Ends (tagOf ids task) f.frame

variable {ids : List String}

theorem Remembered.injective (hr : Remembered ids b) (hids : ids.Nodup) (i j : TaskId)
    (hi : i < b.nextTask) (hj : j < b.nextTask) (h : tagOf ids i = tagOf ids j) : i = j := by
  rw [hr.next] at hi hj
  exact tagOf_injective hids i j hi hj h

/-- An id that was never admitted is not pending. -/
theorem Remembered.fresh (hr : Remembered ids b) (hid : id ∉ ids) : b.pending.lookup id = none := by
  rw [Option.eq_none_iff_forall_ne_some]
  intro tracked hp
  obtain ⟨hlt, htag⟩ := hr.tied.entry id tracked hp
  rw [hr.next] at hlt
  exact hid (List.mem_of_getElem? ((tagOf_eq_iff hlt).1 htag))

theorem remembered_initial : Remembered [] ({} : Broker π) := by
  refine ⟨rfl, tied_initial, ?_, ?_⟩
  · intro id tracked hp
    contradiction
  · intro f hf
    contradiction

/-- Later admissions do not change what the frames so far ended. -/
theorem ends_concat (hends : ∀ f ∈ b.sent, ∀ task, f.settles = some task →
    task < ids.length ∧ Ends (tagOf ids task) f.frame) (new : List String) :
    ∀ f ∈ b.sent, ∀ task, f.settles = some task →
      task < (ids ++ new).length ∧ Ends (tagOf (ids ++ new) task) f.frame := by
  intro f hf task hsettles
  obtain ⟨hlt, hends⟩ := hends f hf task hsettles
  have hsame : tagOf (ids ++ new) task = tagOf ids task := by
    simp [tagOf, List.getElem?_append_left hlt]
  rw [hsame, List.length_append]
  exact ⟨Nat.lt_add_right _ hlt, hends⟩

theorem remembered_step (hr : Remembered ids b) (h : b.step E e = some b') :
    Remembered (ids ++ (admittedId E (b, e)).toList) b' := by
  have hends : ∀ f ∈ b'.sent, ∀ task, f.settles = some task →
      task < ids.length ∧ Ends (tagOf ids task) f.frame := by
    obtain ⟨new, hsent, hnew⟩ := endsNamed_step hr.tied h
    intro f hf task hsettles
    rw [hsent] at hf
    rcases List.mem_append.1 hf with hold | hf
    · exact hr.ends f hold task hsettles
    · rw [← hr.next]
      exact hnew f hf task hsettles
  have harmed : Armed b'.books := armed_step hr.tied hr.armed (book_step h)
  cases hadm : admittedId E (b, e) with
  | none =>
    have hnext := nextTask_of_not_admitted h hadm
    rw [Option.toList_none, List.append_nil]
    exact ⟨hnext.trans hr.next, tied_of_not_admitted hr.tied h hnext, harmed, hends⟩
  | some id =>
    obtain ⟨ws, s, m, now, rfl, hh, hm, rfl⟩ := admittedId_eq_some hadm
    have hnext : b'.nextTask = b.nextTask + 1 :=
      congrArg Books.nextTask (books_of_admitted hh hm h)
    have htied := tied_of_admitted hr.tied hh hm h
    rw [hr.next, ← tagOf_concat] at htied
    refine ⟨?_, htied, harmed, ends_concat hends [m.id]⟩
    rw [hnext, hr.next, Option.toList_some, List.length_append, List.length_singleton]

theorem settled_grows (h : b.step E e = some b') {task : TaskId} (hs : task ∈ b.settled) :
    task ∈ b'.settled := by
  obtain ⟨new, hsent⟩ := sent_grows h
  rw [settled, hsent, List.filterMap_append]
  exact List.mem_append_left _ hs

/-- A pending request is awaited. -/
theorem awaited_of_pending (hr : Remembered ids b) (hp : b.pending.lookup id = some tracked) :
    Awaited b tracked.timeoutTask id := by
  obtain ⟨t, hsleep, hid, howner⟩ := hr.armed id tracked hp
  exact ⟨tracked, t, hp, rfl, hsleep, hid, howner⟩

/-- An admitted request is awaited, was ended by a frame, or is gone with its requester. -/
def Remains (E : BrokerEnv π) (tr : List (Broker π × BrokerEvent π)) (b : Broker π)
    (task : TaskId) (id : String) : Prop :=
  Awaited b task id ∨ task ∈ b.settled ∨ ∃ p ∈ tr, Abandons E task p

theorem remains_step {tr : List (Broker π × BrokerEvent π)} {task : TaskId}
    (hr : Remembered ids b) (hr' : Remembered (ids ++ (admittedId E (b, e)).toList) b')
    (hids : (ids ++ (admittedId E (b, e)).toList).Nodup) (h : b.step E e = some b')
    (hremains : Remains E tr b task id) : Remains E (tr ++ [(b, e)]) b' task id := by
  obtain ⟨hold, -, hdisjoint⟩ := List.nodup_append.1 hids
  rcases hremains with ⟨tracked, t, hp, htask, -⟩ | hs | ⟨p, hp, habandons⟩
  · have hfresh : ∀ id', admittedId E (b, e) = some id' → b.pending.lookup id' = none := by
      intro id' hadm
      apply hr.fresh
      intro hmem
      exact hdisjoint id' hmem id' (by simp [hadm]) rfl
    subst htask
    rcases followed_step hr.armed (hr.injective hold) hr.tied hp h hfresh with
      hstays | hsettled | hgone
    · exact Or.inl (awaited_of_pending hr' hstays)
    · exact Or.inr (Or.inl hsettled)
    · have habandons : Abandons E tracked.timeoutTask (b, e) :=
        ⟨id, tracked, b', hp, rfl, h, hgone⟩
      exact Or.inr (Or.inr ⟨(b, e), by simp, habandons⟩)
  · exact Or.inr (Or.inl (settled_grows h hs))
  · exact Or.inr (Or.inr ⟨p, List.mem_append_left _ hp, habandons⟩)

theorem remains_run {tr : List (Broker π × BrokerEvent π)} (h : (brokerMachine E).Trace tr b)
    (hids : (admittedIds E tr).Nodup) : Remembered (admittedIds E tr) b ∧
      ∀ task id, (admittedIds E tr)[task]? = some id → Remains E tr b task id := by
  induction h with
  | nil => exact ⟨remembered_initial, by simp [admittedIds]⟩
  | @snoc tr b e b' _ hs ih =>
    have hsplit : admittedIds E (tr ++ [(b, e)]) =
        admittedIds E tr ++ (admittedId E (b, e)).toList := by
      cases hadm : admittedId E (b, e) <;> simp [admittedIds, List.filterMap_append, hadm]
    rw [hsplit] at hids ⊢
    obtain ⟨hr, hremains⟩ := ih (List.nodup_append.1 hids).1
    have hr' := remembered_step hr hs
    refine ⟨hr', ?_⟩
    intro task id hid
    by_cases hlt : task < (admittedIds E tr).length
    · rw [List.getElem?_append_left hlt] at hid
      exact remains_step hr hr' hids hs (hremains task id hid)
    · -- the request that this step admits
      left
      rw [List.getElem?_append_right (Nat.le_of_not_lt hlt)] at hid
      cases hadm : admittedId E (b, e) with
      | none => simp [hadm] at hid
      | some id' =>
        rw [hadm, Option.toList_some, List.getElem?_singleton] at hid
        simp only [Option.ite_none_right_eq_some, Option.some.injEq] at hid
        obtain ⟨hzero, rfl⟩ := hid
        have htask : task = b.nextTask := by
          rw [hr.next]
          exact Nat.le_antisymm (Nat.sub_eq_zero_iff_le.1 hzero) (Nat.le_of_not_lt hlt)
        obtain ⟨ws, s, m, now, rfl, hh, hm, rfl⟩ := admittedId_eq_some hadm
        have hpending := congrArg Books.pending (books_of_admitted hh hm hs)
        have hentry : b'.pending.lookup m.id =
            some ⟨⟨m.id, s, requestTimeout E m⟩, b.nextTask⟩ := by
          rw [show b'.pending = _ from hpending]
          exact AList.lookup_insert _
        rw [htask]
        exact awaited_of_pending hr' hentry

/-- As long as no two admitted requests have the same id, every one of them is pending with its
timeout task asleep, or a frame that names it has ended it, or its entry went at a moment when its
requester had no connection. -/
theorem requests_remembered {tr : List (Broker π × BrokerEvent π)}
    (h : (brokerMachine E).Trace tr b) (hids : (admittedIds E tr).Nodup) :
    ∀ task id, (admittedIds E tr)[task]? = some id →
      Awaited b task id ∨
      (∃ f ∈ b.sent, f.settles = some task ∧ Ends id f.frame) ∨
      ∃ p ∈ tr, Abandons E task p := by
  obtain ⟨hr, hremains⟩ := remains_run h hids
  intro task id hid
  rcases hremains task id hid with hawaited | hsettled | habandoned
  · exact Or.inl hawaited
  · obtain ⟨f, hf, hsettles⟩ := List.mem_filterMap.1 hsettled
    obtain ⟨hlt, hends⟩ := hr.ends f hf task hsettles
    rw [(tagOf_eq_iff hlt).2 hid] at hends
    exact Or.inr (Or.inl ⟨f, hf, hsettles, hends⟩)
  · exact Or.inr (Or.inr habandoned)

/-! ### Four requests -/

def requestTo (target id : String) : NMBMessage String :=
  { op := .request, id := id, toSandbox := some target, type := some "review.run",
    payload := some "\x7b\x7d" }

def replyTo (id : String) : NMBMessage String :=
  { op := .reply, id := "r-1", replyTo := some id, type := some "review.done",
    payload := some "\x7b\x7d" }

/-- The request is read, forwarded and acknowledged. -/
def carried (ws : Ws) (m : NMBMessage String) : List (BrokerEvent String) :=
  [.frame ws (.ok m) 0, .resume ws .ok, .resume ws .ok]

/-- One request is replied to, one times out, one is pending, and the requester of the last one
disconnects. -/
def fourRequests : List (BrokerEvent String) :=
  [.connect 0 "a", .connect 1 "b", .connect 2 "c"] ++ carried 0 (requestTo "b" "m-1") ++
    [.frame 1 (.ok (replyTo "m-1")) 1] ++ carried 0 (requestTo "b" "m-2") ++ [.timer 1] ++
      carried 0 (requestTo "b" "m-3") ++ carried 2 (requestTo "b" "m-4") ++ [.disconnect 2 "s-1" 2]

theorem requests_remembered_fourRequests : ∃ tr b, (brokerMachine jsonText).Trace tr b ∧
    tr.map Prod.snd = fourRequests ∧ admittedIds jsonText tr = ["m-1", "m-2", "m-3", "m-4"] ∧
      b.settled = [0, 1] ∧ b.pending.keys = ["m-3"] ∧
        ∀ task id, (admittedIds jsonText tr)[task]? = some id → Awaited b task id ∨
          (∃ f ∈ b.sent, f.settles = some task ∧ Ends id f.frame) ∨
            ∃ p ∈ tr, Abandons jsonText task p := by
  obtain ⟨tr, b, hrun, hevents, hp⟩ := Machine.Trace.of_check (M := brokerMachine jsonText)
    fourRequests
    (p := fun tr b => decide (admittedIds jsonText tr = ["m-1", "m-2", "m-3", "m-4"] ∧
      b.settled = [0, 1] ∧ b.pending.keys = ["m-3"])) (by decide)
  obtain ⟨hids, hsettled, hpending⟩ := of_decide_eq_true hp
  have hnodup : (admittedIds jsonText tr).Nodup := by
    rw [hids]
    decide
  exact ⟨tr, b, hrun, hevents, hids, hsettled, hpending, requests_remembered hrun hnodup⟩

end Broker

end NemoClaw
