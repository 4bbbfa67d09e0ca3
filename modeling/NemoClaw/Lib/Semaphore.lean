import Mathlib.Data.List.Count

/-! A counting semaphore with a queue of waiters, as in `asyncio`: a release hands its permit to
the first waiter that still waits, and a waiter cancelled after that gives it back. Permits are
free or granted to a waiter that has not resumed; the rules count the two together. -/

namespace Lib

inductive Waiter
  | pending | granted | cancelled
  deriving DecidableEq, Repr

structure Semaphore (κ : Type*) where
  value : ℕ
  waiters : List (κ × Waiter) := []

namespace Semaphore

variable {κ : Type*}

/-- Free permits and permits granted to waiters. -/
def permits (s : Semaphore κ) : ℕ := s.value + s.waiters.countP fun w => decide (w.2 = .granted)

def locked (s : Semaphore κ) : Bool :=
  s.value = 0 || s.waiters.any fun w => decide (w.2 ≠ .cancelled)

/-- The first pending waiter gets its result set. -/
def grantFirst : List (κ × Waiter) → Option (List (κ × Waiter))
  | [] => none
  | (k, .pending) :: ws => some ((k, .granted) :: ws)
  | w :: ws => (grantFirst ws).map (w :: ·)

def wakeUpNext (s : Semaphore κ) : Semaphore κ :=
  match grantFirst s.waiters with
  | none => s
  | some ws => { value := s.value - 1, waiters := ws }

/-- `while self._value > 0: if not self._wake_up_next(): break` -/
def drain : ℕ → List (κ × Waiter) → Semaphore κ
  | 0, ws => ⟨0, ws⟩
  | n + 1, ws => match grantFirst ws with
    | none => ⟨n + 1, ws⟩
    | some ws' => drain n ws'

def release (s : Semaphore κ) : Semaphore κ := { s with value := s.value + 1 }.wakeUpNext

/-- `acquire` without waiting. -/
def take (s : Semaphore κ) : Semaphore κ := { s with value := s.value - 1 }

/-- `acquire` up to its await. -/
def enqueue (s : Semaphore κ) (k : κ) : Semaphore κ :=
  { s with waiters := s.waiters ++ [(k, .pending)] }

variable [DecidableEq κ]

def waiter (s : Semaphore κ) (k : κ) : Option Waiter :=
  (s.waiters.find? fun w => decide (w.1 = k)).map Prod.snd

def remove (s : Semaphore κ) (k : κ) : List (κ × Waiter) :=
  s.waiters.eraseP fun w => decide (w.1 = k)

def cancelFirst (k : κ) : List (κ × Waiter) → List (κ × Waiter)
  | [] => []
  | w :: ws => if w.1 = k then (k, .cancelled) :: ws else w :: cancelFirst k ws

/-- The task of a waiter that still waits is cancelled. -/
def cancel (s : Semaphore κ) (k : κ) : Semaphore κ :=
  { s with waiters := cancelFirst k s.waiters }

/-- `acquire` after its await: the waiter has its permit. -/
def resume (s : Semaphore κ) (k : κ) : Semaphore κ := drain s.value (s.remove k)

/-- `acquire` after its await when `CancelledError` is thrown into it. -/
def abort (s : Semaphore κ) (k : κ) : Semaphore κ :=
  drain (if s.waiter k = some .granted then s.value + 1 else s.value) (s.remove k)

omit [DecidableEq κ]

theorem countP_grantFirst {ws ws' : List (κ × Waiter)} (h : grantFirst ws = some ws') :
    ws'.countP (fun w => decide (w.2 = .granted)) =
      ws.countP (fun w => decide (w.2 = .granted)) + 1 := by
  induction ws generalizing ws' with
  | nil => contradiction
  | cons w ws ih =>
    obtain ⟨k, st⟩ := w
    cases st with
    | pending =>
      obtain rfl := Option.some.inj h
      simp
    | granted | cancelled =>
      obtain ⟨ws₁, hws₁, rfl⟩ := Option.map_eq_some_iff.1 h
      rw [List.countP_cons, List.countP_cons, ih hws₁]
      omega

theorem permits_wakeUpNext {s : Semaphore κ} (h : 0 < s.value) :
    s.wakeUpNext.permits = s.permits := by
  unfold wakeUpNext
  split
  · rfl
  · rename_i ws hws
    simp only [permits, countP_grantFirst hws]
    omega

@[simp] theorem permits_release (s : Semaphore κ) : s.release.permits = s.permits + 1 := by
  rw [release, permits_wakeUpNext (Nat.succ_pos _)]
  simp only [permits]
  omega

theorem permits_drain (n : ℕ) (ws : List (κ × Waiter)) :
    (drain n ws).permits = n + ws.countP fun w => decide (w.2 = .granted) := by
  induction n generalizing ws with
  | zero => rfl
  | succ n ih =>
    unfold drain
    split
    · rfl
    · rename_i ws' hws
      rw [ih, countP_grantFirst hws]
      omega

@[simp] theorem permits_enqueue (s : Semaphore κ) (k : κ) : (s.enqueue k).permits = s.permits := by
  simp [permits, enqueue]

theorem permits_take {s : Semaphore κ} (h : s.locked = false) :
    s.take.permits + 1 = s.permits := by
  have hpos : s.value ≠ 0 := by
    intro hz
    simp [locked, hz] at h
  simp only [permits, take]
  omega

variable [DecidableEq κ]

theorem countP_remove {s : Semaphore κ} {k : κ} {st : Waiter} (h : s.waiter k = some st) :
    s.waiters.countP (fun w => decide (w.2 = .granted)) =
      (s.remove k).countP (fun w => decide (w.2 = .granted)) +
        (if st = .granted then 1 else 0) := by
  obtain ⟨v, ws⟩ := s
  simp only [waiter, remove] at h ⊢
  induction ws with
  | nil => contradiction
  | cons w ws ih =>
    by_cases hk : w.1 = k
    · simp only [List.find?_cons, hk, decide_true, Option.map_some, Option.some.injEq] at h
      subst h
      simp [List.countP_cons, hk]
    · simp only [List.find?_cons, hk, decide_false] at h
      simp only [List.countP_cons, List.eraseP_cons, hk, decide_false, cond_false, ih h]
      omega

/-- The permit of a resumed waiter has left the semaphore. -/
theorem permits_resume {s : Semaphore κ} {k : κ} (h : s.waiter k = some .granted) :
    (s.resume k).permits + 1 = s.permits := by
  rw [resume, permits_drain]
  simp only [permits, countP_remove h, ite_true]
  omega

/-- An aborted waiter takes no permit with it. -/
theorem permits_abort {s : Semaphore κ} {k : κ} {st : Waiter} (h : s.waiter k = some st) :
    (s.abort k).permits = s.permits := by
  rw [abort, permits_drain, h]
  simp only [permits, countP_remove h, Option.some.injEq]
  split_ifs <;> omega

theorem permits_cancel {s : Semaphore κ} {k : κ} (h : s.waiter k = some .pending) :
    (s.cancel k).permits = s.permits := by
  obtain ⟨v, ws⟩ := s
  simp only [waiter, permits, cancel] at h ⊢
  congr 1
  induction ws with
  | nil => rfl
  | cons w ws ih =>
    by_cases hk : w.1 = k
    · simp only [List.find?_cons, hk, decide_true, Option.map_some, Option.some.injEq] at h
      simp [cancelFirst, hk, h]
    · simp only [List.find?_cons, hk, decide_false] at h
      simp only [cancelFirst, hk, ite_false, List.countP_cons, ih h]

end Semaphore

end Lib
