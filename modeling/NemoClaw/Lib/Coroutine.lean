import Mathlib.Logic.Hydra
import NemoClaw.Lib.Machine

/-! Coroutines on a shared state, and pools of them. A coroutine runs from one await to the next in
one act; between two acts of it the others may change the state. In a pool the safe tasks run at any
time, and the others one after another behind them. -/

namespace Lib

inductive Coroutine (σ α : Type*)
  | done (result : α)
  | act (update : σ → σ) (next : σ → Coroutine σ α)

namespace Coroutine

variable {σ α β : Type*}

/-- What the coroutine returns and leaves when nobody else runs. -/
def run : Coroutine σ α → σ → α × σ
  | .done result, s => (result, s)
  | .act update next, s => (next s).run (update s)

def map (f : α → β) : Coroutine σ α → Coroutine σ β
  | .done result => .done (f result)
  | .act update next => .act update fun s => (next s).map f

def ReadOnly : Coroutine σ α → Prop
  | .done _ => True
  | .act update next => (∀ s, update s = s) ∧ ∀ s, (next s).ReadOnly

/-- Whatever the others do to the state, the result meets `P`. -/
def Returns (P : α → Prop) : Coroutine σ α → Prop
  | .done result => P result
  | .act _ next => ∀ s, (next s).Returns P

/-- One act later. -/
def Continues (c' c : Coroutine σ α) : Prop :=
  ∃ update next s, c = .act update next ∧ c' = next s

theorem continues_wf : WellFounded (Continues (σ := σ) (α := α)) := by
  constructor
  intro c
  induction c with
  | done result =>
    constructor
    rintro c' ⟨update, next, s, hc, -⟩
    contradiction
  | act update next ih =>
    constructor
    rintro c' ⟨update', next', s, hc, rfl⟩
    obtain ⟨rfl, rfl⟩ := Coroutine.act.inj hc
    exact ih s

theorem ReadOnly.run_snd {c : Coroutine σ α} (h : c.ReadOnly) (s : σ) : (c.run s).2 = s := by
  induction c generalizing s with
  | done result => rfl
  | act update next ih =>
    obtain ⟨hupdate, hnext⟩ := h
    rw [run, hupdate]
    exact ih s (hnext s) s

theorem ReadOnly.map {c : Coroutine σ α} (h : c.ReadOnly) (f : α → β) : (c.map f).ReadOnly := by
  induction c with
  | done result => trivial
  | act update next ih => exact ⟨h.1, fun s => ih s (h.2 s)⟩

theorem Returns.map {P : β → Prop} {f : α → β} (h : ∀ a, P (f a)) (c : Coroutine σ α) :
    (c.map f).Returns P := by
  induction c with
  | done result => exact h result
  | act update next ih => exact ih

end Coroutine

/-! ### Sequential execution -/

section Sequential

variable {κ σ α : Type*}

/-- The results of programs that run one after another, and the state they leave. -/
def sequential (program : κ → Coroutine σ α) : List κ → σ → List α × σ
  | [], s => ([], s)
  | key :: keys, s =>
    let first := (program key).run s
    let rest := sequential program keys first.2
    (first.1 :: rest.1, rest.2)

/-- The same, with each safe program on the state `w`. -/
def staged (safe : κ → Bool) (program : κ → Coroutine σ α) (w : σ) : List κ → σ → List α × σ
  | [], s => ([], s)
  | key :: keys, s =>
    let first := (program key).run (if safe key then w else s)
    let rest := staged safe program w keys (if safe key then s else first.2)
    (first.1 :: rest.1, rest.2)

variable {safe : κ → Bool} {program : κ → Coroutine σ α} {w : σ}

theorem sequential_length (keys : List κ) (s : σ) :
    (sequential program keys s).1.length = keys.length := by
  induction keys generalizing s with
  | nil => rfl
  | cons key keys ih => simp [sequential, ih]

theorem staged_length (keys : List κ) (s : σ) :
    (staged safe program w keys s).1.length = keys.length := by
  induction keys generalizing s with
  | nil => rfl
  | cons key keys ih => simp [staged, ih]

/-- Safe programs that read only may run on any state, as far as the others are concerned. -/
theorem staged_snd (h : ∀ key, safe key = true → (program key).ReadOnly) (keys : List κ) (s : σ) :
    (staged safe program w keys s).2 = (sequential program keys s).2 := by
  induction keys generalizing s with
  | nil => rfl
  | cons key keys ih =>
    rw [staged, sequential]
    by_cases hsafe : safe key = true
    · simp only [hsafe, ↓reduceIte]
      rw [ih s, (h key hsafe).run_snd s]
    · simp only [hsafe]
      exact ih _

/-- The results agree exactly if the state in front of each safe program gives it the result
that `w` gives it. -/
theorem staged_fst_eq_iff (h : ∀ key, safe key = true → (program key).ReadOnly) (keys : List κ)
    (s : σ) :
    (staged safe program w keys s).1 = (sequential program keys s).1 ↔
      ∀ before key after, keys = before ++ key :: after → safe key = true →
        ((program key).run w).1 = ((program key).run (sequential program before s).2).1 := by
  induction keys generalizing s with
  | nil => simp [staged, sequential]
  | cons key keys ih =>
    have hleave : (if safe key = true then s
        else ((program key).run (if safe key = true then w else s)).2) =
        ((program key).run s).2 := by
      by_cases hsafe : safe key = true
      · simp only [hsafe, ↓reduceIte]
        rw [(h key hsafe).run_snd s]
      · simp only [hsafe, Bool.false_eq_true, ↓reduceIte]
    rw [staged, sequential]
    simp only [hleave, List.cons.injEq, ih]
    constructor
    · rintro ⟨hfirst, hrest⟩ before key' after hkeys hsafe
      cases before with
      | nil =>
        obtain ⟨rfl, -⟩ := List.cons.inj hkeys
        simpa [hsafe, sequential] using hfirst
      | cons b before =>
        obtain ⟨rfl, htail⟩ := List.cons.inj hkeys
        exact hrest before key' after htail hsafe
    · intro hall
      constructor
      · by_cases hsafe : safe key = true
        · simpa [hsafe, sequential] using hall [] key keys rfl hsafe
        · simp [hsafe]
      · intro before key' after hkeys hsafe
        exact hall (key :: before) key' after (by rw [hkeys]; rfl) hsafe

end Sequential

/-! ### Pools -/

structure Task (κ σ α : Type*) where
  key : κ
  rest : Coroutine σ α
  result : Option α := none

structure Pool (κ σ α : Type*) where
  shared : σ
  tasks : List (Task κ σ α)

/-- What the `i`-th task does: its next act, or its return. -/
inductive PoolEvent
  | act (i : ℕ)
  | finish (i : ℕ)
  deriving DecidableEq

namespace Pool

variable {κ σ α : Type*}

/-- The `i`-th task may run: a safe one at any time, another one when all tasks before it in the
order of execution are finished. -/
def ready (safe : κ → Bool) (tasks : List (Task κ σ α)) (i : ℕ) (key : κ) : Bool :=
  safe key || tasks.zipIdx.all fun task =>
    task.1.result.isSome || (!safe task.1.key && decide (i ≤ task.2))

def step (safe : κ → Bool) (p : Pool κ σ α) : PoolEvent → Option (Pool κ σ α)
  | .act i =>
    match p.tasks[i]? with
    | some ⟨key, .act update next, none⟩ =>
      if ready safe p.tasks i key then
        some { shared := update p.shared, tasks := p.tasks.set i ⟨key, next p.shared, none⟩ }
      else none
    | _ => none
  | .finish i =>
    match p.tasks[i]? with
    | some ⟨key, .done result, none⟩ =>
      if ready safe p.tasks i key then
        some { p with tasks := p.tasks.set i ⟨key, .done result, some result⟩ }
      else none
    | _ => none

def start (program : κ → Coroutine σ α) (keys : List κ) (s : σ) : Pool κ σ α where
  shared := s
  tasks := keys.map fun key => ⟨key, program key, none⟩

def machine (safe : κ → Bool) (program : κ → Coroutine σ α) (keys : List κ) (s : σ) :
    Machine (Pool κ σ α) PoolEvent where
  init := start program keys s
  step := step safe

/-- All tasks are finished, with these results. -/
def Finished (p : Pool κ σ α) (results : List α) : Prop :=
  p.tasks.map Task.result = results.map some

variable {safe : κ → Bool}

/-- What the step of a task is: it replaces an unfinished task that is ready. -/
theorem step_eq_some {p p' : Pool κ σ α} {e : PoolEvent} (h : p.step safe e = some p') :
    ∃ i key, ready safe p.tasks i key = true ∧
      ((∃ update next, p.tasks[i]? = some ⟨key, .act update next, none⟩ ∧ e = .act i ∧
          p' = ⟨update p.shared, p.tasks.set i ⟨key, next p.shared, none⟩⟩) ∨
        ∃ result, p.tasks[i]? = some ⟨key, .done result, none⟩ ∧ e = .finish i ∧
          p' = ⟨p.shared, p.tasks.set i ⟨key, .done result, some result⟩⟩) := by
  cases e with
  | act i =>
    simp only [step] at h
    split at h
    · rename_i key update next htask
      split at h
      · rename_i hready
        exact ⟨i, key, hready, Or.inl ⟨update, next, htask, rfl, (Option.some.inj h).symm⟩⟩
      · contradiction
    · contradiction
  | finish i =>
    simp only [step] at h
    split at h
    · rename_i key result htask
      split at h
      · rename_i hready
        exact ⟨i, key, hready, Or.inr ⟨result, htask, rfl, (Option.some.inj h).symm⟩⟩
      · contradiction
    · contradiction

theorem ready_iff {tasks : List (Task κ σ α)} {i : ℕ} {key : κ} :
    ready safe tasks i key = true ↔ safe key = true ∨
      ∀ j task, tasks[j]? = some task →
        task.result.isSome = true ∨ (safe task.key = false ∧ i ≤ j) := by
  simp only [ready, Bool.or_eq_true, List.all_eq_true, Bool.and_eq_true, Bool.not_eq_true',
    decide_eq_true_eq]
  apply or_congr_right
  constructor
  · intro h j task htask
    exact h (task, j) (List.mem_zipIdx_iff_getElem?.2 htask)
  · rintro h ⟨task, j⟩ hmem
    exact h j task (List.mem_zipIdx_iff_getElem?.1 hmem)

/-! What the tasks will give, if those in progress run alone from here: the safe ones on the state
`w`, the others one after another from `s`. -/

def outcome (safe : κ → Bool) (w : σ) (task : Task κ σ α) (s : σ) : α × σ :=
  match task.result with
  | some result => (result, s)
  | none =>
    if safe task.key then ((task.rest.run w).1, s) else task.rest.run s

def outcomes (safe : κ → Bool) (w : σ) : List (Task κ σ α) → σ → List α × σ
  | [], s => ([], s)
  | task :: tasks, s =>
    let first := outcome safe w task s
    let rest := outcomes safe w tasks first.2
    (first.1 :: rest.1, rest.2)

theorem outcomes_start {program : κ → Coroutine σ α} (w : σ) (keys : List κ) (s : σ) :
    outcomes safe w (start program keys s).tasks s = staged safe program w keys s := by
  simp only [start]
  induction keys generalizing s with
  | nil => rfl
  | cons key keys ih =>
    rw [List.map_cons, outcomes, staged]
    by_cases hsafe : safe key = true <;> simp [outcome, hsafe, ih]

theorem outcomes_finished {p : Pool κ σ α} {results : List α} (h : p.Finished results) (w : σ) :
    outcomes safe w p.tasks p.shared = (results, p.shared) := by
  obtain ⟨s, tasks⟩ := p
  simp only [Finished] at h ⊢
  induction tasks generalizing results with
  | nil =>
    cases results with
    | nil => rfl
    | cons result results => simp at h
  | cons task tasks ih =>
    cases results with
    | nil => simp at h
    | cons result results =>
      rw [List.map_cons, List.map_cons] at h
      obtain ⟨hfirst, hrest⟩ := List.cons.inj h
      rw [outcomes]
      simp [outcome, hfirst, ih hrest]

/-- A task may be replaced by one that will give the same. -/
theorem outcomes_set {w : σ} {tasks : List (Task κ σ α)} {i : ℕ} {task task' : Task κ σ α}
    (hi : tasks[i]? = some task) (h : outcome safe w task' = outcome safe w task) (s : σ) :
    outcomes safe w (tasks.set i task') s = outcomes safe w tasks s := by
  induction tasks generalizing i s with
  | nil => simp at hi
  | cons first tasks ih =>
    cases i with
    | zero =>
      obtain rfl := Option.some.inj hi
      rw [List.set_cons_zero, outcomes, outcomes, h]
    | succ i =>
      rw [List.set_cons_succ, outcomes, outcomes]
      simp only [ih hi]

/-- Behind the safe tasks nothing depends on the state they ran on. -/
theorem outcomes_congr {tasks : List (Task κ σ α)}
    (h : ∀ task ∈ tasks, task.result.isSome = true ∨ safe task.key = false) (w w' s : σ) :
    outcomes safe w tasks s = outcomes safe w' tasks s := by
  induction tasks generalizing s with
  | nil => rfl
  | cons task tasks ih =>
    have hfirst : outcome safe w task s = outcome safe w' task s := by
      rcases h task (List.mem_cons_self ..) with hdone | hlate
      · obtain ⟨result, hresult⟩ := Option.isSome_iff_exists.1 hdone
        simp [outcome, hresult]
      · simp [outcome, hlate]
    rw [outcomes, outcomes, hfirst]
    simp only [ih fun t ht => h t (List.mem_cons_of_mem _ ht)]

/-- The task whose turn it is may change the state. -/
theorem outcomes_turn {w w' s s' : σ} {tasks : List (Task κ σ α)} {i : ℕ} {task task' : Task κ σ α}
    (hi : tasks[i]? = some task)
    (hturn : ∀ j other, tasks[j]? = some other →
      other.result.isSome = true ∨ (safe other.key = false ∧ i ≤ j))
    (h : outcome safe w' task' s' = outcome safe w task s) :
    outcomes safe w' (tasks.set i task') s' = outcomes safe w tasks s := by
  induction tasks generalizing i with
  | nil => simp at hi
  | cons first tasks ih =>
    cases i with
    | zero =>
      obtain rfl := Option.some.inj hi
      rw [List.set_cons_zero, outcomes, outcomes, h]
      have hrest : ∀ other ∈ tasks, other.result.isSome = true ∨ safe other.key = false := by
        intro other hother
        obtain ⟨j, hj⟩ := List.mem_iff_getElem?.1 hother
        exact (hturn (j + 1) other hj).imp id And.left
      simp only [outcomes_congr hrest w w']
    | succ i =>
      have hdone : first.result.isSome = true := by
        rcases hturn 0 first rfl with hdone | ⟨-, hle⟩
        · exact hdone
        · omega
      obtain ⟨result, hresult⟩ := Option.isSome_iff_exists.1 hdone
      have hrest := ih hi fun j other hj =>
        (hturn (j + 1) other hj).imp id fun hlater => ⟨hlater.1, by omega⟩
      rw [List.set_cons_succ, outcomes, outcomes]
      simp only [outcome, hresult, hrest]

/-- The tasks of a pool: those of these keys, safe ones reading only, with results in `P`. -/
structure Sound (safe : κ → Bool) (P : κ → α → Prop) (keys : List κ) (p : Pool κ σ α) : Prop where
  keys_eq : p.tasks.map Task.key = keys
  readOnly : ∀ task ∈ p.tasks, safe task.key = true → task.rest.ReadOnly
  returns : ∀ task ∈ p.tasks, task.rest.Returns (P task.key)

theorem sound_start {program : κ → Coroutine σ α} {P : κ → α → Prop}
    (hsafe : ∀ key, safe key = true → (program key).ReadOnly)
    (hP : ∀ key, (program key).Returns (P key)) (keys : List κ) (s : σ) :
    Sound safe P keys (start program keys s) := by
  refine ⟨by simp [start, Function.comp_def], ?_, ?_⟩
  · intro task htask
    obtain ⟨key, -, rfl⟩ := List.mem_map.1 htask
    exact hsafe key
  · intro task htask
    obtain ⟨key, -, rfl⟩ := List.mem_map.1 htask
    exact hP key

theorem sound_set {P : κ → α → Prop} {keys : List κ} {p : Pool κ σ α} (hp : Sound safe P keys p)
    {i : ℕ} {task : Task κ σ α} (hi : p.tasks[i]? = some task) (task' : Task κ σ α)
    (hkey : task'.key = task.key) (hro : safe task'.key = true → task'.rest.ReadOnly)
    (hret : task'.rest.Returns (P task'.key)) (s : σ) :
    Sound safe P keys ⟨s, p.tasks.set i task'⟩ := by
  refine ⟨?_, ?_, ?_⟩
  · obtain ⟨hlt, rfl⟩ := List.getElem?_eq_some_iff.1 hi
    have hsame : (p.tasks.map Task.key).get ⟨i, by simpa using hlt⟩ = task'.key := by
      simp [hkey]
    rw [List.map_set, ← hsame, ← hp.keys_eq]
    exact List.set_getElem_self _
  · intro other hother
    rcases List.mem_or_eq_of_mem_set hother with hmem | rfl
    · exact hp.readOnly other hmem
    · exact hro
  · intro other hother
    rcases List.mem_or_eq_of_mem_set hother with hmem | rfl
    · exact hp.returns other hmem
    · exact hret

/-- A step leaves what the tasks will give as it was. -/
theorem step_outcomes {P : κ → α → Prop} {keys : List κ} {p p' : Pool κ σ α} {e : PoolEvent}
    (hp : Sound safe P keys p) (h : p.step safe e = some p') :
    Sound safe P keys p' ∧
      outcomes safe p'.shared p'.tasks p'.shared = outcomes safe p.shared p.tasks p.shared := by
  obtain ⟨i, key, hready, hcase⟩ := step_eq_some h
  rcases hcase with ⟨update, next, hi, -, rfl⟩ | ⟨result, hi, -, rfl⟩
  · have hmem := List.mem_of_getElem? hi
    refine ⟨sound_set hp hi ⟨key, next p.shared, none⟩ rfl
      (fun hsafe => (hp.readOnly _ hmem hsafe).2 _) (hp.returns _ hmem _) _, ?_⟩
    rcases ready_iff.1 hready with hsafe | hturn
    · -- a safe task leaves the state, so it will still give what it would have given
      obtain ⟨hupdate, -⟩ := hp.readOnly _ hmem hsafe
      simp only [hupdate]
      apply outcomes_set hi
      funext s
      simp [outcome, hsafe, Coroutine.run, hupdate]
    · apply outcomes_turn hi hturn
      have hlate : safe key = false := by
        rcases hturn i _ hi with hdone | ⟨hlate, -⟩
        · contradiction
        · exact hlate
      simp [outcome, hlate, Coroutine.run]
  · have hmem := List.mem_of_getElem? hi
    have hro : safe key = true → (Coroutine.done result : Coroutine σ α).ReadOnly :=
      hp.readOnly _ hmem
    have hret : (Coroutine.done result : Coroutine σ α).Returns (P key) := hp.returns _ hmem
    refine ⟨sound_set hp hi ⟨key, .done result, some result⟩ rfl hro hret _, ?_⟩
    apply outcomes_set hi
    funext s
    by_cases hsafe : safe key = true <;> simp [outcome, hsafe, Coroutine.run]

/-- In every run the results are those of the staged execution. -/
theorem run_outcomes {program : κ → Coroutine σ α} {keys : List κ} {w : σ}
    (hsafe : ∀ key, safe key = true → (program key).ReadOnly) {P : κ → α → Prop}
    (hP : ∀ key, (program key).Returns (P key)) {tr : List (Pool κ σ α × PoolEvent)}
    {p : Pool κ σ α} (h : (machine safe program keys w).Trace tr p) :
    Sound safe P keys p ∧
      outcomes safe p.shared p.tasks p.shared = staged safe program w keys w := by
  apply h.invariant (I := fun p => Sound safe P keys p ∧
    outcomes safe p.shared p.tasks p.shared = staged safe program w keys w)
  · exact ⟨sound_start hsafe hP keys w, outcomes_start w keys w⟩
  rintro s e s' ⟨hs, hout⟩ he
  obtain ⟨hs', hout'⟩ := step_outcomes hs he
  exact ⟨hs', hout'.trans hout⟩

/-! ### Every pool comes to its end -/

/-- The coroutines of the tasks in progress. -/
def pending (p : Pool κ σ α) : Multiset (Coroutine σ α) :=
  (p.tasks.filter fun task => task.result.isNone).map Task.rest

theorem pending_set {p : Pool κ σ α} {i : ℕ} {task : Task κ σ α} (hi : p.tasks[i]? = some task)
    (htask : task.result = none) (task' : Task κ σ α) (s : σ) :
    pending ⟨s, p.tasks.set i task'⟩ + {task.rest} =
      pending p + if task'.result.isNone then {task'.rest} else 0 := by
  obtain ⟨shared, tasks⟩ := p
  simp only [pending] at hi ⊢
  induction tasks generalizing i with
  | nil => simp at hi
  | cons first tasks ih =>
    cases i with
    | zero =>
      obtain rfl := Option.some.inj hi
      by_cases hdone : task'.result.isNone = true
      · simp only [List.set_cons_zero, List.filter_cons, hdone, htask, Option.isNone_none,
          ↓reduceIte, List.map_cons, ← Multiset.cons_coe, ← Multiset.singleton_add]
        rw [add_comm, ← add_assoc]
        exact add_right_comm _ _ _
      · simp only [List.set_cons_zero, List.filter_cons, hdone, htask, Option.isNone_none,
          ↓reduceIte, List.map_cons, ← Multiset.cons_coe, ← Multiset.singleton_add, add_zero,
          Bool.false_eq_true]
        exact add_comm _ _
    | succ i =>
      have hrest := ih hi
      by_cases hfirst : first.result.isNone = true
      · simp only [List.set_cons_succ, List.filter_cons, hfirst, ↓reduceIte, List.map_cons,
          ← Multiset.cons_coe, ← Multiset.singleton_add]
        rw [add_assoc, hrest, add_assoc]
      · simpa [List.filter_cons, hfirst] using hrest

/-- No pool runs for ever. -/
theorem step_wf (safe : κ → Bool) :
    WellFounded fun p' p : Pool κ σ α => ∃ e, p.step safe e = some p' := by
  refine Subrelation.wf ?_ (InvImage.wf pending (Coroutine.continues_wf.cutExpand))
  rintro p' p ⟨e, h⟩
  obtain ⟨i, key, -, ⟨update, next, hi, -, rfl⟩ | ⟨result, hi, -, rfl⟩⟩ := step_eq_some h
  · refine ⟨{next p.shared}, .act update next, ?_, pending_set hi rfl _ _⟩
    intro c hc
    rw [Multiset.mem_singleton.1 hc]
    exact ⟨update, next, p.shared, rfl, rfl⟩
  · exact ⟨0, .done result, by simp, pending_set hi rfl _ _⟩

/-- Of the keys without a result, a safe one or else the first has its turn. -/
theorem exists_turn {ρ : Type*} (safe : κ → Bool) {slots : List (κ × Option ρ)}
    (h : ∃ slot ∈ slots, slot.2 = none) :
    ∃ i : ℕ, ∃ key, slots[i]? = some (key, none) ∧ (safe key = true ∨
      ∀ j : ℕ, ∀ other, ∀ result : Option ρ, slots[j]? = some (other, result) →
        result.isSome = true ∨ (safe other = false ∧ i ≤ j)) := by
  by_cases hsafe : ∃ key, (key, none) ∈ slots ∧ safe key = true
  · obtain ⟨key, hmem, hsafe⟩ := hsafe
    obtain ⟨i, hi⟩ := List.mem_iff_getElem?.1 hmem
    exact ⟨i, key, hi, Or.inl hsafe⟩
  · have hex : ∃ i : ℕ, ∃ key, slots[i]? = some (key, none) := by
      obtain ⟨⟨key, result⟩, hmem, rfl⟩ := h
      obtain ⟨i, hi⟩ := List.mem_iff_getElem?.1 hmem
      exact ⟨i, key, hi⟩
    classical
    obtain ⟨key, hi⟩ := Nat.find_spec hex
    refine ⟨Nat.find hex, key, hi, Or.inr ?_⟩
    intro j other result hj
    cases result with
    | some result => exact Or.inl rfl
    | none =>
      refine Or.inr ⟨?_, Nat.find_min' hex ⟨other, hj⟩⟩
      by_contra hother
      exact hsafe ⟨other, List.mem_of_getElem? hj, by simpa using hother⟩

theorem step_of_ready {p : Pool κ σ α} {i : ℕ} {task : Task κ σ α} (hi : p.tasks[i]? = some task)
    (hnone : task.result = none) (hready : ready safe p.tasks i task.key = true) :
    ∃ e, (p.step safe e).isSome = true := by
  obtain ⟨key, rest, result⟩ := task
  obtain rfl : result = none := hnone
  cases rest with
  | done result => exact ⟨.finish i, by simp [step, hi, hready]⟩
  | act update next => exact ⟨.act i, by simp [step, hi, hready]⟩

theorem finished_of_all (p : Pool κ σ α) (hall : ∀ task ∈ p.tasks, task.result.isSome = true) :
    ∃ results, p.Finished results := by
  obtain ⟨s, tasks⟩ := p
  refine ⟨tasks.filterMap Task.result, ?_⟩
  simp only [Finished] at hall ⊢
  induction tasks with
  | nil => rfl
  | cons task tasks ih =>
    obtain ⟨hfirst, hrest⟩ := List.forall_mem_cons.1 hall
    obtain ⟨result, hresult⟩ := Option.isSome_iff_exists.1 hfirst
    rw [List.filterMap_cons_some hresult, List.map_cons, List.map_cons, hresult, ih hrest]

/-- A pool goes on until all its tasks are finished. -/
theorem finished_or_step (safe : κ → Bool) (p : Pool κ σ α) :
    (∃ results, p.Finished results) ∨ ∃ e, (p.step safe e).isSome = true := by
  by_cases hall : ∀ task ∈ p.tasks, task.result.isSome = true
  · exact Or.inl (p.finished_of_all hall)
  · have hslot : ∃ slot ∈ p.tasks.map (fun task => (task.key, task.result)), slot.2 = none := by
      push Not at hall
      obtain ⟨task, hmem, hnone⟩ := hall
      exact ⟨_, List.mem_map_of_mem hmem, by simpa using hnone⟩
    obtain ⟨i, key, hi, hturn⟩ := exists_turn safe hslot
    rw [List.getElem?_map, Option.map_eq_some_iff] at hi
    obtain ⟨task, hi, heq⟩ := hi
    obtain ⟨rfl, hnone⟩ := Prod.mk.inj heq
    refine Or.inr (step_of_ready hi hnone (ready_iff.2 (hturn.imp id ?_)))
    intro hlater j other hj
    exact hlater j other.key other.result (by rw [List.getElem?_map, hj]; rfl)

end Pool

end Lib
