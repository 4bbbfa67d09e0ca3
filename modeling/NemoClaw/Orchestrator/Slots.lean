import NemoClaw.Orchestrator.Delegation

/-! The concurrency slots of the delegation manager. A slot is a free permit, a live handle or
held by a call between the two; `delegate` decides twice, at different times, whether it holds
one. A run keeps the balance exactly as long as the two decisions agree. -/

namespace NemoClaw

open Lib

namespace DelegationManager

variable {cfg : DelegationConfig} {m m' : DelegationManager}

/-- A call has a slot to install or to give back: the permit it acquired, or the one it took out
of `_spawned` with its own handle. -/
def holds (call : DelegateCall) : Bool :=
  match call.phase with
  | .spawning acquired => acquired
  | .failing _ popped => popped
  | _ => false

def holders (m : DelegationManager) : ℕ := Dict.count holds m.calls

/-- All slots, wherever they are. A permit granted to a waiter that has not resumed yet is counted
with the permits. -/
def slots (m : DelegationManager) : ℕ :=
  m.semaphore.permits + Dict.size m.spawned + m.holders

/-- No slot is lost or made up, and there are no more live workflows than slots. -/
structure Balanced (cfg : DelegationConfig) (m : DelegationManager) : Prop where
  slots : m.slots = cfg.maxConcurrent
  live : Dict.size m.spawned ≤ cfg.maxConcurrent

/-- A call of this workflow that leaves `phase` and what it finds in `_spawned` agree: a call that
installs its handle, or gives up before that, holds a new slot exactly if its workflow has none;
one that is cancelled after it installed finds the workflow still installed; and one that failed
to send holds a slot in the end exactly if its workflow has none. -/
def Agrees (m : DelegationManager) (workflowId : String) : DelegatePhase → Resumption → Prop
  | .spawning acquired, _ => acquired = true ↔ m.spawned.lookup workflowId = none
  | .stoppingPrevious _ _, .cancelled | .sending _, .cancelled => m.spawned.lookup workflowId ≠ none
  | .failing _ popped, _ => popped = true ↔ m.spawned.lookup workflowId = none
  | _, _ => True

/-- What the balance needs of a step: a call that moves agrees with `_spawned`. -/
def KeepsSlots (m : DelegationManager) : DelegationEvent → Prop
  | .call c r => ∀ task phase, m.calls.lookup c = some ⟨task, phase⟩ →
      m.Agrees task.workflowId.val phase r
  | _ => True

theorem balanced_iff : Balanced cfg m ↔ m.slots = cfg.maxConcurrent := by
  refine ⟨fun h => h.slots, fun h => ⟨h, ?_⟩⟩
  rw [← h]
  unfold slots
  omega

/-! ### What each part of a step does to the slots -/

theorem ite_eq_toNat (p : Bool) : (if p = true then 1 else 0) = p.toNat := by
  cases p <;> rfl

theorem slots_setCall_new {c : CallId} (h : m.calls.lookup c = none) (task : TaskAssignPayload)
    (phase : DelegatePhase) :
    (m.setCall c task phase).slots = m.slots + (holds ⟨task, phase⟩).toNat := by
  simp only [slots, holders, setCall, Dict.count_insert_new holds _ h, ite_eq_toNat]
  omega

theorem slots_setCall {c : CallId} {task : TaskAssignPayload} {old : DelegatePhase}
    (h : m.calls.lookup c = some ⟨task, old⟩) (phase : DelegatePhase) :
    (m.setCall c task phase).slots + (holds ⟨task, old⟩).toNat =
      m.slots + (holds ⟨task, phase⟩).toNat := by
  simp only [slots, holders, setCall, Dict.count_insert, Dict.count_erase holds h, ite_eq_toNat]
  omega

theorem slots_releaseUnlessSpawned (m : DelegationManager) (workflowId : String) :
    (m.releaseUnlessSpawned workflowId).slots =
      m.slots + (!m.workflowSpawned workflowId).toNat := by
  unfold releaseUnlessSpawned
  split_ifs with h
  · simp [h]
  · simp only [slots, holders, Semaphore.permits_release, h, Bool.not_false, Bool.toNat_true]
    omega

theorem workflowSpawned_eq_false {workflowId : String} :
    m.workflowSpawned workflowId = false ↔ m.spawned.lookup workflowId = none := by
  simp [workflowSpawned]

/-- A call that ends with an exception gives back a slot if its workflow has none. -/
theorem slots_raise {c : CallId} {task : TaskAssignPayload} {old : DelegatePhase}
    (h : m.calls.lookup c = some ⟨task, old⟩) :
    (m.raise c task).slots + (holds ⟨task, old⟩).toNat =
      m.slots + (!m.workflowSpawned task.workflowId.val).toNat := by
  have hc : (m.releaseUnlessSpawned task.workflowId.val).calls.lookup c = some ⟨task, old⟩ := by
    unfold releaseUnlessSpawned
    split_ifs <;> exact h
  have hset := slots_setCall hc .raised
  rw [slots_releaseUnlessSpawned] at hset
  exact hset

theorem slots_install {c : CallId} {task : TaskAssignPayload} {acquired : Bool}
    (h : m.calls.lookup c = some ⟨task, .spawning acquired⟩) :
    (m.install c task).slots + acquired.toNat =
      m.slots + (!m.workflowSpawned task.workflowId.val).toNat := by
  unfold install workflowSpawned
  cases hw : m.spawned.lookup task.workflowId.val with
  | none =>
    dsimp only
    have hset := slots_setCall (m := { m with
      spawned := m.spawned.insert task.workflowId.val ⟨task.agentId.val, c⟩ }) h
        (.sending ⟨task.agentId.val, c⟩)
    simp only [slots, holders, holds, Dict.size_insert_new _ hw] at hset ⊢
    simp only [Option.isSome_none, Bool.not_false, Bool.toNat_true, Bool.toNat_false] at hset ⊢
    omega
  | some previous =>
    dsimp only
    have hset := slots_setCall (m := { m with
      spawned := m.spawned.insert task.workflowId.val ⟨task.agentId.val, c⟩
      terminated := m.terminated ++ [previous] }) h
        (.stoppingPrevious ⟨task.agentId.val, c⟩ previous)
    simp only [slots, holders, holds, Dict.size_insert_old _ hw] at hset ⊢
    simp only [Option.isSome_some, Bool.not_true, Bool.toNat_false] at hset ⊢
    omega

theorem slots_failSend {c : CallId} {task : TaskAssignPayload} {agent : SpawnedAgent}
    (h : m.calls.lookup c = some ⟨task, .sending agent⟩) :
    (m.failSend c task agent).slots = m.slots := by
  unfold failSend
  by_cases hown : m.spawned.lookup task.workflowId.val = some agent
  · have hset := slots_setCall (m := { m with
      spawned := m.spawned.erase task.workflowId.val
      terminated := m.terminated ++ [agent] }) h (.failing agent true)
    have hsize := Dict.size_erase hown
    simp only [hown, decide_true, ite_true]
    simp only [slots, holders, holds, Bool.toNat_true, Bool.toNat_false] at hset ⊢
    omega
  · have hset := slots_setCall (m := { m with terminated := m.terminated ++ [agent] }) h
      (.failing agent false)
    simp only [hown, decide_false, Bool.false_eq_true, ite_false]
    simp only [slots, holders, holds, Bool.toNat_false] at hset ⊢
    omega

theorem slots_terminate (m : DelegationManager) (workflowId : String) :
    (m.terminate workflowId).slots = m.slots := by
  unfold terminate
  split
  · rfl
  · rename_i agent hw
    have hsize := Dict.size_erase hw
    simp only [slots, holders, Semaphore.permits_release]
    omega

theorem slots_delegate {c : CallId} (h : m.calls.lookup c = none) (task : TaskAssignPayload) :
    (m.delegate cfg c task).slots = m.slots := by
  unfold delegate
  split_ifs with hdepth hlive hlocked
  · rw [slots_setCall_new h]
    rfl
  · rw [slots_setCall_new h]
    rfl
  · rw [slots_setCall_new (m := { m with semaphore := m.semaphore.enqueue c }) h]
    simp [slots, holders, holds]
  · rw [slots_setCall_new (m := { m with semaphore := m.semaphore.take }) h]
    have htake := Semaphore.permits_take (by simpa using hlocked)
    simp only [slots, holders, holds, Bool.toNat_true]
    omega

/-! ### Steps and runs -/

/-- The number of slots stays the same exactly if a slot is held and none is live, or none is held
and one is live. -/
theorem slots_eq_iff {held : Bool} {workflowId : String}
    (h : m'.slots + held.toNat = m.slots + (!m.workflowSpawned workflowId).toNat) :
    m'.slots = m.slots ↔ (held = true ↔ m.spawned.lookup workflowId = none) := by
  rw [← workflowSpawned_eq_false]
  generalize m.workflowSpawned workflowId = live at h ⊢
  cases held <;> cases live <;> simp at h ⊢ <;> omega

theorem slots_advance_iff {c : CallId} {task : TaskAssignPayload} {phase : DelegatePhase}
    (h : m.calls.lookup c = some ⟨task, phase⟩) {r : Resumption}
    (hs : m.advance c task phase r = some m') :
    m'.slots = m.slots ↔ m.Agrees task.workflowId.val phase r := by
  cases phase with
  | acquiring =>
    refine iff_of_true ?_ trivial
    cases r with
    | raised => contradiction
    | cancelRequested =>
      simp only [advance, Option.ite_none_right_eq_some] at hs
      obtain ⟨hw, hs⟩ := hs
      obtain rfl := Option.some.inj hs
      simp [slots, holders, Semaphore.permits_cancel hw]
    | resumed =>
      simp only [advance, Option.ite_none_right_eq_some] at hs
      obtain ⟨hw, hs⟩ := hs
      obtain rfl := Option.some.inj hs
      have hset := slots_setCall (m := { m with semaphore := m.semaphore.resume c }) h
        (.spawning true)
      have hpermits := Semaphore.permits_resume hw
      simp only [slots, holders, holds, Bool.toNat_true, Bool.toNat_false] at hset ⊢
      omega
    | cancelled =>
      simp only [advance, Option.ite_none_right_eq_some] at hs
      obtain ⟨hw, hs⟩ := hs
      obtain rfl := Option.some.inj hs
      have hset := slots_setCall (m := { m with semaphore := m.semaphore.abort c }) h .raised
      have hpermits : (m.semaphore.abort c).permits = m.semaphore.permits := by
        rcases hw with hw | hw <;> exact Semaphore.permits_abort hw
      simp only [slots, holders, holds, Bool.toNat_false] at hset ⊢
      omega
  | spawning acquired =>
    cases r with
    | cancelRequested => contradiction
    | resumed =>
      obtain rfl := Option.some.inj hs
      exact slots_eq_iff (slots_install h)
    | raised | cancelled =>
      obtain rfl := Option.some.inj hs
      exact slots_eq_iff (slots_raise h)
  | stoppingPrevious agent previous =>
    cases r with
    | cancelRequested => contradiction
    | resumed | raised =>
      obtain rfl := Option.some.inj hs
      exact iff_of_true (slots_setCall h _) trivial
    | cancelled =>
      obtain rfl := Option.some.inj hs
      have := slots_eq_iff (slots_raise h)
      simpa [holds, Agrees] using this
  | sending agent =>
    cases r with
    | cancelRequested => contradiction
    | resumed =>
      obtain rfl := Option.some.inj hs
      exact iff_of_true (slots_setCall h _) trivial
    | raised =>
      obtain rfl := Option.some.inj hs
      exact iff_of_true (slots_failSend h) trivial
    | cancelled =>
      obtain rfl := Option.some.inj hs
      have := slots_eq_iff (slots_raise h)
      simpa [holds, Agrees] using this
  | failing agent popped =>
    cases r with
    | cancelRequested => contradiction
    | resumed | raised | cancelled =>
      obtain rfl := Option.some.inj hs
      exact slots_eq_iff (slots_raise h)
  | returned | raised => cases r <;> cases hs

/-- A step keeps the number of slots exactly if it meets `KeepsSlots`. -/
theorem slots_step_iff {e : DelegationEvent} (hs : m.step cfg e = some m') :
    m'.slots = m.slots ↔ KeepsSlots m e := by
  cases e with
  | delegate c task =>
    simp only [step, Option.ite_none_left_eq_some] at hs
    obtain ⟨hnew, hs⟩ := hs
    obtain rfl := Option.some.inj hs
    exact iff_of_true (slots_delegate (by simpa using hnew) task) trivial
  | call c r =>
    obtain ⟨⟨task, phase⟩, hc, hs⟩ := Option.bind_eq_some_iff.1 hs
    rw [slots_advance_iff hc hs]
    refine ⟨?_, fun hk => hk task phase hc⟩
    intro hagree task' phase' hc'
    obtain ⟨rfl, rfl⟩ := DelegateCall.mk.inj (Option.some.inj (hc.symm.trans hc'))
    exact hagree
  | terminate workflowId =>
    obtain rfl := Option.some.inj hs
    exact iff_of_true (slots_terminate m workflowId) trivial
  | close k =>
    simp only [step, Option.ite_none_left_eq_some] at hs
    obtain rfl := Option.some.inj hs.2
    exact iff_of_true rfl trivial
  | closeNext k =>
    simp only [step] at hs
    split at hs
    · contradiction
    · contradiction
    · obtain rfl := Option.some.inj hs
      exact iff_of_true (slots_terminate _ _) trivial

/-- In a run of the delegation manager the slots are always in balance exactly if every step meets
`KeepsSlots`. -/
theorem slots_balanced_iff {tr : List (DelegationManager × DelegationEvent)}
    (h : (delegationMachine cfg).Trace tr m) :
    Machine.Always (Balanced cfg) tr m ↔ Machine.Guarded KeepsSlots tr := by
  apply h.always_iff_guarded (balanced_iff.2 rfl)
  intro _ _ _ _ _ hb hs
  rw [balanced_iff, ← slots_step_iff hs, hb.slots]

/-! ### Two delegates of one workflow -/

/-- Two calls for a new workflow both acquire a permit before either installs its handle. -/
def delegatedTwice : List DelegationEvent :=
  [.delegate 0 fixBugTask, .delegate 1 fixBugTask, .call 0 .resumed, .call 1 .resumed]

theorem slots_balanced_iff_delegatedTwice : ∃ tr m, (delegationMachine {}).Trace tr m ∧
    tr.map Prod.snd = delegatedTwice ∧
      (Machine.Always (Balanced {}) tr m ↔ Machine.Guarded KeepsSlots tr) := by
  obtain ⟨tr, m, h, hevents, -⟩ := Machine.Trace.of_check (M := delegationMachine {})
    delegatedTwice (p := fun _ _ => true) (by decide)
  exact ⟨tr, m, h, hevents, slots_balanced_iff h⟩

/-- One of the two permits is lost. -/
theorem slot_leaked : ¬ ∀ tr m, (delegationMachine {}).Trace tr m →
    Machine.Always (Balanced {}) tr m := by
  intro hall
  obtain ⟨tr, m, h, -, hm⟩ := Machine.Trace.of_check (M := delegationMachine {})
    delegatedTwice (p := fun _ m => m.slots == 3) (by decide)
  have hslots := (hall tr m h).2.slots
  simp only [beq_iff_eq] at hm
  rw [hm] at hslots
  contradiction

end DelegationManager

end NemoClaw
