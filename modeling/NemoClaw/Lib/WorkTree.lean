import Mathlib.Data.Finmap

/-! Work trees under version control. A tree maps paths to blobs; a clone has a work tree, an index
and branches, and every command on it is an exact operation on trees. A diff is any text that tells
two trees with the same base apart. -/

namespace Lib

abbrev Tree (κ β : Type*) := Finmap fun _ : κ => β

namespace Tree

variable {κ β : Type*}

/-- The files of the tree at the paths to keep. -/
def restrict (t : Tree κ β) (keep : κ → Bool) : Tree κ β where
  entries := t.entries.filter fun e => keep e.1
  nodupKeys := by
    rw [← Multiset.nodup_keys]
    exact Multiset.nodup_of_le (Multiset.map_le_map (Multiset.filter_le _ _))
      (Multiset.nodup_keys.2 t.nodupKeys)

variable [DecidableEq κ] (t : Tree κ β) (keep : κ → Bool) (p : κ)

@[simp] theorem lookup_restrict :
    Finmap.lookup p (t.restrict keep) = if keep p then Finmap.lookup p t else none := by
  refine Option.ext fun b => ?_
  rw [Finmap.lookup_eq_some_iff]
  change _ ∈ t.entries.filter _ ↔ _
  rw [Multiset.mem_filter]
  cases hk : keep p with
  | false => simp
  | true => simp [← Finmap.lookup_eq_some_iff]

end Tree

/-! ### Clones -/

structure Clone (κ β ρ : Type*) where
  worktree : Tree κ β
  ignored : κ → Bool := fun _ => false
  /-- the paths in the index -/
  tracked : Finset κ
  /-- the tree of the next commit -/
  staged : Tree κ β
  head : Tree κ β
  branch : Option ρ := none
  branches : ρ → Option (Tree κ β) := fun _ => none
  /-- what was pushed, in order -/
  pushed : List (ρ × Tree κ β) := []

namespace Clone

variable {κ β ρ : Type*} [DecidableEq κ] (c : Clone κ β ρ) (p : κ)

/-- A path that `git add --all` does not pass over. -/
def visible : Bool := p ∈ c.tracked || !c.ignored p

/-- The work tree as `git add --all` sees it. -/
def snapshot : Tree κ β := c.worktree.restrict c.visible

/-- The tree that `git diff` compares with its base. -/
def compared : Tree κ β := c.worktree.restrict fun p => decide (p ∈ c.tracked)

def write (blob : β) : Clone κ β ρ := { c with worktree := c.worktree.insert p blob }

/-- `git add --intent-to-add --all` -/
def intentToAdd : Clone κ β ρ := { c with tracked := c.snapshot.keys }

/-- `git add --all` -/
def addAll : Clone κ β ρ := { c with tracked := c.snapshot.keys, staged := c.snapshot }

/-- `git checkout -B` -/
def checkout [DecidableEq ρ] (b : ρ) : Clone κ β ρ :=
  { c with branch := some b, branches := Function.update c.branches b (some c.head) }

/-- `git commit`; with nothing to commit it changes nothing. -/
def commit [DecidableEq ρ] : Clone κ β ρ :=
  { c with
    head := c.staged
    branches :=
      match c.branch with
      | none => c.branches
      | some b => Function.update c.branches b (some c.staged) }

/-- `git push` -/
def push (b : ρ) : Clone κ β ρ :=
  { c with
    pushed :=
      match c.branches b with
      | none => c.pushed
      | some t => c.pushed ++ [(b, t)] }

theorem lookup_snapshot :
    Finmap.lookup p c.snapshot = if c.visible p then Finmap.lookup p c.worktree else none := by
  rw [snapshot, Tree.lookup_restrict]

theorem visible_of_mem_snapshot {c : Clone κ β ρ} {p : κ} (h : p ∈ c.snapshot) :
    c.visible p = true := by
  obtain ⟨blob, hp⟩ := Finmap.mem_iff.1 h
  rw [lookup_snapshot] at hp
  by_contra hv
  rw [if_neg hv] at hp
  contradiction

/-- Tracking what is seen makes nothing else seen. -/
theorem snapshot_tracked (staged : Tree κ β) :
    ({ c with tracked := c.snapshot.keys, staged := staged } : Clone κ β ρ).snapshot =
      c.snapshot := by
  refine Finmap.ext_lookup fun p => ?_
  by_cases hp : p ∈ c.snapshot
  · have hkeep : (decide (p ∈ c.snapshot.keys) || !c.ignored p) = true := by
      simp [Finmap.mem_keys, hp]
    rw [lookup_snapshot, lookup_snapshot, if_pos (visible_of_mem_snapshot hp)]
    exact if_pos hkeep
  · rw [Finmap.lookup_eq_none.2 hp, lookup_snapshot]
    split_ifs with hi
    · have hv : c.visible p = true := by simpa [visible, Finmap.mem_keys, hp] using Or.inr hi
      rw [← Finmap.lookup_eq_none, lookup_snapshot, if_pos hv] at hp
      exact hp
    · rfl

@[simp] theorem snapshot_intentToAdd : c.intentToAdd.snapshot = c.snapshot :=
  c.snapshot_tracked c.staged

@[simp] theorem snapshot_addAll : c.addAll.snapshot = c.snapshot := c.snapshot_tracked c.snapshot

@[simp] theorem snapshot_checkout [DecidableEq ρ] (b : ρ) :
    (c.checkout b).snapshot = c.snapshot := rfl

@[simp] theorem snapshot_commit [DecidableEq ρ] : c.commit.snapshot = c.snapshot := rfl

@[simp] theorem snapshot_push (b : ρ) : (c.push b).snapshot = c.snapshot := rfl

/-- With every new path announced, a diff and a commit are about the same tree. -/
theorem compared_intentToAdd : c.intentToAdd.compared = c.snapshot := by
  refine Finmap.ext_lookup fun p => ?_
  rw [compared, Tree.lookup_restrict]
  change (if decide (p ∈ c.snapshot.keys) then Finmap.lookup p c.worktree else none) = _
  by_cases hp : p ∈ c.snapshot
  · simp [Finmap.mem_keys, hp, lookup_snapshot, visible_of_mem_snapshot hp]
  · simp [Finmap.mem_keys, hp, Finmap.lookup_eq_none.2 hp]

/-- A write is not seen exactly if its path is passed over or it changes nothing. -/
theorem snapshot_write_eq_iff (blob : β) :
    (c.write p blob).snapshot = c.snapshot ↔
      c.visible p = false ∨ Finmap.lookup p c.worktree = some blob := by
  have hvisible : (c.write p blob).visible = c.visible := rfl
  constructor
  · intro heq
    have hp := congrArg (Finmap.lookup p) heq
    rw [lookup_snapshot, lookup_snapshot, hvisible] at hp
    cases hv : c.visible p with
    | false => exact Or.inl rfl
    | true =>
      rw [hv, if_pos rfl, if_pos rfl, write, Finmap.lookup_insert] at hp
      exact Or.inr hp.symm
  · intro h
    refine Finmap.ext_lookup fun q => ?_
    rw [lookup_snapshot, lookup_snapshot, hvisible, write]
    by_cases hq : q = p
    · subst hq
      rcases h with hv | hsame
      · simp [hv]
      · rw [Finmap.lookup_insert, hsame]
    · rw [Finmap.lookup_insert_of_ne _ hq]

/-- A branch that is pushed with everything added and committed holds what is seen. -/
theorem pushed_commit [DecidableEq ρ] (b : ρ) :
    ((((c.checkout b).addAll).commit).push b).pushed = c.pushed ++ [(b, c.snapshot)] := by
  simp [push, commit, addAll, checkout]
  rfl

end Clone

/-! ### Diffs -/

/-- A format of diffs that loses nothing. -/
structure ExactDiff (κ β τ : Type*) where
  text : Tree κ β → Tree κ β → τ
  exact : ∀ {base t t'}, text base t = text base t' → t = t'

namespace ExactDiff

variable {κ β τ : Type*} (D : ExactDiff κ β τ)

open Classical in
/-- The tree that a text makes of its base. -/
noncomputable def apply (base : Tree κ β) (s : τ) : Option (Tree κ β) :=
  if h : ∃ t, D.text base t = s then some h.choose else none

variable {D}

theorem apply_eq_some {base t : Tree κ β} {s : τ} :
    D.apply base s = some t ↔ D.text base t = s := by
  unfold apply
  split_ifs with h
  · rw [Option.some_inj]
    constructor
    · rintro rfl
      exact h.choose_spec
    · intro ht
      exact D.exact (h.choose_spec.trans ht.symm)
  · simp only [false_iff]
    intro ht
    exact h ⟨t, ht⟩

end ExactDiff

end Lib
