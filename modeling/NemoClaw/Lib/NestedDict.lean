import Mathlib.Data.List.Infix
import NemoClaw.Lib.Dict

/-! Dictionaries within dictionaries: a value is looked up along a path of keys, and assigned at the
end of one that leads through dictionaries. An assignment is seen along paths that it extends or
that extend it, and along no others. -/

namespace Lib

theorem lookup_cons_ite {κ α : Type*} [DecidableEq κ] (k : κ) (a : α) (entries : List (κ × α))
    (k' : κ) : ((k, a) :: entries).lookup k' = if k' = k then some a else entries.lookup k' := by
  rw [List.lookup_cons]
  by_cases hk : k' = k
  · subst hk
    simp
  · rw [if_neg hk, beq_false_of_ne hk]

/-- A value, or a dictionary of such. Its keys are distinct: the first entry counts. -/
inductive Nested (κ ν : Type*)
  | leaf (value : ν)
  | node (entries : List (κ × Nested κ ν))

/-- Why nothing can be assigned at the end of a path. -/
inductive PathFault (κ : Type*)
  | missing (key : κ)
  | notNode

namespace Nested

variable {κ ν : Type*} [DecidableEq κ]

/-- `d[k] = t` -/
def assign (k : κ) (t : Nested κ ν) : List (κ × Nested κ ν) → List (κ × Nested κ ν)
  | [] => [(k, t)]
  | (k', t') :: entries => if k' = k then (k, t) :: entries else (k', t') :: assign k t entries

def get : List κ → Nested κ ν → Option (Nested κ ν)
  | [], t => some t
  | k :: path, .node entries => (entries.lookup k).bind (get path)
  | _ :: _, .leaf _ => none

/-- `last` is assigned in the dictionary that the path leads to. -/
def setAt (last : κ) (v : Nested κ ν) : List κ → Nested κ ν → Except (PathFault κ) (Nested κ ν)
  | _, .leaf _ => .error .notNode
  | [], .node entries => .ok (.node (assign last v entries))
  | k :: path, .node entries =>
    match entries.lookup k with
    | none => .error (.missing k)
    | some t =>
      match setAt last v path t with
      | .error fault => .error fault
      | .ok t' => .ok (.node (assign k t' entries))

theorem lookup_assign (k : κ) (t : Nested κ ν) (entries : List (κ × Nested κ ν)) (k' : κ) :
    (assign k t entries).lookup k' = if k' = k then some t else entries.lookup k' := by
  induction entries with
  | nil => rw [assign, lookup_cons_ite]
  | cons p entries ih =>
    obtain ⟨k₁, t₁⟩ := p
    unfold assign
    by_cases hk₁ : k₁ = k
    · subst hk₁
      rw [if_pos rfl, lookup_cons_ite, lookup_cons_ite]
      by_cases hk : k' = k₁
      · rw [if_pos hk, if_pos hk]
      · rw [if_neg hk, if_neg hk, if_neg hk]
    · rw [if_neg hk₁, lookup_cons_ite, lookup_cons_ite, ih]
      by_cases hk : k' = k₁
      · rw [if_pos hk, if_pos hk, if_neg (hk ▸ hk₁)]
      · rw [if_neg hk, if_neg hk]

variable {last : κ} {v : Nested κ ν} {path : List κ} {t t' : Nested κ ν}

theorem node_of_setAt (h : setAt last v path t = .ok t') :
    ∃ entries entries', t = .node entries ∧ t' = .node entries' := by
  cases t with
  | leaf x =>
    cases path <;> cases h
  | node entries =>
    cases path with
    | nil => exact ⟨entries, _, rfl, (Except.ok.inj h).symm⟩
    | cons k path =>
      unfold setAt at h
      split at h
      · contradiction
      · split at h
        · contradiction
        · exact ⟨entries, _, rfl, (Except.ok.inj h).symm⟩

theorem setAt_cons {k : κ} {entries : List (κ × Nested κ ν)}
    (h : setAt last v (k :: path) (.node entries) = .ok t') :
    ∃ s s', entries.lookup k = some s ∧ setAt last v path s = .ok s' ∧
      t' = .node (assign k s' entries) := by
  unfold setAt at h
  split at h
  · contradiction
  · rename_i s hs
    split at h
    · contradiction
    · rename_i s' hs'
      exact ⟨s, s', hs, hs', (Except.ok.inj h).symm⟩

/-- The value is found where it was assigned. -/
theorem get_setAt (h : setAt last v path t = .ok t') : get (path ++ [last]) t' = some v := by
  induction path generalizing t t' with
  | nil =>
    obtain ⟨entries, -, rfl, -⟩ := node_of_setAt h
    obtain rfl := Except.ok.inj h
    simp [get, lookup_assign]
  | cons k path ih =>
    obtain ⟨entries, -, rfl, -⟩ := node_of_setAt h
    obtain ⟨s, s', -, hs', rfl⟩ := setAt_cons h
    simp only [List.cons_append, get, lookup_assign, if_true, Option.bind_some]
    exact ih hs'

/-- What is found along a path that parts from this one is left alone. -/
theorem get_setAt_apart (h : setAt last v path t = .ok t') {q : List κ}
    (hshort : ¬ q <+: path ++ [last]) (hlong : ¬ path ++ [last] <+: q) : get q t' = get q t := by
  induction path generalizing t t' q with
  | nil =>
    obtain ⟨entries, -, rfl, -⟩ := node_of_setAt h
    obtain rfl := Except.ok.inj h
    cases q with
    | nil => exact absurd List.nil_prefix hshort
    | cons k q =>
      have hne : k ≠ last := by
        intro heq
        subst heq
        exact hlong ⟨q, rfl⟩
      simp [get, lookup_assign, hne]
  | cons k path ih =>
    obtain ⟨entries, -, rfl, -⟩ := node_of_setAt h
    obtain ⟨s, s', hs, hs', rfl⟩ := setAt_cons h
    cases q with
    | nil => exact absurd List.nil_prefix hshort
    | cons k' q =>
      by_cases hk : k' = k
      · subst hk
        simp only [get, lookup_assign, if_true, hs, Option.bind_some]
        apply ih hs'
        · intro hpre
          exact hshort (List.cons_prefix_cons.2 ⟨rfl, hpre⟩)
        · intro hpre
          exact hlong (List.cons_prefix_cons.2 ⟨rfl, hpre⟩)
      · simp [get, lookup_assign, hk]

/-- A value in the result was there before, or is the one that was assigned. -/
theorem leaf_of_setAt {x y : ν} (h : setAt last (.leaf x) path t = .ok t') {q : List κ}
    (hq : get q t' = some (.leaf y)) :
    get q t = some (.leaf y) ∨ q = path ++ [last] ∧ y = x := by
  induction path generalizing t t' q with
  | nil =>
    obtain ⟨entries, -, rfl, -⟩ := node_of_setAt h
    obtain rfl := Except.ok.inj h
    cases q with
    | nil => cases Option.some.inj hq
    | cons k q =>
      by_cases hk : k = last
      · subst hk
        simp only [get, lookup_assign, if_true, Option.bind_some] at hq
        cases q with
        | nil =>
          cases Option.some.inj hq
          exact Or.inr ⟨rfl, rfl⟩
        | cons k' q => contradiction
      · refine Or.inl ?_
        simpa only [get, lookup_assign, if_neg hk] using hq
  | cons k path ih =>
    obtain ⟨entries, -, rfl, -⟩ := node_of_setAt h
    obtain ⟨s, s', hs, hs', rfl⟩ := setAt_cons h
    cases q with
    | nil => cases Option.some.inj hq
    | cons k' q =>
      by_cases hk : k' = k
      · subst hk
        simp only [get, lookup_assign, if_true, Option.bind_some] at hq
        simp only [get, hs, Option.bind_some]
        rcases ih hs' hq with hold | ⟨rfl, rfl⟩
        · exact Or.inl hold
        · exact Or.inr ⟨rfl, rfl⟩
      · refine Or.inl ?_
        simpa only [get, lookup_assign, if_neg hk] using hq

/-! ### Several assignments -/

/-- Assignments one after another; each is a path, its last key and a value. -/
def setAll : List (List κ × κ × Nested κ ν) → Nested κ ν → Except (PathFault κ) (Nested κ ν)
  | [], t => .ok t
  | (path, last, v) :: updates, t =>
    match setAt last v path t with
    | .error fault => .error fault
    | .ok t' => setAll updates t'

/-- Neither path extends the other. -/
def Apart (p q : List κ) : Prop := ¬ p <+: q ∧ ¬ q <+: p

variable {updates : List (List κ × κ × Nested κ ν)}

theorem setAll_cons {u : List κ × κ × Nested κ ν} (h : setAll (u :: updates) t = .ok t') :
    ∃ s, setAt u.2.1 u.2.2 u.1 t = .ok s ∧ setAll updates s = .ok t' := by
  obtain ⟨path, last, v⟩ := u
  unfold setAll at h
  split at h
  · contradiction
  · rename_i s hs
    exact ⟨s, hs, h⟩

theorem get_setAll_apart (h : setAll updates t = .ok t') {q : List κ}
    (hq : ∀ u ∈ updates, Apart q (u.1 ++ [u.2.1])) : get q t' = get q t := by
  induction updates generalizing t with
  | nil =>
    obtain rfl := Except.ok.inj h
    rfl
  | cons u updates ih =>
    obtain ⟨s, hs, hrest⟩ := setAll_cons h
    obtain ⟨hu, hothers⟩ := List.forall_mem_cons.1 hq
    rw [ih hrest hothers, get_setAt_apart hs hu.1 hu.2]

/-- Assignments along paths that part from each other are all found. -/
theorem get_setAll (h : setAll updates t = .ok t')
    (hapart : updates.Pairwise fun u w => Apart (u.1 ++ [u.2.1]) (w.1 ++ [w.2.1]))
    {u : List κ × κ × Nested κ ν} (hu : u ∈ updates) : get (u.1 ++ [u.2.1]) t' = some u.2.2 := by
  induction updates generalizing t with
  | nil => contradiction
  | cons w updates ih =>
    obtain ⟨s, hs, hrest⟩ := setAll_cons h
    obtain ⟨hw, hothers⟩ := List.pairwise_cons.1 hapart
    rcases List.mem_cons.1 hu with rfl | hu
    · rw [get_setAll_apart hrest hw]
      exact get_setAt hs
    · exact ih hrest hothers hu

theorem leaf_of_setAll (h : setAll updates t = .ok t')
    (hleaf : ∀ u ∈ updates, ∃ x, u.2.2 = .leaf x) {q : List κ} {y : ν}
    (hq : get q t' = some (.leaf y)) :
    get q t = some (.leaf y) ∨ ∃ u ∈ updates, q = u.1 ++ [u.2.1] ∧ u.2.2 = .leaf y := by
  induction updates generalizing t with
  | nil =>
    obtain rfl := Except.ok.inj h
    exact Or.inl hq
  | cons u updates ih =>
    obtain ⟨s, hs, hrest⟩ := setAll_cons h
    obtain ⟨⟨x, hx⟩, hothers⟩ := List.forall_mem_cons.1 hleaf
    rw [hx] at hs
    rcases ih hrest hothers with hold | ⟨w, hw, hassigned⟩
    · rcases leaf_of_setAt hs hold with hold | ⟨hpath, rfl⟩
      · exact Or.inl hold
      · exact Or.inr ⟨u, List.mem_cons_self, hpath, hx⟩
    · exact Or.inr ⟨w, List.mem_cons_of_mem _ hw, hassigned⟩

/-- Only a dictionary is assigned to, and it stays one. -/
theorem node_of_setAll (h : setAll updates t = .ok t') :
    t' = t ∨ ∃ entries entries', t = .node entries ∧ t' = .node entries' := by
  induction updates generalizing t with
  | nil => exact Or.inl (Except.ok.inj h).symm
  | cons u updates ih =>
    obtain ⟨s, hs, hrest⟩ := setAll_cons h
    obtain ⟨entries, entries₁, rfl, rfl⟩ := node_of_setAt hs
    rcases ih hrest with rfl | ⟨-, entries', -, rfl⟩
    · exact Or.inr ⟨entries, entries₁, rfl, rfl⟩
    · exact Or.inr ⟨entries, entries', rfl, rfl⟩

end Nested

/-! ### A dictionary of entries -/

namespace Dict

variable {κ ν α : Type*} [DecidableEq κ]

/-- A dictionary of what is made of the entries. -/
def ofEntries (g : α → ν) (entries : List (κ × α)) : Dict κ ν :=
  entries.foldr (fun p d => d.insert p.1 (g p.2)) ∅

theorem lookup_ofEntries (g : α → ν) (entries : List (κ × α)) (k : κ) :
    (ofEntries g entries).lookup k = (entries.lookup k).map g := by
  induction entries with
  | nil => rfl
  | cons p entries ih =>
    obtain ⟨k₁, a⟩ := p
    have hcons : ofEntries g ((k₁, a) :: entries) = (ofEntries g entries).insert k₁ (g a) := rfl
    rw [hcons, lookup_cons_ite]
    by_cases hk : k = k₁
    · subst hk
      simp
    · rw [AList.lookup_insert_ne hk, ih, if_neg hk]

end Dict

end Lib
