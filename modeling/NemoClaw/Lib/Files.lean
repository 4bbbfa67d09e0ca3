import Mathlib.Data.List.Induction
import NemoClaw.Lib.Dict

/-! Trees of files with symbolic links. What a tree holds stands under its path without links; a
walk along a path follows the links that it meets: a strict walk as the system does, where a missing
part is an error, the other as `realpath` does, where it is kept. -/

namespace Lib

abbrev PurePath := List String

inductive FileKind
  | file (content : String)
  | link (absolute : Bool) (target : List String)
  | dir
  deriving DecidableEq, Repr

/-- A part of a path that is the name of an entry. -/
def IsName (part : String) : Prop := part ≠ ".." ∧ part ≠ "." ∧ part ≠ ""

instance (part : String) : Decidable (IsName part) := inferInstanceAs (Decidable (_ ∧ _))

/-- What a tree holds stands in a directory of it. -/
structure FileTree where
  kinds : Dict PurePath FileKind := ∅
  parent : ∀ p name, (kinds.lookup (p ++ [name])).isSome = true →
    IsName name ∧ (p = [] ∨ kinds.lookup p = some .dir)

namespace FileTree

def get (t : FileTree) (p : PurePath) : Option FileKind :=
  if p = [] then some .dir else t.kinds.lookup p

/-- The names in a directory. -/
def names (t : FileTree) (p : PurePath) : List String :=
  t.kinds.keys.filterMap fun q => if q.dropLast = p then q.getLast? else none

/-- What a directory holds at any depth, by the path from it. -/
def below (t : FileTree) (p : PurePath) : List PurePath :=
  t.kinds.keys.filterMap fun q => if p <+: q ∧ q ≠ p then some (q.drop p.length) else none

variable {t t' : FileTree} {strict : Bool} {depth : ℕ} {p q cur : PurePath} {name part : String}
  {kind : FileKind}

theorem get_append (h : q ≠ []) : t.get (p ++ q) = t.kinds.lookup (p ++ q) := by
  simp [get, h]

theorem get_parent (h : t.get (p ++ [name]) ≠ none) : IsName name ∧ t.get p = some .dir := by
  rw [get_append (by simp)] at h
  obtain ⟨hname, hp⟩ := t.parent p name (Option.isSome_iff_ne_none.2 h)
  refine ⟨hname, ?_⟩
  rcases hp with rfl | hp
  · rfl
  · unfold get
    split_ifs
    · rfl
    · exact hp

/-- Everything on the way to what a tree holds is a directory. -/
theorem get_above (h : t.get p ≠ none) (hq : q <+: p) (hne : q ≠ p) : t.get q = some .dir := by
  induction p using List.reverseRecOn with
  | nil => exact absurd (List.prefix_nil.1 hq) hne
  | append_singleton p name ih =>
    have hp := (get_parent h).2
    rcases List.prefix_concat_iff.1 hq with rfl | hq
    · exact absurd rfl hne
    · by_cases hqp : q = p
      · rw [hqp, hp]
      · exact ih (by simp [hp]) hq hqp

theorem mem_names : name ∈ t.names p ↔ t.get (p ++ [name]) ≠ none := by
  rw [get_append (by simp), ← Option.isSome_iff_ne_none, AList.lookup_isSome]
  simp only [names, List.mem_filterMap]
  constructor
  · rintro ⟨q, hq, hname⟩
    split_ifs at hname with hp
    rw [← hp, List.dropLast_append_getLast? name hname]
    exact hq
  · intro h
    exact ⟨p ++ [name], h, by simp⟩

theorem mem_below : q ∈ t.below p ↔ q ≠ [] ∧ t.get (p ++ q) ≠ none := by
  simp only [below, List.mem_filterMap]
  constructor
  · rintro ⟨q', hq', h⟩
    split_ifs at h with hprefix
    obtain ⟨⟨s, rfl⟩, hne⟩ := hprefix
    obtain rfl : s = q := by simpa using h
    have hs : s ≠ [] := by
      rintro rfl
      exact hne (by simp)
    exact ⟨hs, by rwa [get_append hs, ← Option.isSome_iff_ne_none, AList.lookup_isSome]⟩
  · rintro ⟨hne, h⟩
    rw [get_append hne, ← Option.isSome_iff_ne_none, AList.lookup_isSome] at h
    exact ⟨p ++ q, h, by simp [hne]⟩

theorem nodup_names (t : FileTree) (p : PurePath) : (t.names p).Nodup := by
  refine t.kinds.keys_nodup.filterMap fun q q' name hq hq' => ?_
  simp only [Option.mem_def] at hq hq'
  split_ifs at hq hq' with hp hp'
  rw [← List.dropLast_append_getLast? name hq, ← List.dropLast_append_getLast? name hq', hp, hp']

theorem nodup_below (t : FileTree) (p : PurePath) : (t.below p).Nodup := by
  refine t.kinds.keys_nodup.filterMap fun q q' s hq hq' => ?_
  simp only [Option.mem_def] at hq hq'
  split_ifs at hq hq' with hp hp'
  obtain ⟨⟨r, rfl⟩, -⟩ := hp
  obtain ⟨⟨r', rfl⟩, -⟩ := hp'
  simp only [List.drop_left, Option.some.injEq] at hq hq'
  rw [hq, hq']

/-- A new entry of a directory, or another one in place of what is no directory. -/
def add (t : FileTree) (p : PurePath) (name : String) (kind : FileKind) : Option FileTree :=
  if h : t.get p = some .dir ∧ t.get (p ++ [name]) ≠ some .dir ∧ IsName name then
    some
      { kinds := t.kinds.insert (p ++ [name]) kind
        parent := by
          obtain ⟨hp, hfree, hname⟩ := h
          have hother : ∀ q : PurePath, q = [] ∨ t.kinds.lookup q = some .dir →
              q = [] ∨ (t.kinds.insert (p ++ [name]) kind).lookup q = some .dir := by
            rintro q (rfl | hq)
            · exact Or.inl rfl
            · by_cases heq : q = p ++ [name]
              · rw [get_append (by simp), ← heq] at hfree
                exact absurd hq hfree
              · exact Or.inr ((AList.lookup_insert_ne heq).trans hq)
          intro q name' hsome
          by_cases heq : q ++ [name'] = p ++ [name]
          · obtain ⟨rfl, hnames⟩ := List.append_inj' heq rfl
            obtain rfl := List.cons.inj hnames |>.1
            refine ⟨hname, hother q ?_⟩
            unfold get at hp
            split_ifs at hp with hq
            · exact Or.inl hq
            · exact Or.inr hp
          · rw [AList.lookup_insert_ne heq] at hsome
            obtain ⟨hname', hq⟩ := t.parent q name' hsome
            exact ⟨hname', hother q hq⟩ }
  else none

/-- Adding an entry changes nothing else. -/
theorem get_add (h : t.add p name kind = some t') (hq : q ≠ p ++ [name]) : t'.get q = t.get q := by
  unfold add at h
  split_ifs at h
  obtain rfl := Option.some.inj h
  unfold get
  split_ifs
  · rfl
  · exact AList.lookup_insert_ne hq

theorem get_add_self (h : t.add p name kind = some t') : t'.get (p ++ [name]) = some kind := by
  unfold add at h
  split_ifs at h
  obtain rfl := Option.some.inj h
  rw [get_append (by simp)]
  exact AList.lookup_insert _

/-! ### Walks -/

/-- One part of a walk. Links nest at most `depth` deep. -/
def follow (t : FileTree) (strict : Bool) : ℕ → PurePath → String → Option PurePath
  | depth, cur, part =>
    if ¬ IsName part then
      if strict ∧ t.get cur ≠ some .dir then none
      else some (if part = ".." then cur.dropLast else cur)
    else
      match t.get (cur ++ [part]), depth with
      | some (.link absolute target), depth + 1 =>
        target.foldlM (follow t strict depth) (if absolute then [] else cur)
      | some (.link _ _), 0 => none
      | none, _ => if strict then none else some (cur ++ [part])
      | some _, _ => some (cur ++ [part])

def walk (t : FileTree) (strict : Bool) (depth : ℕ) (cur : PurePath) (parts : List String) :
    Option PurePath := parts.foldlM (t.follow strict depth) cur

/-- No part of the path is a link. -/
structure Canonical (t : FileTree) (p : PurePath) : Prop where
  names : ∀ part ∈ p, IsName part
  links : ∀ q, q <+: p → ∀ absolute target, t.get q ≠ some (.link absolute target)

theorem canonical_nil (t : FileTree) : t.Canonical [] where
  names := by simp
  links q hq := by
    rw [List.prefix_nil.1 hq]
    simp [get]

theorem Canonical.above (h : t.Canonical p) (hq : q <+: p) : t.Canonical q where
  names part hpart := h.names part (hq.subset hpart)
  links q' hq' := h.links q' (hq'.trans hq)

theorem Canonical.append (h : t.Canonical p) (hname : IsName name)
    (hlink : ∀ absolute target, t.get (p ++ [name]) ≠ some (.link absolute target)) :
    t.Canonical (p ++ [name]) where
  names part hpart := by
    rcases List.mem_append.1 hpart with hpart | hpart
    · exact h.names part hpart
    · rwa [List.mem_singleton.1 hpart]
  links q hq := by
    rcases List.prefix_concat_iff.1 hq with rfl | hq
    · exact hlink
    · exact h.links q hq

/-- What each part of a walk keeps, the walk keeps. -/
theorem foldlM_invariant {σ α : Type*} {f : σ → α → Option σ} {P : σ → Prop} {l : List α}
    {s s' : σ} (hstep : ∀ s a s', P s → f s a = some s' → P s') (h : l.foldlM f s = some s')
    (hs : P s) : P s' := by
  induction l generalizing s with
  | nil =>
    obtain rfl := Option.some.inj h
    exact hs
  | cons a l ih =>
    rw [List.foldlM_cons] at h
    obtain ⟨s₁, h₁, h⟩ := Option.bind_eq_some_iff.1 h
    exact ih h (hstep s a s₁ hs h₁)

/-- What a part of a walk can come to. -/
theorem follow_cases (h : t.follow strict depth cur part = some p) :
    (¬ IsName part ∧ p <+: cur ∧ (strict = true → t.get cur = some .dir)) ∨
    (∃ absolute target depth', t.get (cur ++ [part]) = some (.link absolute target) ∧
      depth = depth' + 1 ∧
        t.walk strict depth' (if absolute then [] else cur) target = some p) ∨
    (IsName part ∧ p = cur ++ [part] ∧ (strict = true → t.get p ≠ none) ∧
      ∀ absolute target, t.get p ≠ some (.link absolute target)) := by
  unfold follow at h
  by_cases hname : IsName part
  · rw [if_neg (not_not.2 hname)] at h
    right
    split at h
    · exact Or.inl ⟨_, _, _, ‹_›, rfl, h⟩
    · contradiction
    · rename_i hnone
      split_ifs at h with hstrict
      obtain rfl := Option.some.inj h
      exact Or.inr ⟨hname, rfl, fun hs => absurd hs hstrict, by simp [hnone]⟩
    · rename_i kind hsome hlink hlink'
      obtain rfl := Option.some.inj h
      refine Or.inr ⟨hname, rfl, by simp [hsome], fun absolute target hget => ?_⟩
      have hkind : kind = .link absolute target := Option.some.inj (hsome.symm.trans hget)
      obtain ⟨depth', hdepth⟩ := Nat.exists_eq_succ_of_ne_zero
        fun hzero => hlink' absolute target hzero hkind
      exact hlink absolute target depth' hdepth hkind
  · rw [if_pos hname] at h
    left
    by_cases hdir : strict = true ∧ t.get cur ≠ some .dir
    · rw [if_pos hdir] at h
      contradiction
    · rw [if_neg hdir] at h
      obtain rfl := Option.some.inj h
      refine ⟨hname, ?_, fun hs => not_not.1 fun hcur => hdir ⟨hs, hcur⟩⟩
      split_ifs
      · exact List.dropLast_prefix cur
      · exact List.prefix_refl cur

/-- The system looks for names in directories only. -/
theorem get_of_follow (h : t.follow true depth cur part = some p) : t.get cur = some .dir := by
  rcases follow_cases h with ⟨-, -, hdir⟩ | ⟨absolute, target, _, hlink, -, -⟩ | ⟨-, rfl, hget, -⟩
  · exact hdir rfl
  · have hentry : t.get (cur ++ [part]) ≠ none := by simp [hlink]
    exact (get_parent hentry).2
  · exact (get_parent (hget rfl)).2

theorem follow_up (h : t.get cur = some .dir) :
    t.follow strict depth cur ".." = some cur.dropLast := by
  unfold follow
  rw [if_pos (by decide), if_neg (by simp [h])]
  rfl

theorem canonical_follow (h : t.Canonical cur) (hf : t.follow strict depth cur part = some p) :
    t.Canonical p := by
  induction depth generalizing cur part p with
  | zero =>
    rcases follow_cases hf with ⟨-, hp, -⟩ | ⟨_, _, _, -, hdepth, -⟩ | ⟨hname, rfl, -, hlink⟩
    · exact h.above hp
    · contradiction
    · exact h.append hname hlink
  | succ depth ih =>
    rcases follow_cases hf with ⟨-, hp, -⟩ | ⟨absolute, target, _, -, hdepth, hw⟩ |
      ⟨hname, rfl, -, hlink⟩
    · exact h.above hp
    · obtain rfl := Nat.succ.inj hdepth
      refine foldlM_invariant (fun _ _ _ => ih) hw ?_
      split_ifs
      · exact canonical_nil t
      · exact h
    · exact h.append hname hlink

theorem canonical_walk {parts : List String} (h : t.Canonical cur)
    (hw : t.walk strict depth cur parts = some p) : t.Canonical p :=
  foldlM_invariant (fun _ _ _ => canonical_follow) hw h

theorem walk_concat {parts : List String} :
    t.walk strict depth cur (parts ++ [part]) =
      (t.walk strict depth cur parts).bind fun p => t.follow strict depth p part := by
  unfold walk
  rw [List.foldlM_append]
  cases parts.foldlM (t.follow strict depth) cur with
  | none => rfl
  | some p => simp

theorem walk_append {parts parts' : List String} :
    t.walk strict depth cur (parts ++ parts') =
      (t.walk strict depth cur parts).bind fun p => t.walk strict depth p parts' := by
  unfold walk
  rw [List.foldlM_append]
  rfl

/-- The next part of a path without links. -/
theorem follow_of_get (hget : t.get (p ++ [name]) ≠ none)
    (hlink : ∀ absolute target, t.get (p ++ [name]) ≠ some (.link absolute target)) :
    t.follow strict depth p name = some (p ++ [name]) := by
  unfold follow
  rw [if_neg (not_not.2 (get_parent hget).1)]
  split
  · exact absurd ‹_› (hlink _ _)
  · exact absurd ‹_› (hlink _ _)
  · exact absurd ‹_› hget
  · rfl

/-- A walk down to a directory meets directories only. -/
theorem walk_below {parts : List String} (hget : t.get (cur ++ parts) = some .dir) :
    t.walk strict depth cur parts = some (cur ++ parts) := by
  induction parts using List.reverseRecOn with
  | nil => simp [walk]
  | append_singleton parts name ih =>
    rw [← List.append_assoc] at hget ⊢
    have hentry : t.get (cur ++ parts ++ [name]) ≠ none := by rw [hget]; simp
    have hlink : ∀ absolute target,
        t.get (cur ++ parts ++ [name]) ≠ some (.link absolute target) := by rw [hget]; simp
    rw [walk_concat, ih (get_parent hentry).2]
    exact follow_of_get hentry hlink

/-- Along a path without links the system finds what stands there. -/
theorem walk_canonical (h : t.Canonical p) (hget : t.get p ≠ none) :
    t.walk strict depth [] p = some p := by
  induction p using List.reverseRecOn with
  | nil => rfl
  | append_singleton p name ih =>
    have hp := (get_parent hget).2
    have hwalk := ih (h.above (List.prefix_append _ _)) (by simp [hp])
    rw [walk_concat, hwalk]
    exact follow_of_get hget (h.links _ (List.prefix_refl _))

/-- A walk along a path without links stays on it. -/
theorem eq_of_walk_canonical (h : t.Canonical p) (hw : t.walk strict depth [] p = some q) :
    q = p := by
  induction p using List.reverseRecOn generalizing q with
  | nil => exact (Option.some.inj hw).symm
  | append_singleton p name ih =>
    rw [walk_concat] at hw
    obtain ⟨r, hr, hf⟩ := Option.bind_eq_some_iff.1 hw
    obtain rfl := ih (h.above (List.prefix_append _ _)) hr
    have hname := h.names name (by simp)
    rcases follow_cases hf with ⟨hnot, -, -⟩ | ⟨absolute, target, _, hlink, -, -⟩ | ⟨-, rfl, -, -⟩
    · exact absurd hname hnot
    · exact absurd hlink (h.links _ (List.prefix_refl _) absolute target)
    · rfl

/-! ### Writes -/

/-- The directories along `parts`, made where they are missing. -/
def mkdirs (t : FileTree) (cur : PurePath) : List String → Option FileTree
  | [] => some t
  | part :: parts =>
    match t.get (cur ++ [part]) with
    | some .dir => t.mkdirs (cur ++ [part]) parts
    | none => (t.add cur part .dir).bind fun t' => t'.mkdirs (cur ++ [part]) parts
    | some _ => none

/-- A path without links is opened for writing. -/
def writeText (t : FileTree) (p : PurePath) (content : String) : Option FileTree :=
  p.getLast?.bind fun name => t.add p.dropLast name (.file content)

/-- Only what is missing on the way is made. -/
theorem get_mkdirs {parts : List String} (h : t.mkdirs cur parts = some t')
    (hq : t.get q ≠ none ∨ ¬ q <+: cur ++ parts) : t'.get q = t.get q := by
  induction parts generalizing t cur with
  | nil =>
    obtain rfl := Option.some.inj h
    rfl
  | cons part parts ih =>
    have happend : cur ++ part :: parts = (cur ++ [part]) ++ parts := by simp
    rw [happend] at hq
    unfold mkdirs at h
    split at h
    · exact ih h hq
    · rename_i hnone
      obtain ⟨t₁, hadd, h⟩ := Option.bind_eq_some_iff.1 h
      have hne : q ≠ cur ++ [part] := by
        rintro rfl
        rcases hq with hq | hq
        · exact hq hnone
        · exact hq (List.prefix_append _ _)
      rw [ih h (by rwa [get_add hadd hne]), get_add hadd hne]
    · contradiction

theorem get_writeText {content : String} (h : t.writeText p content = some t') (hq : q ≠ p) :
    t'.get q = t.get q := by
  obtain ⟨name, hname, hadd⟩ := Option.bind_eq_some_iff.1 h
  refine get_add hadd ?_
  rwa [List.dropLast_append_getLast? name hname]

/-- Where a file stands, another can be written. -/
theorem exists_writeText {old : String} (h : t.get p = some (.file old)) (content : String) :
    ∃ t', t.writeText p content = some t' ∧ t'.get p = some (.file content) := by
  have hne : p ≠ [] := by
    rintro rfl
    simp [get] at h
  obtain ⟨dir, name, rfl⟩ : ∃ dir name, p = dir ++ [name] :=
    ⟨_, _, (List.dropLast_append_getLast hne).symm⟩
  obtain ⟨hname, hdir⟩ := get_parent (by rw [h]; simp)
  obtain ⟨t', ht⟩ : ∃ t', t.add dir name (.file content) = some t' := by
    unfold add
    rw [dif_pos ⟨hdir, by simp [h], hname⟩]
    exact ⟨_, rfl⟩
  exact ⟨t', by simpa [writeText] using ht, get_add_self ht⟩

end FileTree

end Lib
