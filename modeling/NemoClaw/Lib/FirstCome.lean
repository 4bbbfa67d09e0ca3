import Mathlib.Data.List.Induction
import NemoClaw.Lib.Dict

/-! Dictionaries that are filled from a list, first come, first served: an item whose key is taken
is passed over unread. Of the others, some have a value and some have none, and at some the run
fails. -/

namespace Lib

variable {κ ν ε α : Type*} [DecidableEq κ]

/-- An item comes in, unless its key is taken. -/
def enter (key : α → κ) (read : α → Except ε (Option ν)) (d : Dict κ ν) (a : α) :
    Except ε (Dict κ ν) :=
  if (d.lookup (key a)).isSome then .ok d
  else (read a).map fun | some v => d.insert (key a) v | none => d

/-- The items that have a value. -/
def HasValue (read : α → Except ε (Option ν)) (a : α) (v : ν) : Prop := read a = .ok (some v)

variable {key : α → κ} {read : α → Except ε (Option ν)} {d d' : Dict κ ν} {a : α} {l : List α}
  {k : κ} {v : ν}

/-- What comes of an item. -/
theorem enter_cases (h : enter key read d a = .ok d') :
    (d' = d ∧ (d.lookup (key a) ≠ none ∨ ∀ v, ¬ HasValue read a v)) ∨
    (∃ v, HasValue read a v ∧ d.lookup (key a) = none ∧ d' = d.insert (key a) v) := by
  unfold enter at h
  split_ifs at h with htaken
  · obtain rfl := Except.ok.inj h
    exact Or.inl ⟨rfl, Or.inl (Option.isSome_iff_ne_none.1 htaken)⟩
  · have hfree : d.lookup (key a) = none := by simpa using htaken
    cases hread : read a with
    | error e => simp [hread, Except.map] at h
    | ok value =>
      rw [hread] at h
      cases value with
      | none =>
        obtain rfl := Except.ok.inj h
        exact Or.inl ⟨rfl, Or.inr fun v hv => by simp [HasValue, hread] at hv⟩
      | some v =>
        obtain rfl := Except.ok.inj h
        exact Or.inr ⟨v, hread, hfree, rfl⟩

theorem enter_eq_error {e : ε} : enter key read d a = .error e ↔
    d.lookup (key a) = none ∧ read a = .error e := by
  unfold enter
  split_ifs with htaken
  · simp [Option.isSome_iff_ne_none.1 htaken]
  · have hfree : d.lookup (key a) = none := by simpa using htaken
    cases read a <;> simp [hfree, Except.map]

/-- What is in a dictionary stays in it. -/
theorem lookup_enter (h : enter key read d a = .ok d') (hk : d.lookup k = some v) :
    d'.lookup k = some v := by
  rcases enter_cases h with ⟨rfl, -⟩ | ⟨w, -, hfree, rfl⟩
  · exact hk
  · have hne : k ≠ key a := by
      rintro rfl
      simp [hfree] at hk
    rw [AList.lookup_insert_ne hne, hk]

theorem foldlM_concat : (l ++ [a]).foldlM (enter key read) d = .ok d' ↔
    ∃ d₁, l.foldlM (enter key read) d = .ok d₁ ∧ enter key read d₁ a = .ok d' := by
  rw [List.foldlM_append]
  cases l.foldlM (enter key read) d with
  | error e => simp [bind, Except.bind]
  | ok d₁ =>
    have hone : [a].foldlM (enter key read) d₁ = enter key read d₁ a := by
      rw [List.foldlM_cons]
      exact bind_pure _
    simp only [Except.ok.injEq, exists_eq_left', ← hone]
    rfl

/-- The dictionary holds values of items, and something under the key of every item with one. -/
structure Filled (key : α → κ) (read : α → Except ε (Option ν)) (l : List α) (d : Dict κ ν) :
    Prop where
  sound : ∀ k v, d.lookup k = some v → ∃ a ∈ l, key a = k ∧ HasValue read a v
  complete : ∀ a ∈ l, ∀ v, HasValue read a v → d.lookup (key a) ≠ none

theorem filled_nil : Filled key read [] ∅ where
  sound k v h := by simp at h
  complete a h := by simp at h

theorem Filled.enter (hd : Filled key read l d) (h : Lib.enter key read d a = .ok d') :
    Filled key read (l ++ [a]) d' where
  sound k v hk := by
    have hold : d.lookup k = some v → ∃ b ∈ l ++ [a], key b = k ∧ HasValue read b v := by
      intro hk
      obtain ⟨b, hb, hb'⟩ := hd.sound k v hk
      exact ⟨b, by simp [hb], hb'⟩
    rcases enter_cases h with ⟨rfl, -⟩ | ⟨w, hw, -, rfl⟩
    · exact hold hk
    · by_cases heq : k = key a
      · subst heq
        rw [AList.lookup_insert, Option.some.injEq] at hk
        exact ⟨a, by simp, rfl, hk ▸ hw⟩
      · rw [AList.lookup_insert_ne heq] at hk
        exact hold hk
  complete b hb v hv := by
    rcases List.mem_append.1 hb with hb | hb
    · obtain ⟨w, hw⟩ := Option.ne_none_iff_exists'.1 (hd.complete b hb v hv)
      simp [lookup_enter h hw]
    · obtain rfl := List.mem_singleton.1 hb
      rcases enter_cases h with ⟨rfl, htaken | hnone⟩ | ⟨w, -, -, rfl⟩
      · exact htaken
      · exact absurd hv (hnone v)
      · simp

theorem filled_of_run (h : l.foldlM (enter key read) ∅ = .ok d) : Filled key read l d := by
  induction l using List.reverseRecOn generalizing d with
  | nil =>
    obtain rfl := Except.ok.inj h
    exact filled_nil
  | append_singleton l a ih =>
    obtain ⟨d₁, hrun, henter⟩ := foldlM_concat.1 h
    exact (ih hrun).enter henter

/-- A run ends well if every item that fails comes behind one with a value and the same key. -/
theorem run_iff : (∃ d, l.foldlM (enter key read) ∅ = .ok d) ↔
    ∀ before a after e, l = before ++ a :: after → read a = .error e →
      ∃ b ∈ before, key b = key a ∧ ∃ v, HasValue read b v := by
  induction l using List.reverseRecOn with
  | nil => simpa using ⟨∅, rfl⟩
  | append_singleton l a ih =>
    constructor
    · rintro ⟨d, hrun⟩ before x after e heq hread
      obtain ⟨d₁, hrun, henter⟩ := foldlM_concat.1 hrun
      rcases List.eq_nil_or_concat after with rfl | ⟨after, y, rfl⟩
      · obtain ⟨rfl, rfl⟩ := List.append_singleton_inj.1 heq
        have htaken : d₁.lookup (key a) ≠ none := by
          intro hfree
          rw [enter_eq_error.2 ⟨hfree, hread⟩] at henter
          contradiction
        obtain ⟨v, hv⟩ := Option.ne_none_iff_exists'.1 htaken
        obtain ⟨b, hb, hkey, hvalue⟩ := (filled_of_run hrun).sound _ v hv
        exact ⟨b, hb, hkey, v, hvalue⟩
      · have hl : l = before ++ x :: after := by
          rw [List.concat_eq_append, ← List.cons_append, ← List.append_assoc,
            List.append_singleton_inj] at heq
          exact heq.1
        exact ih.1 ⟨d₁, hrun⟩ before x after e hl hread
    · intro h
      obtain ⟨d₁, hrun⟩ := ih.2 fun before x after e heq hread =>
        h before x (after ++ [a]) e (by simp [heq]) hread
      cases henter : enter key read d₁ a with
      | ok d => exact ⟨d, foldlM_concat.2 ⟨d₁, hrun, henter⟩⟩
      | error e =>
        obtain ⟨hfree, hread⟩ := enter_eq_error.1 henter
        obtain ⟨b, hb, hkey, v, hv⟩ := h l a [] e rfl hread
        exact absurd (hkey ▸ hfree) ((filled_of_run hrun).complete b hb v hv)

/-- Every value has its place if no two of them have one key. -/
theorem filled_places (hd : Filled key read l d) :
    (∀ a ∈ l, ∀ v, HasValue read a v → d.lookup (key a) = some v) ↔
      ∀ a ∈ l, ∀ b ∈ l, ∀ v w, HasValue read a v → HasValue read b w → key a = key b → v = w := by
  constructor
  · intro h a ha b hb v w hv hw hkey
    have hplace := h a ha v hv
    rw [hkey, h b hb w hw] at hplace
    exact (Option.some.inj hplace).symm
  · intro h a ha v hv
    obtain ⟨w, hw⟩ := Option.ne_none_iff_exists'.1 (hd.complete a ha v hv)
    obtain ⟨b, hb, hkey, hvalue⟩ := hd.sound _ w hw
    rw [hw, h a ha b hb v w hv hvalue hkey.symm]

end Lib
