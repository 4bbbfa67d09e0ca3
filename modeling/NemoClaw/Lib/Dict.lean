import Mathlib.Data.List.AList

/-! Dictionaries with distinct keys, and a tally: a second dictionary that counts the entries
of the first one by owner. The rules say exactly when an update of both keeps them in step. -/

namespace Lib

abbrev Dict (κ ν : Type*) := AList fun _ : κ => ν

namespace Dict

variable {κ ν : Type*}

def count (p : ν → Bool) (d : Dict κ ν) : ℕ := d.entries.countP fun x => p x.2

def size (d : Dict κ ν) : ℕ := d.entries.length

theorem size_eq_count (d : Dict κ ν) : size d = count (fun _ => true) d := by
  simp [size, count]

/-- Drop the entries whose value satisfies `p`. -/
def drop (p : ν → Bool) (d : Dict κ ν) : Dict κ ν :=
  ⟨d.entries.filter fun x => !p x.2, d.nodupKeys.sublist List.filter_sublist⟩

theorem count_drop (p q : ν → Bool) (d : Dict κ ν) :
    count q (drop p d) = count (fun v => q v && !p v) d := by
  simp only [count, drop, List.countP_filter]

theorem count_drop_le (p q : ν → Bool) (d : Dict κ ν) : count q (drop p d) ≤ count q d := by
  rw [count_drop]
  exact List.countP_mono_left fun x _ hx => (Bool.and_eq_true_iff.1 hx).1

variable [DecidableEq κ]

def setDefault (d : Dict κ ν) (k : κ) (v : ν) : Dict κ ν :=
  if (d.lookup k).isSome then d else d.insert k v

theorem erase_of_lookup_none {d : Dict κ ν} {k : κ} (h : d.lookup k = none) : d.erase k = d := by
  apply AList.ext
  exact List.kerase_of_notMem_keys (AList.lookup_eq_none.1 h)

theorem count_erase (p : ν → Bool) {d : Dict κ ν} {k : κ} {v : ν} (h : d.lookup k = some v) :
    count p d = count p (d.erase k) + (if p v then 1 else 0) := by
  have hk : k ∈ d.entries.keys := AList.lookup_isSome.1 (by simp [h])
  obtain ⟨w, l₁, l₂, -, heq, her⟩ := List.exists_of_kerase hk
  have hw : w = v := by
    have hmem : (⟨k, w⟩ : Sigma fun _ : κ => ν) ∈ d.entries := by simp [heq]
    exact Option.some.inj ((AList.mem_lookup_iff.2 hmem).symm.trans h)
  subst hw
  have he : (d.erase k).entries = l₁ ++ l₂ := her
  simp only [count, he, heq, List.countP_append, List.countP_cons]
  omega

theorem count_erase_le (p : ν → Bool) (d : Dict κ ν) (k : κ) :
    count p (d.erase k) ≤ count p d := by
  cases h : d.lookup k with
  | none => rw [erase_of_lookup_none h]
  | some v =>
    rw [count_erase p h]
    exact Nat.le_add_right _ _

theorem count_insert (p : ν → Bool) (d : Dict κ ν) (k : κ) (v : ν) :
    count p (d.insert k v) = count p (d.erase k) + (if p v then 1 else 0) := by
  simp only [count, AList.entries_insert, List.countP_cons]
  rfl

theorem count_insert_new (p : ν → Bool) {d : Dict κ ν} {k : κ} (v : ν) (h : d.lookup k = none) :
    count p (d.insert k v) = count p d + (if p v then 1 else 0) := by
  rw [count_insert, erase_of_lookup_none h]

theorem size_erase {d : Dict κ ν} {k : κ} {v : ν} (h : d.lookup k = some v) :
    size (d.erase k) + 1 = size d := by
  rw [size_eq_count, size_eq_count, count_erase (fun _ => true) h, if_pos rfl]

theorem size_insert_new {d : Dict κ ν} {k : κ} (v : ν) (h : d.lookup k = none) :
    size (d.insert k v) = size d + 1 := by
  rw [size_eq_count, size_eq_count, count_insert_new (fun _ => true) v h, if_pos rfl]

theorem size_insert_old {d : Dict κ ν} {k : κ} {v : ν} (w : ν) (h : d.lookup k = some v) :
    size (d.insert k w) = size d := by
  rw [← size_erase h, size_eq_count, size_eq_count, count_insert, if_pos rfl]

theorem lookup_drop (p : ν → Bool) (d : Dict κ ν) (k : κ) :
    (drop p d).lookup k = (d.lookup k).filter fun v => !p v := by
  ext v
  have hd : v ∈ (drop p d).lookup k ↔ _ := AList.mem_lookup_iff
  have hl : v ∈ d.lookup k ↔ _ := AList.mem_lookup_iff
  simp only [Option.mem_def] at hd hl
  rw [hd, Option.filter_eq_some_iff, hl]
  simp [drop]

theorem lookup_erase_eq_some {d : Dict κ ν} {k k' : κ} {v : ν} :
    (d.erase k).lookup k' = some v ↔ k' ≠ k ∧ d.lookup k' = some v := by
  by_cases h : k' = k
  · subst h
    simp
  · rw [AList.lookup_erase_ne h]
    simp [h]

theorem lookup_insert_eq_some {d : Dict κ ν} {k k' : κ} {v w : ν} :
    (d.insert k v).lookup k' = some w ↔ k' = k ∧ v = w ∨ k' ≠ k ∧ d.lookup k' = some w := by
  by_cases h : k' = k
  · subst h
    simp
  · rw [AList.lookup_insert_ne h]
    simp [h]

/-- A value that agrees with the one it replaces: what is read off the entries stays. -/
theorem exists_lookup_insert {α : Type*} (f : ν → α) {d : Dict κ ν} {k k' : κ} {u v w : ν}
    (hk : d.lookup k = some v) (hf : f w = f v) (h : d.lookup k' = some u) :
    ∃ u', (d.insert k w).lookup k' = some u' ∧ f u' = f u := by
  by_cases he : k' = k
  · subst he
    obtain rfl := Option.some.inj (hk.symm.trans h)
    exact ⟨w, AList.lookup_insert d, hf⟩
  · exact ⟨u, (AList.lookup_insert_ne he).trans h, rfl⟩

/-- An insertion at a key that an optional key is not. -/
theorem bind_lookup_insert {o : Option κ} {d : Dict κ ν} {k : κ} (v : ν)
    (h : ∀ k', o = some k' → k' ≠ k) :
    (o.bind fun k' => (d.insert k v).lookup k') = o.bind fun k' => d.lookup k' := by
  cases o with
  | none => rfl
  | some k' => exact AList.lookup_insert_ne (h k' rfl)

theorem mem_values {d : Dict κ ν} {v : ν} :
    v ∈ d.entries.map Sigma.snd ↔ ∃ k, d.lookup k = some v := by
  simp only [List.mem_map, Sigma.exists]
  refine ⟨fun ⟨k, w, hmem, hw⟩ => ⟨k, ?_⟩, fun ⟨k, hk⟩ => ⟨k, v, AList.mem_lookup_iff.1 hk, rfl⟩⟩
  subst hw
  exact AList.mem_lookup_iff.2 hmem

theorem lookup_drop_eq_some {p : ν → Bool} {d : Dict κ ν} {k : κ} {v : ν} :
    (drop p d).lookup k = some v ↔ d.lookup k = some v ∧ p v = false := by
  rw [lookup_drop, Option.filter_eq_some_iff, Bool.not_eq_true']

theorem lookup_foldl_erase {α : Type*} (f : α → κ) (l : List α) (d : Dict κ ν) (k : κ) :
    (l.foldl (fun d x => d.erase (f x)) d).lookup k =
      if k ∈ l.map f then none else d.lookup k := by
  induction l generalizing d with
  | nil => simp
  | cons x l ih =>
    rw [List.foldl_cons, ih, List.map_cons]
    by_cases hx : k = f x
    · subst hx
      simp
    · rw [AList.lookup_erase_ne hx]
      simp [hx]

end Dict

/-- `c` counts the entries of `d` by owner; an absent counter reads 0. -/
def Tally {κ ν ι : Type*} [DecidableEq ι] (owner : ν → ι) (d : Dict κ ν) (c : Dict ι ℕ) : Prop :=
  ∀ s, (c.lookup s).getD 0 = Dict.count (fun v => decide (owner v = s)) d

namespace Tally

variable {κ ν ι : Type*} [DecidableEq ι] {owner : ν → ι} {d : Dict κ ν} {c : Dict ι ℕ}

theorem empty : Tally owner (∅ : Dict κ ν) ∅ := fun s => by simp [Dict.count]

theorem getD_insert (c : Dict ι ℕ) (s t : ι) (n : ℕ) :
    ((c.insert s n).lookup t).getD 0 = if t = s then n else (c.lookup t).getD 0 := by
  split_ifs with h
  · subst h
    simp
  · rw [AList.lookup_insert_ne h]

/-- The default of the decrement is 1, so an absent counter goes to 0. -/
theorem getD_pred (o : Option ℕ) : o.getD 1 - 1 = o.getD 0 - 1 := by
  cases o <;> rfl

/-- Lowering a counter with no entry removed keeps the tally exactly if it was already 0. -/
theorem lower_iff (h : Tally owner d c) (s : ι) :
    Tally owner d (c.insert s ((c.lookup s).getD 1 - 1)) ↔ (c.lookup s).getD 0 = 0 := by
  constructor
  · intro h'
    have h₁ := h' s
    have h₂ := h s
    rw [getD_insert, if_pos rfl, getD_pred] at h₁
    omega
  · intro hz t
    rw [getD_insert, getD_pred]
    split_ifs with e
    · subst e
      rw [← h t, hz]
    · exact h t

/-- Dropping all entries of one owner together with its counter keeps the tally. -/
theorem drop (h : Tally owner d c) (s : ι) :
    Tally owner (Dict.drop (fun v => decide (owner v = s)) d) (c.erase s) := by
  intro t
  rw [Dict.count_drop]
  by_cases e : t = s
  · subst e
    simp [Dict.count]
  · rw [AList.lookup_erase_ne e, h t]
    simp only [Dict.count]
    apply List.countP_congr
    intro x _
    by_cases hx : owner x.2 = t <;> simp [hx, e]

variable [DecidableEq κ]

/-- Adding an entry and raising its owner's counter keeps the tally exactly if the key is new. -/
theorem insert_iff (h : Tally owner d c) (k : κ) (v : ν) :
    Tally owner (d.insert k v) (c.insert (owner v) ((c.lookup (owner v)).getD 0 + 1)) ↔
      d.lookup k = none := by
  constructor
  · intro h'
    by_contra hne
    obtain ⟨w, hk⟩ := Option.ne_none_iff_exists'.1 hne
    -- the overwritten entry is lost, and its owner's counter does not follow
    have hnew := h' (owner w)
    have hold := h (owner w)
    have hlost := Dict.count_erase (fun u => decide (owner u = owner w)) hk
    rw [getD_insert, Dict.count_insert] at hnew
    by_cases e : owner w = owner v
    · rw [e] at hnew hold hlost
      simp only [decide_true, ite_true] at hnew hlost
      omega
    · simp only [e, Ne.symm e, decide_true, decide_false, Bool.false_eq_true, ite_true,
        ite_false] at hnew hlost
      omega
  · intro hk s
    rw [getD_insert, Dict.count_insert_new _ _ hk]
    by_cases e : s = owner v
    · subst e
      simp [h (owner v)]
    · simp [e, Ne.symm e, h s]

/-- Removing an entry and lowering the counter of `s` keeps the tally exactly if the entry was
owned by `s`. -/
theorem erase_iff (h : Tally owner d c) {k : κ} {v : ν} (hk : d.lookup k = some v) (s : ι) :
    Tally owner (d.erase k) (c.insert s ((c.lookup s).getD 1 - 1)) ↔ owner v = s := by
  have hc := fun t => Dict.count_erase (fun v => decide (owner v = t)) hk
  constructor
  · intro h'
    by_contra hne
    have h₁ := h' (owner v)
    have h₂ := h (owner v)
    have h₃ := hc (owner v)
    rw [getD_insert, if_neg hne] at h₁
    simp only [decide_true, ite_true] at h₃
    omega
  · rintro rfl t
    have h₁ := h t
    have h₂ := hc t
    rw [getD_insert, getD_pred]
    split_ifs with e
    · subst e
      simp only [decide_true, ite_true] at h₂
      omega
    · simp only [Ne.symm e, decide_false, Bool.false_eq_true, ite_false] at h₂
      omega

/-- Forgetting a key and lowering the counter of `s` keeps the tally exactly if the entry was
owned by `s`, or if there was no entry and the counter was already 0. -/
theorem forget_iff (h : Tally owner d c) (k : κ) (s : ι) :
    Tally owner (d.erase k) (c.insert s ((c.lookup s).getD 1 - 1)) ↔
      (∀ v, d.lookup k = some v → owner v = s) ∧
        (d.lookup k = none → (c.lookup s).getD 0 = 0) := by
  cases hk : d.lookup k with
  | none => simpa [Dict.erase_of_lookup_none hk] using h.lower_iff s
  | some v => simpa using h.erase_iff hk s

end Tally

end Lib
