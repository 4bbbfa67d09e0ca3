import Mathlib.Data.List.Sort

/-! Rankings: the first items of a list in ascending order of their keys. With distinct keys the
ranking of so many items is unique, whatever the order they come in. -/

namespace Lib

variable {α κ : Type*} [LinearOrder κ] (key : α → κ)

/-- The items in ascending order of their keys. -/
def ranked (xs : List α) : List α := xs.insertionSort fun a b => key a ≤ key b

/-- `ys` ranks the `n` items with the least keys. -/
structure Ranks (n : ℕ) (xs ys : List α) : Prop where
  ascending : ys.Pairwise fun a b => key a < key b
  mem : ∀ y ∈ ys, y ∈ xs
  length : ys.length = min n xs.length
  first : ∀ y ∈ ys, ∀ x ∈ xs, x ∉ ys → key y < key x

variable {key} {xs xs' ys : List α} {n : ℕ}

theorem perm_ranked (xs : List α) : (ranked key xs).Perm xs := List.perm_insertionSort _ xs

theorem ranked_ascending (h : (xs.map key).Nodup) :
    (ranked key xs).Pairwise fun a b => key a < key b := by
  have hle : (ranked key xs).Pairwise fun a b => key a ≤ key b := by
    have : Std.Total fun a b : α => key a ≤ key b := ⟨fun a b => le_total (key a) (key b)⟩
    have : IsTrans α fun a b => key a ≤ key b := ⟨fun a b c => le_trans⟩
    exact List.pairwise_insertionSort _ xs
  have hne : (ranked key xs).Pairwise fun a b => key a ≠ key b :=
    List.pairwise_map.1 (((perm_ranked xs).map key).nodup_iff.2 h)
  exact (hle.and hne).imp fun hab => lt_of_le_of_ne hab.1 hab.2

/-- What is in ascending order is its own ranking. -/
theorem ranked_eq (h : (xs.map key).Nodup) (hys : ys.Pairwise fun a b => key a < key b)
    (hperm : ys.Perm xs) : ranked key xs = ys := by
  refine List.Perm.eq_of_pairwise ?_ (ranked_ascending h) hys ((perm_ranked xs).trans hperm.symm)
  intro a b _ _ hab hba
  exact absurd hab (lt_asymm hba)

theorem ranks_take (h : (xs.map key).Nodup) (n : ℕ) : Ranks key n xs ((ranked key xs).take n) where
  ascending := (ranked_ascending h).sublist (List.take_sublist n _)
  mem := fun y hy => (perm_ranked xs).mem_iff.1 (List.mem_of_mem_take hy)
  length := by rw [List.length_take, (perm_ranked xs).length_eq]
  first := by
    intro y hy x hx hout
    have hsplit := ranked_ascending h
    rw [← List.take_append_drop n (ranked key xs), List.pairwise_append] at hsplit
    have hmem : x ∈ ranked key xs := (perm_ranked xs).mem_iff.2 hx
    rw [← List.take_append_drop n (ranked key xs), List.mem_append] at hmem
    exact hsplit.2.2 y hy x (hmem.resolve_left hout)

namespace Ranks

/-- A ranking is the head of the whole one. -/
theorem eq_take (h : Ranks key n xs ys) (hkeys : (xs.map key).Nodup) :
    ys = (ranked key xs).take n := by
  classical
  have hnodup : xs.Nodup := List.Nodup.of_map key hkeys
  let rest := xs.filter fun x => decide (x ∉ ys)
  have hrest : (rest.map key).Nodup := hkeys.sublist (List.filter_sublist.map key)
  have hinner : ys.Perm (xs.filter fun x => decide (x ∈ ys)) := by
    rw [List.perm_ext_iff_of_nodup (h.ascending.imp fun hlt heq => hlt.ne (congrArg key heq))
      (hnodup.filter _)]
    intro y
    simp only [List.mem_filter, decide_eq_true_eq]
    exact ⟨fun hy => ⟨h.mem y hy, hy⟩, And.right⟩
  have hperm : (ys ++ ranked key rest).Perm xs := by
    refine (hinner.append (perm_ranked rest)).trans ?_
    have hfilter := List.filter_append_perm (fun x => decide (x ∈ ys)) xs
    simpa [rest] using hfilter
  have hascending : (ys ++ ranked key rest).Pairwise fun a b => key a < key b := by
    rw [List.pairwise_append]
    refine ⟨h.ascending, ranked_ascending hrest, ?_⟩
    intro y hy x hx
    obtain ⟨hx, hout⟩ := List.mem_filter.1 ((perm_ranked rest).mem_iff.1 hx)
    exact h.first y hy x hx (of_decide_eq_true hout)
  rw [ranked_eq hkeys hascending hperm]
  have hlength := h.length
  rcases le_total n xs.length with hn | hn
  · rw [min_eq_left hn] at hlength
    rw [← hlength, List.take_left]
  · rw [min_eq_right hn] at hlength
    have hall := hperm.length_eq
    rw [List.length_append] at hall
    have hnone : ranked key rest = [] := List.eq_nil_of_length_eq_zero (by omega)
    rw [hnone, List.append_nil, List.take_of_length_le (by omega)]

/-- The order that the items come in does not matter. -/
theorem perm (h : Ranks key n xs ys) (hperm : xs.Perm xs') : Ranks key n xs' ys where
  ascending := h.ascending
  mem := fun y hy => hperm.mem_iff.1 (h.mem y hy)
  length := by rw [h.length, hperm.length_eq]
  first := fun y hy x hx => h.first y hy x (hperm.mem_iff.2 hx)

end Ranks

end Lib
