import Mathlib.Algebra.Order.Group.Nat
import Mathlib.Data.List.Sort

/-! Items in groups, and a limit on them: one for each group, or one for all groups together. -/

namespace Lib

namespace Quotas

variable {κ α : Type*} {A B : κ → List α} {G : List κ} {k : ℕ}

/-- The first items of each group. -/
def each (k : ℕ) (A : κ → List α) (G : List κ) : List α := G.flatMap fun g => (A g).take k

/-- The first items of all groups together. -/
def overall (k : ℕ) (B : κ → List α) (G : List κ) : List α := (G.flatMap B).take k

/-! ### How many items -/

theorem each_cons {g : κ} : each k A (g :: G) = (A g).take k ++ each k A G := List.flatMap_cons

theorem length_overall_le : (overall k B G).length ≤ k := List.length_take_le k _

theorem min_length_le : min k (G.flatMap A).length ≤ (each k A G).length := by
  induction G with
  | nil => simp
  | cons g G ih =>
    rw [each_cons, List.flatMap_cons, List.length_append, List.length_append, List.length_take]
    omega

theorem each_of_length_le (h : (G.flatMap A).length ≤ k) : each k A G = G.flatMap A := by
  induction G with
  | nil => rfl
  | cons g G ih =>
    rw [List.flatMap_cons, List.length_append] at h
    rw [each_cons, List.flatMap_cons, ih (by omega), List.take_of_length_le (by omega)]

/-- With more items than the limit, a limit for each group keeps to it only if it is zero or if all
items are in one group. -/
theorem length_each_le_iff (hnodup : G.Nodup) (h : k < (G.flatMap A).length) :
    (each k A G).length ≤ k ↔
      k = 0 ∨ ∀ f ∈ G, ∀ g ∈ G, A f ≠ [] → A g ≠ [] → f = g := by
  induction G with
  | nil => simp at h
  | cons g G ih =>
    obtain ⟨hg, hnodup⟩ := List.nodup_cons.1 hnodup
    rw [List.flatMap_cons, List.length_append] at h
    rw [each_cons, List.length_append, List.length_take]
    by_cases hempty : A g = []
    · rw [hempty, List.length_nil] at h ⊢
      rw [Nat.min_zero, Nat.zero_add, ih hnodup (by omega)]
      simp [hempty]
    · have hpos := List.length_pos_iff.2 hempty
      constructor
      · intro hle
        refine or_iff_not_imp_left.2 fun hk => ?_
        -- the first group is at the limit, and nothing is left for the others
        have hmin := min_length_le (k := k) (G := G) (A := A)
        have hrest : (G.flatMap A).length = 0 := by omega
        have hothers := List.flatMap_eq_nil_iff.1 (List.length_eq_zero_iff.1 hrest)
        have honly : ∀ f ∈ g :: G, A f ≠ [] → f = g := by
          intro f hf hne
          rcases List.mem_cons.1 hf with rfl | hf
          · rfl
          · exact absurd (hothers f hf) hne
        intro f hf f' hf' hne hne'
        rw [honly f hf hne, honly f' hf' hne']
      · rintro (rfl | honly)
        · simp [each]
        · have hothers : ∀ f ∈ G, A f = [] := by
            intro f hf
            by_contra hne
            obtain rfl := honly f (List.mem_cons_of_mem _ hf) g List.mem_cons_self hne hempty
            exact hg hf
          have hrest : each k A G = [] :=
            List.flatMap_eq_nil_iff.2 fun f hf => by rw [hothers f hf, List.take_nil]
          rw [hrest, List.length_nil]
          omega

/-! ### Which items -/

/-- Each group is what the limit leaves of the other group. -/
def Shares (A B : κ → List α) : ℕ → List κ → Prop
  | _, [] => True
  | k, g :: G => A g = (B g).take k ∧ Shares A B (k - (B g).length) G

theorem overall_cons {g : κ} :
    overall k B (g :: G) = (B g).take k ++ overall (k - (B g).length) B G := by
  rw [overall, overall, List.flatMap_cons, List.take_append]

/-- Items of groups that are different, in an order in each group. -/
structure Grouped (key : α → κ) (r : α → α → Prop) (A : κ → List α) : Prop where
  key_eq : ∀ g, ∀ x ∈ A g, key x = g
  sorted : ∀ g, (A g).Pairwise r

variable {key : α → κ} {r : α → α → Prop}

theorem key_mem_of_mem_overall (hB : Grouped key r B) {x : α} (hx : x ∈ overall k B G) :
    key x ∈ G := by
  obtain ⟨g, hg, hx⟩ := List.mem_flatMap.1 (List.mem_of_mem_take hx)
  rwa [hB.key_eq g x hx]

theorem nodup_flatMap [Std.Irrefl r] (hnodup : G.Nodup) (hA : Grouped key r A) :
    (G.flatMap A).Nodup := by
  refine List.nodup_flatMap.2 ⟨fun g _ => (hA.sorted g).nodup, ?_⟩
  refine hnodup.imp fun {f g} hne x hf hg => ?_
  exact hne ((hA.key_eq f x hf).symm.trans (hA.key_eq g x hg))

variable [Std.Irrefl r] [Std.Antisymm r]

theorem mem_iff_shares (hnodup : G.Nodup) (hA : Grouped key r A) (hB : Grouped key r B) :
    (∀ x, x ∈ G.flatMap A ↔ x ∈ overall k B G) ↔ Shares A B k G := by
  induction G generalizing k with
  | nil => simp [overall, Shares]
  | cons g G ih =>
    obtain ⟨hg, hnodup⟩ := List.nodup_cons.1 hnodup
    have hfirst : ∀ x, x ∈ A g ∨ x ∈ (B g).take k → x ∉ G.flatMap A ∧
        x ∉ overall (k - (B g).length) B G := by
      intro x hx
      have hkey : key x = g := by
        rcases hx with hx | hx
        · exact hA.key_eq g x hx
        · exact hB.key_eq g x (List.mem_of_mem_take hx)
      refine ⟨fun hmem => ?_, fun hmem => ?_⟩
      · obtain ⟨f, hf, hx⟩ := List.mem_flatMap.1 hmem
        rw [← hA.key_eq f x hx, hkey] at hf
        exact hg hf
      · have hmem := key_mem_of_mem_overall hB hmem
        rw [hkey] at hmem
        exact hg hmem
    rw [Shares, ← ih hnodup, overall_cons, List.flatMap_cons]
    simp only [List.mem_append]
    constructor
    · intro hall
      refine ⟨(hA.sorted g).eq_of_mem_iff ((hB.sorted g).sublist (List.take_sublist _ _)) ?_, ?_⟩
      · intro x
        constructor
        · intro hx
          exact ((hall x).1 (Or.inl hx)).resolve_right (hfirst x (Or.inl hx)).2
        · intro hx
          exact ((hall x).2 (Or.inl hx)).resolve_right (hfirst x (Or.inr hx)).1
      · intro x
        constructor
        · intro hx
          refine ((hall x).1 (Or.inr hx)).resolve_left fun hmem => ?_
          exact (hfirst x (Or.inr hmem)).1 hx
        · intro hx
          refine ((hall x).2 (Or.inr hx)).resolve_left fun hmem => ?_
          exact (hfirst x (Or.inl hmem)).2 hx
    · rintro ⟨heq, hrest⟩ x
      rw [heq, hrest x]

theorem shares_zero : Shares A B 0 G ↔ ∀ g ∈ G, A g = [] := by
  induction G with
  | nil => simp [Shares]
  | cons g G ih => simp [Shares, ih]

/-- The limit ends behind the first group, or in it. -/
theorem shares_cons {g : κ} : Shares A B k (g :: G) ↔
    ((B g).length ≤ k ∧ A g = B g ∧ Shares A B (k - (B g).length) G) ∨
      (k < (B g).length ∧ A g = (B g).take k ∧ ∀ f ∈ G, A f = []) := by
  rw [Shares]
  rcases le_or_gt (B g).length k with hfits | hcut
  · rw [List.take_of_length_le hfits]
    simp [hfits, not_lt.2 hfits]
  · rw [Nat.sub_eq_zero_of_le hcut.le, shares_zero]
    simp [hcut, not_le.2 hcut]

/-- The items of `A` are in the limit. They are the first of the others in each group, and where
there are more of those, the limit ends there. -/
theorem shares_iff [LinearOrder κ] (hsorted : G.Pairwise (· < ·))
    (hle : (G.flatMap A).length ≤ k) : Shares A B k G ↔
      (∀ g ∈ G, A g <+: B g) ∧ ∀ g ∈ G, (A g).length < (B g).length →
        (G.flatMap A).length = k ∧ ∀ f ∈ G, A f ≠ [] → f ≤ g := by
  induction G generalizing k with
  | nil => simp [Shares]
  | cons g G ih =>
    obtain ⟨hg, hsorted⟩ := List.pairwise_cons.1 hsorted
    rw [List.flatMap_cons, List.length_append] at hle ⊢
    rw [shares_cons]
    constructor
    · rintro (⟨hfits, hfirst, hrest⟩ | ⟨hcut, hfirst, hrest⟩)
      · obtain ⟨hbeginnings, hmore⟩ := (ih hsorted (by rw [← hfirst]; omega)).1 hrest
        refine ⟨List.forall_mem_cons.2 ⟨hfirst ▸ List.prefix_refl _, hbeginnings⟩,
          List.forall_mem_cons.2 ⟨?_, ?_⟩⟩
        · intro hlt
          rw [hfirst] at hlt
          exact absurd hlt (lt_irrefl _)
        · intro f hf hlt
          obtain ⟨htotal, hlast⟩ := hmore f hf hlt
          exact ⟨by rw [hfirst]; omega, List.forall_mem_cons.2 ⟨fun _ => (hg f hf).le, hlast⟩⟩
      · have hlength : (A g).length = k := by
          rw [hfirst, List.length_take]
          omega
        have hbegins : A g <+: B g := by
          rw [hfirst]
          exact List.take_prefix k (B g)
        have hempty : (G.flatMap A).length = 0 := by
          rw [List.flatMap_eq_nil_iff.2 hrest, List.length_nil]
        have hbeginnings : ∀ f ∈ G, A f <+: B f := fun f hf => by
          rw [hrest f hf]
          exact List.nil_prefix
        refine ⟨List.forall_mem_cons.2 ⟨hbegins, hbeginnings⟩, fun f hf _ => ⟨by omega, ?_⟩⟩
        refine List.forall_mem_cons.2 ⟨fun _ => ?_, fun h hh hne => absurd (hrest h hh) hne⟩
        rcases List.mem_cons.1 hf with rfl | hf
        · exact le_rfl
        · exact (hg f hf).le
    · rintro ⟨hbeginnings, hmore⟩
      obtain ⟨hbegins, hbeginnings⟩ := List.forall_mem_cons.1 hbeginnings
      obtain ⟨hfirst, hmore⟩ := List.forall_mem_cons.1 hmore
      rcases hbegins.length_le.lt_or_eq with hlt | heq
      · obtain ⟨htotal, hlast⟩ := hfirst hlt
        have hothers : ∀ f ∈ G, A f = [] := by
          intro f hf
          by_contra hne
          exact absurd (hlast f (List.mem_cons_of_mem _ hf) hne) (not_le.2 (hg f hf))
        rw [List.flatMap_eq_nil_iff.2 hothers, List.length_nil, Nat.add_zero] at htotal
        rw [← htotal]
        exact Or.inr ⟨hlt, List.prefix_iff_eq_take.1 hbegins, hothers⟩
      · refine Or.inl ⟨by omega, hbegins.eq_of_length heq, ?_⟩
        refine (ih hsorted (by omega)).2 ⟨hbeginnings, fun f hf hlt => ?_⟩
        obtain ⟨htotal, hlast⟩ := hmore f hf hlt
        exact ⟨by omega, fun h hh => hlast h (List.mem_cons_of_mem _ hh)⟩

/-- When the limit for all groups leaves the items of other groups, which are in the limit. -/
theorem mem_overall_iff [LinearOrder κ] {F : List κ} (hnodup : F.Nodup)
    (hsorted : G.Pairwise (· < ·)) (hA : Grouped key r A) (hB : Grouped key r B)
    (hout : ∀ g ∉ F, A g = []) (hle : (F.flatMap A).length ≤ k) :
    (∀ x, x ∈ F.flatMap A ↔ x ∈ overall k B G) ↔
      (∀ f ∈ F, A f ≠ [] → f ∈ G) ∧ (∀ g ∈ G, A g <+: B g) ∧
        ∀ g ∈ G, (A g).length < (B g).length →
          (F.flatMap A).length = k ∧ ∀ f ∈ F, A f ≠ [] → f ≤ g := by
  have hGnodup : G.Nodup := hsorted.imp fun {_ _} hlt => hlt.ne
  by_cases hcovered : ∀ f ∈ F, A f ≠ [] → f ∈ G
  · have hmem : ∀ x, x ∈ F.flatMap A ↔ x ∈ G.flatMap A := by
      intro x
      constructor
      · intro hx
        obtain ⟨f, hf, hx⟩ := List.mem_flatMap.1 hx
        exact List.mem_flatMap.2 ⟨f, hcovered f hf (List.ne_nil_of_mem hx), hx⟩
      · intro hx
        obtain ⟨g, hg, hx⟩ := List.mem_flatMap.1 hx
        refine List.mem_flatMap.2 ⟨g, ?_, hx⟩
        by_contra hnot
        rw [hout g hnot] at hx
        exact List.not_mem_nil hx
    have hperm := (List.perm_ext_iff_of_nodup (nodup_flatMap hnodup hA)
      (nodup_flatMap hGnodup hA)).2 hmem
    have hlast : ∀ g, (∀ f ∈ F, A f ≠ [] → f ≤ g) ↔ ∀ f ∈ G, A f ≠ [] → f ≤ g := by
      intro g
      constructor
      · intro hall f hf hne
        refine hall f ?_ hne
        by_contra hnot
        exact hne (hout f hnot)
      · intro hall f hf hne
        exact hall f (hcovered f hf hne) hne
    simp only [hmem, mem_iff_shares hGnodup hA hB]
    rw [shares_iff hsorted (hperm.length_eq ▸ hle), hperm.length_eq]
    simp only [hlast, and_iff_right hcovered]
  · refine iff_of_false (fun hall => hcovered fun f hf hne => ?_) fun h => hcovered h.1
    obtain ⟨x, hx⟩ := List.exists_mem_of_ne_nil _ hne
    have hin := key_mem_of_mem_overall hB ((hall x).1 (List.mem_flatMap.2 ⟨f, hf, hx⟩))
    rwa [hA.key_eq f x hx] at hin

end Quotas

end Lib
