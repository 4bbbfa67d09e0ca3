import NemoClaw.Lib.Cuts

/-! Occurrences of a word in a text, those that overlap among them. A count that goes on behind each
occurrence that it finds is one exactly if all occurrences overlap. A word is replaced between the
letters that it does not have. -/

namespace Lib

namespace Cuts

variable {α : Type*}

/-- The word begins at the `i`-th letter. -/
def At (mark l : List α) (i : ℕ) : Prop := i ≤ l.length ∧ mark <+: l.drop i

/-- At exactly one place, also when places may overlap. -/
def OccursOnce (mark l : List α) : Prop := ∃! i, At mark l i

/-- The word occurs, and no two of its places are apart. -/
def Lone (mark l : List α) : Prop :=
  (∃ i, At mark l i) ∧ ∀ i j, At mark l i → At mark l j → i < j → j < i + mark.length

variable {mark new l pre suf : List α} {a : α} {i n : ℕ}

theorem at_length_left : At mark (pre ++ mark ++ suf) pre.length := by
  refine ⟨by simp, ?_⟩
  rw [List.append_assoc, List.drop_left]
  exact List.prefix_append _ _

/-- What stands before and behind an occurrence. -/
theorem exists_of_at (h : At mark l i) : ∃ pre suf, l = pre ++ mark ++ suf ∧ pre.length = i := by
  obtain ⟨hle, suf, hsuf⟩ := h
  refine ⟨l.take i, suf, ?_, by simp [hle]⟩
  rw [List.append_assoc, hsuf, List.take_append_drop]

theorem at_zero : At mark l 0 ↔ mark <+: l := by simp [At]

theorem at_succ : At mark (a :: l) (i + 1) ↔ At mark l i := by simp [At]

theorem at_drop (hn : n ≤ l.length) : At mark (l.drop n) i ↔ At mark l (n + i) := by
  simp only [At, List.length_drop, List.drop_drop]
  constructor
  · rintro ⟨hle, h⟩
    exact ⟨by omega, h⟩
  · rintro ⟨hle, h⟩
    exact ⟨by omega, h⟩

theorem not_at_nil (hmark : mark ≠ []) : ¬ At mark [] i := by
  rintro ⟨-, h⟩
  rw [List.drop_nil] at h
  exact hmark (List.prefix_nil.1 h)

/-- A word without the letter `sep` is not across it. -/
theorem prefix_append_cons_iff {sep : α} {r : List α} (hsep : sep ∉ mark) :
    mark <+: l ++ sep :: r ↔ mark <+: l := by
  constructor
  · intro h
    have hto : l ++ [sep] <+: l ++ sep :: r := ⟨r, by simp⟩
    rcases List.prefix_or_prefix_of_prefix h hto with hle | hge
    · rcases List.prefix_concat_iff.1 hle with heq | hle
      · exact absurd (heq ▸ List.mem_append_right l List.mem_cons_self) hsep
      · exact hle
    · exact absurd (hge.subset (List.mem_append_right l List.mem_cons_self)) hsep
  · intro h
    exact h.trans (List.prefix_append _ _)

theorem OccursOnce.lone (h : OccursOnce mark l) : Lone mark l := by
  obtain ⟨i, hi, hunique⟩ := h
  refine ⟨⟨i, hi⟩, fun j k hj hk hlt => ?_⟩
  rw [hunique j hj, hunique k hk] at hlt
  exact absurd hlt (lt_irrefl _)

/-- The place of a word that occurs once. -/
theorem OccursOnce.eq_of_append {pre' suf' : List α} (h : OccursOnce mark (pre ++ mark ++ suf))
    (heq : pre ++ mark ++ suf = pre' ++ mark ++ suf') : pre' = pre ∧ suf' = suf := by
  have hat : At mark (pre ++ mark ++ suf) pre'.length := heq ▸ at_length_left
  have hlen : pre.length = pre'.length := h.unique at_length_left hat
  rw [List.append_assoc, List.append_assoc] at heq
  obtain ⟨rfl, hrest⟩ := List.append_inj heq hlen
  exact ⟨rfl, (List.append_cancel_left hrest).symm⟩

theorem lone_nil_mark : Lone [] l ↔ l = [] := by
  constructor
  · rintro ⟨-, happart⟩
    by_contra hne
    have hlt := happart 0 l.length ⟨Nat.zero_le _, List.nil_prefix⟩ ⟨le_rfl, List.nil_prefix⟩
      (List.length_pos_iff.2 hne)
    simp at hlt
  · rintro rfl
    refine ⟨⟨0, by simp [At]⟩, fun i j hi hj hlt => ?_⟩
    have hj' := hj.1
    simp only [List.length_nil] at hj' ⊢
    omega

variable [DecidableEq α]

theorem occurrences_skip : occurrences mark n l = occurrences mark 0 (l.drop n) := by
  induction l generalizing n with
  | nil => cases n <;> rfl
  | cons a l ih =>
    cases n with
    | zero => rfl
    | succ n => rw [occurrences, ih, List.drop_succ_cons]

/-- Behind an occurrence the count goes on. -/
theorem occurrences_of_marked (hmark : mark ≠ []) (h : mark <+: l) :
    occurrences mark 0 l = occurrences mark 0 (l.drop mark.length) + 1 := by
  cases l with
  | nil => exact absurd (List.prefix_nil.1 h) hmark
  | cons a l =>
    obtain ⟨n, hn⟩ : ∃ n, mark.length = n + 1 :=
      Nat.exists_eq_succ_of_ne_zero (by simpa using hmark)
    rw [occurrences, if_pos h, occurrences_skip, hn, List.drop_succ_cons, Nat.add_sub_cancel]

theorem occurrences_of_unmarked (h : ¬ mark <+: a :: l) :
    occurrences mark 0 (a :: l) = occurrences mark 0 l := by rw [occurrences, if_neg h]

theorem occurrences_eq_zero_iff (hmark : mark ≠ []) :
    occurrences mark 0 l = 0 ↔ ∀ i, ¬ At mark l i := by
  induction l with
  | nil => simp [occurrences, hmark, not_at_nil hmark]
  | cons a l ih =>
    by_cases h : mark <+: a :: l
    · rw [occurrences_of_marked hmark h]
      refine iff_of_false (Nat.succ_ne_zero _) fun hnone => hnone 0 (at_zero.2 h)
    · rw [occurrences_of_unmarked h, ih]
      constructor
      · rintro hnone (_ | i)
        · rwa [at_zero]
        · rw [at_succ]
          exact hnone i
      · exact fun hnone i hi => hnone (i + 1) (at_succ.2 hi)

theorem occurrences_nil_mark (l : List α) : occurrences [] 0 l = l.length + 1 := by
  induction l with
  | nil => rfl
  | cons a l ih =>
    rw [occurrences, if_pos List.nil_prefix]
    exact congrArg (· + 1) ih

theorem occurrences_eq_one_iff : occurrences mark 0 l = 1 ↔ Lone mark l := by
  by_cases hmark : mark = []
  · subst hmark
    rw [occurrences_nil_mark, lone_nil_mark, Nat.succ_inj, List.length_eq_zero_iff]
  · induction l with
    | nil =>
      refine iff_of_false (by simp [occurrences, hmark]) ?_
      rintro ⟨⟨i, hi⟩, -⟩
      exact not_at_nil hmark hi
    | cons a l ih =>
      by_cases h : mark <+: a :: l
      · rw [occurrences_of_marked hmark h, Nat.succ_inj, occurrences_eq_zero_iff hmark]
        constructor
        · intro hnone
          refine ⟨⟨0, at_zero.2 h⟩, fun i j hi hj hlt => ?_⟩
          by_contra hapart
          refine hnone (j - mark.length) ((at_drop h.length_le).2 ?_)
          rwa [Nat.add_sub_cancel' (by omega)]
        · rintro ⟨-, hoverlap⟩ i hi
          have hpos : 0 < mark.length := List.length_pos_iff.2 hmark
          have hlt := hoverlap 0 (mark.length + i) (at_zero.2 h) ((at_drop h.length_le).1 hi)
            (by omega)
          omega
      · rw [occurrences_of_unmarked h, ih]
        have hpos : ∀ {i}, At mark (a :: l) i → ∃ j, i = j + 1 ∧ At mark l j := by
          rintro (_ | i) hi
          · exact absurd (at_zero.1 hi) h
          · exact ⟨i, rfl, at_succ.1 hi⟩
        constructor
        · rintro ⟨⟨i, hi⟩, hoverlap⟩
          refine ⟨⟨i + 1, at_succ.2 hi⟩, fun j k hj hk hlt => ?_⟩
          obtain ⟨j, rfl, hj'⟩ := hpos hj
          obtain ⟨k, rfl, hk'⟩ := hpos hk
          have hjk := hoverlap j k hj' hk' (by omega)
          omega
        · rintro ⟨⟨i, hi⟩, hoverlap⟩
          obtain ⟨i, rfl, hi'⟩ := hpos hi
          refine ⟨⟨i, hi'⟩, fun j k hj hk hlt => ?_⟩
          have hjk := hoverlap (j + 1) (k + 1) (at_succ.2 hj) (at_succ.2 hk) (by omega)
          omega

/-- The first occurrence is replaced. -/
theorem exists_replaceFirst (new : List α) (h : ∃ i, At mark l i) :
    ∃ pre suf, l = pre ++ mark ++ suf ∧ replaceFirst mark new l = pre ++ new ++ suf := by
  induction l with
  | nil =>
    obtain ⟨i, -, hbegins⟩ := h
    rw [List.drop_nil] at hbegins
    obtain rfl := List.prefix_nil.1 hbegins
    exact ⟨[], [], rfl, by simp [replaceFirst]⟩
  | cons a l ih =>
    by_cases hbegins : mark <+: a :: l
    · obtain ⟨suf, hsuf⟩ := hbegins
      refine ⟨[], suf, hsuf.symm, ?_⟩
      rw [replaceFirst, if_pos ⟨suf, hsuf⟩, ← hsuf, List.drop_left]
      rfl
    · obtain ⟨i, hi⟩ := h
      cases i with
      | zero => exact absurd (at_zero.1 hi) hbegins
      | succ i =>
        obtain ⟨pre, suf, rfl, hreplace⟩ := ih ⟨i, at_succ.1 hi⟩
        refine ⟨a :: pre, suf, rfl, ?_⟩
        rw [replaceFirst, if_neg hbegins, hreplace]
        rfl

/-! ### `replaceAll` -/

theorem replaceAll_zero_cons (hmark : mark ≠ []) : replaceAll mark new 0 (a :: l) =
    if mark <+: a :: l then new ++ replaceAll mark new (mark.length - 1) l
    else a :: replaceAll mark new 0 l := by
  rw [replaceAll, if_neg hmark]

theorem replaceAll_append_cons {sep : α} {r : List α} (hmark : mark ≠ []) (hsep : sep ∉ mark)
    (hn : n ≤ l.length) :
    replaceAll mark new n (l ++ sep :: r) =
      replaceAll mark new n l ++ sep :: replaceAll mark new 0 r := by
  induction l generalizing n with
  | nil =>
    obtain rfl := Nat.le_zero.1 hn
    have hnot : ¬ mark <+: [] ++ sep :: r := by
      rw [prefix_append_cons_iff hsep]
      exact fun h => hmark (List.prefix_nil.1 h)
    rw [List.nil_append] at hnot ⊢
    rw [replaceAll_zero_cons hmark, if_neg hnot, replaceAll, if_neg hmark, List.nil_append]
  | cons a l ih =>
    cases n with
    | succ n => exact ih (Nat.le_of_succ_le_succ hn)
    | zero =>
      have hiff := prefix_append_cons_iff (l := a :: l) (r := r) hsep
      rw [List.cons_append] at hiff ⊢
      rw [replaceAll_zero_cons hmark, replaceAll_zero_cons hmark]
      split_ifs with h h' h'
      · have hlen := h'.length_le
        rw [List.length_cons] at hlen
        rw [ih (by omega), List.append_assoc]
      · exact absurd (hiff.1 h) h'
      · exact absurd (hiff.2 h') h
      · rw [ih (Nat.zero_le _), List.cons_append]

theorem replaceAll_length_append :
    replaceAll mark new pre.length (pre ++ l) = replaceAll mark new 0 l := by
  induction pre with
  | nil => rfl
  | cons a pre ih => exact ih

/-- A word at the start is replaced first. -/
theorem replaceAll_mark_append (hmark : mark ≠ []) :
    replaceAll mark new 0 (mark ++ l) = new ++ replaceAll mark new 0 l := by
  obtain ⟨a, rest, rfl⟩ := List.exists_cons_of_ne_nil hmark
  rw [List.cons_append, replaceAll_zero_cons hmark, if_pos ⟨l, rfl⟩, List.length_cons,
    Nat.add_sub_cancel, replaceAll_length_append]

theorem replaceAll_of_absent (hmark : mark ≠ []) (h : ¬ mark <:+: l) :
    replaceAll mark new 0 l = l := by
  induction l with
  | nil => rw [replaceAll, if_neg hmark]
  | cons a l ih =>
    rw [replaceAll_zero_cons hmark, if_neg fun hpre => h hpre.isInfix,
      ih fun hin => h (hin.trans (List.suffix_cons a l).isInfix)]

end Cuts

end Lib
