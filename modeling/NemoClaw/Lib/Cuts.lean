import Mathlib.Data.List.DropRight
import Mathlib.Data.List.Infix

/-! Cuts of a list at a separator, as string functions make them: before and after the first
occurrence of a letter, after its last, after the first occurrence of a word, and into the words
that separators leave. -/

namespace Lib

namespace Cuts

variable {α : Type*} [DecidableEq α] {sep : α} {l r mark : List α}

/-- All of the list, if the separator does not occur. -/
def before (sep : α) (l : List α) : List α := l.takeWhile fun a => decide (a ≠ sep)

/-- The separator and what follows it. -/
def fromFirst (sep : α) (l : List α) : List α := l.dropWhile fun a => decide (a ≠ sep)

def after (sep : α) (l : List α) : List α := (fromFirst sep l).tail

/-- All of the list, if the separator does not occur. -/
def afterLast (sep : α) (l : List α) : List α := l.rtakeWhile fun a => decide (a ≠ sep)

/-- What follows the first occurrence of `mark`. -/
def afterMark (mark : List α) : List α → Option (List α)
  | [] => if mark = [] then some [] else none
  | a :: l => if mark <+: a :: l then some ((a :: l).drop mark.length) else afterMark mark l

/-- Where `mark` begins for the last time. -/
def lastIndex (mark : List α) : List α → Option ℕ
  | [] => if mark = [] then some 0 else none
  | a :: l =>
    match lastIndex mark l with
    | some i => some (i + 1)
    | none => if mark <+: a :: l then some 0 else none

/-- The occurrences of `mark` that do not overlap, after `skip` letters. -/
def occurrences (mark : List α) : ℕ → List α → ℕ
  | _, [] => if mark = [] then 1 else 0
  | skip + 1, _ :: l => occurrences mark skip l
  | 0, a :: l =>
    if mark <+: a :: l then occurrences mark (mark.length - 1) l + 1 else occurrences mark 0 l

def replaceFirst (mark new : List α) : List α → List α
  | [] => if mark = [] then new else []
  | a :: l =>
    if mark <+: a :: l then new ++ (a :: l).drop mark.length else a :: replaceFirst mark new l

def replaceAll (mark new : List α) : ℕ → List α → List α
  | _, [] => if mark = [] then new else []
  | skip + 1, _ :: l => replaceAll mark new skip l
  | 0, a :: l =>
    if mark = [] then new ++ a :: replaceAll mark new 0 l
    else if mark <+: a :: l then new ++ replaceAll mark new (mark.length - 1) l
    else a :: replaceAll mark new 0 l

theorem notMem_before (sep : α) (l : List α) : sep ∉ before sep l := by
  intro h
  simpa using List.mem_takeWhile_imp h

theorem before_of_notMem (h : sep ∉ l) : before sep l = l := by
  refine List.takeWhile_eq_self_iff.2 fun a ha => ?_
  simpa using ne_of_mem_of_not_mem ha h

theorem before_append (h : sep ∉ l) : before sep (l ++ sep :: r) = l := by
  induction l with
  | nil => simp [before]
  | cons a l ih =>
    obtain ⟨ha, hl⟩ := not_or.1 (mt List.mem_cons.2 h)
    have hstep := ih hl
    simp only [before] at hstep ⊢
    rw [List.cons_append, List.takeWhile_cons_of_pos (by simpa using Ne.symm ha), hstep]

theorem fromFirst_append (h : sep ∉ l) : fromFirst sep (l ++ sep :: r) = sep :: r := by
  induction l with
  | nil => simp [fromFirst]
  | cons a l ih =>
    obtain ⟨ha, hl⟩ := not_or.1 (mt List.mem_cons.2 h)
    have hstep := ih hl
    simp only [fromFirst] at hstep ⊢
    rw [List.cons_append, List.dropWhile_cons_of_pos (by simpa using Ne.symm ha), hstep]

theorem fromFirst_of_notMem (h : sep ∉ l) : fromFirst sep l = [] := by
  refine List.dropWhile_eq_nil_iff.2 fun a ha => ?_
  simpa using ne_of_mem_of_not_mem ha h

theorem after_append (h : sep ∉ l) : after sep (l ++ sep :: r) = r := by
  rw [after, fromFirst_append h]
  rfl

/-- A list that holds the separator, cut at the first. -/
theorem exists_of_mem (h : sep ∈ l) : ∃ r, l = before sep l ++ sep :: r := by
  induction l with
  | nil => simp at h
  | cons a l ih =>
    by_cases ha : a = sep
    · subst ha
      exact ⟨l, by simp [before]⟩
    · obtain ⟨r, hr⟩ := ih ((List.mem_cons.1 h).resolve_left (Ne.symm ha))
      refine ⟨r, ?_⟩
      simp only [before] at hr ⊢
      rw [List.takeWhile_cons_of_pos (by simpa using ha), List.cons_append, ← hr]

theorem afterLast_of_notMem (h : sep ∉ l) : afterLast sep l = l := by
  refine List.rtakeWhile_eq_self_iff.2 fun a ha => ?_
  simpa using ne_of_mem_of_not_mem ha h

theorem afterLast_append (h : sep ∉ r) : afterLast sep (l ++ sep :: r) = r := by
  induction r using List.reverseRecOn with
  | nil => exact List.rtakeWhile_concat_neg _ _ _ (by simp)
  | append_singleton r a ih =>
    have ha : a ≠ sep := by
      rintro rfl
      exact h (by simp)
    have hr : sep ∉ r := fun hmem => h (by simp [hmem])
    have hstep := ih hr
    simp only [afterLast] at hstep ⊢
    rw [← List.cons_append, ← List.append_assoc,
      List.rtakeWhile_concat_pos _ _ _ (by simpa using ha), hstep]

theorem afterMark_eq_none_iff : afterMark mark l = none ↔ ¬ mark <:+: l := by
  induction l with
  | nil => simp [afterMark]
  | cons a l ih =>
    unfold afterMark
    split_ifs with hmark
    · simp [hmark.isInfix]
    · rw [ih, List.infix_cons_iff]
      simp [hmark]

/-- The first occurrence of `mark` is right behind a part that holds no letter of it. -/
theorem afterMark_append {a : α} (ha : a ∉ l) :
    afterMark (a :: mark) (l ++ (a :: mark) ++ r) = some r := by
  induction l with
  | nil => simp [afterMark]
  | cons b l ih =>
    obtain ⟨hb, hl⟩ := not_or.1 (mt List.mem_cons.2 ha)
    have hnot : ¬ (a :: mark) <+: b :: (l ++ (a :: mark) ++ r) := by
      rintro h
      exact hb (List.cons_prefix_cons.1 h).1
    simp only [List.cons_append, List.append_assoc] at hnot ih ⊢
    rw [afterMark, if_neg hnot]
    exact ih hl

theorem drop_lastIndex {i : ℕ} (h : lastIndex mark l = some i) : mark <+: l.drop i := by
  induction l generalizing i with
  | nil =>
    rw [lastIndex, Option.ite_none_right_eq_some] at h
    rw [h.1]
    exact List.nil_prefix
  | cons a l ih =>
    rw [lastIndex] at h
    split at h
    · rename_i j hj
      obtain rfl := Option.some.inj h
      exact ih hj
    · rw [Option.ite_none_right_eq_some] at h
      obtain rfl := Option.some.inj h.2
      exact h.1

/-- A letter without a last index behind the first letter stands at most there. -/
theorem notMem_tail_of_lastIndex (h : (lastIndex [sep] l).filter (0 < ·) = none) :
    sep ∉ l.tail := by
  have hnone : ∀ l : List α, lastIndex [sep] l = none → sep ∉ l := by
    intro l
    induction l with
    | nil => simp
    | cons a l ih =>
      intro hl
      rw [lastIndex] at hl
      split at hl
      · contradiction
      · rename_i hrest
        have hne : sep ≠ a := by simpa using hl
        simp [hne, ih hrest]
  cases l with
  | nil => simp
  | cons a l =>
    refine hnone l ?_
    rw [lastIndex] at h
    split at h
    · simp at h
    · assumption

omit [DecidableEq α]

/-- What separators leave. -/
def words (p : α → Bool) (l : List α) : List (List α) :=
  (l.splitOnP p).filter fun w => !w.isEmpty

theorem mem_splitOnP {p : α → Bool} {w : List α} (h : w ∈ l.splitOnP p) :
    ∀ a ∈ w, a ∈ l ∧ p a = false := by
  induction l generalizing w with
  | nil =>
    obtain rfl := List.mem_singleton.1 h
    simp
  | cons b l ih =>
    rw [List.splitOnP_cons_eq_if_modifyHead] at h
    have hrest : ∀ w ∈ l.splitOnP p, ∀ a ∈ w, a ∈ b :: l ∧ p a = false :=
      fun w hw a ha => ⟨List.mem_cons_of_mem _ (ih hw a ha).1, (ih hw a ha).2⟩
    split_ifs at h with hb
    · rcases List.mem_cons.1 h with rfl | h
      · simp
      · exact hrest w h
    · obtain ⟨first, rest, hsplit⟩ :=
        List.exists_cons_of_ne_nil (List.splitOnP_ne_nil p l)
      rw [hsplit, List.modifyHead_cons] at h
      rcases List.mem_cons.1 h with rfl | h
      · intro a ha
        rcases List.mem_cons.1 ha with rfl | ha
        · exact ⟨List.mem_cons_self, by simpa using hb⟩
        · exact hrest first (hsplit ▸ List.mem_cons_self) a ha
      · exact hrest w (hsplit ▸ List.mem_cons_of_mem _ h)

theorem mem_words {p : α → Bool} {w : List α} (h : w ∈ words p l) :
    ∀ a ∈ w, a ∈ l ∧ p a = false := mem_splitOnP (List.mem_filter.1 h).1

theorem words_eq_singleton {p : α → Bool} (hne : l ≠ []) (h : ∀ a ∈ l, p a = false) :
    words p l = [l] := by
  rw [words, List.splitOnP_eq_singleton h]
  simp [hne]

end Cuts

end Lib
