import Mathlib.Data.List.Infix

/-! The lines of a text that is cut after some letters: those of the text up to one, of which the
cut leaves a prefix. The lines of texts that are joined are those of the texts. -/

namespace Lib

variable {α : Type*} [DecidableEq α] {sep : α} {p s : List α}

theorem splitOn_of_prefix (sep : α) (h : p <+: s) : ∃ lines y q rest,
    s.splitOn sep = lines ++ y :: rest ∧ p.splitOn sep = lines ++ [q] ∧ q <+: y := by
  induction p generalizing s with
  | nil =>
    obtain ⟨y, rest, heq⟩ := List.exists_cons_of_ne_nil (List.splitOn_ne_nil sep s)
    exact ⟨[], y, [], rest, heq, List.splitOn_nil sep, List.nil_prefix⟩
  | cons a p ih =>
    obtain ⟨s, rfl, hp⟩ := List.cons_prefix_iff.1 h
    obtain ⟨lines, y, q, rest, hs, hp, hq⟩ := ih hp
    rw [List.splitOn_cons_eq_if_modifyHead, List.splitOn_cons_eq_if_modifyHead, hs, hp]
    split_ifs
    · exact ⟨[] :: lines, y, q, rest, rfl, rfl, hq⟩
    · cases lines with
      | nil => exact ⟨[], a :: y, a :: q, rest, rfl, rfl, List.cons_prefix_cons.2 ⟨rfl, hq⟩⟩
      | cons line lines => exact ⟨(a :: line) :: lines, y, q, rest, rfl, rfl, hq⟩

/-- A line of the cut text is a prefix of one of the text. -/
theorem prefix_of_mem_splitOn (h : p <+: s) {x : List α} (hx : x ∈ p.splitOn sep) :
    ∃ y ∈ s.splitOn sep, x <+: y := by
  obtain ⟨lines, y, q, rest, hs, hp, hq⟩ := splitOn_of_prefix sep h
  rw [hp, List.mem_append, List.mem_singleton] at hx
  rcases hx with hx | rfl
  · exact ⟨x, by simp [hs, hx], List.prefix_refl x⟩
  · exact ⟨y, by simp [hs], hq⟩

/-- The last line of a text that is cut is not a line any more. -/
theorem notMem_splitOn_of_prefix (h : p <+: s) (hne : p ≠ s) {lines : List (List α)} {x : List α}
    (hs : s.splitOn sep = lines ++ [x]) (hx : ∀ y ∈ lines, ¬ x <+: y) : x ∉ p.splitOn sep := by
  intro hmem
  obtain ⟨before, y, q, rest, hs', hp, hq⟩ := splitOn_of_prefix sep h
  have hlast : lines ++ [x] = before ++ y :: rest := hs.symm.trans hs'
  rw [hp, List.mem_append, List.mem_singleton] at hmem
  rcases List.eq_nil_or_concat rest with rfl | ⟨rest, z, rfl⟩
  · obtain ⟨rfl, rfl⟩ := List.append_singleton_inj.1 hlast
    rcases hmem with hmem | rfl
    · exact hx x hmem (List.prefix_refl x)
    · refine hne ?_
      have hjoin : [sep].intercalate (p.splitOn sep) = p := List.intercalate_splitOn sep
      rw [← hjoin, hp, ← hs', List.intercalate_splitOn]
  · rw [List.concat_eq_append, ← List.cons_append, ← List.append_assoc,
      List.append_singleton_inj] at hlast
    obtain ⟨rfl, rfl⟩ := hlast
    rcases hmem with hmem | rfl
    · exact hx x (List.mem_append_left _ hmem) (List.prefix_refl x)
    · exact hx y (by simp) hq

/-! ### Texts that are joined -/

theorem splitOn_intercalate_eq_flatMap (sep : α) {texts : List (List α)} (hne : texts ≠ []) :
    ([sep].intercalate texts).splitOn sep = texts.flatMap fun text => text.splitOn sep := by
  induction texts with
  | nil => exact absurd rfl hne
  | cons text texts ih =>
    cases texts with
    | nil => simp
    | cons text' texts =>
      rw [List.intercalate_cons_cons, List.append_assoc, List.singleton_append,
        List.splitOn_append_cons_self, ih (by simp)]
      rfl

theorem splitOn_inj {l l' : List α} : l.splitOn sep = l'.splitOn sep ↔ l = l' := by
  constructor
  · intro h
    have hjoin : [sep].intercalate (l.splitOn sep) = l := List.intercalate_splitOn sep
    rw [← hjoin, h, List.intercalate_splitOn]
  · rintro rfl
    rfl

end Lib
