import Mathlib.Data.List.DropRight
import Mathlib.Data.PNat.Basic

/-! Chunks of a list that is too long: a cutter says where in the first `limit` letters to cut, and
blanks are dropped on both sides of a cut. What is not blank is kept, in its order. -/

namespace Lib

structure Cutter (α : Type*) where
  blank : α → Bool
  limit : ℕ+
  cut : List α → ℕ
  pos : ∀ rest, 0 < cut rest
  le : ∀ rest, cut rest ≤ limit

section Blanks

variable {α : Type*} (blank : α → Bool) (l : List α)

theorem filter_dropWhile : (l.dropWhile blank).filter (fun a => !blank a) =
    l.filter fun a => !blank a := by
  induction l with
  | nil => rfl
  | cons a l ih =>
    cases h : blank a with
    | false => rw [List.dropWhile_cons_of_neg (by simp [h])]
    | true => rw [List.dropWhile_cons_of_pos h, ih, List.filter_cons_of_neg (by simp [h])]

theorem filter_rdropWhile : (l.rdropWhile blank).filter (fun a => !blank a) =
    l.filter fun a => !blank a := by
  rw [List.rdropWhile, List.filter_reverse, filter_dropWhile, List.filter_reverse,
    List.reverse_reverse]

theorem length_rdropWhile_le : (l.rdropWhile blank).length ≤ l.length :=
  (List.rdropWhile_prefix blank l).length_le

theorem length_dropWhile_le : (l.dropWhile blank).length ≤ l.length :=
  (List.dropWhile_suffix blank).length_le

end Blanks

namespace Cutter

variable {α : Type*} (C : Cutter α)

/-- What is left behind a cut. -/
def next (rest : List α) : List α := (rest.drop (C.cut rest)).dropWhile C.blank

theorem length_next_lt {rest : List α} (h : C.limit < rest.length) :
    (C.next rest).length < rest.length := by
  have hle := length_dropWhile_le C.blank (rest.drop (C.cut rest))
  have hpos := C.pos rest
  rw [List.length_drop] at hle
  unfold next
  omega

/-- What stands before a cut. -/
def chunk (rest : List α) : List α := (rest.take (C.cut rest)).rdropWhile C.blank

/-- Cut as long as what is left is too long. Chunks that are empty are left out. -/
def chunks (rest : List α) : List (List α) :=
  if _ : C.limit < rest.length then
    if C.chunk rest = [] then chunks (C.next rest) else C.chunk rest :: chunks (C.next rest)
  else if rest = [] then [] else [rest]
termination_by rest.length
decreasing_by all_goals exact C.length_next_lt ‹_›

/-- The number of stretches between two cuts that are not blank. -/
def stretches (rest : List α) : ℕ :=
  if _ : C.limit < rest.length then
    stretches (C.next rest) + if (rest.take (C.cut rest)).all C.blank then 0 else 1
  else if rest = [] then 0 else 1
termination_by rest.length
decreasing_by exact C.length_next_lt ‹_›

/-- What is left at some point of the loop. -/
inductive Rest (text : List α) : List α → Prop
  | all : Rest text text
  | next {rest} : Rest text rest → C.limit < rest.length → Rest text (C.next rest)

variable {C} {rest : List α}

theorem chunks_of_lt (h : C.limit < rest.length) : C.chunks rest =
    if C.chunk rest = [] then C.chunks (C.next rest)
    else C.chunk rest :: C.chunks (C.next rest) := by
  rw [chunks, dif_pos h]

theorem chunks_of_le (h : rest.length ≤ C.limit) :
    C.chunks rest = if rest = [] then [] else [rest] := by
  rw [chunks, dif_neg (not_lt.2 h)]

/-- The chunks hold what the list holds, blanks excepted. -/
theorem filter_chunks (rest : List α) : (C.chunks rest).flatten.filter (fun a => !C.blank a) =
    rest.filter fun a => !C.blank a := by
  induction rest using chunks.induct C with
  | case1 rest h hchunk ih =>
    have hhead : (C.chunk rest).filter (fun a => !C.blank a) = [] := by rw [hchunk]; rfl
    rw [chunks_of_lt h, if_pos hchunk, ih]
    rw [chunk, filter_rdropWhile] at hhead
    rw [next, filter_dropWhile]
    conv_rhs => rw [← List.take_append_drop (C.cut rest) rest, List.filter_append, hhead,
      List.nil_append]
  | case2 rest h hchunk ih =>
    rw [chunks_of_lt h, if_neg hchunk, List.flatten_cons, List.filter_append, ih, chunk, next,
      filter_rdropWhile, filter_dropWhile, ← List.filter_append, List.take_append_drop]
  | case3 h => simp [chunks_of_le (not_lt.1 h)]
  | case4 rest h hne => simp [chunks_of_le (not_lt.1 h), hne]

theorem length_le_of_mem_chunks {piece : List α} (h : piece ∈ C.chunks rest) :
    piece ≠ [] ∧ piece.length ≤ C.limit := by
  induction rest using chunks.induct C with
  | case1 rest hlong hchunk ih =>
    rw [chunks_of_lt hlong, if_pos hchunk] at h
    exact ih h
  | case2 rest hlong hchunk ih =>
    rw [chunks_of_lt hlong, if_neg hchunk] at h
    rcases List.mem_cons.1 h with rfl | h
    · refine ⟨hchunk, le_trans (length_rdropWhile_le _ _) ?_⟩
      exact le_trans (List.length_take_le _ _) (C.le rest)
    · exact ih h
  | case3 hlong => simp [chunks_of_le (not_lt.1 hlong)] at h
  | case4 rest hlong hne =>
    rw [chunks_of_le (not_lt.1 hlong), if_neg hne] at h
    rw [List.mem_singleton.1 h]
    exact ⟨hne, not_lt.1 hlong⟩

/-- There is a chunk for each stretch. -/
theorem length_chunks (rest : List α) : (C.chunks rest).length = C.stretches rest := by
  have hblank : ∀ rest, C.chunk rest = [] ↔ (rest.take (C.cut rest)).all C.blank = true := by
    intro rest
    rw [chunk, List.rdropWhile_eq_nil_iff, List.all_eq_true]
  induction rest using chunks.induct C with
  | case1 rest hlong hchunk ih =>
    rw [chunks_of_lt hlong, if_pos hchunk, stretches, dif_pos hlong, ih,
      if_pos ((hblank rest).1 hchunk), Nat.add_zero]
  | case2 rest hlong hchunk ih =>
    rw [chunks_of_lt hlong, if_neg hchunk, stretches, dif_pos hlong, List.length_cons, ih,
      if_neg fun hall => hchunk ((hblank rest).2 hall)]
  | case3 hlong => rw [chunks_of_le (not_lt.1 hlong), stretches, dif_neg hlong]; rfl
  | case4 rest hlong hne =>
    rw [chunks_of_le (not_lt.1 hlong), stretches, dif_neg hlong, if_neg hne, if_neg hne]
    rfl

/-- What is not blank needs that many stretches. -/
theorem length_filter_le (rest : List α) :
    (rest.filter fun a => !C.blank a).length ≤ C.limit * C.stretches rest := by
  have hsum : ∀ pieces : List (List α), (∀ piece ∈ pieces, piece.length ≤ C.limit) →
      pieces.flatten.length ≤ C.limit * pieces.length := by
    intro pieces hpieces
    induction pieces with
    | nil => simp
    | cons piece pieces ih =>
      obtain ⟨hpiece, hrest⟩ := List.forall_mem_cons.1 hpieces
      have hle := ih hrest
      rw [List.flatten_cons, List.length_append, List.length_cons, Nat.mul_succ]
      omega
  rw [← filter_chunks, ← length_chunks]
  exact (List.length_filter_le _ _).trans
    (hsum _ fun piece hpiece => (length_le_of_mem_chunks hpiece).2)

/-- Of a list that is not all blank, something is left. -/
theorem chunks_ne_nil (h : ∃ a ∈ rest, C.blank a = false) : C.chunks rest ≠ [] := by
  intro hnil
  obtain ⟨a, ha, hblank⟩ := h
  have hkept := filter_chunks (C := C) rest
  rw [hnil] at hkept
  have hmem : a ∈ rest.filter fun a => !C.blank a := List.mem_filter.2 ⟨ha, by simp [hblank]⟩
  rw [← hkept] at hmem
  simp at hmem

/-- Of blanks alone that are too long for one chunk, nothing is left. -/
theorem chunks_eq_nil (hlong : C.limit < rest.length) (h : ∀ a ∈ rest, C.blank a = true) :
    C.chunks rest = [] := by
  have htake : C.chunk rest = [] := by
    rw [chunk, List.rdropWhile_eq_nil_iff]
    exact fun a ha => h a (List.mem_of_mem_take ha)
  have hdrop : C.next rest = [] := by
    rw [next, List.dropWhile_eq_nil_iff]
    exact fun a ha => h a (List.mem_of_mem_drop ha)
  rw [chunks_of_lt hlong, if_pos htake, hdrop, chunks_of_le (by simp), if_pos rfl]

end Cutter

end Lib
