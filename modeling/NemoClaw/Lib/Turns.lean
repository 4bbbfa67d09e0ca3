import Mathlib.Data.List.Basic

/-! Lists of items that ask and answer: an item may ask for some ids, and an item may answer one.
In turns, each answer stands behind an item that asks for its id with only answers between, and
each id asked for is answered before the next item that is no answer. -/

namespace Lib

/-- What items ask for, and which id an item answers. -/
structure Turns (α ι : Type*) where
  asks : α → List ι
  answers : α → Option ι

namespace Turns

variable {α ι : Type*} (T : Turns α ι)

def IsAnswer (x : α) : Prop := (T.answers x).isSome = true

/-- Each answer has its question. -/
def Asked (xs : List α) : Prop :=
  ∀ before x after id, xs = before ++ x :: after → T.answers x = some id →
    ∃ first y between, before = first ++ y :: between ∧ (∀ z ∈ between, T.IsAnswer z) ∧
      T.answers y = none ∧ id ∈ T.asks y

/-- Each question has its answers. -/
def Answered (xs : List α) : Prop :=
  ∀ before y after, xs = before ++ y :: after → T.answers y = none → ∀ id ∈ T.asks y,
    ∃ between x last, after = between ++ x :: last ∧ (∀ z ∈ between, T.IsAnswer z) ∧
      T.answers x = some id

def WellFormed (xs : List α) : Prop := T.Asked xs ∧ T.Answered xs

variable {T} {xs ys : List α}

/-- Where an item of an append stands. -/
theorem split_append {before after : List α} {x : α} (h : xs ++ ys = before ++ x :: after) :
    (∃ mid, xs = before ++ x :: mid ∧ after = mid ++ ys) ∨
      ∃ mid, before = xs ++ mid ∧ ys = mid ++ x :: after := by
  rcases List.append_eq_append_iff.1 h with ⟨mid, hbefore, hys⟩ | ⟨mid, hxs, hafter⟩
  · exact Or.inr ⟨mid, hbefore, hys⟩
  · cases mid with
    | nil =>
      refine Or.inr ⟨[], ?_, hafter.symm⟩
      rw [List.append_nil] at hxs ⊢
      exact hxs.symm
    | cons x' mid =>
      obtain ⟨rfl, rfl⟩ := List.cons.inj hafter
      exact Or.inl ⟨mid, hxs, rfl⟩

theorem wellFormed_nil : T.WellFormed [] := by
  refine ⟨?_, ?_⟩
  · intro before x after id heq
    simp at heq
  · intro before y after heq
    simp at heq

theorem wellFormed_append (hx : T.WellFormed xs) (hy : T.WellFormed ys) :
    T.WellFormed (xs ++ ys) := by
  refine ⟨?_, ?_⟩
  · intro before x after id heq hid
    rcases split_append heq with ⟨mid, hxs, -⟩ | ⟨mid, rfl, hys⟩
    · exact hx.1 before x mid id hxs hid
    · obtain ⟨first, y, between, rfl, hbetween, hasks⟩ := hy.1 mid x after id hys hid
      exact ⟨xs ++ first, y, between, by simp, hbetween, hasks⟩
  · intro before y after heq hnone id hid
    rcases split_append heq with ⟨mid, hxs, rfl⟩ | ⟨mid, -, hys⟩
    · obtain ⟨between, x, last, rfl, hbetween, hanswer⟩ := hx.2 before y mid hxs hnone id hid
      exact ⟨between, x, last ++ ys, by simp, hbetween, hanswer⟩
    · exact hy.2 mid y after hys hnone id hid

/-- What stands right behind an item that neither asks nor answers answers nothing. -/
theorem answers_eq_none_of_plain_before (xs : List α) {x y : α}
    (h : T.WellFormed (xs ++ y :: x :: ys)) (hanswers : T.answers y = none)
    (hasks : T.asks y = []) : T.answers x = none := by
  cases hid : T.answers x with
  | none => rfl
  | some id =>
    obtain ⟨first, z, between, hbefore, hbetween, -, hmem⟩ :=
      h.1 (xs ++ [y]) x ys id (by simp) hid
    rcases split_append hbefore with ⟨mid, -, rfl⟩ | ⟨mid, -, hsingle⟩
    · have hy := hbetween y (by simp)
      simp [IsAnswer, hanswers] at hy
    · obtain ⟨rfl, hcons⟩ : mid = [] ∧ [y] = z :: between := by
        cases mid with
        | nil => exact ⟨rfl, hsingle⟩
        | cons => simp at hsingle
      obtain ⟨rfl, -⟩ := List.cons.inj hcons
      simp [hasks] at hmem

/-- A list in turns may be cut before any item that is no answer. -/
theorem wellFormed_of_append (xs : List α) (h : T.WellFormed (xs ++ ys))
    (hhead : ∀ y, ys.head? = some y → T.answers y = none) : T.WellFormed ys := by
  refine ⟨?_, ?_⟩
  · intro before x after id heq hid
    obtain ⟨first, y, between, hbefore, hbetween, hnone, hasks⟩ :=
      h.1 (xs ++ before) x after id (by simp [heq]) hid
    rcases split_append hbefore with ⟨mid, -, rfl⟩ | ⟨mid, -, rfl⟩
    · -- the question is before the cut, so the list after it begins with an answer
      have hfirst : ∃ z, ys.head? = some z ∧ T.IsAnswer z := by
        cases before with
        | nil => exact ⟨x, by simp [heq], by simp [IsAnswer, hid]⟩
        | cons z before => exact ⟨z, by simp [heq], hbetween z (by simp)⟩
      obtain ⟨z, hz, hanswer⟩ := hfirst
      simp [IsAnswer, hhead z hz] at hanswer
    · exact ⟨mid, y, between, rfl, hbetween, hnone, hasks⟩
  · intro before y after heq
    exact h.2 (xs ++ before) y after (by simp [heq])

/-- An item with its answers. -/
theorem wellFormed_turn {y : α} (hy : T.answers y = none)
    (hys : ∀ z ∈ ys, ∃ id ∈ T.asks y, T.answers z = some id)
    (hasks : ∀ id ∈ T.asks y, ∃ z ∈ ys, T.answers z = some id) : T.WellFormed (y :: ys) := by
  have hanswer : ∀ z ∈ ys, T.IsAnswer z := by
    intro z hz
    obtain ⟨id, -, hid⟩ := hys z hz
    simp [IsAnswer, hid]
  refine ⟨?_, ?_⟩
  · intro before x after id heq hid
    cases before with
    | nil =>
      obtain ⟨rfl, -⟩ := List.cons.inj heq
      rw [hy] at hid
      contradiction
    | cons y' before =>
      obtain ⟨rfl, rfl⟩ := List.cons.inj heq
      obtain ⟨id', hmem, hid'⟩ := hys x (by simp)
      obtain rfl := Option.some.inj (hid.symm.trans hid')
      exact ⟨[], y, before, rfl, fun z hz => hanswer z (by simp [hz]), hy, hmem⟩
  · intro before y' after heq hnone id hid
    cases before with
    | nil =>
      obtain ⟨rfl, rfl⟩ := List.cons.inj heq
      obtain ⟨z, hz, hanswers⟩ := hasks id hid
      obtain ⟨between, last, rfl⟩ := List.append_of_mem hz
      exact ⟨between, z, last, rfl, fun z' hz' => hanswer z' (by simp [hz']), hanswers⟩
    | cons y'' before =>
      obtain ⟨-, rfl⟩ := List.cons.inj heq
      have hcontra := hanswer y' (by simp)
      simp [IsAnswer, hnone] at hcontra

theorem wellFormed_of_plain (h : ∀ x ∈ xs, T.answers x = none ∧ T.asks x = []) :
    T.WellFormed xs := by
  induction xs with
  | nil => exact wellFormed_nil
  | cons x xs ih =>
    obtain ⟨⟨hanswers, hasks⟩, hxs⟩ := List.forall_mem_cons.1 h
    have hx : T.WellFormed [x] := by
      apply wellFormed_turn hanswers
      · simp
      · simp [hasks]
    exact wellFormed_append hx (ih hxs)

/-- A change of the items that keeps what they ask and answer. -/
theorem wellFormed_map {f : α → α} (hasks : ∀ x, T.asks (f x) = T.asks x)
    (hanswers : ∀ x, T.answers (f x) = T.answers x) (h : T.WellFormed xs) :
    T.WellFormed (xs.map f) := by
  have hall {zs : List α} (hz : ∀ z ∈ zs, T.IsAnswer z) : ∀ z ∈ zs.map f, T.IsAnswer z := by
    intro z hmem
    obtain ⟨z', hz', rfl⟩ := List.mem_map.1 hmem
    simpa [IsAnswer, hanswers] using hz z' hz'
  refine ⟨?_, ?_⟩
  · intro before x after id heq hid
    obtain ⟨before, rest, rfl, rfl, hrest⟩ := List.map_eq_append_iff.1 heq
    obtain ⟨x, after, rfl, rfl, rfl⟩ := List.map_eq_cons_iff.1 hrest
    rw [hanswers] at hid
    obtain ⟨first, y, between, rfl, hbetween, hnone, hmem⟩ := h.1 before x after id rfl hid
    refine ⟨first.map f, f y, between.map f, by simp, hall hbetween, ?_, ?_⟩
    · rw [hanswers, hnone]
    · rwa [hasks]
  · intro before y after heq hnone id hid
    obtain ⟨before, rest, rfl, rfl, hrest⟩ := List.map_eq_append_iff.1 heq
    obtain ⟨y, after, rfl, rfl, rfl⟩ := List.map_eq_cons_iff.1 hrest
    rw [hanswers] at hnone
    rw [hasks] at hid
    obtain ⟨between, x, last, rfl, hbetween, hanswer⟩ := h.2 before y after rfl hnone id hid
    exact ⟨between.map f, f x, last.map f, by simp, hall hbetween, by rw [hanswers, hanswer]⟩

end Turns

end Lib
