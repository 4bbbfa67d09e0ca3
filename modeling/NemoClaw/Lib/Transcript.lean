import Mathlib.Data.List.Forall2

/-! Transcripts of an agent that takes one input at a time and may put out several things for it, in
several steps. In every moment its output is the answers to its inputs, in order, but that the last
one may be unfinished. -/

namespace Lib

variable {α β φ : Type*}

/-- What was put out for these inputs. `Whole` says what a finished answer is, and `Begun` what is
there of one in a phase of the agent. -/
inductive Transcript (Whole : α → List β → Prop)
    (Begun : α → φ → List β → Prop) :
    List α → List β → Option φ → Prop
  | idle {xs outs} (h : List.Forall₂ Whole xs outs) : Transcript Whole Begun xs outs.flatten none
  | busy {xs outs x phase part} (h : List.Forall₂ Whole xs outs) (hx : Begun x phase part) :
      Transcript Whole Begun (xs ++ [x]) (outs.flatten ++ part) (some phase)

namespace Transcript

variable {Whole : α → List β → Prop} {Begun : α → φ → List β → Prop} {xs : List α}
  {out new : List β} {x : α} {phase phase' : φ}

theorem nil : Transcript Whole Begun [] [] none := by
  have hflatten : ([] : List (List β)).flatten = [] := rfl
  rw [← hflatten]
  exact .idle .nil

theorem begin (h : Transcript Whole Begun xs out none) (hx : Begun x phase new) :
    Transcript Whole Begun (xs ++ [x]) (out ++ new) (some phase) := by
  cases h with
  | idle h => exact .busy h hx

theorem answer (h : Transcript Whole Begun xs out none) (hx : Whole x new) :
    Transcript Whole Begun (xs ++ [x]) (out ++ new) none := by
  cases h with
  | @idle _ outs h =>
    have hflatten : outs.flatten ++ new = (outs ++ [new]).flatten := by simp
    rw [hflatten]
    exact .idle (List.rel_append h (.cons hx .nil))

theorem proceed (h : Transcript Whole Begun xs out (some phase))
    (hx : ∀ x part, Begun x phase part → Begun x phase' (part ++ new)) :
    Transcript Whole Begun xs (out ++ new) (some phase') := by
  cases h with
  | busy h hpart =>
    rw [List.append_assoc]
    exact .busy h (hx _ _ hpart)

theorem finish (h : Transcript Whole Begun xs out (some phase))
    (hx : ∀ x part, Begun x phase part → Whole x (part ++ new)) :
    Transcript Whole Begun xs (out ++ new) none := by
  cases h with
  | @busy _ outs x _ part h hpart =>
    have hflatten : outs.flatten ++ part ++ new = (outs ++ [part ++ new]).flatten := by simp
    rw [hflatten]
    exact .idle (List.rel_append h (.cons (hx _ _ hpart) .nil))

theorem exists_of_idle (h : Transcript Whole Begun xs out none) :
    ∃ outs, out = outs.flatten ∧ List.Forall₂ Whole xs outs := by
  cases h with
  | idle h => exact ⟨_, rfl, h⟩

theorem exists_of_busy (h : Transcript Whole Begun xs out (some phase)) :
    ∃ ys x outs part, xs = ys ++ [x] ∧ out = outs.flatten ++ part ∧ List.Forall₂ Whole ys outs ∧
      Begun x phase part := by
  cases h with
  | busy h hx => exact ⟨_, _, _, _, rfl, rfl, h, hx⟩

end Transcript

end Lib
