import Mathlib.Data.List.Basic

/-! One-shot tickets. A ticket is called only while it is live, and a call retires it. The rules
follow the life of a ticket; whatever keeps them never calls a ticket twice. -/

namespace Lib

variable {α : Type*}

/-- A ticket with the calls of it so far. -/
structure OneShot (live : Prop) (calls : List α) : Prop where
  once : calls.length ≤ 1
  uncalled : live → calls = []

namespace OneShot

variable {live live' : Prop} {calls new : List α}

theorem issue (live : Prop) : OneShot live ([] : List α) :=
  ⟨Nat.zero_le 1, fun _ => rfl⟩

theorem keep (h : OneShot live calls) (hl : live' → live) : OneShot live' (calls ++ []) := by
  rw [List.append_nil]
  exact ⟨h.once, fun hlive => h.uncalled (hl hlive)⟩

theorem call (h : OneShot live calls) (hlive : live) (hl : ¬ live') (hnew : new.length ≤ 1) :
    OneShot live' (calls ++ new) := by
  rw [h.uncalled hlive, List.nil_append]
  exact ⟨hnew, fun hlive' => absurd hlive' hl⟩

end OneShot

end Lib
