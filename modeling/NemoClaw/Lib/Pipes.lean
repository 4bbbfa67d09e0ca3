import Mathlib.Logic.Function.Basic
import NemoClaw.Lib.Machine

/-! A machine whose inputs come over pipes: whoever is at the far end of a pipe puts messages in,
and the machine takes them out in that order, one at a time and whenever it is ready. -/

namespace Lib

/-- How a machine takes a message `a` from the pipe `k`: as the event `event k a i`, where `i` is
what it finds besides. -/
structure Feed (κ α ι ε : Type*) where
  event : κ → α → ι → ε
  input : ε → Option (κ × α)
  input_event : ∀ k a i, input (event k a i) = some (k, a)

structure Piped (σ κ α : Type*) where
  state : σ
  pipes : κ → List α

inductive PipedEvent (κ α ι ε : Type*)
  | put (k : κ) (a : α)
  | take (k : κ) (i : ι)
  | act (e : ε)

namespace Feed

variable {σ ε κ α ι : Type*} (F : Feed κ α ι ε)

/-- What is put into a pipe in these steps. -/
def puts [DecidableEq κ] (k : κ) (tr : List (Piped σ κ α × PipedEvent κ α ι ε)) : List α :=
  tr.filterMap fun p => match p.2 with
    | .put k' a => if k' = k then some a else none
    | _ => none

/-- What the machine takes from a pipe in these steps. -/
def takes [DecidableEq κ] (k : κ) (tr : List (σ × ε)) : List α :=
  tr.filterMap fun p => (F.input p.2).bind fun q => if q.1 = k then some q.2 else none

/-- The step of the machine itself, if it takes part. -/
def own (p : Piped σ κ α × PipedEvent κ α ι ε) : Option (σ × ε) :=
  match p.2 with
  | .put _ _ => none
  | .take k i => (p.1.pipes k).head?.map fun a => (p.1.state, F.event k a i)
  | .act e => some (p.1.state, e)

/-- The steps of the machine itself. -/
def inner (tr : List (Piped σ κ α × PipedEvent κ α ι ε)) : List (σ × ε) := tr.filterMap F.own

theorem inner_snoc (tr : List (Piped σ κ α × PipedEvent κ α ι ε))
    (p : Piped σ κ α × PipedEvent κ α ι ε) :
    F.inner (tr ++ [p]) = F.inner tr ++ (F.own p).toList := by
  rw [inner, List.filterMap_append]
  cases h : F.own p <;> simp [inner, h]

theorem takes_append [DecidableEq κ] (k : κ) (tr tr' : List (σ × ε)) :
    F.takes k (tr ++ tr') = F.takes k tr ++ F.takes k tr' :=
  List.filterMap_append

theorem puts_append [DecidableEq κ] (k : κ)
    (tr tr' : List (Piped σ κ α × PipedEvent κ α ι ε)) :
    puts k (tr ++ tr') = puts k tr ++ puts k tr' :=
  List.filterMap_append

end Feed

namespace Machine

variable {σ ε κ α ι : Type*} [DecidableEq κ] (M : Machine σ ε) (F : Feed κ α ι ε)

def piped : Machine (Piped σ κ α) (PipedEvent κ α ι ε) where
  init := ⟨M.init, fun _ => []⟩
  step x
    | .put k a => some { x with pipes := Function.update x.pipes k (x.pipes k ++ [a]) }
    | .take k i => match x.pipes k with
      | [] => none
      | a :: rest =>
        (M.step x.state (F.event k a i)).map fun s => ⟨s, Function.update x.pipes k rest⟩
    | .act e => if (F.input e).isSome then none
      else (M.step x.state e).map fun s => { x with state := s }

variable {M F} {x x' : Piped σ κ α} {tr : List (Piped σ κ α × PipedEvent κ α ι ε)}

/-- What a step of a piped machine is. -/
inductive PipedStep (M : Machine σ ε) (F : Feed κ α ι ε) (x : Piped σ κ α) :
    PipedEvent κ α ι ε → Piped σ κ α → Prop
  | put {k a} : PipedStep M F x (.put k a)
      { x with pipes := Function.update x.pipes k (x.pipes k ++ [a]) }
  | take {k i a rest s} (hp : x.pipes k = a :: rest)
      (hs : M.step x.state (F.event k a i) = some s) :
      PipedStep M F x (.take k i) ⟨s, Function.update x.pipes k rest⟩
  | act {e s} (hi : F.input e = none) (hs : M.step x.state e = some s) :
      PipedStep M F x (.act e) { x with state := s }

theorem piped_step {e : PipedEvent κ α ι ε} (h : (M.piped F).step x e = some x') :
    PipedStep M F x e x' := by
  cases e with
  | put k a =>
    obtain rfl := Option.some.inj h
    exact .put
  | take k i =>
    simp only [piped] at h
    split at h
    · contradiction
    · rename_i a rest hp
      obtain ⟨s, hs, rfl⟩ := Option.map_eq_some_iff.1 h
      exact .take hp hs
  | act e =>
    simp only [piped, Option.ite_none_left_eq_some, Bool.not_eq_true,
      Option.isSome_eq_false_iff, Option.isNone_iff_eq_none] at h
    obtain ⟨hi, h⟩ := h
    obtain ⟨s, hs, rfl⟩ := Option.map_eq_some_iff.1 h
    exact .act hi hs

/-- A run of the piped machine is a run of the machine. -/
theorem trace_inner (h : (M.piped F).Trace tr x) : M.Trace (F.inner tr) x.state := by
  induction h with
  | nil => exact .nil
  | @snoc tr x e x' _ he ih =>
    rw [F.inner_snoc]
    cases piped_step he with
    | put => simpa [Feed.own] using ih
    | take hp hs => simpa [Feed.own, hp] using ih.snoc hs
    | act hi hs => simpa [Feed.own] using ih.snoc hs

/-- What goes into a pipe comes out in this order, or is still in it. -/
theorem takes_append_pipe (h : (M.piped F).Trace tr x) (k : κ) :
    F.takes k (F.inner tr) ++ x.pipes k = Feed.puts k tr := by
  induction h with
  | nil => rfl
  | @snoc tr x e x' _ he ih =>
    rw [F.inner_snoc, F.takes_append, Feed.puts_append, ← ih, List.append_assoc, List.append_assoc,
      List.append_cancel_left_eq]
    cases piped_step he with
    | @put k' a =>
      by_cases hk : k' = k
      · subst hk
        simp [Feed.own, Feed.takes, Feed.puts]
      · simp [Feed.own, Feed.takes, Feed.puts, hk, Ne.symm hk]
    | @take k' i a rest s hp hs =>
      by_cases hk : k' = k
      · subst hk
        simp [Feed.own, Feed.takes, Feed.puts, hp, F.input_event]
      · simp [Feed.own, Feed.takes, Feed.puts, hp, F.input_event, hk, Ne.symm hk]
    | act hi hs => simp [Feed.own, Feed.takes, Feed.puts, hi]

end Machine

end Lib
