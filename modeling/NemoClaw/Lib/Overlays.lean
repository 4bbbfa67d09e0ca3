import NemoClaw.Lib.Dict

/-! A dictionary of settings and an overlay: the overlay changes the settings that it names, and
what is no setting is left out. -/

namespace Lib

namespace Dict

variable {κ ν : Type*} [DecidableEq κ]

/-- One entry of an overlay. -/
def assign (d : Dict κ ν) (x : Σ _ : κ, ν) : Dict κ ν :=
  if (d.lookup x.1).isSome then d.insert x.1 x.2 else d

def overlay (d values : Dict κ ν) : Dict κ ν := values.entries.foldl assign d

theorem lookup_assign (d : Dict κ ν) (x : Σ _ : κ, ν) (k : κ) :
    (assign d x).lookup k = if k = x.1 then (d.lookup k).map fun _ => x.2 else d.lookup k := by
  unfold assign
  split_ifs with hknown hk hk
  · subst hk
    obtain ⟨v, hv⟩ := Option.isSome_iff_exists.1 hknown
    rw [AList.lookup_insert, hv, Option.map_some]
  · exact AList.lookup_insert_ne hk
  · subst hk
    rw [Option.not_isSome_iff_eq_none.1 hknown, Option.map_none]
  · rfl

theorem lookup_foldl_assign {l : List (Σ _ : κ, ν)} (h : l.NodupKeys) (d : Dict κ ν) (k : κ) :
    (l.foldl assign d).lookup k = (d.lookup k).map fun v => (l.dlookup k).getD v := by
  induction l generalizing d with
  | nil => simp
  | cons x l ih =>
    obtain ⟨a, b⟩ := x
    obtain ⟨hnew, hrest⟩ := List.nodupKeys_cons.1 h
    rw [List.foldl_cons, ih hrest, lookup_assign]
    by_cases hk : k = a
    · subst hk
      rw [if_pos rfl, List.dlookup_cons_eq, List.dlookup_eq_none.2 hnew, Option.map_map]
      rfl
    · rw [if_neg hk, List.dlookup_cons_ne _ _ hk]

/-- A setting is what the overlay says, or what it was. -/
theorem lookup_overlay (d values : Dict κ ν) (k : κ) :
    (overlay d values).lookup k = (d.lookup k).map fun v => (values.lookup k).getD v :=
  lookup_foldl_assign values.nodupKeys d k

end Dict

end Lib
