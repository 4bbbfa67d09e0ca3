import NemoClaw.Lib.Machine

/-! Items in the custody of a machine: `taken` lists those it was handed, `held` those it still
has. A step may be handed new items and may lose some; once an item is lost, the two lists never
agree again, so they agree in the end exactly if no step lost one. -/

namespace Lib

namespace Machine

variable {σ ε α : Type*} {M : Machine σ ε}

/-- One step of a custody: it is handed `new` and loses `lost` items. -/
structure CustodyStep (taken held : σ → List α) (s s' : σ) (new : List α) (lost : ℕ) : Prop where
  taken : taken s' = taken s ++ new
  length : (held s').length + lost = (held s).length + new.length
  kept : lost = 0 → held s' = held s ++ new

theorem CustodyStep.keep {taken held : σ → List α} {s s' : σ} (ht : taken s' = taken s)
    (hh : held s' = held s) : CustodyStep taken held s s' [] 0 :=
  ⟨by rw [ht, List.append_nil], by rw [hh]; rfl, fun _ => by rw [hh, List.append_nil]⟩

theorem CustodyStep.receive {taken held : σ → List α} {s s' : σ} {x : α}
    (ht : taken s' = taken s ++ [x]) (hh : held s' = held s ++ [x]) :
    CustodyStep taken held s s' [x] 0 :=
  ⟨ht, by rw [hh, List.length_append]; rfl, fun _ => hh⟩

theorem CustodyStep.lose {taken held : σ → List α} {s s' : σ} {lost : ℕ}
    (ht : taken s' = taken s) (hl : (held s').length + lost = (held s).length)
    (hh : lost = 0 → held s' = held s) : CustodyStep taken held s s' [] lost :=
  ⟨by rw [ht, List.append_nil], hl, fun h => by rw [hh h, List.append_nil]⟩

/-- In a run whose steps meet `A` and keep `I`, the custody is complete at the end exactly if no
step lost an item. -/
theorem Trace.held_eq_taken_iff {taken held : σ → List α} {A G : σ → ε → Prop} {I : σ → Prop}
    {tr : List (σ × ε)} {s : σ} (h : M.Trace tr s) (hA : Guarded A tr)
    (h0 : held M.init = taken M.init) (hI0 : I M.init)
    (hI : ∀ s e s', I s → M.step s e = some s' → I s')
    (hstep : ∀ s e s', I s → A s e → M.step s e = some s' →
      ∃ new lost, CustodyStep taken held s s' new lost ∧ (lost = 0 ↔ G s e)) :
    held s = taken s ↔ Guarded G tr := by
  have hboth : (held s = taken s ↔ Guarded G tr) ∧ (held s).length ≤ (taken s).length := by
    induction h with
    | nil => simp [h0, Guarded]
    | @snoc tr s e s' h he ih =>
      obtain ⟨hA, ha⟩ := guarded_snoc.1 hA
      obtain ⟨hiff, hle⟩ := ih hA
      obtain ⟨new, lost, hc, hG⟩ := hstep s e s' (h.invariant hI0 hI) ha he
      have htaken : (taken s').length = (taken s).length + new.length := by
        rw [hc.taken, List.length_append]
      have hlen := hc.length
      rw [guarded_snoc, ← hiff, ← hG]
      refine ⟨?_, by omega⟩
      constructor
      · intro heq
        have hlost : lost = 0 := by
          have := congrArg List.length heq
          omega
        rw [hc.kept hlost, hc.taken] at heq
        exact ⟨List.append_cancel_right heq, hlost⟩
      · rintro ⟨heq, hlost⟩
        rw [hc.kept hlost, hc.taken, heq]
  exact hboth.1

end Machine

end Lib
