import Mathlib.Data.Int.Notation
import Mathlib.Data.Nat.Notation

/-! The decimal digits of a number in a text: they are digits, and they tell the number. -/

namespace Lib

theorem toList_toString (n : ℕ) : (toString n).toList = Nat.toDigits 10 n := by
  simp [toString, Nat.repr]

theorem toString_injective {m n : ℕ} (h : (toString m).toList = (toString n).toList) : m = n := by
  rw [toList_toString, toList_toString] at h
  rw [← Nat.ofDigitChars_ten_toDigits (n := m), h, Nat.ofDigitChars_ten_toDigits]

theorem notMem_toString {c : Char} (hc : c.isDigit = false) (n : ℕ) :
    c ∉ (toString n).toList := by
  intro h
  rw [toList_toString] at h
  rw [Nat.isDigit_of_mem_toDigits (by decide) (by decide) h] at hc
  contradiction

theorem head?_toString (n : ℕ) : ∃ c, (toString n).toList.head? = some c ∧ c.isDigit = true := by
  obtain ⟨c, l, hcons⟩ := List.exists_cons_of_ne_nil (Nat.toDigits_ne_nil (n := n) (b := 10))
  refine ⟨c, by rw [toList_toString, hcons]; rfl, ?_⟩
  exact Nat.isDigit_of_mem_toDigits (by decide) (by decide) (hcons ▸ List.mem_cons_self)

theorem toList_negSucc (n : ℕ) :
    (toString (Int.negSucc n)).toList = '-' :: (toString (n + 1)).toList := by
  have htoString : toString (Int.negSucc n) = "-" ++ toString (n + 1) := rfl
  rw [htoString, String.toList_append]
  rfl

theorem sign_or_digit_of_mem {n : ℤ} {c : Char} (h : c ∈ (toString n).toList) :
    c = '-' ∨ c.isDigit = true := by
  have hdigit : ∀ m : ℕ, c ∈ (toString m).toList → c.isDigit = true := fun m hc =>
    Nat.isDigit_of_mem_toDigits (by decide) (by decide) (toList_toString m ▸ hc)
  cases n with
  | ofNat n => exact Or.inr (hdigit n h)
  | negSucc n =>
    rw [toList_negSucc] at h
    exact (List.mem_cons.1 h).imp_right (hdigit (n + 1))

theorem exists_head_toString (n : ℤ) : ∃ c, (toString n).toList.head? = some c ∧
    (c = '-' ∨ c.isDigit = true) := by
  cases n with
  | ofNat n =>
    obtain ⟨c, hc, hdigit⟩ := head?_toString n
    exact ⟨c, hc, Or.inr hdigit⟩
  | negSucc n => exact ⟨'-', by rw [toList_negSucc, List.head?_cons], Or.inl rfl⟩

end Lib
