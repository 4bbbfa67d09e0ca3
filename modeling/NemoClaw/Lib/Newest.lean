import Mathlib.Data.List.Basic
import Mathlib.Data.List.Induction

/-! Numbered logs that are read from the front and of which only the newest entries are kept: what
is left after the `c`-th entry was read, when `n` entries at most are kept. -/

namespace Lib

variable {α : Type*}

/-- The entries of a log with their numbers, from `1` on. -/
def numbered (log : List α) : List (α × ℕ) := log.zipIdx 1

def unread (n c : ℕ) (log : List α) : List (α × ℕ) := (numbered log).drop (max c (log.length - n))

theorem numbered_append_singleton (log : List α) (a : α) :
    numbered (log ++ [a]) = numbered log ++ [(a, log.length + 1)] := by
  rw [numbered, List.zipIdx_append, List.zipIdx_singleton, Nat.add_comm]
  rfl

theorem length_numbered (log : List α) : (numbered log).length = log.length :=
  List.length_zipIdx

theorem mem_numbered {log : List α} {a : α} {k : ℕ} :
    (a, k) ∈ numbered log ↔ 1 ≤ k ∧ log[k - 1]? = some a :=
  List.mk_mem_zipIdx_iff_le_and_getElem?_sub

theorem bounds_of_mem_numbered {log : List α} {p : α × ℕ} (h : p ∈ numbered log) :
    1 ≤ p.2 ∧ p.2 ≤ log.length := by
  have hlt := List.snd_lt_of_mem_zipIdx h
  have hle := List.le_snd_of_mem_zipIdx h
  omega

theorem map_fst_numbered (log : List α) : (numbered log).map Prod.fst = log :=
  List.zipIdx_map_fst 1 log

/-- Numbered entries of a log in the order of their numbers are a sublist of it. -/
theorem sublist_numbered {log : List α} {l : List (α × ℕ)} (hmem : ∀ p ∈ l, p ∈ numbered log)
    (hlt : (l.map Prod.snd).Pairwise (· < ·)) : l.Sublist (numbered log) := by
  induction log using List.reverseRecOn generalizing l with
  | nil =>
    obtain rfl := List.eq_nil_iff_forall_not_mem.2 fun p hp => List.not_mem_nil (hmem p hp)
    exact List.Sublist.refl _
  | append_singleton log a ih =>
    have hbefore : ∀ p ∈ l, p.2 ≤ log.length → p ∈ numbered log := by
      intro p hp hle
      have hp := hmem p hp
      rw [numbered_append_singleton, List.mem_append, List.mem_singleton] at hp
      rcases hp with hp | rfl
      · exact hp
      · exact absurd hle (by simp)
    rw [numbered_append_singleton]
    rcases List.eq_nil_or_concat l with rfl | ⟨l, p, rfl⟩
    · exact List.nil_sublist _
    · rw [List.concat_eq_append] at hmem hlt hbefore ⊢
      rw [List.map_append, List.pairwise_append] at hlt
      obtain ⟨hinit, -, hlast⟩ := hlt
      have hless : ∀ q ∈ l, q.2 < p.2 := fun q hq =>
        hlast q.2 (List.mem_map_of_mem hq) p.2 (by simp)
      have hp := hmem p (by simp)
      have hbound := bounds_of_mem_numbered hp
      rw [List.length_append, List.length_singleton] at hbound
      have hl : l.Sublist (numbered log) := by
        refine ih (fun q hq => hbefore q (List.mem_append_left _ hq) ?_) hinit
        have := hless q hq
        omega
      rw [numbered_append_singleton, List.mem_append, List.mem_singleton] at hp
      rcases hp with hp | rfl
      · have hall : (l ++ [p]).Sublist (numbered log) := by
          refine ih ?_ ?_
          · intro q hq
            rcases List.mem_append.1 hq with hq | hq
            · exact hl.subset hq
            · rwa [List.mem_singleton.1 hq]
          · rw [List.map_append, List.pairwise_append]
            exact ⟨hinit, List.pairwise_singleton _ _, hlast⟩
        exact hall.trans (List.sublist_append_left _ _)
      · exact hl.append (List.Sublist.refl _)

theorem length_unread (n c : ℕ) (log : List α) :
    (unread n c log).length = min (log.length - c) n := by
  rw [unread, List.length_drop, length_numbered]
  omega

/-- What is left has the numbers behind the last one read, the newest `n` of them. -/
theorem mem_unread {n c : ℕ} {log : List α} {p : α × ℕ} :
    p ∈ unread n c log ↔ p ∈ numbered log ∧ max c (log.length - n) < p.2 := by
  rw [unread, List.mem_drop_iff_getElem]
  constructor
  · rintro ⟨i, hi, rfl⟩
    refine ⟨List.getElem_mem _, ?_⟩
    simp only [numbered, List.getElem_zipIdx]
    omega
  · rintro ⟨hp, hlt⟩
    obtain ⟨i, hi, rfl⟩ := List.getElem_of_mem hp
    have hnumber : (numbered log)[i].2 = 1 + i := by simp [numbered]
    rw [hnumber] at hlt
    refine ⟨i - max c (log.length - n), ?_, ?_⟩
    · omega
    · congr 1
      omega

/-- The next entry to read is the first one that is kept. -/
theorem unread_eq_cons {n c : ℕ} {log : List α} {p : α × ℕ} {rest : List (α × ℕ)}
    (h : unread n c log = p :: rest) :
    p ∈ numbered log ∧ p.2 = max c (log.length - n) + 1 ∧ rest = unread n p.2 log := by
  have hmem : p ∈ numbered log := by
    refine List.mem_of_mem_drop (i := max c (log.length - n)) ?_
    rw [← unread, h]
    exact List.mem_cons_self
  have hnumber : p.2 = max c (log.length - n) + 1 := by
    have hhead : (numbered log)[max c (log.length - n)]? = some p := by
      rw [← List.head?_drop, ← unread, h]
      rfl
    obtain ⟨hi, hp⟩ := List.getElem?_eq_some_iff.1 hhead
    rw [← hp]
    simp [numbered, Nat.add_comm]
  refine ⟨hmem, hnumber, ?_⟩
  have htail := congrArg List.tail h
  rw [List.tail_cons, unread, List.tail_drop] at htail
  rw [← htail, unread, hnumber]
  congr 1
  omega

/-- An entry is added behind the kept ones, and when there is no room the first of them goes. -/
theorem unread_append_singleton {n c : ℕ} {log : List α} (hn : 0 < n) (hc : c ≤ log.length)
    (a : α) : unread n c (log ++ [a]) =
      (if n ≤ (unread n c log).length then (unread n c log).tail else unread n c log) ++
        [(a, log.length + 1)] := by
  have hlen := length_unread n c log
  have hdrop : ∀ k ≤ log.length, (numbered (log ++ [a])).drop k =
      (numbered log).drop k ++ [(a, log.length + 1)] := by
    intro k hk
    rw [numbered_append_singleton, List.drop_append_of_le_length]
    rwa [length_numbered]
  split_ifs with hfull
  · have hcount : max c ((log ++ [a]).length - n) = max c (log.length - n) + 1 := by
      rw [List.length_append, List.length_singleton]
      omega
    rw [unread, hcount, hdrop _ (by omega), unread, List.tail_drop]
  · have hcount : max c ((log ++ [a]).length - n) = max c (log.length - n) := by
      rw [List.length_append, List.length_singleton]
      omega
    rw [unread, hcount, hdrop _ (by omega), unread]

end Lib
