import Mathlib.Data.List.Induction
import NemoClaw.Lib.Dict

/-! Logs whose entries are legal after the entries before them, and keyed slots that the entries
write, each with an item or empty. An item that is put into a slot only once is gone for good when
its slot is written again. -/

namespace Lib

/-- Every entry is legal after the entries before it. -/
def Legal {β : Type*} (L : List β → β → Prop) (log : List β) : Prop :=
  ∀ before e after, log = before ++ e :: after → L before e

/-- Which slot an entry writes, and with what. -/
structure Slots (β κ ι : Type*) where
  writes : β → Option (κ × Option ι)

theorem concat_sublist_iff {β : Type*} (xs : List β) {log : List β} {x : β} :
    List.Sublist (xs ++ [x]) log ↔
      ∃ before after, log = before ++ x :: after ∧ List.Sublist xs before := by
  constructor
  · intro h
    obtain ⟨front, back, rfl, hfront, hback⟩ := List.append_sublist_iff.1 h
    obtain ⟨between, after, rfl⟩ := List.append_of_mem (List.singleton_sublist.1 hback)
    exact ⟨front ++ between, after, by simp, hfront.trans (List.sublist_append_left _ _)⟩
  · rintro ⟨before, after, rfl, hxs⟩
    exact hxs.append (List.singleton_sublist.2 List.mem_cons_self)

section Legal

variable {β : Type*} {L : List β → β → Prop} {log : List β} {e : β}

theorem legal_nil : Legal L [] := by
  intro before e after heq
  simp at heq

theorem legal_snoc : Legal L (log ++ [e]) ↔ Legal L log ∧ L log e := by
  constructor
  · intro h
    refine ⟨?_, h log e [] rfl⟩
    rintro before e' after rfl
    exact h before e' (after ++ [e]) (by simp)
  · rintro ⟨hlog, he⟩ before e' after heq
    rcases List.append_eq_append_iff.1 heq with ⟨mid, rfl, hsingle⟩ | ⟨mid, rfl, hafter⟩
    · obtain ⟨rfl, hcons⟩ : mid = [] ∧ [e] = e' :: after := by
        cases mid with
        | nil => exact ⟨rfl, hsingle⟩
        | cons => simp at hsingle
      obtain ⟨rfl, -⟩ := List.cons.inj hcons
      simpa using he
    · cases mid with
      | nil =>
        obtain ⟨rfl, -⟩ := List.cons.inj hafter
        simpa using he
      | cons x mid =>
        obtain ⟨rfl, -⟩ := List.cons.inj hafter
        exact hlog before e' mid rfl

end Legal

namespace Slots

variable {β κ ι : Type*} [DecidableEq κ] (S : Slots β κ ι)

/-- The content of slot `k` after an entry. -/
def write (k : κ) (content : Option ι) (e : β) : Option ι :=
  match S.writes e with
  | some (k', content') => if k' = k then content' else content
  | none => content

/-- The content of slot `k` after a log. -/
def content (log : List β) (k : κ) : Option ι := log.foldl (S.write k) none

/-- The item that an entry puts into its slot. -/
def item (e : β) : Option ι := (S.writes e).bind Prod.snd

/-- No item is put into a slot twice. -/
def Once (log : List β) : Prop := (log.filterMap S.item).Nodup

variable {S} {log after : List β} {e : β} {k k' : κ} {x : ι}

theorem content_snoc (log : List β) (e : β) (k : κ) :
    S.content (log ++ [e]) k = S.write k (S.content log k) e := by
  simp [content]

/-- What an entry puts, or what was there before. -/
theorem write_eq_some {content : Option ι} (h : S.write k content e = some x) :
    S.writes e = some (k, some x) ∨ content = some x ∧ ∀ v, S.writes e ≠ some (k, v) := by
  unfold write at h
  split at h
  · rename_i k' v hv
    split_ifs at h with hk
    · subst hk h
      exact Or.inl hv
    · refine Or.inr ⟨h, ?_⟩
      intro v' hv'
      rw [hv] at hv'
      exact hk (Prod.mk.inj (Option.some.inj hv')).1
  · rename_i hnone
    refine Or.inr ⟨h, ?_⟩
    intro v hv
    rw [hnone] at hv
    contradiction

theorem write_of_other {content : Option ι} (h : ∀ v, S.writes e ≠ some (k, v)) :
    S.write k content e = content := by
  unfold write
  split
  · rename_i k' v hv
    split_ifs with hk
    · subst hk
      exact absurd hv (h v)
    · rfl
  · rfl

/-- A slot holds an item exactly if the last entry that writes the slot puts the item. -/
theorem content_eq_some_iff : S.content log k = some x ↔ ∃ before e after,
    log = before ++ e :: after ∧ S.writes e = some (k, some x) ∧
      ∀ e' ∈ after, ∀ v, S.writes e' ≠ some (k, v) := by
  constructor
  · intro h
    induction log using List.reverseRecOn with
    | nil => simp [content] at h
    | append_singleton log e ih =>
      rw [content_snoc] at h
      rcases write_eq_some h with hput | ⟨hold, hother⟩
      · exact ⟨log, e, [], rfl, hput, by simp⟩
      · obtain ⟨before, e', after, rfl, hput, hafter⟩ := ih hold
        refine ⟨before, e', after ++ [e], by simp, hput, ?_⟩
        intro e'' hmem
        rcases List.mem_append.1 hmem with hmem | hmem
        · exact hafter e'' hmem
        · obtain rfl := List.mem_singleton.1 hmem
          exact hother
  · rintro ⟨before, e, after, rfl, hput, hafter⟩
    induction after using List.reverseRecOn with
    | nil =>
      rw [content_snoc]
      simp [write, hput]
    | append_singleton after e' ih =>
      rw [← List.cons_append, ← List.append_assoc, content_snoc,
        write_of_other (hafter e' (by simp))]
      exact ih fun e'' hmem => hafter e'' (List.mem_append_left _ hmem)

omit [DecidableEq κ] in
theorem once_snoc : S.Once (log ++ [e]) ↔
    S.Once log ∧ ∀ x, S.item e = some x → x ∉ log.filterMap S.item := by
  simp only [Once, List.filterMap_append, List.nodup_append]
  cases hx : S.item e with
  | none => simp [hx]
  | some x =>
    simp only [List.filterMap_cons, hx, List.filterMap_nil, List.nodup_singleton,
      List.mem_singleton, true_and, Option.some.injEq]
    constructor
    · rintro ⟨hlog, hne⟩
      refine ⟨hlog, ?_⟩
      rintro x rfl hmem
      exact hne x hmem x rfl rfl
    · rintro ⟨hlog, hne⟩
      refine ⟨hlog, ?_⟩
      rintro y hy z rfl rfl
      exact hne y rfl hy

omit [DecidableEq κ] in
theorem item_of_writes {v : Option ι} (h : S.writes e = some (k, v)) : S.item e = v := by
  simp [item, h]

omit [DecidableEq κ] in
/-- An entry that puts no item adds none. -/
theorem mem_items_of_snoc (he : S.item e = none) (h : x ∈ (log ++ [e]).filterMap S.item) :
    x ∈ log.filterMap S.item := by
  rw [List.filterMap_append] at h
  rcases List.mem_append.1 h with h | h
  · exact h
  · simp [he] at h

theorem mem_of_content (h : S.content log k = some x) : x ∈ log.filterMap S.item := by
  obtain ⟨before, e, after, rfl, hput, -⟩ := content_eq_some_iff.1 h
  exact List.mem_filterMap.2 ⟨e, by simp, item_of_writes hput⟩

/-- An item that is put once is in one slot. -/
theorem content_inj (honce : S.Once log) (h : S.content log k = some x)
    (h' : S.content log k' = some x) : k = k' := by
  induction log using List.reverseRecOn with
  | nil => simp [content] at h
  | append_singleton log e ih =>
    obtain ⟨honce, hnew⟩ := once_snoc.1 honce
    rw [content_snoc] at h h'
    rcases write_eq_some h with hput | ⟨hold, -⟩
    · rcases write_eq_some h' with hput' | ⟨hold', -⟩
      · exact (Prod.mk.inj (Option.some.inj (hput.symm.trans hput'))).1
      · exact absurd (mem_of_content hold') (hnew x (item_of_writes hput))
    · rcases write_eq_some h' with hput' | ⟨hold', -⟩
      · exact absurd (mem_of_content hold) (hnew x (item_of_writes hput'))
      · exact ih honce hold hold'

/-- An item that was put and is in no slot comes into none any more. -/
theorem gone_append (honce : S.Once (log ++ after)) (hput : x ∈ log.filterMap S.item)
    (hgone : ∀ k, S.content log k ≠ some x) : ∀ k, S.content (log ++ after) k ≠ some x := by
  induction after using List.reverseRecOn with
  | nil => simpa using hgone
  | append_singleton after e ih =>
    rw [← List.append_assoc] at honce ⊢
    obtain ⟨honce, hnew⟩ := once_snoc.1 honce
    intro k hk
    rw [content_snoc] at hk
    rcases write_eq_some hk with hwrites | ⟨hold, -⟩
    · refine hnew x (item_of_writes hwrites) ?_
      rw [List.filterMap_append]
      exact List.mem_append_left _ hput
    · exact ih honce k hold

/-- Once its slot is emptied, an item that is put once is gone. -/
theorem gone (honce : S.Once (log ++ e :: after)) (hheld : S.content log k = some x)
    (hempty : S.writes e = some (k, none)) : ∀ k', S.content (log ++ e :: after) k' ≠ some x := by
  rw [List.append_cons] at honce ⊢
  have hput : x ∈ (log ++ [e]).filterMap S.item := by
    rw [List.filterMap_append]
    exact List.mem_append_left _ (mem_of_content hheld)
  refine gone_append honce hput ?_
  intro k' hk'
  rw [content_snoc] at hk'
  have honce' : S.Once log := by
    unfold Once at honce ⊢
    rw [List.filterMap_append, List.filterMap_append] at honce
    exact (List.nodup_append.1 (List.nodup_append.1 honce).1).1
  rcases write_eq_some hk' with hwrites | ⟨hold, hother⟩
  · rw [hempty] at hwrites
    exact nomatch (Prod.mk.inj (Option.some.inj hwrites)).2
  · obtain rfl := content_inj honce' hheld hold
    exact hother none hempty

omit [DecidableEq κ] in
/-- The entry that puts an item is the only one. -/
theorem Once.eq_of_item (honce : S.Once log) {e e' : β} (he : e ∈ log) (he' : e' ∈ log)
    (hx : S.item e = some x) (hx' : S.item e' = some x) : e = e' := by
  induction log using List.reverseRecOn with
  | nil => simp at he
  | append_singleton log last ih =>
    obtain ⟨honce, hnew⟩ := once_snoc.1 honce
    have hput {e : β} (he : e ∈ log) (hx : S.item e = some x) : x ∈ log.filterMap S.item :=
      List.mem_filterMap.2 ⟨e, he, hx⟩
    rcases List.mem_append.1 he with hold | hlast
    · rcases List.mem_append.1 he' with hold' | hlast'
      · exact ih honce hold hold'
      · obtain rfl := List.mem_singleton.1 hlast'
        exact absurd (hput hold hx) (hnew x hx')
    · obtain rfl := List.mem_singleton.1 hlast
      rcases List.mem_append.1 he' with hold' | hlast'
      · exact absurd (hput hold' hx') (hnew x hx)
      · exact (List.mem_singleton.1 hlast').symm

/-- An item that is put once is gone when its slot is emptied, whether or not it was still there. -/
theorem gone_of_put (honce : S.Once (log ++ e :: after)) {put : β} (hmem : put ∈ log)
    (hput : S.writes put = some (k, some x)) (hempty : S.writes e = some (k, none)) :
    ∀ k', S.content (log ++ e :: after) k' ≠ some x := by
  by_cases hheld : S.content log k = some x
  · exact gone honce hheld hempty
  · refine gone_append honce (List.mem_filterMap.2 ⟨put, hmem, item_of_writes hput⟩) ?_
    intro k' hk'
    obtain ⟨before, put', after', rfl, hput', -⟩ := content_eq_some_iff.1 hk'
    have heq := honce.eq_of_item (by simp) (List.mem_append_left _ hmem)
      (item_of_writes hput') (item_of_writes hput)
    subst heq
    obtain rfl : k' = k := (Prod.mk.inj (Option.some.inj (hput'.symm.trans hput))).1
    exact hheld hk'

/-! ### Slots kept in a dictionary -/

/-- The dictionary holds the contents of the slots; `f` reads the item off an entry of it. -/
def Tracks {ν : Type*} (S : Slots β κ ι) (f : ν → ι) (log : List β) (d : Dict κ ν) : Prop :=
  ∀ k, (d.lookup k).map f = S.content log k

namespace Tracks

variable {ν : Type*} {f : ν → ι} {d : Dict κ ν}

theorem initial : S.Tracks f [] ∅ := by
  intro k
  simp [content]

theorem keep (h : S.Tracks f log d) (he : S.writes e = none) : S.Tracks f (log ++ [e]) d := by
  intro k
  rw [content_snoc, h k]
  simp [write, he]

theorem insert (h : S.Tracks f log d) {v : ν} (he : S.writes e = some (k, some (f v))) :
    S.Tracks f (log ++ [e]) (d.insert k v) := by
  intro k'
  rw [content_snoc, ← h k']
  simp only [write, he]
  split_ifs with hk
  · subst hk
    rw [AList.lookup_insert]
    rfl
  · rw [AList.lookup_insert_ne (Ne.symm hk)]

theorem erase (h : S.Tracks f log d) (he : S.writes e = some (k, none)) :
    S.Tracks f (log ++ [e]) (d.erase k) := by
  intro k'
  rw [content_snoc, ← h k']
  simp only [write, he]
  split_ifs with hk
  · subst hk
    rw [AList.lookup_erase]
    rfl
  · rw [AList.lookup_erase_ne (Ne.symm hk)]

theorem content_of_lookup (h : S.Tracks f log d) {v : ν} (hd : d.lookup k = some v) :
    S.content log k = some (f v) := by
  rw [← h k, hd]
  rfl

theorem lookup_of_content (h : S.Tracks f log d) (hx : S.content log k = some x) :
    ∃ v, d.lookup k = some v ∧ f v = x := by
  rw [← h k] at hx
  exact Option.map_eq_some_iff.1 hx

end Tracks

end Slots

end Lib
