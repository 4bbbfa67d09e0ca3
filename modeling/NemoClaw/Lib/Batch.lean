import Mathlib.Data.List.Basic
import Mathlib.Data.List.Infix

/-! Keyed tables under inserts and updates. Items are applied one at a time, where a refused
insert changes nothing, or as a batch: one transaction that makes all inserts before any update
and is dropped whole when an insert is refused. `applyBatch_eq_iff` says exactly when a batch does
what its items do one at a time. -/

namespace Lib

/-- Rows with a key, a check, and one column that updates write. -/
structure Schema (κ ρ σ : Type*) where
  key : ρ → κ
  valid : ρ → Bool
  status : ρ → σ
  set : σ → ρ → ρ
  key_set : ∀ v r, key (set v r) = key r
  status_set : ∀ v r, status (set v r) = v
  set_status : ∀ r, set (status r) r = r
  set_set : ∀ v w r, set v (set w r) = set v r

inductive TableOp (κ ρ σ : Type*)
  | insert (row : ρ)
  | update (key : κ) (status : σ)

namespace TableOp

variable {κ ρ σ : Type*}

def row? : TableOp κ ρ σ → Option ρ
  | .insert r => some r
  | .update _ _ => none

def update? : TableOp κ ρ σ → Option (κ × σ)
  | .insert _ => none
  | .update k v => some (k, v)

end TableOp

namespace Schema

variable {κ ρ σ : Type*} [DecidableEq κ] (S : Schema κ ρ σ)

def insert (T : List ρ) (r : ρ) : Option (List ρ) :=
  if S.valid r = true ∧ S.key r ∉ T.map S.key then some (T ++ [r]) else none

def write (k : κ) (v : σ) (r : ρ) : ρ := if S.key r = k then S.set v r else r

def update (T : List ρ) (u : κ × σ) : List ρ := T.map (S.write u.1 u.2)

def applyOne (T : List ρ) : TableOp κ ρ σ → List ρ
  | .insert r => (S.insert T r).getD T
  | .update k v => S.update T (k, v)

def applyEach (T : List ρ) (ops : List (TableOp κ ρ σ)) : List ρ := ops.foldl S.applyOne T

def insertAll : List ρ → List ρ → Option (List ρ)
  | T, [] => some T
  | T, r :: rs => (S.insert T r).bind fun T => insertAll T rs

def transact (T : List ρ) (ops : List (TableOp κ ρ σ)) : Option (List ρ) :=
  (S.insertAll T (ops.filterMap TableOp.row?)).map fun T =>
    (ops.filterMap TableOp.update?).foldl S.update T

def applyBatch (T : List ρ) (ops : List (TableOp κ ρ σ)) : List ρ := (S.transact T ops).getD T

/-- The status that the last update of `k` writes. -/
def written (k : κ) : List (TableOp κ ρ σ) → Option σ
  | [] => none
  | .insert _ :: ops => written k ops
  | .update k' v :: ops => (written k ops).or (if k' = k then some v else none)

/-- What the updates among `ops` make of a row. -/
def settle (ops : List (TableOp κ ρ σ)) (r : ρ) : ρ :=
  match written (S.key r) ops with
  | none => r
  | some v => S.set v r

/-- The rows of a list of items, each as the updates after it leave it. -/
def landed : List (TableOp κ ρ σ) → List ρ
  | [] => []
  | .insert r :: ops => S.settle ops r :: landed ops
  | .update _ _ :: ops => landed ops

/-- The rows `rs` fit into `T` together. -/
def Accepts (T rs : List ρ) : Prop :=
  (∀ r ∈ rs, S.valid r = true) ∧ (rs.map S.key).Nodup ∧ ∀ r ∈ rs, S.key r ∉ T.map S.key

/-- An update that comes before the insert of its row is written over by one that comes after
it, or writes what the insert writes. -/
def InOrder (ops : List (TableOp κ ρ σ)) : Prop :=
  ∀ pre r post, ops = pre ++ .insert r :: post → ∀ v, written (S.key r) pre = some v →
    (written (S.key r) post).isSome = true ∨ v = S.status r

/-- No item has an effect on `T`: its row is invalid or there already, its status too. -/
def Inert (T : List ρ) (ops : List (TableOp κ ρ σ)) : Prop :=
  (∀ r ∈ ops.filterMap TableOp.row?, S.valid r = true → S.key r ∈ T.map S.key) ∧
    ∀ r ∈ T, ∀ v, written (S.key r) ops = some v → v = S.status r

/-- A batch that is accepted has its updates in order; one that is refused has no effect. -/
def Faithful (T : List ρ) (ops : List (TableOp κ ρ σ)) : Prop :=
  (S.Accepts T (ops.filterMap TableOp.row?) → S.InOrder ops) ∧
    (¬ S.Accepts T (ops.filterMap TableOp.row?) → S.Inert T ops)

variable {S}

/-! ### Updates -/

theorem key_write (k : κ) (v : σ) (r : ρ) : S.key (S.write k v r) = S.key r := by
  unfold write
  split_ifs
  · exact S.key_set v r
  · rfl

theorem keys_update (T : List ρ) (u : κ × σ) : (S.update T u).map S.key = T.map S.key := by
  rw [update, List.map_map]
  apply List.map_congr_left
  intro r _
  exact key_write _ _ r

theorem written_append (k : κ) (as bs : List (TableOp κ ρ σ)) :
    written k (as ++ bs) = (written k bs).or (written k as) := by
  induction as with
  | nil => simp [written]
  | cons op as ih =>
    cases op with
    | insert r => exact ih
    | update k' v =>
      simp only [List.cons_append, written, ih]
      exact Option.or_assoc

theorem mem_of_written {k : κ} {v : σ} {ops : List (TableOp κ ρ σ)} (h : written k ops = some v) :
    .update k v ∈ ops := by
  induction ops with
  | nil => contradiction
  | cons op ops ih =>
    cases op with
    | insert r => exact List.mem_cons_of_mem _ (ih h)
    | update k' w =>
      rcases Option.or_eq_some_iff.1 h with h | ⟨-, h⟩
      · exact List.mem_cons_of_mem _ (ih h)
      · obtain ⟨rfl, rfl⟩ : k' = k ∧ w = v := by simpa using h
        exact List.mem_cons_self

theorem written_isSome_of_mem {k : κ} {v : σ} {ops : List (TableOp κ ρ σ)}
    (h : .update k v ∈ ops) : (written k ops).isSome = true := by
  obtain ⟨as, bs, rfl⟩ := List.append_of_mem h
  rw [written_append]
  cases hbs : written k bs with
  | none => simp [written, hbs]
  | some w => simp [written, hbs]

theorem settle_cons_update (k : κ) (v : σ) (ops : List (TableOp κ ρ σ)) (r : ρ) :
    S.settle (.update k v :: ops) r = S.settle ops (S.write k v r) := by
  unfold settle
  rw [key_write]
  cases hw : written (S.key r) ops with
  | none =>
    by_cases hk : S.key r = k
    · subst hk
      simp [written, hw, write]
    · simp [written, hw, write, hk, Ne.symm hk]
  | some w =>
    by_cases hk : S.key r = k
    · subst hk
      simp [written, hw, write, S.set_set]
    · simp [written, hw, write, hk]

theorem foldl_update (ops : List (TableOp κ ρ σ)) (T : List ρ) :
    (ops.filterMap TableOp.update?).foldl S.update T = T.map (S.settle ops) := by
  induction ops generalizing T with
  | nil => exact (List.map_id T).symm
  | cons op ops ih =>
    cases op with
    | insert r => exact ih T
    | update k v =>
      change (ops.filterMap TableOp.update?).foldl S.update (S.update T (k, v)) = _
      rw [ih, update, List.map_map]
      apply List.map_congr_left
      intro r _
      exact (settle_cons_update k v ops r).symm

theorem key_settle (ops : List (TableOp κ ρ σ)) (r : ρ) : S.key (S.settle ops r) = S.key r := by
  unfold settle
  split
  · rfl
  · exact S.key_set _ r

theorem settle_eq_self_iff {ops : List (TableOp κ ρ σ)} {r : ρ} :
    S.settle ops r = r ↔ ∀ v, written (S.key r) ops = some v → v = S.status r := by
  unfold settle
  cases hw : written (S.key r) ops with
  | none => simp
  | some w =>
    constructor
    · intro h v hv
      obtain rfl := Option.some.inj hv
      have hs := congrArg S.status h
      rwa [S.status_set] at hs
    · intro h
      rw [h w rfl]
      exact S.set_status r

/-- The updates before an insert do not show in its row exactly if they are in order. -/
theorem settle_append_insert_iff {pre post : List (TableOp κ ρ σ)} {r r' : ρ} :
    S.settle post r = S.settle (pre ++ .insert r' :: post) r ↔
      ∀ v, written (S.key r) pre = some v →
        (written (S.key r) post).isSome = true ∨ v = S.status r := by
  have happ : written (S.key r) (pre ++ .insert r' :: post) =
      (written (S.key r) post).or (written (S.key r) pre) := written_append _ _ _
  cases hpost : written (S.key r) post with
  | some w => simp [settle, happ, hpost]
  | none =>
    cases hpre : written (S.key r) pre with
    | none => simp [settle, happ, hpost, hpre]
    | some v =>
      simp only [settle, happ, hpost, hpre, Option.none_or]
      constructor
      · intro h v' hv
        obtain rfl := Option.some.inj hv
        have hs := congrArg S.status h
        rw [S.status_set] at hs
        exact Or.inr hs.symm
      · intro h
        have hv := (h v rfl).resolve_left (by simp)
        rw [hv, S.set_status]

/-! ### Batches that are accepted -/

theorem insert_eq_some_iff {T T' : List ρ} {r : ρ} :
    S.insert T r = some T' ↔ (S.valid r = true ∧ S.key r ∉ T.map S.key) ∧ T ++ [r] = T' := by
  simp [insert]

omit [DecidableEq κ] in
theorem accepts_cons {T rs : List ρ} {r : ρ} :
    S.Accepts T (r :: rs) ↔
      (S.valid r = true ∧ S.key r ∉ T.map S.key) ∧ S.Accepts (T ++ [r]) rs := by
  simp only [Accepts, List.forall_mem_cons, List.map_cons, List.nodup_cons, List.map_append,
    List.mem_append, List.map_nil, List.mem_singleton, not_or, List.mem_map, not_exists, not_and]
  constructor
  · intro ⟨⟨hv, hvs⟩, ⟨hr, hnd⟩, hT, hTs⟩
    refine ⟨⟨hv, hT⟩, hvs, hnd, ?_⟩
    intro q hq
    exact ⟨hTs q hq, hr q hq⟩
  · intro ⟨⟨hv, hT⟩, hvs, hnd, hTs⟩
    exact ⟨⟨hv, hvs⟩, ⟨fun q hq => (hTs q hq).2, hnd⟩, hT, fun q hq => (hTs q hq).1⟩

theorem insertAll_eq_some_iff {T rs T' : List ρ} :
    S.insertAll T rs = some T' ↔ S.Accepts T rs ∧ T ++ rs = T' := by
  induction rs generalizing T with
  | nil => simp [insertAll, Accepts]
  | cons r rs ih =>
    rw [accepts_cons]
    simp only [insertAll, Option.bind_eq_some_iff, insert_eq_some_iff, ih]
    constructor
    · rintro ⟨T₁, ⟨hr, rfl⟩, hrs, rfl⟩
      exact ⟨⟨hr, hrs⟩, by simp⟩
    · rintro ⟨⟨hr, hrs⟩, rfl⟩
      exact ⟨T ++ [r], ⟨hr, rfl⟩, hrs, by simp⟩

theorem applyBatch_of_accepts {T : List ρ} {ops : List (TableOp κ ρ σ)}
    (h : S.Accepts T (ops.filterMap TableOp.row?)) :
    S.applyBatch T ops =
      T.map (S.settle ops) ++ (ops.filterMap TableOp.row?).map (S.settle ops) := by
  have hall : S.insertAll T (ops.filterMap TableOp.row?) = some (T ++ ops.filterMap TableOp.row?) :=
    insertAll_eq_some_iff.2 ⟨h, rfl⟩
  simp [applyBatch, transact, hall, foldl_update]

theorem applyBatch_of_not_accepts {T : List ρ} {ops : List (TableOp κ ρ σ)}
    (h : ¬ S.Accepts T (ops.filterMap TableOp.row?)) : S.applyBatch T ops = T := by
  have hall : S.insertAll T (ops.filterMap TableOp.row?) = none := by
    rw [Option.eq_none_iff_forall_ne_some]
    intro T' hT'
    exact h (insertAll_eq_some_iff.1 hT').1
  simp [applyBatch, transact, hall]

theorem accepts_update {T rs : List ρ} {u : κ × σ} :
    S.Accepts (S.update T u) rs ↔ S.Accepts T rs := by
  rw [Accepts, Accepts, keys_update]

/-- One at a time, a row is written by the updates after its insert alone. -/
theorem applyEach_of_accepts {T : List ρ} {ops : List (TableOp κ ρ σ)}
    (h : S.Accepts T (ops.filterMap TableOp.row?)) :
    S.applyEach T ops = T.map (S.settle ops) ++ S.landed ops := by
  induction ops generalizing T with
  | nil =>
    have hid : T.map (S.settle []) = T := List.map_id T
    rw [hid]
    exact (List.append_nil T).symm
  | cons op ops ih =>
    cases op with
    | insert r =>
      obtain ⟨hr, hrs⟩ := accepts_cons.1 h
      have hone : S.applyOne T (.insert r) = T ++ [r] := by
        simp only [applyOne, insert_eq_some_iff.2 ⟨hr, rfl⟩, Option.getD_some]
      change S.applyEach (S.applyOne T (.insert r)) ops = _
      rw [hone, ih hrs]
      simp [landed, settle, written]
    | update k v =>
      change S.applyEach (S.update T (k, v)) ops = _
      rw [ih (accepts_update.2 h), update, List.map_map, landed]
      congr 1
      apply List.map_congr_left
      intro r _
      exact (settle_cons_update k v ops r).symm

theorem landed_eq_map_iff (pre ops : List (TableOp κ ρ σ)) :
    (ops.filterMap TableOp.row?).map (S.settle (pre ++ ops)) = S.landed ops ↔
      ∀ mid r post, ops = mid ++ .insert r :: post →
        S.settle post r = S.settle (pre ++ ops) r := by
  induction ops generalizing pre with
  | nil => simp [landed]
  | cons op ops ih =>
    have hsplit : pre ++ op :: ops = (pre ++ [op]) ++ ops := by simp
    cases op with
    | insert r =>
      have hmap : ((TableOp.insert r :: ops).filterMap TableOp.row?) =
          r :: ops.filterMap TableOp.row? := rfl
      rw [hmap, List.map_cons, landed, List.cons.injEq, hsplit, ih]
      constructor
      · rintro ⟨hr, hrest⟩ mid r' post heq
        cases mid with
        | nil =>
          obtain ⟨h₁, rfl⟩ := List.cons.inj heq
          obtain rfl := TableOp.insert.inj h₁
          exact hr.symm
        | cons op' mid =>
          obtain ⟨-, rfl⟩ := List.cons.inj heq
          exact hrest mid r' post rfl
      · intro h
        refine ⟨(h [] r ops rfl).symm, ?_⟩
        intro mid r' post heq
        exact h (.insert r :: mid) r' post (by rw [heq, List.cons_append])
    | update k v =>
      have hmap : ((TableOp.update k v :: ops).filterMap TableOp.row?) =
          ops.filterMap TableOp.row? := rfl
      rw [hmap, landed, hsplit, ih]
      constructor
      · intro h mid r' post heq
        cases mid with
        | nil => cases heq
        | cons op' mid =>
          obtain ⟨-, rfl⟩ := List.cons.inj heq
          exact h mid r' post rfl
      · intro h mid r' post heq
        exact h (.update k v :: mid) r' post (by rw [heq, List.cons_append])

theorem map_settle_eq_landed_iff (ops : List (TableOp κ ρ σ)) :
    (ops.filterMap TableOp.row?).map (S.settle ops) = S.landed ops ↔ S.InOrder ops := by
  have h := landed_eq_map_iff (S := S) [] ops
  rw [List.nil_append] at h
  rw [h]
  constructor
  · intro hall pre r post heq
    have hr := hall pre r post heq
    rw [heq] at hr
    exact settle_append_insert_iff.1 hr
  · intro hord pre r post heq
    rw [heq]
    exact settle_append_insert_iff.2 (hord pre r post heq)

/-- The order of the `i`-th item, checked. -/
def inOrderAt [DecidableEq σ] (S : Schema κ ρ σ) (ops : List (TableOp κ ρ σ)) (i : ℕ) : Bool :=
  ((ops[i]?.bind TableOp.row?).all fun r =>
    (written (S.key r) (ops.drop (i + 1))).isSome ||
      (written (S.key r) (ops.take i)).all fun v => decide (v = S.status r))

theorem inOrder_iff_at [DecidableEq σ] {ops : List (TableOp κ ρ σ)} :
    S.InOrder ops ↔ ∀ i < ops.length, inOrderAt S ops i = true := by
  constructor
  · intro h i hi
    cases hop : ops[i] with
    | update k v => simp [inOrderAt, hi, hop, TableOp.row?]
    | insert r =>
      have hsplit : ops = ops.take i ++ .insert r :: ops.drop (i + 1) := by
        rw [← hop, List.getElem_cons_drop, List.take_append_drop]
      have hr := h _ r _ hsplit
      simp only [inOrderAt, List.getElem?_eq_getElem hi, hop, Option.bind_some, TableOp.row?,
        Option.all_some, Bool.or_eq_true, Option.all_eq_true, decide_eq_true_eq]
      cases hpre : written (S.key r) (ops.take i) with
      | none => simp
      | some v =>
        rcases hr v hpre with hpost | hv
        · exact Or.inl hpost
        · exact Or.inr fun w hw => (Option.some.inj hw).symm.trans hv
  · intro h pre r post heq v hv
    have hlen : pre.length < ops.length := by simp [heq]
    have hat := h pre.length hlen
    subst heq
    simp [inOrderAt, TableOp.row?, hv] at hat
    exact hat

instance [DecidableEq σ] (ops : List (TableOp κ ρ σ)) : Decidable (S.InOrder ops) :=
  decidable_of_iff _ inOrder_iff_at.symm

instance (T rs : List ρ) : Decidable (S.Accepts T rs) := by
  unfold Accepts
  infer_instance

/-! ### Batches that are refused -/

theorem keys_applyOne (T : List ρ) (op : TableOp κ ρ σ) :
    T.map S.key <+: (S.applyOne T op).map S.key := by
  cases op with
  | insert r =>
    cases h : S.insert T r with
    | none => simp [applyOne, h]
    | some T' =>
      obtain ⟨-, rfl⟩ := insert_eq_some_iff.1 h
      simp [applyOne, h]
  | update k v =>
    rw [applyOne, keys_update]

theorem keys_applyEach (T : List ρ) (ops : List (TableOp κ ρ σ)) :
    T.map S.key <+: (S.applyEach T ops).map S.key := by
  induction ops generalizing T with
  | nil => exact List.prefix_refl _
  | cons op ops ih => exact (keys_applyOne T op).trans (ih (S.applyOne T op))

/-- After its insert a valid row's key is in the table, whether or not the insert was refused. -/
theorem key_mem_applyEach {T : List ρ} {ops : List (TableOp κ ρ σ)} {r : ρ}
    (hr : r ∈ ops.filterMap TableOp.row?) (hv : S.valid r = true) :
    S.key r ∈ (S.applyEach T ops).map S.key := by
  induction ops generalizing T with
  | nil => simp at hr
  | cons op ops ih =>
    cases op with
    | update k v => exact ih hr
    | insert r' =>
      rcases List.mem_cons.1 hr with rfl | hr
      · apply (keys_applyEach (S.applyOne T (.insert r)) ops).subset
        by_cases hk : S.key r ∈ T.map S.key
        · exact (keys_applyOne T (.insert r)).subset hk
        · simp [applyOne, insert, hv, hk]
      · exact ih hr

/-- When every insert is refused, the updates are all that happens. -/
theorem applyEach_of_refused {T : List ρ} {ops : List (TableOp κ ρ σ)}
    (h : ∀ r ∈ ops.filterMap TableOp.row?, S.valid r = true → S.key r ∈ T.map S.key) :
    S.applyEach T ops = T.map (S.settle ops) := by
  induction ops generalizing T with
  | nil => exact (List.map_id T).symm
  | cons op ops ih =>
    cases op with
    | insert r =>
      have hnone : S.insert T r = none := by
        simp only [insert, ite_eq_right_iff, reduceCtorEq, imp_false, not_and, not_not]
        exact h r List.mem_cons_self
      change S.applyEach (S.applyOne T (.insert r)) ops = _
      rw [applyOne, hnone, Option.getD_none, ih fun q hq => h q (List.mem_cons_of_mem _ hq)]
      rfl
    | update k v =>
      change S.applyEach (S.update T (k, v)) ops = _
      rw [ih, update, List.map_map]
      · apply List.map_congr_left
        intro r _
        exact (settle_cons_update k v ops r).symm
      · rw [keys_update]
        exact h

theorem applyEach_eq_self_iff {T : List ρ} {ops : List (TableOp κ ρ σ)} :
    S.applyEach T ops = T ↔ S.Inert T ops := by
  have hmap : T.map (S.settle ops) = T ↔
      ∀ r ∈ T, ∀ v, written (S.key r) ops = some v → v = S.status r := by
    have hid : T.map (S.settle ops) = T.map id ↔ _ := List.map_inj_left
    rw [List.map_id] at hid
    rw [hid]
    exact forall₂_congr fun r _ => settle_eq_self_iff
  constructor
  · intro h
    have href : ∀ r ∈ ops.filterMap TableOp.row?, S.valid r = true → S.key r ∈ T.map S.key := by
      intro r hr hv
      have hmem := key_mem_applyEach (T := T) hr hv
      rwa [h] at hmem
    refine ⟨href, ?_⟩
    rw [applyEach_of_refused href] at h
    exact hmap.1 h
  · intro ⟨href, hstat⟩
    rw [applyEach_of_refused href]
    exact hmap.2 hstat

/-- A batch does what its items do one at a time exactly if it is faithful. -/
theorem applyBatch_eq_iff {T : List ρ} {ops : List (TableOp κ ρ σ)} :
    S.applyBatch T ops = S.applyEach T ops ↔ S.Faithful T ops := by
  by_cases h : S.Accepts T (ops.filterMap TableOp.row?)
  · rw [applyBatch_of_accepts h, applyEach_of_accepts h, List.append_cancel_left_eq,
      map_settle_eq_landed_iff]
    simp [Faithful, h]
  · rw [applyBatch_of_not_accepts h, eq_comm, applyEach_eq_self_iff]
    simp [Faithful, h]

end Schema

end Lib
