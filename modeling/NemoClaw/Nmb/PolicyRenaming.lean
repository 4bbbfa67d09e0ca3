import NemoClaw.Lib.Dict
import NemoClaw.Lib.Machine
import NemoClaw.Lib.Renaming
import NemoClaw.Nmb.Models

/-! The policies of a `PolicyBroker` (`nmb/testing/policy.py`), which are declared under display
names and re-keyed to unique ids one at a time. Each re-keying patches the allow-lists of the
others, and of its own policy those names that were re-keyed before. -/

namespace NemoClaw

open Lib

/-- Nothing for a rule means that it does not restrict. -/
structure SandboxPolicy where
  sandboxId : String
  canConnect : Bool := true
  allowedEgressTargets : Option (Finset String) := none
  allowedIngressSources : Option (Finset String) := none
  allowedChannels : Option (Finset String) := none
  allowedOps : Option (Finset Op) := none
  deriving DecidableEq

/-- `_apply_rename` -/
def SandboxPolicy.applyRename (policy : SandboxPolicy) (old new : String) : SandboxPolicy :=
  { policy with
    allowedEgressTargets := policy.allowedEgressTargets.map (replace old new)
    allowedIngressSources := policy.allowedIngressSources.map (replace old new) }

/-- Policies with distinct names, and fresh unique ids for them. -/
structure PolicyIds (ι : Type) where
  policy : ι → SandboxPolicy
  uid : ι → String
  names_injective : (fun i => (policy i).sandboxId).Injective
  uid_injective : uid.Injective
  ne_name : ∀ i j, uid i ≠ (policy j).sandboxId
  notMem_egress : ∀ i j, ∀ s ∈ (policy j).allowedEgressTargets, uid i ∉ s
  notMem_ingress : ∀ i j, ∀ s ∈ (policy j).allowedIngressSources, uid i ∉ s

namespace PolicyIds

variable {ι : Type} (P : PolicyIds ι)

def name (i : ι) : String := (P.policy i).sandboxId

def rename (i : ι) : Σ _ : String, String := ⟨P.name i, P.uid i⟩

theorem rename_injective : P.rename.Injective :=
  fun _ _ h => P.names_injective (Sigma.mk.inj h).1

end PolicyIds

/-- The policy objects, and what a `PolicyBroker` keeps of them. -/
structure PolicyBroker (ι : Type) where
  objects : ι → SandboxPolicy
  policies : Dict String ι := ∅
  renames : Dict String String := ∅

namespace PolicyBroker

variable {ι : Type} [DecidableEq ι]

def addPolicy (b : PolicyBroker ι) (i : ι) : PolicyBroker ι :=
  { b with policies := b.policies.insert (b.objects i).sandboxId i }

/-- The second loop of `rekey_policy`: the renames so far, but for the one of the moment. -/
def applyRenames (old : String) (renames : List (Σ _ : String, String)) (policy : SandboxPolicy) :
    SandboxPolicy :=
  renames.foldl (fun p r => if r.1 = old then p else p.applyRename r.1 r.2) policy

def rekeyPolicy (b : PolicyBroker ι) (oldSandboxId newSandboxId : String) : PolicyBroker ι :=
  match b.policies.lookup oldSandboxId with
  | none => b
  | some i =>
    let policies := (b.policies.erase oldSandboxId).insert newSandboxId i
    let renames := b.renames.insert oldSandboxId newSandboxId
    { policies := policies
      renames := renames
      objects := fun j =>
        if j = i then
          applyRenames oldSandboxId renames.entries
            { b.objects i with sandboxId := newSandboxId }
        else if j ∈ policies.entries.map Sigma.snd then
          (b.objects j).applyRename oldSandboxId newSandboxId
        else b.objects j }

end PolicyBroker

inductive PolicyEvent (ι : Type)
  | add (i : ι)
  | rekey (i : ι)

def policyMachine {ι : Type} [DecidableEq ι] (P : PolicyIds ι) :
    Machine (PolicyBroker ι) (PolicyEvent ι) where
  init := { objects := P.policy }
  step b
    | .add i => some (b.addPolicy i)
    | .rekey i => some (b.rekeyPolicy (P.name i) (P.uid i))

/-! ### What the allow-lists become -/

namespace PolicyIds

variable {ι : Type} (P : PolicyIds ι)

/-- An allow-list with the names of `D` replaced by their ids. -/
def RenamedList (D : Set ι) : Option (Finset String) → Option (Finset String) → Prop
  | none, none => True
  | some s, some t => Renamed P.name P.uid D s t
  | _, _ => False

/-- The allow-lists of a policy with the names of `D` replaced by their ids. -/
structure RenamedPolicy (D : Set ι) (policy policy' : SandboxPolicy) : Prop where
  egress : P.RenamedList D policy.allowedEgressTargets policy'.allowedEgressTargets
  ingress : P.RenamedList D policy.allowedIngressSources policy'.allowedIngressSources

/-- A policy that names itself in one of its allow-lists. -/
def NamesItself (policy : SandboxPolicy) : Prop :=
  (∃ s ∈ policy.allowedEgressTargets, policy.sandboxId ∈ s) ∨
    ∃ s ∈ policy.allowedIngressSources, policy.sandboxId ∈ s

variable {P} {D : Set ι} {policy policy' : SandboxPolicy}

theorem renamedList_refl (l : Option (Finset String)) : P.RenamedList ∅ l l := by
  cases l with
  | none => trivial
  | some s => exact renamed_refl s

theorem RenamedList.replace {l l' : Option (Finset String)} (h : P.RenamedList D l l') (k : ι) :
    P.RenamedList (insert k D) l (l'.map (replace (P.name k) (P.uid k))) := by
  cases l with
  | none => cases l' with
    | none => trivial
    | some t => exact h
  | some s => cases l' with
    | none => exact h
    | some t => exact Renamed.replace P.names_injective P.ne_name h k

theorem RenamedList.univ_iff {l l' : Option (Finset String)} {k : ι}
    (h : P.RenamedList {k}ᶜ l l') :
    P.RenamedList Set.univ l l' ↔ ∀ s ∈ l, P.name k ∉ s := by
  cases l with
  | none => cases l' with
    | none => simp [RenamedList]
    | some t => exact absurd h id
  | some s => cases l' with
    | none => exact absurd h id
    | some t =>
      have hiff : Renamed P.name P.uid Set.univ s t ↔ P.name k ∉ s :=
        Renamed.univ_iff P.ne_name P.names_injective h
      simpa [RenamedList] using hiff

theorem RenamedPolicy.applyRename (h : P.RenamedPolicy D policy policy') (k : ι) :
    P.RenamedPolicy (insert k D) policy (policy'.applyRename (P.name k) (P.uid k)) :=
  ⟨h.egress.replace k, h.ingress.replace k⟩

theorem RenamedPolicy.applyRenames {k : ι} {renames : List (Σ _ : String, String)}
    (hrenames : ∀ r ∈ renames, ∃ i, r = P.rename i) (h : P.RenamedPolicy D policy policy') :
    P.RenamedPolicy (D ∪ {i | i ≠ k ∧ P.rename i ∈ renames}) policy
      (PolicyBroker.applyRenames (P.name k) renames policy') := by
  induction renames generalizing D policy' with
  | nil => simpa [PolicyBroker.applyRenames] using h
  | cons r renames ih =>
    obtain ⟨i, rfl⟩ := hrenames r List.mem_cons_self
    have hrest := fun r hr => hrenames r (List.mem_cons_of_mem _ hr)
    rw [PolicyBroker.applyRenames, List.foldl_cons]
    by_cases hik : i = k
    · have hset : D ∪ {j | j ≠ k ∧ P.rename j ∈ P.rename i :: renames} =
          D ∪ {j | j ≠ k ∧ P.rename j ∈ renames} := by
        ext j
        simp only [Set.mem_union, Set.mem_ofPred_eq, List.mem_cons, P.rename_injective.eq_iff, hik]
        tauto
      have hsame : (P.rename i).1 = P.name k := congrArg P.name hik
      rw [hset, if_pos hsame]
      exact ih hrest h
    · have hset : D ∪ {j | j ≠ k ∧ P.rename j ∈ P.rename i :: renames} =
          insert i D ∪ {j | j ≠ k ∧ P.rename j ∈ renames} := by
        ext j
        simp only [Set.mem_union, Set.mem_ofPred_eq, List.mem_cons, P.rename_injective.eq_iff,
          Set.mem_insert_iff]
        constructor
        · rintro (hj | ⟨hj, rfl | hmem⟩)
          · exact Or.inl (Or.inr hj)
          · exact Or.inl (Or.inl rfl)
          · exact Or.inr ⟨hj, hmem⟩
        · rintro ((rfl | hj) | ⟨hj, hmem⟩)
          · exact Or.inr ⟨hik, Or.inl rfl⟩
          · exact Or.inl hj
          · exact Or.inr ⟨hj, Or.inr hmem⟩
      have hne : (P.rename i).1 ≠ P.name k := fun heq => hik (P.names_injective heq)
      rw [hset, if_neg hne]
      exact ih hrest (h.applyRename i)

end PolicyIds

/-! ### What a call keeps -/

namespace PolicyBroker

variable {ι : Type} (P : PolicyIds ι) (b : PolicyBroker ι)

/-- The policies that were re-keyed. -/
def rekeyed : Set ι := {i | P.rename i ∈ b.renames.entries}

/-- In the allow-lists of a policy that was re-keyed, all of those re-keyed are replaced but itself;
in those of another, some. -/
structure Patched (i : ι) (D : Set ι) : Prop where
  notMem : i ∉ D
  subset : D ⊆ b.rekeyed P
  all : i ∈ b.rekeyed P → b.rekeyed P ⊆ insert i D
  lists : P.RenamedPolicy D (P.policy i) (b.objects i)

structure Consistent : Prop where
  patched : ∀ i, ∃ D, b.Patched P i D
  renames : ∀ r ∈ b.renames.entries, ∃ i, r = P.rename i
  uid : ∀ i ∈ b.rekeyed P, (b.objects i).sandboxId = P.uid i
  name : ∀ i ∉ b.rekeyed P, (b.objects i).sandboxId = P.name i
  policies : ∀ k i, b.policies.lookup k = some i → k = (b.objects i).sandboxId
  registered : ∀ i ∈ b.rekeyed P, b.policies.lookup (P.uid i) = some i

variable {P} {b}

theorem consistent_init : Consistent P { objects := P.policy } := by
  have hnone : rekeyed P { objects := P.policy } = ∅ := by
    ext i
    simp [rekeyed]
  refine ⟨?_, by simp, ?_, fun _ _ => rfl, ?_, ?_⟩
  · intro i
    refine ⟨∅, Set.notMem_empty i, Set.empty_subset _, ?_, ?_⟩
    · rw [hnone]
      exact fun hi => absurd hi (Set.notMem_empty i)
    · exact ⟨PolicyIds.renamedList_refl _, PolicyIds.renamedList_refl _⟩
  · rw [hnone]
    exact fun i hi => absurd hi (Set.notMem_empty i)
  · intro k i h
    cases h
  · rw [hnone]
    exact fun i hi => absurd hi (Set.notMem_empty i)

theorem Consistent.addPolicy (h : b.Consistent P) (i : ι) : (b.addPolicy i).Consistent P := by
  refine ⟨?_, h.renames, h.uid, h.name, ?_, ?_⟩
  · intro j
    obtain ⟨D, hD⟩ := h.patched j
    exact ⟨D, hD.notMem, hD.subset, hD.all, hD.lists⟩
  · intro k j hk
    rcases Dict.lookup_insert_eq_some.1 hk with ⟨rfl, rfl⟩ | ⟨-, hk⟩
    · rfl
    · exact h.policies k j hk
  · intro j hj
    refine Dict.lookup_insert_eq_some.2 ?_
    by_cases hkey : P.uid j = (b.objects i).sandboxId
    · refine Or.inl ⟨hkey, ?_⟩
      by_cases hi : i ∈ b.rekeyed P
      · rw [h.uid i hi] at hkey
        exact P.uid_injective hkey.symm
      · rw [h.name i hi] at hkey
        exact absurd hkey (P.ne_name j i)
    · exact Or.inr ⟨hkey, h.registered j hj⟩

theorem mem_rekeyed {i : ι} :
    i ∈ b.rekeyed P ↔ b.renames.lookup (P.name i) = some (P.uid i) := AList.mem_lookup_iff.symm

/-- The policy that is re-keyed. -/
theorem Consistent.of_lookup (h : b.Consistent P) {k i : ι}
    (hi : b.policies.lookup (P.name k) = some i) : i = k := by
  have hkey := h.policies _ _ hi
  have hnot : i ∉ b.rekeyed P := by
    intro hmem
    rw [h.uid i hmem] at hkey
    exact P.ne_name i k hkey.symm
  rw [h.name i hnot] at hkey
  exact (P.names_injective hkey).symm

variable (P) (b) in
/-- What `rekey_policy` does when it finds the policy. -/
structure Rekeys (i : ι) (b' : PolicyBroker ι) : Prop where
  before : b.policies.lookup (P.name i) = some i
  policies : b'.policies = (b.policies.erase (P.name i)).insert (P.uid i) i
  renames : b'.renames = b.renames.insert (P.name i) (P.uid i)
  self : b'.objects i = applyRenames (P.name i) b'.renames.entries
    { b.objects i with sandboxId := P.uid i }
  others : ∀ j ≠ i, b'.objects j = (b.objects j).applyRename (P.name i) (P.uid i) ∨
    b'.objects j = b.objects j ∧ ∀ key, b'.policies.lookup key ≠ some j

theorem rekeys_of_lookup [DecidableEq ι] {i : ι} (hi : b.policies.lookup (P.name i) = some i) :
    b.Rekeys P i (b.rekeyPolicy (P.name i) (P.uid i)) := by
  rw [rekeyPolicy, hi]
  refine ⟨hi, rfl, rfl, if_pos rfl, ?_⟩
  intro j hj
  dsimp only
  rw [if_neg hj]
  split_ifs with hmem
  · exact Or.inl rfl
  · exact Or.inr ⟨rfl, fun key hkey => hmem (Dict.mem_values.2 ⟨key, hkey⟩)⟩

theorem sandboxId_applyRenames (old : String) (renames : List (Σ _ : String, String))
    (policy : SandboxPolicy) :
    (applyRenames old renames policy).sandboxId = policy.sandboxId := by
  induction renames generalizing policy with
  | nil => rfl
  | cons r renames ih =>
    rw [applyRenames, List.foldl_cons]
    refine (ih _).trans ?_
    split_ifs <;> rfl

namespace Rekeys

variable {b' : PolicyBroker ι} {i : ι}

theorem rekeyed_eq (hr : b.Rekeys P i b') : b'.rekeyed P = insert i (b.rekeyed P) := by
  ext j
  rw [Set.mem_insert_iff, mem_rekeyed, mem_rekeyed, hr.renames, Dict.lookup_insert_eq_some]
  constructor
  · rintro (⟨hname, -⟩ | ⟨-, hj⟩)
    · exact Or.inl (P.names_injective hname)
    · exact Or.inr hj
  · intro hj
    by_cases hji : j = i
    · exact Or.inl ⟨congrArg P.name hji, congrArg P.uid hji.symm⟩
    · exact Or.inr ⟨fun heq => hji (P.names_injective heq), hj.resolve_left hji⟩

theorem exists_rename (hr : b.Rekeys P i b') (h : b.Consistent P) :
    ∀ r ∈ b'.renames.entries, ∃ j, r = P.rename j := by
  rintro ⟨old, new⟩ hmem
  rw [hr.renames] at hmem
  rcases Dict.lookup_insert_eq_some.1 (AList.mem_lookup_iff.2 hmem) with ⟨rfl, rfl⟩ | ⟨-, hold⟩
  · exact ⟨i, rfl⟩
  · exact h.renames _ (AList.mem_lookup_iff.1 hold)

theorem registered (hr : b.Rekeys P i b') (h : b.Consistent P) :
    ∀ j ∈ b'.rekeyed P, b'.policies.lookup (P.uid j) = some j := by
  intro j hj
  rw [hr.policies, Dict.lookup_insert_eq_some]
  by_cases hji : j = i
  · exact Or.inl ⟨congrArg P.uid hji, hji.symm⟩
  · rw [hr.rekeyed_eq] at hj
    exact Or.inr ⟨fun heq => hji (P.uid_injective heq),
      Dict.lookup_erase_eq_some.2 ⟨P.ne_name j i, h.registered j (hj.resolve_left hji)⟩⟩

/-- The renames so far are applied to the policy itself. -/
theorem patched_self (hr : b.Rekeys P i b') (h : b.Consistent P) : ∃ D, b'.Patched P i D := by
  obtain ⟨D, hD⟩ := h.patched i
  have hlists : P.RenamedPolicy D (P.policy i) { b.objects i with sandboxId := P.uid i } :=
    ⟨hD.lists.egress, hD.lists.ingress⟩
  refine ⟨D ∪ {j | j ≠ i ∧ P.rename j ∈ b'.renames.entries}, ?_, ?_, ?_, ?_⟩
  · rintro (hmem | ⟨hne, -⟩)
    · exact hD.notMem hmem
    · exact hne rfl
  · rintro j (hmem | ⟨-, hmem⟩)
    · rw [hr.rekeyed_eq]
      exact Set.mem_insert_of_mem i (hD.subset hmem)
    · exact hmem
  · intro _ j hj
    by_cases hji : j = i
    · exact Or.inl hji
    · exact Or.inr (Or.inr ⟨hji, hj⟩)
  · rw [hr.self]
    exact hlists.applyRenames (hr.exists_rename h)

/-- The rename of the moment is applied to the others, as far as they are registered. -/
theorem patched_other (hr : b.Rekeys P i b') (h : b.Consistent P) {j : ι} (hj : j ≠ i) :
    ∃ D, b'.Patched P j D := by
  obtain ⟨D, hD⟩ := h.patched j
  rcases hr.others j hj with hobject | ⟨hobject, hunknown⟩
  · refine ⟨insert i D, ?_, ?_, ?_, ?_⟩
    · rintro (hji | hmem)
      · exact hj hji
      · exact hD.notMem hmem
    · rw [hr.rekeyed_eq]
      exact Set.insert_subset_insert hD.subset
    · rw [hr.rekeyed_eq, Set.insert_comm]
      exact fun hmem => Set.insert_subset_insert (hD.all (hmem.resolve_left hj))
    · rw [hobject]
      exact hD.lists.applyRename i
  · refine ⟨D, hD.notMem, ?_, ?_, ?_⟩
    · rw [hr.rekeyed_eq]
      exact hD.subset.trans (Set.subset_insert i _)
    · exact fun hmem => absurd (hr.registered h j hmem) (hunknown _)
    · rw [hobject]
      exact hD.lists

theorem sandboxId_self (hr : b.Rekeys P i b') : (b'.objects i).sandboxId = P.uid i := by
  rw [hr.self, sandboxId_applyRenames]

theorem sandboxId_other (hr : b.Rekeys P i b') {j : ι} (hj : j ≠ i) :
    (b'.objects j).sandboxId = (b.objects j).sandboxId := by
  rcases hr.others j hj with hobject | ⟨hobject, -⟩ <;> rw [hobject]
  rfl

theorem consistent (hr : b.Rekeys P i b') (h : b.Consistent P) : b'.Consistent P := by
  refine ⟨?_, hr.exists_rename h, ?_, ?_, ?_, hr.registered h⟩
  · intro j
    by_cases hji : j = i
    · rw [hji]
      exact hr.patched_self h
    · exact hr.patched_other h hji
  · intro j hj
    by_cases hji : j = i
    · rw [hji, hr.sandboxId_self]
    · rw [hr.rekeyed_eq] at hj
      rw [hr.sandboxId_other hji, h.uid j (hj.resolve_left hji)]
  · intro j hj
    rw [hr.rekeyed_eq, Set.mem_insert_iff, not_or] at hj
    rw [hr.sandboxId_other hj.1, h.name j hj.2]
  · intro k j hk
    rw [hr.policies, Dict.lookup_insert_eq_some] at hk
    rcases hk with ⟨rfl, rfl⟩ | ⟨-, hk⟩
    · exact hr.sandboxId_self.symm
    · obtain ⟨hne, hold⟩ := Dict.lookup_erase_eq_some.1 hk
      have hkey := h.policies k j hold
      have hji : j ≠ i := by
        rintro rfl
        exact hne (hkey.trans (h.policies _ j hr.before).symm)
      rw [hr.sandboxId_other hji, hkey]

end Rekeys

theorem Consistent.rekeyPolicy [DecidableEq ι] (h : b.Consistent P) (k : ι) :
    (b.rekeyPolicy (P.name k) (P.uid k)).Consistent P := by
  cases hi : b.policies.lookup (P.name k) with
  | none =>
    rw [PolicyBroker.rekeyPolicy, hi]
    exact h
  | some i =>
    obtain rfl := h.of_lookup hi
    exact (rekeys_of_lookup hi).consistent h

end PolicyBroker

open PolicyBroker

theorem consistent_of_trace {ι : Type} [DecidableEq ι] {P : PolicyIds ι}
    {tr : List (PolicyBroker ι × PolicyEvent ι)} {b : PolicyBroker ι}
    (h : (policyMachine P).Trace tr b) : b.Consistent P := by
  refine h.invariant consistent_init ?_
  rintro b (i | i) b' hb hs
  · obtain rfl := Option.some.inj hs
    exact hb.addPolicy i
  · obtain rfl := Option.some.inj hs
    exact hb.rekeyPolicy i

/-- After every policy was re-keyed, the allow-lists are the original ones with all names replaced
exactly if no policy names itself. -/
theorem allow_lists_renamed_iff {ι : Type} [DecidableEq ι] (P : PolicyIds ι)
    {tr : List (PolicyBroker ι × PolicyEvent ι)} {b : PolicyBroker ι}
    (h : (policyMachine P).Trace tr b) (hall : ∀ i, b.policies.lookup (P.uid i) = some i) :
    (∀ i, P.RenamedPolicy Set.univ (P.policy i) (b.objects i)) ↔
      ∀ i, ¬ PolicyIds.NamesItself (P.policy i) := by
  have hb := consistent_of_trace h
  have hrekeyed : ∀ i, i ∈ b.rekeyed P := by
    intro i
    by_contra hnot
    have hkey := hb.policies _ _ (hall i)
    rw [hb.name i hnot] at hkey
    exact P.ne_name i i hkey
  refine forall_congr' fun i => ?_
  obtain ⟨D, hD⟩ := hb.patched i
  have hset : D = {i}ᶜ := by
    ext j
    rw [Set.mem_compl_iff, Set.mem_singleton_iff]
    constructor
    · rintro hj rfl
      exact hD.notMem hj
    · exact fun hj => (hD.all (hrekeyed i) (hrekeyed j)).resolve_left hj
  have hlists := hD.lists
  rw [hset] at hlists
  have hegress := hlists.egress.univ_iff
  have hingress := hlists.ingress.univ_iff
  constructor
  · rintro hren (⟨s, hs, hmem⟩ | ⟨s, hs, hmem⟩)
    · exact hegress.1 hren.egress s hs hmem
    · exact hingress.1 hren.ingress s hs hmem
  · intro hnot
    refine ⟨hegress.2 ?_, hingress.2 ?_⟩
    · exact fun s hs hmem => hnot (Or.inl ⟨s, hs, hmem⟩)
    · exact fun s hs hmem => hnot (Or.inr ⟨s, hs, hmem⟩)

/-- An orchestrator and a coding sandbox that may only talk to each other. -/
def pairPolicy : Bool → SandboxPolicy
  | false => ⟨"orchestrator", true, some {"coding"}, some {"coding"}, none, none⟩
  | true => ⟨"coding", true, some {"orchestrator"}, some {"orchestrator", "ui"}, none, none⟩

def pairIds : PolicyIds Bool where
  policy := pairPolicy
  uid i := if i then "coding-a1" else "orchestrator-b2"
  names_injective := by
    intro i j
    revert i j
    decide
  uid_injective := by
    intro i j
    revert i j
    decide
  ne_name := by decide
  notMem_egress := by decide
  notMem_ingress := by decide

theorem allow_lists_renamed_iff_pair : ∃ tr b, (policyMachine pairIds).Trace tr b ∧
    tr.map Prod.snd = [.add false, .rekey false, .add true, .rekey true] ∧
      ((∀ i, pairIds.RenamedPolicy Set.univ (pairIds.policy i) (b.objects i)) ↔
        ∀ i, ¬ PolicyIds.NamesItself (pairIds.policy i)) := by
  obtain ⟨tr, b, htr, hevents, hall⟩ :=
    Machine.Trace.of_check (M := policyMachine pairIds)
      [.add false, .rekey false, .add true, .rekey true]
      (p := fun _ b => decide (∀ i, b.policies.lookup (pairIds.uid i) = some i))
      (by decide +kernel)
  exact ⟨tr, b, htr, hevents, allow_lists_renamed_iff pairIds htr (of_decide_eq_true hall)⟩

/-- A sandbox that may send to itself alone. -/
def loopIds : PolicyIds Unit where
  policy _ := ⟨"coding", true, some {"coding"}, none, none, none⟩
  uid _ := "coding-a1"
  names_injective := Function.injective_of_subsingleton _
  uid_injective := Function.injective_of_subsingleton _
  ne_name _ _ := by decide
  notMem_egress _ _ := by simp
  notMem_ingress _ _ := by simp

/-- It keeps its display name in its own list. -/
theorem own_name_kept : ¬ ∀ tr b, (policyMachine loopIds).Trace tr b →
    (∀ i, b.policies.lookup (loopIds.uid i) = some i) →
      ∀ i, loopIds.RenamedPolicy Set.univ (loopIds.policy i) (b.objects i) := by
  intro hclaim
  obtain ⟨tr, b, htr, -, hrun⟩ :=
    Machine.Trace.of_check (M := policyMachine loopIds) [.add (), .rekey ()]
      (p := fun _ b => decide (b.policies.lookup (loopIds.uid ()) = some () ∧
        (b.objects ()).allowedEgressTargets = some {"coding"}))
      (by decide +kernel)
  obtain ⟨hall, hlist⟩ := of_decide_eq_true hrun
  have hegress := (hclaim tr b htr (fun _ => hall) ()).egress
  rw [hlist] at hegress
  have hmem := (hegress "coding").1 (by decide)
  rcases hmem with ⟨i, -, heq, -⟩ | ⟨-, hne⟩
  · exact absurd heq (by simp [loopIds])
  · exact hne () trivial rfl

end NemoClaw
