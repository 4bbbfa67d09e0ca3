import NemoClaw.Nmb.Confinement

/-! The test harness (`nmb/testing/harness.py`). A test declares its sandboxes under display names,
and the harness launches them one at a time: it makes up a unique id, re-keys the policy to it and
connects. Policies speak of display names and the broker routes by ids, and in between sandboxes
already talk to each other. -/

namespace NemoClaw

open Lib Dict

structure Harness (ι π : Type) where
  broker : PolicedBroker ι π
  displayToUnique : Dict String String := ∅
  /-- the policies that `start` has still to go through -/
  starting : List ι
  /-- the sandbox whose `bus.connect()` `start` awaits -/
  connecting : Option ι := none

inductive HarnessEvent (ι π : Type)
  /-- the next policy of `start` -/
  | launch
  | addSandbox (i : ι)
  /-- the handshake of a bus -/
  | connect (i : ι) (ws : Ws)
  | broker (e : BrokerEvent π)

namespace Harness

variable {ι π : Type} [DecidableEq ι]

def create (P : PolicyIds ι) (policies : List ι) : Harness ι π where
  broker := { policing := .create P.policy policies }
  starting := policies

variable (E : BrokerEnv π) (uid : ι → String) (h : Harness ι π)

def policy (i : ι) : SandboxPolicy := h.broker.policing.objects i

/-- `_resolve` -/
def resolve (name : String) : String := (h.displayToUnique.lookup name).getD name

/-- What `start` and `add_sandbox` do once they have a bus. -/
def rekey (i : ι) : Harness ι π :=
  let displayName := (h.policy i).sandboxId
  { h with
    broker := { h.broker with policing := h.broker.policing.rekeyPolicy displayName (uid i) }
    displayToUnique := h.displayToUnique.insert displayName (uid i) }

def addPolicy (i : ι) : Harness ι π :=
  { h with broker := { h.broker with policing := h.broker.policing.addPolicy i } }

/-- A bus for this policy was made. -/
def launched (i : ι) : Bool := decide ((h.policy i).sandboxId = uid i)

def step : HarnessEvent ι π → Option (Harness ι π)
  | .launch =>
    match h.connecting, h.starting with
    | none, i :: rest => some { h.rekey uid i with
        starting := rest
        connecting := if (h.policy i).canConnect then some i else none }
    | _, _ => none
  | .addSandbox i =>
    -- a policy is launched once
    if h.launched uid i ∨ i ∈ h.starting then none else some ((h.addPolicy i).rekey uid i)
  | .connect i ws =>
    if h.launched uid i ∧ (h.policy i).canConnect then
      (h.broker.step E (.handshake ws (uid i))).map fun broker => { h with
        broker := broker
        connecting := if h.connecting = some i then none else h.connecting }
    else none
  | .broker e => (h.broker.step E (.broker e)).map fun broker => { h with broker := broker }

end Harness

def harnessMachine {ι π : Type} [DecidableEq ι] (E : BrokerEnv π) (P : PolicyIds ι)
    (policies : List ι) : Machine (Harness ι π) (HarnessEvent ι π) where
  init := .create P policies
  step h := h.step E P.uid

/-! ### What a re-keying keeps of a policy -/

/-- The rules that name no sandbox. -/
structure SandboxPolicy.SameRules (policy policy' : SandboxPolicy) : Prop where
  canConnect : policy'.canConnect = policy.canConnect
  allowedChannels : policy'.allowedChannels = policy.allowedChannels
  allowedOps : policy'.allowedOps = policy.allowedOps

theorem SandboxPolicy.sameRules_refl (policy : SandboxPolicy) : policy.SameRules policy :=
  ⟨rfl, rfl, rfl⟩

namespace PolicyBroker

variable {ι : Type} {P : PolicyIds ι} {b b' : PolicyBroker ι}

theorem sameRules_applyRenames {policy policy' : SandboxPolicy} (old : String)
    (renames : List (Σ _ : String, String)) (h : policy.SameRules policy') :
    policy.SameRules (applyRenames old renames policy') := by
  induction renames generalizing policy' with
  | nil => exact h
  | cons r renames ih =>
    rw [applyRenames, List.foldl_cons]
    refine ih ?_
    split_ifs
    · exact h
    · exact ⟨h.canConnect, h.allowedChannels, h.allowedOps⟩

theorem Rekeys.sameRules {i : ι} (hr : b.Rekeys P i b') {j : ι} {policy : SandboxPolicy}
    (h : policy.SameRules (b.objects j)) : policy.SameRules (b'.objects j) := by
  by_cases hji : j = i
  · rw [hji] at h ⊢
    rw [hr.self]
    exact sameRules_applyRenames _ _ ⟨h.canConnect, h.allowedChannels, h.allowedOps⟩
  · rcases hr.others j hji with hobject | ⟨hobject, -⟩
    · rw [hobject]
      exact ⟨h.canConnect, h.allowedChannels, h.allowedOps⟩
    · rw [hobject]
      exact h

theorem Rekeys.lookup_name {i j : ι} (hr : b.Rekeys P i b') (hji : j ≠ i)
    (hj : b.policies.lookup (P.name j) = some j) : b'.policies.lookup (P.name j) = some j := by
  rw [hr.policies]
  refine Dict.lookup_insert_eq_some.2 (Or.inr ⟨(P.ne_name i j).symm, ?_⟩)
  exact Dict.lookup_erase_eq_some.2 ⟨fun heq => hji (P.names_injective heq), hj⟩

/-- An initial policy is found under its name. -/
theorem lookup_create [DecidableEq ι] (policies : List ι) :
    (create P.policy policies).Consistent P ∧ (create P.policy policies).objects = P.policy ∧
      (create P.policy policies).renames = ∅ ∧
      ∀ i ∈ policies, (create P.policy policies).policies.lookup (P.name i) = some i := by
  unfold create
  induction policies using List.reverseRecOn with
  | nil => exact ⟨consistent_init, rfl, rfl, by simp⟩
  | append_singleton policies k ih =>
    obtain ⟨hconsistent, hobjects, hrenames, hlookup⟩ := ih
    rw [List.foldl_append]
    refine ⟨hconsistent.addPolicy k, hobjects, hrenames, ?_⟩
    intro i hi
    have hkey : ((policies.foldl addPolicy { objects := P.policy }).objects k).sandboxId =
        P.name k := by
      rw [hobjects]
      rfl
    rw [List.foldl_cons, List.foldl_nil, PolicyBroker.addPolicy, hkey, Dict.lookup_insert_eq_some]
    by_cases hik : i = k
    · exact Or.inl ⟨congrArg P.name hik, hik.symm⟩
    · refine Or.inr ⟨fun heq => hik (P.names_injective heq), hlookup i ?_⟩
      rcases List.mem_append.1 hi with hi | hi
      · exact hi
      · exact absurd (List.mem_singleton.1 hi) hik

end PolicyBroker

/-! ### What the declarations say -/

namespace PolicyIds

variable {ι : Type} (P : PolicyIds ι)

/-- By the declarations `i` may send to `j`. Nobody is on its own lists: its own name is the one
that re-keying does not replace in them. -/
structure Allows (i j : ι) (op : Op) : Prop where
  op : ∀ ops ∈ (P.policy i).allowedOps, op ∈ ops
  egress : ∀ targets ∈ (P.policy i).allowedEgressTargets, j ≠ i ∧ P.name j ∈ targets
  ingress : ∀ sources ∈ (P.policy j).allowedIngressSources, i ≠ j ∧ P.name i ∈ sources

/-- By its declaration `i` may use the channel. -/
structure AllowsChannel (i : ι) (op : Op) (c : String) : Prop where
  op : ∀ ops ∈ (P.policy i).allowedOps, op ∈ ops
  channel : ∀ patterns ∈ (P.policy i).allowedChannels, channelMatches c patterns

end PolicyIds

namespace PolicedBroker

variable {ι π : Type} {P : PolicyIds ι} {p : PolicedBroker ι π} {i j : ι} {m : NMBMessage π}

/-- The policies follow their declarations, and only sandboxes with a bus are accepted. -/
structure Keyed (P : PolicyIds ι) (p : PolicedBroker ι π) : Prop where
  consistent : p.policing.Consistent P
  rules : ∀ i, (P.policy i).SameRules (p.policing.objects i)
  identities : ∀ ws s, p.identities.lookup ws = some s → ∃ i ∈ p.policing.rekeyed P, s = P.uid i

theorem Keyed.policyOf (hk : p.Keyed P) (hi : i ∈ p.policing.rekeyed P) :
    p.policyOf (P.uid i) = some (p.policing.objects i) := by
  rw [PolicedBroker.policyOf, hk.consistent.registered i hi]
  rfl

/-- The id of another sandbox is on a list of a re-keyed policy if its name was. -/
theorem uid_mem_iff {b : PolicyBroker ι} {D : Set ι} (hD : b.Patched P i D)
    (hi : i ∈ b.rekeyed P) (hj : j ∈ b.rekeyed P) {l l' : Option (Finset String)}
    (hl : P.RenamedList D l l') (hfresh : ∀ s ∈ l, P.uid j ∉ s) :
    (∀ s ∈ l', P.uid j ∈ s) ↔ ∀ s ∈ l, j ≠ i ∧ P.name j ∈ s := by
  cases l with
  | none =>
    cases l' with
    | none => simp
    | some t => exact absurd hl id
  | some s =>
    cases l' with
    | none => exact absurd hl id
    | some t =>
      have hmem : P.uid j ∈ t ↔ _ := hl (P.uid j)
      simp only [Option.mem_def, Option.some.injEq, forall_eq'] at hfresh ⊢
      rw [hmem]
      constructor
      · rintro (⟨k, hk, heq, hs⟩ | ⟨hs, -⟩)
        · obtain rfl := P.uid_injective heq
          exact ⟨fun hji => hD.notMem (hji ▸ hk), hs⟩
        · exact absurd hs hfresh
      · rintro ⟨hji, hs⟩
        exact Or.inl ⟨j, (hD.all hi hj).resolve_left hji, rfl, hs⟩

theorem Keyed.op_iff (hk : p.Keyed P) (hi : i ∈ p.policing.rekeyed P) :
    (∀ policy ∈ p.policyOf (P.uid i), ∀ ops ∈ policy.allowedOps, m.op ∈ ops) ↔
      ∀ ops ∈ (P.policy i).allowedOps, m.op ∈ ops := by
  rw [hk.policyOf hi, ← (hk.rules i).allowedOps]
  simp

/-- For two sandboxes that have a bus the broker enforces what was declared. -/
theorem Keyed.permits_iff (hk : p.Keyed P) (hi : i ∈ p.policing.rekeyed P)
    (hj : j ∈ p.policing.rekeyed P) (ht : m.targeted = some (P.uid j)) :
    Permits p.policyOf (P.uid i) m ↔ P.Allows i j m.op := by
  obtain ⟨D, hD⟩ := hk.consistent.patched i
  obtain ⟨D', hD'⟩ := hk.consistent.patched j
  have hegress := uid_mem_iff hD hi hj hD.lists.egress (P.notMem_egress j i)
  have hingress := uid_mem_iff hD' hj hi hD'.lists.ingress (P.notMem_ingress i j)
  have hchannel : m.channelled = none := by
    unfold NMBMessage.targeted at ht
    unfold NMBMessage.channelled
    split_ifs at ht with hop
    rw [if_neg]
    rcases hop with hop | hop | hop <;> simp [hop]
  constructor
  · intro hp
    refine ⟨(hk.op_iff hi).1 hp.op, hegress.1 ?_, hingress.1 ?_⟩
    · exact hp.egress _ ht _ (hk.policyOf hi)
    · exact hp.ingress _ ht _ (hk.policyOf hj)
  · intro ha
    refine ⟨(hk.op_iff hi).2 ha.op, ?_, ?_, by simp [hchannel]⟩
    · intro t htt policy hpolicy
      obtain rfl := Option.some.inj (htt.symm.trans ht)
      obtain rfl := Option.some.inj (hpolicy.symm.trans (hk.policyOf hi))
      exact hegress.2 ha.egress
    · intro t htt policy hpolicy
      obtain rfl := Option.some.inj (htt.symm.trans ht)
      obtain rfl := Option.some.inj (hpolicy.symm.trans (hk.policyOf hj))
      exact hingress.2 ha.ingress

theorem Keyed.allowsChannel (hk : p.Keyed P) (hi : i ∈ p.policing.rekeyed P) {c : String}
    (hc : m.channelled = some c) (hp : Permits p.policyOf (P.uid i) m) :
    P.AllowsChannel i m.op c := by
  refine ⟨(hk.op_iff hi).1 hp.op, ?_⟩
  have hchannel := hp.channel c hc _ (hk.policyOf hi)
  rw [(hk.rules i).allowedChannels] at hchannel
  exact hchannel

end PolicedBroker

/-! ### What holds throughout -/

namespace Harness

variable {ι π : Type} {P : PolicyIds ι} {h h' : Harness ι π}

/-- The sandboxes that have a bus. -/
def live (P : PolicyIds ι) (h : Harness ι π) : Set ι := h.broker.policing.rekeyed P

structure Sound (P : PolicyIds ι) (h : Harness ι π) : Prop where
  keyed : h.broker.Keyed P
  names : h.displayToUnique = h.broker.policing.renames
  starting : ∀ i ∈ h.starting, h.broker.policing.policies.lookup (P.name i) = some i ∧ i ∉ h.live P
  nodup : h.starting.Nodup

theorem Sound.launched_iff [DecidableEq ι] (hs : h.Sound P) {i : ι} :
    h.launched P.uid i = true ↔ i ∈ h.live P := by
  rw [launched, decide_eq_true_iff]
  constructor
  · intro heq
    by_contra hnot
    have hname := hs.keyed.consistent.name i hnot
    exact P.ne_name i i (heq.symm.trans hname)
  · exact hs.keyed.consistent.uid i

theorem Sound.resolve_live (hs : h.Sound P) {i : ι} (hi : i ∈ h.live P) :
    h.resolve (P.name i) = P.uid i := by
  rw [resolve, hs.names, PolicyBroker.mem_rekeyed.1 hi]
  rfl

/-- A sandbox whose policy is registered under its name gets a bus. -/
theorem Sound.rekey [DecidableEq ι] (hs : h.Sound P) {i : ι} (hi : i ∉ h.live P)
    (hstart : i ∉ h.starting)
    (hlookup : h.broker.policing.policies.lookup (P.name i) = some i) :
    (h.rekey P.uid i).Sound P ∧ (h.rekey P.uid i).live P = insert i (h.live P) := by
  have hname : (h.policy i).sandboxId = P.name i := hs.keyed.consistent.name i hi
  have hr := PolicyBroker.rekeys_of_lookup hlookup
  have hbroker : (h.rekey P.uid i).broker =
      { h.broker with policing := h.broker.policing.rekeyPolicy (P.name i) (P.uid i) } := by
    rw [Harness.rekey, hname]
  have hlive : (h.rekey P.uid i).live P = insert i (h.live P) := by
    rw [live, hbroker]
    exact hr.rekeyed_eq
  refine ⟨⟨⟨?_, ?_, ?_⟩, ?_, ?_, hs.nodup⟩, hlive⟩
  · rw [hbroker]
    exact hr.consistent hs.keyed.consistent
  · intro j
    rw [hbroker]
    exact hr.sameRules (hs.keyed.rules j)
  · intro ws s hws
    rw [hbroker] at hws
    obtain ⟨j, hj, rfl⟩ := hs.keyed.identities ws s hws
    have hmem : j ∈ (h.rekey P.uid i).live P := hlive ▸ Set.mem_insert_of_mem i hj
    exact ⟨j, hmem, rfl⟩
  · rw [hbroker, hr.renames, ← hs.names, Harness.rekey, hname]
  · intro j hj
    have hji : j ≠ i := fun heq => hstart (heq ▸ hj)
    obtain ⟨hjlookup, hjnot⟩ := hs.starting j hj
    rw [hbroker, hlive]
    refine ⟨hr.lookup_name hji hjlookup, ?_⟩
    rw [Set.mem_insert_iff]
    exact fun hmem => hmem.elim hji hjnot

theorem Sound.addPolicy (hs : h.Sound P) {i : ι} (hi : i ∉ h.live P) (hstart : i ∉ h.starting) :
    (h.addPolicy i).Sound P ∧
      (h.addPolicy i).broker.policing.policies.lookup (P.name i) = some i := by
  have hname : (h.broker.policing.objects i).sandboxId = P.name i := hs.keyed.consistent.name i hi
  have hpolicies : (h.addPolicy i).broker.policing.policies =
      h.broker.policing.policies.insert (P.name i) i := by
    rw [← hname]
    rfl
  refine ⟨⟨⟨hs.keyed.consistent.addPolicy i, hs.keyed.rules, hs.keyed.identities⟩, hs.names, ?_,
    hs.nodup⟩, ?_⟩
  · intro j hj
    obtain ⟨hjlookup, hjnot⟩ := hs.starting j hj
    refine ⟨?_, hjnot⟩
    rw [hpolicies]
    refine Dict.lookup_insert_eq_some.2 (Or.inr ⟨?_, hjlookup⟩)
    exact fun heq => hstart (P.names_injective heq ▸ hj)
  · rw [hpolicies]
    exact AList.lookup_insert _

/-- Between two steps of the broker, the broker `q` of an earlier moment of the harness. -/
structure Since (P : PolicyIds ι) (q : PolicedBroker ι π) (h : Harness ι π) : Prop where
  keyed : q.Keyed P
  live : q.policing.rekeyed P ⊆ h.live P
  identities : ∀ ws s, q.identities.lookup ws = some s → h.broker.identities.lookup ws = some s

/-- The harness, with the steps that its broker took. -/
structure Recorded (P : PolicyIds ι) (tr : PolicedBroker.History ι π) (h : Harness ι π) :
    Prop where
  sound : h.Sound P
  confined : PolicedBroker.Confined tr h.broker
  since : ∀ x ∈ tr, Since P x.1 h
  past : ∀ x ∈ tr, ∃ pre, pre <+: tr ∧ PolicedBroker.Confined pre x.1

variable {tr : PolicedBroker.History ι π} {E : BrokerEnv π}

/-- The first policy of those that `start` has still to go through. -/
theorem Recorded.launch (hr : h.Recorded P tr) {i : ι} {rest : List ι}
    (hstarting : h.starting = i :: rest) (connecting : Option ι) :
    { h with starting := rest, connecting := connecting }.Recorded P tr ∧ i ∉ rest ∧
      h.broker.policing.policies.lookup (P.name i) = some i ∧ i ∉ h.live P := by
  have hnodup := hr.sound.nodup
  rw [hstarting, List.nodup_cons] at hnodup
  have hrest : ∀ j ∈ rest, j ∈ h.starting := fun j hj => hstarting ▸ List.mem_cons_of_mem i hj
  refine ⟨⟨⟨hr.sound.keyed, hr.sound.names, ?_, hnodup.2⟩, hr.confined, ?_, hr.past⟩, hnodup.1, ?_⟩
  · exact fun j hj => hr.sound.starting j (hrest j hj)
  · intro x hx
    have hsince := hr.since x hx
    exact ⟨hsince.keyed, hsince.live, hsince.identities⟩
  · exact hr.sound.starting i (hstarting ▸ List.mem_cons_self)

variable [DecidableEq ι]

/-- One more step of the broker. -/
theorem Recorded.snoc (hr : h.Recorded P tr) {e : PolicedEvent ι π}
    (hs : h.broker.step E e = some h'.broker) (hsound : h'.Sound P) (hlive : h.live P ⊆ h'.live P)
    (hidentities : ∀ ws s, h.broker.identities.lookup ws = some s →
      h'.broker.identities.lookup ws = some s) :
    h'.Recorded P (tr ++ [(h.broker, e)]) := by
  have hprefix := List.prefix_append tr [(h.broker, e)]
  refine ⟨hsound, hr.confined.step hs, ?_, ?_⟩
  · intro x hx
    rcases List.mem_append.1 hx with hx | hx
    · have hsince := hr.since x hx
      exact ⟨hsince.keyed, hsince.live.trans hlive,
        fun ws s hws => hidentities ws s (hsince.identities ws s hws)⟩
    · obtain rfl := List.mem_singleton.1 hx
      exact ⟨hr.sound.keyed, hlive, hidentities⟩
  · intro x hx
    rcases List.mem_append.1 hx with hx | hx
    · obtain ⟨pre, hpre, hconfined⟩ := hr.past x hx
      exact ⟨pre, hpre.trans hprefix, hconfined⟩
    · obtain rfl := List.mem_singleton.1 hx
      exact ⟨tr, hprefix, hr.confined⟩

theorem Recorded.rekey (E : BrokerEnv π) (hr : h.Recorded P tr) {i : ι} (hi : i ∉ h.live P)
    (hstart : i ∉ h.starting)
    (hlookup : h.broker.policing.policies.lookup (P.name i) = some i) :
    ∃ tr', (h.rekey P.uid i).Recorded P tr' := by
  obtain ⟨hsound, hlive⟩ := hr.sound.rekey hi hstart hlookup
  have hstep : h.broker.step E (.rekeyPolicy (h.policy i).sandboxId (P.uid i)) =
      some (h.rekey P.uid i).broker := rfl
  refine ⟨_, hr.snoc hstep hsound ?_ fun _ _ => id⟩
  rw [hlive]
  exact Set.subset_insert i _

theorem Recorded.step (hr : h.Recorded P tr) {e : HarnessEvent ι π}
    (he : h.step E P.uid e = some h') : ∃ tr', h'.Recorded P tr' := by
  cases e with
  | launch =>
    simp only [Harness.step] at he
    split at he
    · next i rest hconnecting hstarting =>
      obtain rfl := Option.some.inj he
      obtain ⟨hrec, hrest, hlookup, hi⟩ := hr.launch hstarting
        (if (h.policy i).canConnect then some i else none)
      exact hrec.rekey E hi hrest hlookup
    · contradiction
  | addSandbox i =>
    simp only [Harness.step, Option.ite_none_left_eq_some, not_or] at he
    obtain ⟨⟨hlaunched, hstart⟩, he⟩ := he
    obtain rfl := Option.some.inj he
    have hi : i ∉ h.live P := fun hmem => hlaunched (hr.sound.launched_iff.2 hmem)
    obtain ⟨hsound, hlookup⟩ := hr.sound.addPolicy hi hstart
    have hadded : (h.addPolicy i).Recorded P _ :=
      hr.snoc (E := E) (e := .addPolicy i) rfl hsound subset_rfl fun _ _ => id
    exact hadded.rekey E hi hstart hlookup
  | connect i ws =>
    simp only [Harness.step, Option.ite_none_right_eq_some] at he
    obtain ⟨⟨hlaunched, -⟩, he⟩ := he
    obtain ⟨broker, hbroker, rfl⟩ := Option.map_eq_some_iff.1 he
    have hi := hr.sound.launched_iff.1 hlaunched
    cases PolicedBroker.policed_step hbroker with
    | accepted _ _ hp hnew =>
      refine ⟨_, hr.snoc hbroker ⟨⟨hr.sound.keyed.consistent, hr.sound.keyed.rules, ?_⟩,
        hr.sound.names, hr.sound.starting, hr.sound.nodup⟩ subset_rfl ?_⟩
      · intro ws' s hws
        rcases Dict.lookup_insert_eq_some.1 hws with ⟨-, rfl⟩ | ⟨-, hold⟩
        · exact ⟨i, hi, rfl⟩
        · exact hr.sound.keyed.identities ws' s hold
      · intro ws' s hold
        refine Dict.lookup_insert_eq_some.2 (Or.inr ⟨?_, hold⟩)
        rintro rfl
        cases hnew.symm.trans hold
  | broker e =>
    obtain ⟨broker, hbroker, rfl⟩ := Option.map_eq_some_iff.1 he
    have hsound := hr.sound
    cases PolicedBroker.policed_step hbroker with
    | routed | refused =>
      exact ⟨_, hr.snoc hbroker ⟨⟨hsound.keyed.consistent, hsound.keyed.rules,
        hsound.keyed.identities⟩, hsound.names, hsound.starting, hsound.nodup⟩ subset_rfl
          fun _ _ => id⟩

theorem recorded_init {policies : List ι} (hnodup : policies.Nodup) :
    (create (π := π) P policies).Recorded P [] := by
  obtain ⟨hconsistent, hobjects, hrenames, hlookup⟩ := PolicyBroker.lookup_create (P := P) policies
  have hlive : (create (π := π) P policies).live P = ∅ := by
    ext i
    simp [live, create, PolicyBroker.rekeyed, hrenames]
  refine ⟨⟨⟨hconsistent, ?_, ?_⟩, hrenames.symm, ?_, hnodup⟩, PolicedBroker.confined_init _, ?_,
    ?_⟩
  · intro i
    have hobject : (create (π := π) P policies).broker.policing.objects i = P.policy i :=
      congrFun hobjects i
    rw [hobject]
    exact (P.policy i).sameRules_refl
  · intro ws s hws
    contradiction
  · intro i hi
    exact ⟨hlookup i hi, by simp [hlive]⟩
  · intro x hx
    contradiction
  · intro x hx
    contradiction

theorem recorded_of_trace {policies : List ι} (hnodup : policies.Nodup)
    {run : List (Harness ι π × HarnessEvent ι π)} (h₀ : (harnessMachine E P policies).Trace run h) :
    ∃ tr, h.Recorded P tr := by
  refine h₀.invariant (I := fun h => ∃ tr, h.Recorded P tr) ⟨[], recorded_init hnodup⟩ ?_
  rintro h e h' ⟨tr, hr⟩ he
  exact hr.step he

/-! ### What is delivered -/

/-- The declarations are for this delivery from `i` to `j`. -/
inductive Justified (P : PolicyIds ι) (i j : ι) (m : NMBMessage π) : Prop
  | targeted (ht : m.targeted = some (P.uid j)) (ha : P.Allows i j m.op)
  | published {c} (hop : m.op = .publish) (hc : truthy m.channel = some c) (hne : i ≠ j)
      (hi : P.AllowsChannel i .publish c) (hj : P.AllowsChannel j .subscribe c)
  | replied {k} (hop : m.op = .reply) (hi : ∀ ops ∈ (P.policy i).allowedOps, Op.reply ∈ ops)
      (hj : P.Allows j k .request)

section

omit [DecidableEq ι]

variable {q : PolicedBroker ι π} {s : String} {m : NMBMessage π} {now : ℚ}

/-- Who writes a message has a bus. -/
theorem Recorded.writer (hr : h.Recorded P tr) (hw : PolicedBroker.Wrote tr q s m now) :
    Since P q h ∧ (∃ i ∈ q.policing.rekeyed P, s = P.uid i) ∧
      Permits q.policyOf s (Broker.stamp m s now) ∧
        ∃ pre, pre <+: tr ∧ PolicedBroker.Confined pre q := by
  obtain ⟨ws, hmem, hh, hp⟩ := hw
  have hsince := hr.since _ hmem
  obtain ⟨pre, hpre, hconfined⟩ := hr.past _ hmem
  exact ⟨hsince, hsince.keyed.identities ws s (hconfined.served ws s .recv hh), hp, pre, hpre,
    hconfined⟩

/-- So has who is connected. -/
theorem Since.connected (hs : Since P q h) {pre : PolicedBroker.History ι π}
    (hconfined : PolicedBroker.Confined pre q) {t : String} {w : Ws}
    (hc : q.routing.connections.lookup t = some w) :
    h.broker.identities.lookup w = some t ∧ ∃ j ∈ q.policing.rekeyed P, t = P.uid j := by
  have hidentity := hconfined.connected t w hc
  exact ⟨hs.identities w t hidentity, hs.keyed.identities w t hidentity⟩

theorem channelled_stamp {c : String} (hop : m.op = .subscribe ∨ m.op = .publish)
    (hc : truthy m.channel = some c) (s : String) :
    (Broker.stamp m s now).channelled = some c :=
  (if_pos hop).trans hc

/-- What reaches a connection by the rules of the broker does so by the declarations. -/
theorem Recorded.justified (hr : h.Recorded P tr) (hw : PolicedBroker.Wrote tr q s m now) {w : Ws}
    (hreach : PolicedBroker.Reaches q.routing s m w) :
    ∃ i j, s = P.uid i ∧ h.broker.identities.lookup w = some (P.uid j) ∧ Justified P i j m := by
  obtain ⟨hsince, ⟨i, hi, rfl⟩, hp, pre, hpre, hconfined⟩ := hr.writer hw
  cases hreach with
  | @target t ht hc =>
    obtain ⟨hidentity, j, hj, rfl⟩ := hsince.connected hconfined hc
    have htarget : (Broker.stamp m (P.uid i) now).targeted = some (P.uid j) := ht
    exact ⟨i, j, rfl, hidentity, .targeted ht ((hsince.keyed.permits_iff hi hj htarget).1 hp)⟩
  | @subscriber c t hop hc ht hne hw' =>
    obtain ⟨hidentity, j, hj, rfl⟩ := hsince.connected hconfined hw'
    obtain ⟨q', m', now', hw'', hop', hc'⟩ := hconfined.subscribed c _ ht
    obtain ⟨hsince', ⟨j', hj', heq⟩, hp', -⟩ := hr.writer (hw''.mono hpre.subset)
    obtain rfl := P.uid_injective heq
    have hpublish := hsince.keyed.allowsChannel hi (channelled_stamp (Or.inr hop) hc _) hp
    have hsubscribe := hsince'.keyed.allowsChannel hj' (channelled_stamp (Or.inl hop') hc' _) hp'
    rw [show (Broker.stamp m (P.uid i) now).op = .publish from hop] at hpublish
    rw [show (Broker.stamp m' (P.uid j) now').op = .subscribe from hop'] at hsubscribe
    exact ⟨i, j, rfl, hidentity, .published hop hc (fun hij => hne (hij ▸ rfl)) hpublish hsubscribe⟩
  | @requester rid tracked hop hrid hpending hw' =>
    obtain ⟨hidentity, j, hj, hname⟩ := hsince.connected hconfined hw'
    obtain ⟨q', m', now', t, w', hw'', hop', -, ht, hc⟩ := hconfined.waiting rid tracked hpending
    obtain ⟨hsince', ⟨j', hj', heq⟩, hp', pre', -, hconfined'⟩ :=
      hr.writer (hw''.mono hpre.subset)
    obtain ⟨-, k, hk, rfl⟩ := hsince'.connected hconfined' hc
    obtain rfl := P.uid_injective (hname.symm.trans heq)
    rw [hname] at hp' hidentity
    have htarget : (Broker.stamp m' (P.uid j) now').targeted = some (P.uid k) := ht
    have hrequest := (hsince'.keyed.permits_iff hj' hk htarget).1 hp'
    have hreply := (hsince.keyed.op_iff hi).1 hp.op
    rw [show (Broker.stamp m (P.uid i) now).op = .reply from hop] at hreply
    rw [show (Broker.stamp m' (P.uid j) now').op = .request from hop'] at hrequest
    exact ⟨i, j, rfl, hidentity, .replied hop hreply hrequest⟩

end

/-- Between sandboxes that have a bus, addressed by their display names, exactly what they declared
is permitted, and whatever is ever delivered is from one sandbox to another that the declarations
are for. -/
theorem enforces_declarations {policies : List ι} (hnodup : policies.Nodup)
    {run : List (Harness ι π × HarnessEvent ι π)}
    (h₀ : (harnessMachine E P policies).Trace run h) :
    (∀ i j, h.launched P.uid i → h.launched P.uid j → ∀ m : NMBMessage π,
      m.targeted = some (h.resolve (P.name j)) →
        (Permits h.broker.policyOf (P.uid i) m ↔ P.Allows i j m.op)) ∧
    ∀ f ∈ h.broker.routing.sent, f.frame.op = .deliver → PolicedBroker.Announces f.frame ∨
      ∃ i j m now, h.broker.identities.lookup f.ws = some (P.uid j) ∧
        f.frame = (Broker.stamp m (P.uid i) now).makeDeliver ∧ Justified P i j m := by
  obtain ⟨tr, hr⟩ := recorded_of_trace hnodup h₀
  constructor
  · intro i j hi hj m ht
    have hi := hr.sound.launched_iff.1 hi
    have hj := hr.sound.launched_iff.1 hj
    rw [hr.sound.resolve_live hj] at ht
    exact hr.sound.keyed.permits_iff hi hj ht
  · intro f hf hop
    refine (hr.confined.delivered f hf hop).imp_right ?_
    rintro ⟨q, s, m, now, hw, hframe, hreach⟩
    obtain ⟨i, j, rfl, hidentity, hjustified⟩ := hr.justified hw hreach
    exact ⟨i, j, m, now, hidentity, hframe, hjustified⟩

/-- The orchestrator is connected before the coding sandbox has an id, and then sends to it. -/
def pairStarted : List (HarnessEvent Bool String) :=
  [.launch, .connect false 1, .broker (.connect 1 "orchestrator-b2"), .launch, .connect true 2,
    .broker (.connect 2 "coding-a1"), .broker (.frame 1 (.ok (PolicedBroker.taskFor "m-1"
      "coding-a1")) 1)]

theorem enforces_declarations_pair :
    ∃ run h, (harnessMachine jsonText pairIds [false, true]).Trace run h ∧
      run.map Prod.snd = pairStarted ∧ h.resolve "coding" = "coding-a1" ∧
        (Permits h.broker.policyOf "orchestrator-b2"
          (PolicedBroker.taskFor "m-1" (h.resolve "coding")) ↔
            pairIds.Allows false true .send) ∧
        ∀ f ∈ h.broker.routing.sent, f.frame.op = .deliver → PolicedBroker.Announces f.frame ∨
          ∃ i j m now, h.broker.identities.lookup f.ws = some (pairIds.uid j) ∧
            f.frame = (Broker.stamp m (pairIds.uid i) now).makeDeliver ∧
              Justified pairIds i j m := by
  obtain ⟨run, h, h₀, hevents, hcheck⟩ :=
    Machine.Trace.of_check (M := harnessMachine jsonText pairIds [false, true]) pairStarted
      (p := fun _ h => decide (h.resolve "coding" = "coding-a1" ∧
        h.launched pairIds.uid false = true ∧ h.launched pairIds.uid true = true))
      (by decide +kernel)
  obtain ⟨hresolve, hfalse, htrue⟩ := of_decide_eq_true hcheck
  obtain ⟨hpermits, hdelivered⟩ := enforces_declarations (P := pairIds) (by decide) h₀
  have htarget : (PolicedBroker.taskFor "m-1" (h.resolve "coding")).targeted =
      some (h.resolve "coding") := by
    rw [hresolve]
    decide
  exact ⟨run, h, h₀, hevents, hresolve, hpermits false true hfalse htrue _ htarget, hdelivered⟩

end Harness

end NemoClaw
