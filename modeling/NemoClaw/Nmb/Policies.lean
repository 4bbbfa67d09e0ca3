import NemoClaw.Lib.Simulation
import NemoClaw.Nmb.PolicyRenaming
import NemoClaw.Nmb.Channels
import NemoClaw.Nmb.Traffic

/-! The broker that enforces policies (`nmb/testing/policy.py`). A `PolicyBroker` is a broker whose
`_dispatch` asks the policies of the sender and of the target before it routes a message, and whose
handshake asks the policy of the newcomer. What it denies it answers, and for the rest it is the
broker. -/

namespace NemoClaw

open Lib

/-- `_channel_matches` -/
def channelMatches (channel : String) (patterns : Finset String) : Prop :=
  ∃ pattern ∈ patterns, (pattern = "*" ∨ pattern = channel) ∨
    ".*".toList <:+ pattern.toList ∧ pattern.toList.dropLast <+: channel.toList

instance (channel : String) (patterns : Finset String) :
    Decidable (channelMatches channel patterns) :=
  inferInstanceAs (Decidable (∃ pattern ∈ patterns, _))

namespace NMBMessage

variable {π : Type}

/-- The target of a message that is for one sandbox. -/
def targeted (msg : NMBMessage π) : Option String :=
  if msg.op = .send ∨ msg.op = .request ∨ msg.op = .stream then truthy msg.toSandbox else none

/-- The channel of a message whose channel the policies are asked about. -/
def channelled (msg : NMBMessage π) : Option String :=
  if msg.op = .subscribe ∨ msg.op = .publish then truthy msg.channel else none

end NMBMessage

section

variable {π : Type} (policies : String → Option SandboxPolicy) (senderId : String)
  (msg : NMBMessage π)

def opDenial : Option String :=
  match (policies senderId).bind SandboxPolicy.allowedOps with
  | none => none
  | some ops =>
    if msg.op ∈ ops then none
    else some ("Op '" ++ msg.op.value ++ "' not allowed for sandbox '" ++ senderId ++ "'")

def egressDenial (targetId : String) : Option String :=
  match (policies senderId).bind SandboxPolicy.allowedEgressTargets with
  | none => none
  | some targets =>
    if targetId ∈ targets then none
    else some ("Egress to '" ++ targetId ++ "' denied for sandbox '" ++ senderId ++ "'")

def ingressDenial (targetId : String) : Option String :=
  match (policies targetId).bind SandboxPolicy.allowedIngressSources with
  | none => none
  | some sources =>
    if senderId ∈ sources then none
    else some ("Ingress from '" ++ senderId ++ "' denied for sandbox '" ++ targetId ++ "'")

def channelDenial (channel : String) : Option String :=
  match (policies senderId).bind SandboxPolicy.allowedChannels with
  | none => none
  | some patterns =>
    if channelMatches channel patterns then none
    else some ("Channel '" ++ channel ++ "' not allowed for sandbox '" ++ senderId ++ "'")

/-- `_enforce_policy`: the text of the first denial. -/
def enforcePolicy : Option String :=
  opDenial policies senderId msg <|>
    (msg.targeted.bind fun targetId =>
      egressDenial policies senderId targetId <|> ingressDenial policies senderId targetId) <|>
    msg.channelled.bind fun channel => channelDenial policies senderId channel

end

/-- The initial policies: a later one of the same name replaces an earlier one. -/
def PolicyBroker.create {ι : Type} (objects : ι → SandboxPolicy) (policies : List ι) :
    PolicyBroker ι :=
  policies.foldl PolicyBroker.addPolicy { objects := objects }

/-- A `PolicyBroker`: the broker it is, its policies, and the identity that `_process_request` left
on a connection that it accepted. -/
structure PolicedBroker (ι π : Type) where
  policing : PolicyBroker ι
  identities : Dict Ws String := ∅
  routing : Broker π := {}

inductive PolicedEvent (ι π : Type)
  | addPolicy (i : ι)
  | rekeyPolicy (oldSandboxId newSandboxId : String)
  | handshake (ws : Ws) (sandboxId : String)
  | broker (e : BrokerEvent π)

namespace PolicedBroker

variable {ι π : Type} (E : BrokerEnv π) (p : PolicedBroker ι π)

def policyOf (sandboxId : String) : Option SandboxPolicy :=
  (p.policing.policies.lookup sandboxId).map p.policing.objects

/-- `_process_request` refuses the sandbox. -/
def refuses (sandboxId : String) : Bool :=
  (p.policyOf sandboxId).any fun policy => !policy.canConnect

def dispatch (senderId : String) (ws : Ws) (raw : Except String (NMBMessage π)) (now : ℚ) :
    Broker π :=
  match raw with
  | .error why => p.routing.sendError senderId ws "" .invalidFrame why none
  | .ok m =>
    let msg := Broker.stamp m senderId now
    match msg.validateFrame E.payloadBytes with
    | .error exc => p.routing.sendError senderId ws msg.id exc.code exc.message none
    | .ok () =>
      match enforcePolicy p.policyOf senderId msg with
      | some why => p.routing.sendError senderId ws msg.id .policyDenied why none
      | none =>
        match msg.op with
        | .send => p.routing.handleSend senderId ws msg
        | .request => p.routing.handleRequest E senderId ws msg
        | .reply => p.routing.handleReply senderId ws msg
        | .subscribe => p.routing.handleSubscribe E senderId ws msg
        | .unsubscribe => p.routing.handleUnsubscribe senderId ws msg
        | .publish => p.routing.handlePublish senderId ws msg
        | .stream => p.routing.handleStream senderId ws msg
        | op => p.routing.sendError senderId ws msg.id .invalidFrame
            ("Client cannot send op=" ++ op.value) none

variable [DecidableEq ι]

def step : PolicedEvent ι π → Option (PolicedBroker ι π)
  | .addPolicy i => some { p with policing := p.policing.addPolicy i }
  | .rekeyPolicy old new => some { p with policing := p.policing.rekeyPolicy old new }
  | .handshake ws sandboxId =>
    if sandboxId = "" ∨ p.refuses sandboxId ∨ (p.identities.lookup ws).isSome then none
    else some { p with identities := p.identities.insert ws sandboxId }
  | .broker (.connect ws sandboxId) =>
    if p.identities.lookup ws = some sandboxId then
      (p.routing.step E (.connect ws sandboxId)).map fun b => { p with routing := b }
    else none
  | .broker (.frame ws raw now) =>
    match p.routing.handlers.lookup ws with
    | some ⟨senderId, .recv⟩ => some { p with routing := p.dispatch E senderId ws raw now }
    | _ => none
  | .broker e => (p.routing.step E e).map fun b => { p with routing := b }

end PolicedBroker

def policedMachine {ι π : Type} [DecidableEq ι] (E : BrokerEnv π) (objects : ι → SandboxPolicy)
    (policies : List ι) : Machine (PolicedBroker ι π) (PolicedEvent ι π) where
  init := { policing := .create objects policies }
  step p := p.step E

/-! ### What the policies say -/

/-- No policy is against the message of the sandbox. -/
structure Permits {π : Type} (policies : String → Option SandboxPolicy) (senderId : String)
    (msg : NMBMessage π) : Prop where
  op : ∀ policy ∈ policies senderId, ∀ ops ∈ policy.allowedOps, msg.op ∈ ops
  egress : ∀ t ∈ msg.targeted, ∀ policy ∈ policies senderId,
    ∀ targets ∈ policy.allowedEgressTargets, t ∈ targets
  ingress : ∀ t ∈ msg.targeted, ∀ policy ∈ policies t,
    ∀ sources ∈ policy.allowedIngressSources, senderId ∈ sources
  channel : ∀ c ∈ msg.channelled, ∀ policy ∈ policies senderId,
    ∀ patterns ∈ policy.allowedChannels, channelMatches c patterns

section

variable {π : Type} {policies : String → Option SandboxPolicy} {senderId : String}
  {msg : NMBMessage π}

theorem opDenial_eq_none : opDenial policies senderId msg = none ↔
    ∀ policy ∈ policies senderId, ∀ ops ∈ policy.allowedOps, msg.op ∈ ops := by
  unfold opDenial
  cases policies senderId with
  | none => simp
  | some policy => cases hops : policy.allowedOps <;> simp [hops]

theorem egressDenial_eq_none {t : String} : egressDenial policies senderId t = none ↔
    ∀ policy ∈ policies senderId, ∀ targets ∈ policy.allowedEgressTargets, t ∈ targets := by
  unfold egressDenial
  cases policies senderId with
  | none => simp
  | some policy => cases htargets : policy.allowedEgressTargets <;> simp [htargets]

theorem ingressDenial_eq_none {t : String} : ingressDenial policies senderId t = none ↔
    ∀ policy ∈ policies t, ∀ sources ∈ policy.allowedIngressSources, senderId ∈ sources := by
  unfold ingressDenial
  cases policies t with
  | none => simp
  | some policy => cases hsources : policy.allowedIngressSources <;> simp [hsources]

theorem channelDenial_eq_none {c : String} : channelDenial policies senderId c = none ↔
    ∀ policy ∈ policies senderId, ∀ patterns ∈ policy.allowedChannels,
      channelMatches c patterns := by
  unfold channelDenial
  cases policies senderId with
  | none => simp
  | some policy => cases hpatterns : policy.allowedChannels <;> simp [hpatterns]

/-- A message passes exactly if no policy is against it. -/
theorem enforcePolicy_eq_none :
    enforcePolicy policies senderId msg = none ↔ Permits policies senderId msg := by
  have hpeer : (msg.targeted.bind fun t =>
      egressDenial policies senderId t <|> ingressDenial policies senderId t) = none ↔
      ∀ t ∈ msg.targeted, egressDenial policies senderId t = none ∧
        ingressDenial policies senderId t = none := by
    cases msg.targeted <;> simp
  have hchannel : (msg.channelled.bind fun c => channelDenial policies senderId c) = none ↔
      ∀ c ∈ msg.channelled, channelDenial policies senderId c = none := by
    cases msg.channelled <;> simp
  rw [enforcePolicy, Option.orElse_eq_none, Option.orElse_eq_none, hpeer, hchannel,
    opDenial_eq_none]
  constructor
  · rintro ⟨hop, hpeers, hchannels⟩
    refine ⟨hop, ?_, ?_, ?_⟩
    · exact fun t ht => egressDenial_eq_none.1 (hpeers t ht).1
    · exact fun t ht => ingressDenial_eq_none.1 (hpeers t ht).2
    · exact fun c hc => channelDenial_eq_none.1 (hchannels c hc)
  · intro h
    refine ⟨h.op, fun t ht => ?_, fun c hc => channelDenial_eq_none.2 (h.channel c hc)⟩
    exact ⟨egressDenial_eq_none.2 (h.egress t ht), ingressDenial_eq_none.2 (h.ingress t ht)⟩

end

/-! ### What a step does -/

namespace PolicedBroker

variable {ι π : Type} {E : BrokerEnv π} {p : PolicedBroker ι π} {s : String} {ws : Ws}
  {m : NMBMessage π} {now : ℚ}

theorem refuses_eq_false :
    p.refuses s = false ↔ ∀ policy ∈ p.policyOf s, policy.canConnect = true := by
  unfold refuses
  cases p.policyOf s <;> simp

theorem dispatch_of_denied {why : String}
    (hv : (Broker.stamp m s now).validateFrame E.payloadBytes = .ok ())
    (hd : enforcePolicy p.policyOf s (Broker.stamp m s now) = some why) :
    p.dispatch E s ws (.ok m) now =
      p.routing.sendError s ws m.id .policyDenied why none := by
  simp only [dispatch, hv, hd]
  rfl

/-- A message that no policy is against is routed as the broker routes it. -/
theorem dispatch_of_permits (hp : Permits p.policyOf s (Broker.stamp m s now)) :
    p.dispatch E s ws (.ok m) now = p.routing.dispatch E s ws (.ok m) now := by
  have hd := enforcePolicy_eq_none.2 hp
  cases hv : (Broker.stamp m s now).validateFrame E.payloadBytes with
  | error exc => simp only [dispatch, Broker.dispatch, hv]
  | ok =>
    cases hop : (Broker.stamp m s now).op <;>
      simp only [dispatch, Broker.dispatch, hv, hd, hop]

theorem dispatch_error (why : String) :
    p.dispatch E s ws (.error why) now = p.routing.dispatch E s ws (.error why) now := rfl

theorem dispatch_of_invalid {exc : FrameValidationError}
    (hv : (Broker.stamp m s now).validateFrame E.payloadBytes = .error exc) :
    p.dispatch E s ws (.ok m) now = p.routing.dispatch E s ws (.ok m) now ∧
      p.routing.dispatch E s ws (.ok m) now =
        p.routing.sendError s ws m.id exc.code exc.message none := by
  constructor
  · simp only [dispatch, Broker.dispatch, hv]
  · simp only [Broker.dispatch, hv]
    rfl

variable (E p) in
/-- The policies are not against what the event asks for. -/
def Permitted : BrokerEvent π → Prop
  | .connect ws s => p.identities.lookup ws = some s
  | .frame ws raw now => ∃ m s, raw = .ok m ∧ p.routing.handlers.lookup ws = some ⟨s, .recv⟩ ∧
      Permits p.policyOf s (Broker.stamp m s now)
  | _ => True

variable [DecidableEq ι]

variable (E p) in
/-- A step is a call about the policies, a handshake or a step of the broker that the policies
permit, or the refusal of a frame. -/
inductive PolicedStep : PolicedEvent ι π → PolicedBroker ι π → Prop
  | added (i : ι) : PolicedStep (.addPolicy i) { p with policing := p.policing.addPolicy i }
  | rekeyed (old new : String) :
      PolicedStep (.rekeyPolicy old new) { p with policing := p.policing.rekeyPolicy old new }
  | accepted (ws : Ws) (s : String) (hp : ∀ policy ∈ p.policyOf s, policy.canConnect = true)
      (hnew : p.identities.lookup ws = none) :
      PolicedStep (.handshake ws s) { p with identities := p.identities.insert ws s }
  | routed {e b} (hs : p.routing.step E e = some b) (hp : p.Permitted e) :
      PolicedStep (.broker e) { p with routing := b }
  | refused {ws raw now s id code text} (hh : p.routing.handlers.lookup ws = some ⟨s, .recv⟩) :
      PolicedStep (.broker (.frame ws raw now))
        { p with routing := p.routing.sendError s ws id code text none }

theorem policed_step_frame (hh : p.routing.handlers.lookup ws = some ⟨s, .recv⟩)
    (raw : Except String (NMBMessage π)) (now : ℚ) :
    PolicedStep E p (.broker (.frame ws raw now))
      { p with routing := p.dispatch E s ws raw now } := by
  cases raw with
  | error why => exact .refused hh
  | ok m =>
    cases hv : (Broker.stamp m s now).validateFrame E.payloadBytes with
    | error exc =>
      obtain ⟨heq, heq'⟩ :
          p.dispatch E s ws (.ok m) now = p.routing.dispatch E s ws (.ok m) now ∧ _ :=
        dispatch_of_invalid hv
      rw [heq, heq']
      exact .refused hh
    | ok =>
      cases hd : enforcePolicy p.policyOf s (Broker.stamp m s now) with
      | some why =>
        rw [dispatch_of_denied hv hd]
        exact .refused hh
      | none =>
        have hp := enforcePolicy_eq_none.1 hd
        rw [dispatch_of_permits hp]
        refine .routed ?_ ⟨m, s, rfl, hh, hp⟩
        simp only [Broker.step, hh]

theorem policed_step {e : PolicedEvent ι π} {p' : PolicedBroker ι π} (h : p.step E e = some p') :
    PolicedStep E p e p' := by
  cases e with
  | addPolicy i =>
    obtain rfl := Option.some.inj h
    exact .added i
  | rekeyPolicy old new =>
    obtain rfl := Option.some.inj h
    exact .rekeyed old new
  | handshake ws s =>
    simp only [step, Option.ite_none_left_eq_some, not_or, Bool.not_eq_true] at h
    obtain ⟨⟨-, hrefuses, hnew⟩, h⟩ := h
    obtain rfl := Option.some.inj h
    exact .accepted ws s (refuses_eq_false.1 hrefuses) (by simpa using hnew)
  | broker e =>
    cases e with
    | connect ws s =>
      simp only [step, Option.ite_none_right_eq_some] at h
      obtain ⟨hidentity, h⟩ := h
      obtain ⟨b, hb, rfl⟩ := Option.map_eq_some_iff.1 h
      exact .routed hb hidentity
    | frame ws raw now =>
      simp only [step] at h
      split at h
      · obtain rfl := Option.some.inj h
        exact policed_step_frame ‹_› raw now
      · contradiction
    | resume | safeSend | disconnect | timer | timerSent =>
      obtain ⟨b, hb, rfl⟩ := Option.map_eq_some_iff.1 h
      exact .routed hb trivial

end PolicedBroker

end NemoClaw
