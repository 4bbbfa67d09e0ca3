import NemoClaw.System.Subscribers

/-! What the broker answers to a SUBSCRIBE at the limit. It counts the channels of the sandbox
before it looks whether the channel is one of them, so at the limit it refuses to subscribe a
sandbox again, and with it every further iterator of a client. -/

namespace NemoClaw

open Lib Dict

namespace Broker

variable {π : Type}

/-- The answer to the message is an ACK. -/
def Acknowledges (b b' : Broker π) (ws : Ws) (id : String) : Prop :=
  b'.sent = b.sent ++ [⟨ws, { op := .ack, id := id }, none⟩]

structure SameMaps (b b' : Broker π) : Prop where
  channels : ∀ c, b'.channels.lookup c = b.channels.lookup c
  sandboxChannels : ∀ s, b'.sandboxChannels.lookup s = b.sandboxChannels.lookup s

/-- A SUBSCRIBE of `s` for `c` takes the broker from `b` to `b'` as it should. -/
structure SubscribesExactly (E : BrokerEnv π) (b b' : Broker π) (ws : Ws) (id s c : String) :
    Prop where
  acknowledged : b.Acknowledges b' ws id ↔ c ∈ members b.sandboxChannels s ∨
    (members b.sandboxChannels s).length < E.config.maxChannelsPerSandbox
  idempotent : c ∈ members b.sandboxChannels s → b.SameMaps b'
  refused : ¬ b.Acknowledges b' ws id → b.SameMaps b'

/-- The sandbox is below the limit, or it is not in the channel and known to the map. -/
def Fits (E : BrokerEnv π) (b : Broker π) (s c : String) : Prop :=
  (members b.sandboxChannels s).length < E.config.maxChannelsPerSandbox ∨
    c ∉ members b.sandboxChannels s ∧ (b.sandboxChannels.lookup s).isSome

variable {E : BrokerEnv π} {b b' : Broker π} {ws : Ws} {m : NMBMessage π} {now : ℚ} {s c : String}

/-- What the handler of a SUBSCRIBE leaves, by the number of channels of the sandbox. -/
theorem step_subscribe (ha : b.AsksFor E .subscribe s c (.frame ws (.ok m) now))
    (hs : b.step E (.frame ws (.ok m) now) = some b') :
    let known := { b with sandboxChannels := setDefault b.sandboxChannels s [] }
    b' = if E.config.maxChannelsPerSandbox ≤ (members b.sandboxChannels s).length then
        known.sendError s ws m.id .channelFull "Too many channel subscriptions" none
      else
        sendAck { known with
          channels := b.channels.insert c ((members b.channels c).insert s)
          sandboxChannels := known.sandboxChannels.insert s
            ((members b.sandboxChannels s).insert c) } s ws m.id none := by
  obtain ⟨hh, hop, hv, hc⟩ := ha
  have hop' : (stamp m s now).op = .subscribe := hop
  have hc' : truthy (stamp m s now).channel = some c := hc
  have hchans : ((setDefault b.sandboxChannels s []).lookup s).getD [] =
      members b.sandboxChannels s := members_setDefault b.sandboxChannels s s
  simp only [step, hh, dispatch, hv, hop'] at hs
  simp only [handleSubscribe, hc', hchans] at hs
  exact (Option.some.inj hs).symm

/-- The broker subscribes below the limit. -/
theorem subscribe_of_lt (ha : b.AsksFor E .subscribe s c (.frame ws (.ok m) now))
    (hs : b.step E (.frame ws (.ok m) now) = some b')
    (hroom : (members b.sandboxChannels s).length < E.config.maxChannelsPerSandbox) :
    b.Acknowledges b' ws m.id ∧
      b'.channels = b.channels.insert c ((members b.channels c).insert s) ∧
      b'.sandboxChannels = (setDefault b.sandboxChannels s []).insert s
        ((members b.sandboxChannels s).insert c) := by
  obtain rfl := (step_subscribe ha hs).trans (if_neg (not_le.2 hroom))
  exact ⟨rfl, rfl, rfl⟩

/-- The broker refuses at the limit, whatever the channel is. -/
theorem subscribe_of_le (ha : b.AsksFor E .subscribe s c (.frame ws (.ok m) now))
    (hs : b.step E (.frame ws (.ok m) now) = some b')
    (hfull : E.config.maxChannelsPerSandbox ≤ (members b.sandboxChannels s).length) :
    ¬ b.Acknowledges b' ws m.id ∧ b'.channels = b.channels ∧
      b'.sandboxChannels = setDefault b.sandboxChannels s [] := by
  obtain rfl := (step_subscribe ha hs).trans (if_pos hfull)
  refine ⟨?_, rfl, rfl⟩
  intro hack
  have hframe := (List.cons.inj (List.append_cancel_left hack)).1
  have hop : Op.error = Op.ack := congrArg (fun f => f.frame.op) hframe
  contradiction

theorem acknowledges_iff (ha : b.AsksFor E .subscribe s c (.frame ws (.ok m) now))
    (hs : b.step E (.frame ws (.ok m) now) = some b') :
    b.Acknowledges b' ws m.id ↔
      (members b.sandboxChannels s).length < E.config.maxChannelsPerSandbox := by
  rcases lt_or_ge (members b.sandboxChannels s).length E.config.maxChannelsPerSandbox with
    hroom | hfull
  · exact iff_of_true (subscribe_of_lt ha hs hroom).1 hroom
  · exact iff_of_false (subscribe_of_le ha hs hfull).1 (not_lt.2 hfull)

/-- Below the limit the maps do not change if the sandbox is in the channel. -/
theorem sameMaps_of_mem (hl : Linked b.channels b.sandboxChannels)
    (hmem : c ∈ members b.sandboxChannels s)
    (hchannels : b'.channels = b.channels.insert c ((members b.channels c).insert s))
    (hchans : b'.sandboxChannels = (setDefault b.sandboxChannels s []).insert s
      ((members b.sandboxChannels s).insert c)) : b.SameMaps b' := by
  have hlookup : ∀ {d : Dict String (List String)} {k a : String}, a ∈ members d k →
      d.lookup k = some (members d k) := by
    intro d k a ha
    cases hk : d.lookup k with
    | none => simp [members_of_none hk] at ha
    | some l => rw [members_of_lookup hk]
  have hsub := (hl.inverse c s).2 hmem
  constructor
  · intro c'
    rw [hchannels, List.insert_of_mem hsub]
    by_cases he : c' = c
    · rw [he, AList.lookup_insert, hlookup hsub]
    · rw [AList.lookup_insert_ne he]
  · intro s'
    rw [hchans, List.insert_of_mem hmem]
    by_cases he : s' = s
    · rw [he, AList.lookup_insert, hlookup hmem]
    · rw [AList.lookup_insert_ne he, lookup_setDefault_ne he]

theorem subscribesExactly_of_linked (hl : Linked b.channels b.sandboxChannels)
    (ha : b.AsksFor E .subscribe s c (.frame ws (.ok m) now))
    (hs : b.step E (.frame ws (.ok m) now) = some b') :
    SubscribesExactly E b b' ws m.id s c ↔ b.Fits E s c := by
  have hack := acknowledges_iff ha hs
  rcases lt_or_ge (members b.sandboxChannels s).length E.config.maxChannelsPerSandbox with
    hroom | hfull
  · obtain ⟨hanswer, hchannels, hchans⟩ := subscribe_of_lt ha hs hroom
    exact iff_of_true ⟨iff_of_true hanswer (Or.inr hroom),
      fun hmem => sameMaps_of_mem hl hmem hchannels hchans, fun hrefused => absurd hanswer hrefused⟩
      (Or.inl hroom)
  · obtain ⟨hanswer, hchannels, hchans⟩ := subscribe_of_le ha hs hfull
    constructor
    · intro h
      refine Or.inr ⟨fun hmem => hanswer (h.acknowledged.2 (Or.inl hmem)), ?_⟩
      rw [← (h.refused hanswer).sandboxChannels s, hchans]
      exact isSome_setDefault _ _ _
    · intro h
      obtain ⟨hmem, hknown⟩ := h.resolve_left (not_lt.2 hfull)
      refine ⟨iff_of_false hanswer (by simp [hmem, hfull]), fun h => absurd h hmem, fun _ => ?_⟩
      refine ⟨fun c' => by rw [hchannels], fun s' => ?_⟩
      rw [hchans, setDefault, if_pos hknown]

theorem linked_of_trace {tr : List (Broker π × BrokerEvent π)}
    (h : (brokerMachine E).Trace tr b) : Linked b.channels b.sandboxChannels :=
  h.invariant (I := fun b => Linked b.channels b.sandboxChannels) Linked.empty
    fun _ _ _ hl hs => (subscription_step hs).linked hl

end Broker

namespace Subscribers

open Broker

variable {π : Type} {E : BrokerEnv π} {name : String} {x : Subscribers π}

/-- The next iterator of a channel with an acknowledged iterator asks for a channel that the broker
lists already. -/
theorem asksFor_of_acknowledged (hx : Agreed name x) {c known id : String} {now : ℚ}
    {b : Broker π} (hknown : x.Acknowledged c known)
    (hs : x.broker.step E (.frame x.peer.ws (.ok (subscribeMessage id c)) now) = some b) :
    x.broker.AsksFor E .subscribe name c (.frame x.peer.ws (.ok (subscribeMessage id c)) now) ∧
      c ∈ members x.broker.sandboxChannels name := by
  obtain ⟨hlisted, -⟩ := hx.joined c known hknown.1 (hx.results known hknown.2)
  have hh : x.broker.handlers.lookup x.peer.ws = some ⟨name, .recv⟩ := by
    obtain ⟨s, hh, -⟩ := step_frame hs
    obtain rfl : s = name := (hx.hosts.sole.handler _ _ hh).2 rfl
    exact hh
  have hnamed : c ≠ "" := by
    rintro rfl
    have hmem : name ∈ members x.broker.channels "" := hlisted
    rw [hx.hosts.unnamed] at hmem
    contradiction
  refine ⟨⟨hh, rfl, rfl, truthy_eq_some.2 ⟨rfl, hnamed⟩⟩, ?_⟩
  exact (hx.hosts.linked.inverse c name).1 hlisted

end Subscribers

open Broker Subscribers

/-- The broker subscribes as it should exactly if the sandbox is below the limit, or neither in the
channel nor new. A further iterator of a client on a channel is acknowledged exactly if the client
is below the limit. -/
theorem subscribesExactly_iff {π : Type} (E : BrokerEnv π) :
    (∀ tr b, (brokerMachine E).Trace tr b → ∀ ws m now s c b',
      b.AsksFor E .subscribe s c (.frame ws (.ok m) now) →
      b.step E (.frame ws (.ok m) now) = some b' →
      (SubscribesExactly E b b' ws m.id s c ↔ b.Fits E s c)) ∧
    ∀ name ws tr x, (subscribersMachine E name ws).Trace tr x → ∀ c known,
      x.Acknowledged c known → ∀ id now b',
        x.broker.step E (.frame x.peer.ws (.ok (subscribeMessage id c)) now) = some b' →
        (x.broker.Acknowledges b' x.peer.ws id ↔
          (members x.broker.sandboxChannels name).length < E.config.maxChannelsPerSandbox) := by
  refine ⟨fun tr b h ws m now s c b' ha hs =>
    subscribesExactly_of_linked (linked_of_trace h) ha hs, ?_⟩
  intro name ws tr x h c known hknown id now b' hs
  have hx : Agreed name x :=
    h.invariant (agreed_initial name ws) fun _ _ _ hx hs => agreed_step hx hs
  exact acknowledges_iff (asksFor_of_acknowledged hx hknown hs).1 hs

/-! ### A client at the limit -/

/-- One channel for each sandbox. -/
def oneChannel : BrokerEnv String :=
  { jsonText with config := { jsonText.config with maxChannelsPerSandbox := 1 } }

/-- The subscriber asks again. -/
def subscribeAgain : List (BrokerEvent String) :=
  [.connect 1 "review", .frame 1 (.ok (subscribeMessage "s-1" "news")) 0, .resume 1 .ok]

theorem subscribesExactly_iff_news :
    (∃ tr b b', (brokerMachine jsonText).Trace tr b ∧
      (SubscribesExactly jsonText b b' 1 "s-2" "review" "news" ↔
        b.Fits jsonText "review" "news")) ∧
    ∃ tr x b', (subscribersMachine jsonText "review" 1).Trace tr x ∧
      (x.broker.Acknowledges b' x.peer.ws "s-2" ↔
        (members x.broker.sandboxChannels "review").length <
          jsonText.config.maxChannelsPerSandbox) := by
  constructor
  · obtain ⟨tr, b, h, -, hcheck⟩ := Machine.Trace.of_check (M := brokerMachine jsonText)
      subscribeAgain (p := fun _ b => decide
        (b.handlers.lookup 1 = some ⟨"review", .recv⟩)) (by decide)
    have hh := of_decide_eq_true hcheck
    have hs : b.step jsonText (.frame 1 (.ok (subscribeMessage "s-2" "news")) 1) = some
        (b.dispatch jsonText "review" 1 (.ok (subscribeMessage "s-2" "news")) 1) := by
      simp only [Broker.step, hh]
    exact ⟨tr, b, _, h, (subscribesExactly_iff jsonText).1 tr b h 1
      (subscribeMessage "s-2" "news") 1 "review" "news" _ ⟨hh, rfl, rfl, by decide⟩ hs⟩
  · obtain ⟨tr, x, h, -, hcheck⟩ :=
      Machine.Trace.of_check (M := subscribersMachine jsonText "review" 1) newsSubscribed
        (p := fun _ x => decide (x.iterators.entries = [⟨"news", ["s-1"]⟩] ∧
          x.peer.bus.acks.lookup "s-1" = some (.result ()) ∧
          x.broker.handlers.lookup x.peer.ws = some ⟨"review", .recv⟩)) (by decide)
    obtain ⟨hiterators, hack, hh⟩ := of_decide_eq_true hcheck
    have hlive : x.Live "news" "s-1" := by
      have hnews : x.iterators = (∅ : Dict String (List String)).insert "news" ["s-1"] :=
        AList.ext hiterators
      rw [Subscribers.Live, hnews]
      decide
    have hs : x.broker.step jsonText
        (.frame x.peer.ws (.ok (subscribeMessage "s-2" "news")) 1) = some
          (x.broker.dispatch jsonText "review" x.peer.ws
            (.ok (subscribeMessage "s-2" "news")) 1) := by
      simp only [Broker.step, hh]
    exact ⟨tr, x, _, h, (subscribesExactly_iff jsonText).2 "review" 1 tr x h "news" "s-1"
      ⟨hlive, hack⟩ "s-2" 1 _ hs⟩

/-- At the limit the second SUBSCRIBE for a channel is refused. -/
theorem subscribed_refused : ¬ ∀ tr b, (brokerMachine oneChannel).Trace tr b → ∀ b',
    b.step oneChannel (.frame 1 (.ok (subscribeMessage "s-2" "news")) 1) = some b' →
      SubscribesExactly oneChannel b b' 1 "s-2" "review" "news" := by
  intro hall
  obtain ⟨tr, b, h, -, hcheck⟩ := Machine.Trace.of_check (M := brokerMachine oneChannel)
    subscribeAgain (p := fun _ b => decide
      (b.handlers.lookup 1 = some ⟨"review", .recv⟩ ∧
        b.sandboxChannels.entries = [⟨"review", ["news"]⟩])) (by decide)
  obtain ⟨hh, hentries⟩ := of_decide_eq_true hcheck
  have hchans : members b.sandboxChannels "review" = ["news"] := by
    have hreview : b.sandboxChannels = (∅ : Dict String (List String)).insert "review" ["news"] :=
      AList.ext hentries
    rw [hreview]
    decide
  have hs : b.step oneChannel (.frame 1 (.ok (subscribeMessage "s-2" "news")) 1) = some
      (b.dispatch oneChannel "review" 1 (.ok (subscribeMessage "s-2" "news")) 1) := by
    simp only [Broker.step, hh]
  have hfits := (subscribesExactly_of_linked (linked_of_trace h) ⟨hh, rfl, rfl, by decide⟩ hs).1
    (hall tr b h _ hs)
  unfold Fits at hfits
  rw [hchans] at hfits
  rcases hfits with hroom | ⟨hmem, -⟩
  · exact absurd hroom (by decide)
  · exact hmem (List.mem_singleton_self _)

end NemoClaw
