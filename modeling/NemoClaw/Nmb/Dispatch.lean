import NemoClaw.Nmb.Broker

/-! What `_dispatch` makes of one frame: it refuses it with an ERROR and does nothing for it, or
hands it to an op handler that does. `dispatch_cases` says it once for all ops. -/

namespace NemoClaw

open Lib

namespace Broker

variable {π : Type}

/-- The message has a `to_sandbox`, and that is connected. -/
def Reachable (b : Broker π) (m : NMBMessage π) : Prop :=
  ∃ target ws, truthy m.toSandbox = some target ∧ b.connections.lookup target = some ws

/-- `_handle_request` gets as far as registering the request. -/
def Admissible (E : BrokerEnv π) (b : Broker π) (s : String) (m : NMBMessage π) : Prop :=
  (b.pendingCounts.lookup s).getD 0 < E.config.maxPendingPerSandbox ∧
    ∃ target ws, truthy m.toSandbox = some target ∧ b.connections.lookup target = some ws

/-- A frame of `s` holding `m` is a valid request that the broker registers. -/
structure Admits (E : BrokerEnv π) (b : Broker π) (s : String) (m : NMBMessage π) (now : ℚ) :
    Prop where
  op : m.op = .request
  valid : (stamp m s now).validateFrame E.payloadBytes = .ok ()
  admissible : b.Admissible E s m

/-- The number of channels that `s` is subscribed to. -/
def channelCount (b : Broker π) (s : String) : ℕ := ((b.sandboxChannels.lookup s).getD []).length

/-- The frame of `s` that holds `m` is answered with an ERROR at once. -/
def Refused (E : BrokerEnv π) (b : Broker π) (s : String) (m : NMBMessage π) (now : ℚ) : Prop :=
  (stamp m s now).validateFrame E.payloadBytes ≠ .ok () ∨
    match m.op with
    | .send | .stream => ¬ b.Reachable m
    | .request => ¬ b.Admissible E s m
    | .reply => ∀ rid ∈ truthy m.replyTo, b.pending.lookup rid = none
    | .subscribe => truthy m.channel = none ∨ E.config.maxChannelsPerSandbox ≤ b.channelCount s
    | .unsubscribe | .publish => truthy m.channel = none
    | .deliver | .ack | .error | .timeout => True

/-- The frame of `s` that holds `m` is refused and leaves no trace, in no table and in no audit
call. -/
def Inert (E : BrokerEnv π) (b : Broker π) (s : String) (m : NMBMessage π) (now : ℚ) : Prop :=
  (stamp m s now).validateFrame E.payloadBytes ≠ .ok () ∨
    match m.op with
    | .send | .stream => truthy m.toSandbox = none
    | .request => truthy m.toSandbox = none ∨
        E.config.maxPendingPerSandbox ≤ (b.pendingCounts.lookup s).getD 0
    | .reply => ∀ rid ∈ truthy m.replyTo, b.pending.lookup rid = none
    | .subscribe => truthy m.channel = none ∨
        E.config.maxChannelsPerSandbox ≤ b.channelCount s ∧ (b.sandboxChannels.lookup s).isSome
    | .unsubscribe | .publish => truthy m.channel = none
    | .deliver | .ack | .error | .timeout => True

instance (b : Broker π) (m : NMBMessage π) : Decidable (b.Reachable m) :=
  decidable_of_iff
    (((truthy m.toSandbox).bind fun target => b.connections.lookup target).isSome = true) <| by
    simp only [Reachable, Option.isSome_iff_exists, Option.bind_eq_some_iff]
    exact ⟨fun ⟨ws, target, h⟩ => ⟨target, ws, h⟩, fun ⟨target, ws, h⟩ => ⟨ws, target, h⟩⟩

instance (E : BrokerEnv π) (b : Broker π) (s : String) (m : NMBMessage π) :
    Decidable (b.Admissible E s m) :=
  inferInstanceAs (Decidable (_ ∧ b.Reachable m))

instance (E : BrokerEnv π) (b : Broker π) (s : String) (m : NMBMessage π) (now : ℚ) :
    Decidable (b.Admits E s m now) :=
  decidable_of_iff (m.op = .request ∧ (stamp m s now).validateFrame E.payloadBytes = .ok () ∧
    b.Admissible E s m) ⟨fun h => ⟨h.1, h.2.1, h.2.2⟩, fun h => ⟨h.op, h.valid, h.admissible⟩⟩

instance (E : BrokerEnv π) (b : Broker π) (s : String) (m : NMBMessage π) (now : ℚ) :
    Decidable (b.Refused E s m now) :=
  @instDecidableOr _ _ inferInstance <| match m.op with
    | .send | .stream => inferInstanceAs (Decidable (¬ b.Reachable m))
    | .request => inferInstanceAs (Decidable (¬ b.Admissible E s m))
    | .reply => inferInstanceAs (Decidable (∀ rid ∈ truthy m.replyTo, b.pending.lookup rid = none))
    | .subscribe => inferInstanceAs (Decidable (truthy m.channel = none ∨ _ ≤ b.channelCount s))
    | .unsubscribe | .publish => inferInstanceAs (Decidable (truthy m.channel = none))
    | .deliver | .ack | .error | .timeout => isTrue trivial

/-- The broker with request `m` of `s` registered. -/
def tracked (E : BrokerEnv π) (b : Broker π) (s : String) (m : NMBMessage π) : Broker π :=
  b.track s m.id (requestTimeout E m) ((b.pendingCounts.lookup s).getD 0)

/-- The broker with the request pending under `requestId` answered. -/
def answered (b : Broker π) (requestId : String) (tracked : TrackedPending) : Broker π :=
  ((b.popPending requestId).cancelTimer tracked.timeoutTask).freeSlot tracked.owner

/-- The broker with an entry for the channels of `s`. -/
def listed (b : Broker π) (s : String) : Broker π :=
  { b with sandboxChannels := Dict.setDefault b.sandboxChannels s [] }

/-- The broker with `s` subscribed to `channel`. -/
def joined (b : Broker π) (s channel : String) : Broker π :=
  { b with
    channels := b.channels.insert channel (((b.channels.lookup channel).getD []).insert s)
    sandboxChannels := (Dict.setDefault b.sandboxChannels s []).insert s
      (((((Dict.setDefault b.sandboxChannels s []).lookup s).getD [])).insert channel) }

/-- The broker with `s` unsubscribed from `channel`. -/
def parted (b : Broker π) (s channel : String) : Broker π :=
  { b with
    channels := leaveChannel b.channels s channel
    sandboxChannels := match b.sandboxChannels.lookup s with
      | none => b.sandboxChannels
      | some chans => b.sandboxChannels.insert s (chans.erase channel) }

/-- What `_dispatch` makes of a frame that the handler of `ws`, serving `s`, read. -/
inductive Dispatched (E : BrokerEnv π) (b : Broker π) (s : String) (ws : Ws) :
    Except String (NMBMessage π) → ℚ → Broker π → Prop
  | malformed {why now} :
      Dispatched E b s ws (.error why) now (b.sendError s ws "" .invalidFrame why none)
  | refused {m now code text} (hr : b.Refused E s m now) (hi : b.Inert E s m now)
      (hnone : (stamp m s now).validateFrame E.payloadBytes = .ok () → m.op = .subscribe →
        truthy m.channel = none) :
      Dispatched E b s ws (.ok m) now (b.sendError s ws m.id code text none)
  | offline {m now code text} (hr : b.Refused E s m now) (hi : ¬ b.Inert E s m now)
      (hop : m.op ≠ .subscribe) :
      Dispatched E b s ws (.ok m) now (b.sendError s ws m.id code text (some (stamp m s now)))
  | full {m now c code text} (hr : b.Refused E s m now)
      (hv : (stamp m s now).validateFrame E.payloadBytes = .ok ()) (hop : m.op = .subscribe)
      (hc : truthy m.channel = some c)
      (hfull : E.config.maxChannelsPerSandbox ≤ b.channelCount s) :
      Dispatched E b s ws (.ok m) now ((b.listed s).sendError s ws m.id code text none)
  | forwarded {m now target targetWs phase} (hr : ¬ b.Refused E s m now)
      (hop : m.op = .send ∧ phase = .sendDeliver (stamp m s now) ∨
        m.op = .stream ∧ phase = .streamDeliver (stamp m s now))
      (ht : truthy m.toSandbox = some target) (hc : b.connections.lookup target = some targetWs) :
      Dispatched E b s ws (.ok m) now
        ((b.send targetWs (stamp m s now).makeDeliver).await s ws phase)
  | admitted {m now target targetWs} (hr : ¬ b.Refused E s m now) (hm : b.Admits E s m now)
      (ht : truthy m.toSandbox = some target) (hc : b.connections.lookup target = some targetWs) :
      Dispatched E b s ws (.ok m) now
        (((b.tracked E s m).send targetWs (stamp m s now).makeDeliver).await s ws
          (.requestDeliver (stamp m s now) b.nextTask))
  | replied {m now rid tracked targetWs} (hr : ¬ b.Refused E s m now) (hop : m.op = .reply)
      (hrid : truthy m.replyTo = some rid) (hp : b.pending.lookup rid = some tracked)
      (hc : b.connections.lookup tracked.owner = some targetWs) :
      Dispatched E b s ws (.ok m) now
        (((b.answered rid tracked).send targetWs (stamp m s now).makeDeliver
          (some tracked.timeoutTask)).await s ws (.replyDeliver (stamp m s now)))
  | unheard {m now rid tracked} (hr : ¬ b.Refused E s m now) (hop : m.op = .reply)
      (hrid : truthy m.replyTo = some rid) (hp : b.pending.lookup rid = some tracked)
      (hc : b.connections.lookup tracked.owner = none) :
      Dispatched E b s ws (.ok m) now
        (((b.answered rid tracked).auditMsg (some (stamp m s now)) .error).await s ws .recv)
  | subscribed {m now c} (hr : ¬ b.Refused E s m now) (hop : m.op = .subscribe)
      (hc : truthy m.channel = some c) (hroom : b.channelCount s < E.config.maxChannelsPerSandbox) :
      Dispatched E b s ws (.ok m) now ((b.joined s c).sendAck s ws m.id none)
  | unsubscribed {m now c} (hr : ¬ b.Refused E s m now) (hop : m.op = .unsubscribe)
      (hc : truthy m.channel = some c) :
      Dispatched E b s ws (.ok m) now ((b.parted s c).sendAck s ws m.id none)
  | unread {m now c} (hr : ¬ b.Refused E s m now) (hop : m.op = .publish)
      (hc : truthy m.channel = some c) (hnone : b.subscriberSockets c (some s) = []) :
      Dispatched E b s ws (.ok m) now (b.sendAck s ws m.id (some (stamp m s now)))
  | published {m now c} (hr : ¬ b.Refused E s m now) (hop : m.op = .publish)
      (hc : truthy m.channel = some c) (hsome : b.subscriberSockets c (some s) ≠ []) :
      Dispatched E b s ws (.ok m) now
        (b.await s ws (.publishFanout (stamp m s now) (b.subscriberSockets c (some s))))

/-! ### The op handlers -/

section

variable {E : BrokerEnv π} {b : Broker π} {s : String} {m : NMBMessage π} {now : ℚ}

theorem channelCount_listed (b : Broker π) (s : String) :
    (b.listed s).channelCount s = b.channelCount s := by
  unfold channelCount listed Dict.setDefault
  dsimp only
  split
  · rfl
  · next hnone =>
    rw [AList.lookup_insert, Option.not_isSome_iff_eq_none.1 hnone]
    rfl

/-- A valid frame is refused by its op handler. -/
theorem refused_iff_of_valid (hv : (stamp m s now).validateFrame E.payloadBytes = .ok ()) :
    b.Refused E s m now ↔
      match m.op with
      | .send | .stream => ¬ b.Reachable m
      | .request => ¬ b.Admissible E s m
      | .reply => ∀ rid ∈ truthy m.replyTo, b.pending.lookup rid = none
      | .subscribe => truthy m.channel = none ∨ E.config.maxChannelsPerSandbox ≤ b.channelCount s
      | .unsubscribe | .publish => truthy m.channel = none
      | .deliver | .ack | .error | .timeout => True := by
  simp only [Refused, hv, ne_eq, not_true_eq_false, false_or]

theorem inert_iff_of_valid (hv : (stamp m s now).validateFrame E.payloadBytes = .ok ()) :
    b.Inert E s m now ↔
      match m.op with
      | .send | .stream => truthy m.toSandbox = none
      | .request => truthy m.toSandbox = none ∨
          E.config.maxPendingPerSandbox ≤ (b.pendingCounts.lookup s).getD 0
      | .reply => ∀ rid ∈ truthy m.replyTo, b.pending.lookup rid = none
      | .subscribe => truthy m.channel = none ∨
          E.config.maxChannelsPerSandbox ≤ b.channelCount s ∧ (b.sandboxChannels.lookup s).isSome
      | .unsubscribe | .publish => truthy m.channel = none
      | .deliver | .ack | .error | .timeout => True := by
  simp only [Inert, hv, ne_eq, not_true_eq_false, false_or]

theorem valid_of_not_refused (h : ¬ b.Refused E s m now) :
    (stamp m s now).validateFrame E.payloadBytes = .ok () := by
  by_contra hv
  exact h (Or.inl hv)

theorem not_reachable_of_missing (h : truthy m.toSandbox = none) : ¬ b.Reachable m := by
  rintro ⟨target, ws, ht, -⟩
  cases h.symm.trans ht

theorem not_admissible_of_not_reachable (h : ¬ b.Reachable m) : ¬ b.Admissible E s m :=
  fun hadm => h hadm.2

theorem refused_of_inert (h : b.Inert E s m now) : b.Refused E s m now := by
  by_cases hv : (stamp m s now).validateFrame E.payloadBytes = .ok ()
  · rw [inert_iff_of_valid hv] at h
    rw [refused_iff_of_valid hv]
    cases hop : m.op with
    | send | stream =>
      rw [hop] at h
      exact not_reachable_of_missing h
    | request =>
      rw [hop] at h
      rcases h with hmissing | hfull
      · exact not_admissible_of_not_reachable (not_reachable_of_missing hmissing)
      · exact fun hadm => absurd hadm.1 (Nat.not_lt.2 hfull)
    | subscribe =>
      rw [hop] at h
      exact h.imp_right And.left
    | _ =>
      rw [hop] at h
      exact h
  · exact Or.inl hv

variable (ws : Ws)

/-- A frame with another op than SUBSCRIBE is refused with nothing done. -/
theorem dispatched_sendError {code : ErrorCode} {text : String} (hi : b.Inert E s m now)
    (hop : m.op ≠ .subscribe) :
    Dispatched E b s ws (.ok m) now (b.sendError s ws m.id code text none) :=
  .refused (refused_of_inert hi) hi fun _ heq => absurd heq hop

variable (hv : (stamp m s now).validateFrame E.payloadBytes = .ok ())
include hv

theorem dispatched_forwardTo {phase : Phase π}
    (hop : m.op = .send ∧ phase = .sendDeliver (stamp m s now) ∨
      m.op = .stream ∧ phase = .streamDeliver (stamp m s now)) :
    Dispatched E b s ws (.ok m) now (b.forwardTo s ws (stamp m s now) phase) := by
  have hrefused : b.Refused E s m now ↔ ¬ b.Reachable m := by
    rw [refused_iff_of_valid hv]
    rcases hop with ⟨hop, -⟩ | ⟨hop, -⟩ <;> rw [hop]
  have hinert : b.Inert E s m now ↔ truthy m.toSandbox = none := by
    rw [inert_iff_of_valid hv]
    rcases hop with ⟨hop, -⟩ | ⟨hop, -⟩ <;> rw [hop]
  have hne : m.op ≠ .subscribe := by
    rcases hop with ⟨hop, -⟩ | ⟨hop, -⟩ <;> rw [hop] <;> exact nofun
  unfold forwardTo
  split
  · next hnone => exact dispatched_sendError ws (hinert.2 hnone) hne
  · next target ht =>
    split
    · next hc =>
      refine .offline (hrefused.2 ?_) ?_ hne
      · rintro ⟨target', targetWs, ht', hc'⟩
        obtain rfl := Option.some.inj (ht.symm.trans ht')
        cases hc.symm.trans hc'
      · rw [hinert]
        intro hnone
        cases hnone.symm.trans ht
    · next targetWs hc =>
      refine .forwarded ?_ hop ht hc
      rw [hrefused, not_not]
      exact ⟨target, targetWs, ht, hc⟩

theorem dispatched_handleRequest (hop : m.op = .request) :
    Dispatched E b s ws (.ok m) now (b.handleRequest E s ws (stamp m s now)) := by
  have hrefused : b.Refused E s m now ↔ ¬ b.Admissible E s m := by
    rw [refused_iff_of_valid hv, hop]
  have hinert : b.Inert E s m now ↔ truthy m.toSandbox = none ∨
      E.config.maxPendingPerSandbox ≤ (b.pendingCounts.lookup s).getD 0 := by
    rw [inert_iff_of_valid hv, hop]
  have hne : m.op ≠ .subscribe := by rw [hop]; exact nofun
  unfold handleRequest
  split
  · next hnone => exact dispatched_sendError ws (hinert.2 (Or.inl hnone)) hne
  · next target ht =>
    dsimp only
    split_ifs with hfull
    · exact dispatched_sendError ws (hinert.2 (Or.inr hfull)) hne
    · split
      · next hc =>
        refine .offline (hrefused.2 ?_) ?_ hne
        · rintro ⟨-, target', targetWs, ht', hc'⟩
          obtain rfl := Option.some.inj (ht.symm.trans ht')
          cases hc.symm.trans hc'
        · rw [hinert, not_or]
          refine ⟨?_, hfull⟩
          intro hnone
          cases hnone.symm.trans ht
      · next targetWs hc =>
        have hadm : b.Admissible E s m := ⟨Nat.lt_of_not_le hfull, target, targetWs, ht, hc⟩
        refine .admitted ?_ ⟨hop, hv, hadm⟩ ht hc
        rw [hrefused, not_not]
        exact hadm

theorem dispatched_handleReply (hop : m.op = .reply) :
    Dispatched E b s ws (.ok m) now (b.handleReply s ws (stamp m s now)) := by
  have hrefused : b.Refused E s m now ↔
      ∀ rid ∈ truthy m.replyTo, b.pending.lookup rid = none := by
    rw [refused_iff_of_valid hv, hop]
  have hinert : b.Inert E s m now ↔
      ∀ rid ∈ truthy m.replyTo, b.pending.lookup rid = none := by
    rw [inert_iff_of_valid hv, hop]
  have hne : m.op ≠ .subscribe := by rw [hop]; exact nofun
  unfold handleReply
  split
  · next hnone =>
    refine dispatched_sendError ws (hinert.2 ?_) hne
    intro rid hrid
    cases hnone.symm.trans hrid
  · next rid hrid =>
    split
    · next hp =>
      refine dispatched_sendError ws (hinert.2 ?_) hne
      intro rid' hrid'
      obtain rfl := Option.some.inj (hrid.symm.trans hrid')
      exact hp
    · next tracked hp =>
      have haccepted : ¬ b.Refused E s m now := by
        rw [hrefused]
        intro hall
        cases hp.symm.trans (hall rid hrid)
      dsimp only
      split
      · next hc => exact .unheard haccepted hop hrid hp hc
      · next targetWs hc => exact .replied haccepted hop hrid hp hc

theorem dispatched_handleSubscribe (hop : m.op = .subscribe) :
    Dispatched E b s ws (.ok m) now (b.handleSubscribe E s ws (stamp m s now)) := by
  have hrefused : b.Refused E s m now ↔
      truthy m.channel = none ∨ E.config.maxChannelsPerSandbox ≤ b.channelCount s := by
    rw [refused_iff_of_valid hv, hop]
  have hinert : b.Inert E s m now ↔ truthy m.channel = none ∨
      E.config.maxChannelsPerSandbox ≤ b.channelCount s ∧
        (b.sandboxChannels.lookup s).isSome := by
    rw [inert_iff_of_valid hv, hop]
  unfold handleSubscribe
  split
  · next hnone =>
    have hi := hinert.2 (Or.inl hnone)
    exact .refused (refused_of_inert hi) hi fun _ _ => hnone
  · next c hc =>
    have hcount : (b.listed s).channelCount s = b.channelCount s := channelCount_listed b s
    dsimp only
    split
    · next hfull =>
      have hfull : E.config.maxChannelsPerSandbox ≤ b.channelCount s := hcount ▸ hfull
      exact .full (hrefused.2 (Or.inr hfull)) hv hop hc hfull
    · next hroom =>
      have hroom : b.channelCount s < E.config.maxChannelsPerSandbox :=
        Nat.lt_of_not_le (hcount ▸ hroom)
      refine .subscribed ?_ hop hc hroom
      rw [hrefused]
      rintro (hnone | hfull)
      · cases hnone.symm.trans hc
      · exact absurd hroom (Nat.not_lt.2 hfull)

theorem dispatched_handleUnsubscribe (hop : m.op = .unsubscribe) :
    Dispatched E b s ws (.ok m) now (b.handleUnsubscribe s ws (stamp m s now)) := by
  have hrefused : b.Refused E s m now ↔ truthy m.channel = none := by
    rw [refused_iff_of_valid hv, hop]
  have hinert : b.Inert E s m now ↔ truthy m.channel = none := by
    rw [inert_iff_of_valid hv, hop]
  unfold handleUnsubscribe
  split
  · next hnone => exact dispatched_sendError ws (hinert.2 hnone) (by rw [hop]; exact nofun)
  · next c hc =>
    refine .unsubscribed ?_ hop hc
    rw [hrefused]
    intro hnone
    cases hnone.symm.trans hc

theorem dispatched_handlePublish (hop : m.op = .publish) :
    Dispatched E b s ws (.ok m) now (b.handlePublish s ws (stamp m s now)) := by
  have hrefused : b.Refused E s m now ↔ truthy m.channel = none := by
    rw [refused_iff_of_valid hv, hop]
  have hinert : b.Inert E s m now ↔ truthy m.channel = none := by
    rw [inert_iff_of_valid hv, hop]
  unfold handlePublish
  split
  · next hnone => exact dispatched_sendError ws (hinert.2 hnone) (by rw [hop]; exact nofun)
  · next c hc =>
    have haccepted : ¬ b.Refused E s m now := by
      rw [hrefused]
      intro hnone
      cases hnone.symm.trans hc
    split
    · next hnone => exact .unread haccepted hop hc hnone
    · next left hsome => exact .published haccepted hop hc hsome

end

/-- What `_dispatch` does is one of the cases of `Dispatched`. -/
theorem dispatch_cases (E : BrokerEnv π) (b : Broker π) (s : String) (ws : Ws)
    (raw : Except String (NMBMessage π)) (now : ℚ) :
    Dispatched E b s ws raw now (b.dispatch E s ws raw now) := by
  cases raw with
  | error why => exact .malformed
  | ok m =>
    unfold dispatch
    dsimp only
    split
    · next exc hv =>
      have hinvalid : (stamp m s now).validateFrame E.payloadBytes ≠ .ok () := by
        rw [hv]
        exact nofun
      exact .refused (Or.inl hinvalid) (Or.inl hinvalid) fun hvalid => absurd hvalid hinvalid
    · next hv =>
      have hop : (stamp m s now).op = m.op := rfl
      rw [hop]
      cases hm : m.op with
      | send => exact dispatched_forwardTo ws hv (Or.inl ⟨hm, rfl⟩)
      | request => exact dispatched_handleRequest ws hv hm
      | reply => exact dispatched_handleReply ws hv hm
      | subscribe => exact dispatched_handleSubscribe ws hv hm
      | unsubscribe => exact dispatched_handleUnsubscribe ws hv hm
      | publish => exact dispatched_handlePublish ws hv hm
      | stream => exact dispatched_forwardTo ws hv (Or.inr ⟨hm, rfl⟩)
      | deliver | ack | error | timeout =>
        refine dispatched_sendError ws ((inert_iff_of_valid hv).2 ?_) ?_
        · rw [hm]
          trivial
        · rw [hm]
          exact nofun

/-- A REPLY is refused, or pops the entry that it names. -/
theorem Dispatched.of_reply {E : BrokerEnv π} {b b' : Broker π} {s : String} {ws : Ws}
    {m : NMBMessage π} {now : ℚ} (hd : Dispatched E b s ws (.ok m) now b') (hop : m.op = .reply) :
    (b.Refused E s m now ∧ ∃ code text a, b' = b.sendError s ws m.id code text a) ∨
    ∃ rid tracked, truthy m.replyTo = some rid ∧ b.pending.lookup rid = some tracked ∧
      (b.connections.lookup tracked.owner = none ∧
          b' = ((b.answered rid tracked).auditMsg (some (stamp m s now)) .error).await s ws .recv ∨
        ∃ targetWs, b.connections.lookup tracked.owner = some targetWs ∧
          b' = ((b.answered rid tracked).send targetWs (stamp m s now).makeDeliver
            (some tracked.timeoutTask)).await s ws (.replyDeliver (stamp m s now))) := by
  cases hd with
  | refused hr | offline hr => exact Or.inl ⟨hr, _, _, _, rfl⟩
  | replied hr _ hrid hp hc => exact Or.inr ⟨_, _, hrid, hp, Or.inr ⟨_, hc, rfl⟩⟩
  | unheard hr _ hrid hp hc => exact Or.inr ⟨_, _, hrid, hp, Or.inl ⟨hc, rfl⟩⟩
  | forwarded hr hphase =>
    rcases hphase with ⟨hsend, -⟩ | ⟨hstream, -⟩
    · cases hop.symm.trans hsend
    · cases hop.symm.trans hstream
  | admitted hr hm => cases hop.symm.trans hm.op
  | full hr hv hop' | subscribed hr hop' | unsubscribed hr hop' | unread hr hop'
  | published hr hop' => cases hop.symm.trans hop'

/-- A frame is read by a handler in its receive loop. -/
theorem step_frame {E : BrokerEnv π} {b b' : Broker π} {ws : Ws}
    {raw : Except String (NMBMessage π)} {now : ℚ} (h : b.step E (.frame ws raw now) = some b') :
    ∃ s, b.handlers.lookup ws = some ⟨s, .recv⟩ ∧ Dispatched E b s ws raw now b' := by
  simp only [step] at h
  split at h
  · next s hh =>
    obtain rfl := Option.some.inj h
    exact ⟨s, hh, dispatch_cases E b s ws raw now⟩
  · contradiction

theorem dispatched_of_frame {E : BrokerEnv π} {b b' : Broker π} {ws : Ws} {s : String}
    (hh : b.handlers.lookup ws = some ⟨s, .recv⟩) {raw : Except String (NMBMessage π)} {now : ℚ}
    (h : b.step E (.frame ws raw now) = some b') : Dispatched E b s ws raw now b' := by
  obtain ⟨s', hh', hd⟩ := step_frame h
  obtain ⟨rfl, -⟩ := Handler.mk.inj (Option.some.inj (hh.symm.trans hh'))
  exact hd

end Broker

end NemoClaw
