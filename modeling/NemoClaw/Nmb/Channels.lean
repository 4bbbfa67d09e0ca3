import NemoClaw.Lib.Links
import NemoClaw.Nmb.Deliveries

/-! Subscriptions: `_channels` and `_sandbox_channels` are one relation kept twice. A rejected
duplicate can still subscribe, and when the connection that it duplicates is gone by then, a sandbox
that is not connected is in both. -/

namespace NemoClaw

open Lib Dict

/-- The two maps, and the connections whose sandboxes they are about. -/
structure Subscriptions where
  channels : Dict String (List String)
  sandboxChannels : Dict String (List String)
  connections : Dict String Ws

namespace Broker

variable {π : Type}

def subscriptions (b : Broker π) : Subscriptions :=
  ⟨b.channels, b.sandboxChannels, b.connections⟩

/-- The event is a valid frame of `s` with this op about the channel `c`. -/
def AsksFor (E : BrokerEnv π) (b : Broker π) (op : Op) (s c : String) : BrokerEvent π → Prop
  | .frame ws (.ok m) now => b.handlers.lookup ws = some ⟨s, .recv⟩ ∧ m.op = op ∧
      (stamp m s now).validateFrame E.payloadBytes = .ok () ∧ truthy m.channel = some c
  | _ => False

/-- The effect of a step on the subscriptions. -/
inductive SubscriptionStep (E : BrokerEnv π) (b : Broker π) :
    BrokerEvent π → Subscriptions → Prop
  | same {e} (hs : ∀ s c, ¬ b.AsksFor E .subscribe s c e) :
      SubscriptionStep E b e b.subscriptions
  | connected {ws s} (hfree : b.connections.lookup s = none) :
      SubscriptionStep E b (.connect ws s)
        ⟨b.channels, b.sandboxChannels, b.connections.insert s ws⟩
  | subscribed {e s c} (ha : b.AsksFor E .subscribe s c e)
      (hroom : (members (setDefault b.sandboxChannels s []) s).length <
        E.config.maxChannelsPerSandbox) :
      SubscriptionStep E b e
        ⟨b.channels.insert c ((members b.channels c).insert s),
          (setDefault b.sandboxChannels s []).insert s
            ((members (setDefault b.sandboxChannels s []) s).insert c), b.connections⟩
  | full {e s c} (ha : b.AsksFor E .subscribe s c e) :
      SubscriptionStep E b e ⟨b.channels, setDefault b.sandboxChannels s [], b.connections⟩
  | unsubscribed {e s c chans} (ha : b.AsksFor E .unsubscribe s c e)
      (hchans : b.sandboxChannels.lookup s = some chans) :
      SubscriptionStep E b e
        ⟨leave s b.channels c, b.sandboxChannels.insert s (chans.erase c), b.connections⟩
  | unknown {e s c} (ha : b.AsksFor E .unsubscribe s c e)
      (hchans : b.sandboxChannels.lookup s = none) :
      SubscriptionStep E b e ⟨leave s b.channels c, b.sandboxChannels, b.connections⟩
  | disconnected {ws s msgId now} (hh : b.handlers.lookup ws = some ⟨s, .recv⟩)
      (hc : b.connections.lookup s = some ws) :
      SubscriptionStep E b (.disconnect ws msgId now)
        ⟨(members b.sandboxChannels s).foldl (leave s) b.channels, b.sandboxChannels.erase s,
          b.connections.erase s⟩

/-! ### Calls that leave the subscriptions alone -/

section

variable (b : Broker π)

@[simp] theorem subscriptions_await (s : String) (ws : Ws) (p : Phase π) :
    (b.await s ws p).subscriptions = b.subscriptions := rfl

@[simp] theorem subscriptions_auditMsg (m : Option (NMBMessage π)) (st : DeliveryStatus) :
    (b.auditMsg m st).subscriptions = b.subscriptions := by
  cases m <;> rfl

end

/-! ### The handlers -/

variable {E : BrokerEnv π} {b b' : Broker π} {s : String} {ws : Ws} {e : BrokerEvent π}

theorem leaveChannel_eq (channels : Dict String (List String)) (s c : String) :
    leaveChannel channels s c = leave s channels c := by
  cases h : channels.lookup c with
  | none => simp [leaveChannel, leave, h]
  | some l => cases l <;> simp [leaveChannel, leave, h]

theorem not_asksFor {op : Op} {m : NMBMessage π} {now : ℚ} (hop : m.op ≠ op) (s c : String) :
    ¬ b.AsksFor E op s c (.frame ws (.ok m) now) := by
  rintro ⟨-, heq, -⟩
  exact hop heq

theorem asksFor_frame {op : Op} {s c : String} (h : b.AsksFor E op s c e) :
    ∃ ws m now, e = .frame ws (.ok m) now ∧ b.handlers.lookup ws = some ⟨s, .recv⟩ := by
  cases e with
  | frame ws raw now =>
    cases raw with
    | error => exact h.elim
    | ok m => exact ⟨ws, m, now, rfl, h.1⟩
  | _ => exact h.elim

theorem not_asksFor_of_reads {op : Op} {m : NMBMessage π} {now : ℚ}
    (hh : b.handlers.lookup ws = some ⟨s, .recv⟩)
    (hnone : (stamp m s now).validateFrame E.payloadBytes = .ok () → m.op = op →
      truthy m.channel = none) (s' c : String) : ¬ b.AsksFor E op s' c (.frame ws (.ok m) now) := by
  rintro ⟨hh', hop, hv, hc⟩
  obtain ⟨rfl, -⟩ := Handler.mk.inj (Option.some.inj (hh.symm.trans hh'))
  cases (hnone hv hop).symm.trans hc

theorem subscription_step_dispatched (hh : b.handlers.lookup ws = some ⟨s, .recv⟩)
    {raw : Except String (NMBMessage π)} {now : ℚ} (hd : Dispatched E b s ws raw now b') :
    SubscriptionStep E b (.frame ws raw now) b'.subscriptions := by
  cases hd with
  | malformed => exact .same fun _ _ => id
  | refused hr hi hnone => exact .same (not_asksFor_of_reads hh hnone)
  | offline hr hi hop => exact .same (not_asksFor hop)
  | full hr hv hop hc => exact .full ⟨hh, hop, hv, hc⟩
  | forwarded hr hop =>
    rcases hop with ⟨hop, -⟩ | ⟨hop, -⟩
    · exact .same (not_asksFor (by simp [hop]))
    · exact .same (not_asksFor (by simp [hop]))
  | admitted hr hm => exact .same (not_asksFor (by simp [hm.op]))
  | replied hr hop | unheard hr hop | unread hr hop | published hr hop =>
    exact .same (not_asksFor (by simp [hop]))
  | subscribed hr hop hc hroom =>
    refine .subscribed ⟨hh, hop, valid_of_not_refused hr, hc⟩ ?_
    rw [← channelCount_listed] at hroom
    exact hroom
  | @unsubscribed m now c hr hop hc =>
    have ha : b.AsksFor E .unsubscribe s c (.frame ws (.ok m) now) :=
      ⟨hh, hop, valid_of_not_refused hr, hc⟩
    have hsubscriptions : ((b.parted s c).sendAck s ws m.id none).subscriptions =
        (b.parted s c).subscriptions := rfl
    rw [hsubscriptions, subscriptions, parted, leaveChannel_eq]
    cases hchans : b.sandboxChannels.lookup s with
    | none => exact .unknown ha hchans
    | some chans => exact .unsubscribed ha hchans

theorem subscriptions_resume {r : SendResult} {p : Phase π}
    (h : b.resume s ws r p = some b') : b'.subscriptions = b.subscriptions := by
  cases p with
  | sendDeliver | requestDeliver | replyDeliver | streamDeliver =>
    obtain rfl := Option.some.inj h
    cases r <;> rfl
  | publishFanout m left | shutdownFanout m left =>
    cases left with
    | nil =>
      obtain rfl := Option.some.inj h
      rfl
    | cons => contradiction
  | ack a | error a =>
    obtain rfl := Option.some.inj h
    rw [subscriptions_await, subscriptions_auditMsg]
  | logDisconnection =>
    obtain rfl := Option.some.inj h
    rfl
  | recv | closed => contradiction

theorem subscriptions_safeSend {target : Ws} {p : Phase π}
    (h : b.safeSend s ws target p = some b') : b'.subscriptions = b.subscriptions := by
  cases p with
  | publishFanout m left | shutdownFanout m left =>
    simp only [safeSend, Option.ite_none_right_eq_some] at h
    obtain rfl := Option.some.inj h.2
    rfl
  | _ => contradiction

theorem subscription_step_register (s : String) (ws : Ws) :
    SubscriptionStep E b (.connect ws s) (b.register s ws).subscriptions := by
  cases hfree : b.connections.lookup s with
  | none =>
    have hsame : (b.register s ws).subscriptions =
        ⟨b.channels, b.sandboxChannels, b.connections.insert s ws⟩ := by
      simp [register, hfree, subscriptions, await, auditOp]
    rw [hsame]
    exact .connected hfree
  | some ws₀ =>
    rw [register_of_taken (by simp [hfree])]
    exact .same fun _ _ => id

theorem subscription_step_unregister (hh : b.handlers.lookup ws = some ⟨s, .recv⟩)
    (msgId : String) (now : ℚ) :
    SubscriptionStep E b (.disconnect ws msgId now)
      (b.unregister E s ws msgId now).subscriptions := by
  by_cases hc : b.connections.lookup s = some ws
  · have hsame : (b.unregister E s ws msgId now).subscriptions =
        ⟨(members b.sandboxChannels s).foldl (leave s) b.channels, b.sandboxChannels.erase s,
          b.connections.erase s⟩ := by
      have hleave : (fun channels ch => leaveChannel channels s ch) = leave s := by
        funext channels ch
        exact leaveChannel_eq channels s ch
      simp only [unregister, hc, ne_eq, not_true_eq_false, ite_false]
      rw [foldl_cancelTimer, hleave]
      split <;> rfl
    rw [hsame]
    exact .disconnected hh hc
  · rw [unregister_of_stale E hc]
    exact .same fun _ _ => id

theorem subscriptions_timeoutRequest (E : BrokerEnv π) (b : Broker π) (task : TaskId)
    (t : TimeoutTask) : (b.timeoutRequest E task t).subscriptions = b.subscriptions := by
  unfold timeoutRequest
  split
  · rfl
  · dsimp only
    split <;> rfl

/-- Every step of the broker has one of the effects of `SubscriptionStep`. -/
theorem subscription_step (h : b.step E e = some b') : SubscriptionStep E b e b'.subscriptions := by
  cases e with
  | connect ws s =>
    obtain ⟨-, rfl⟩ := connect_step h
    exact subscription_step_register s ws
  | frame ws raw now =>
    obtain ⟨s, hh, hd⟩ := step_frame h
    exact subscription_step_dispatched hh hd
  | resume ws r =>
    obtain ⟨h₁, hh, h⟩ := Option.bind_eq_some_iff.1 h
    rw [subscriptions_resume h]
    exact .same fun _ _ => id
  | safeSend ws target =>
    obtain ⟨h₁, hh, h⟩ := Option.bind_eq_some_iff.1 h
    rw [subscriptions_safeSend h]
    exact .same fun _ _ => id
  | disconnect ws msgId now =>
    simp only [step] at h
    split at h
    · rename_i s hh
      obtain rfl := Option.some.inj h
      exact subscription_step_unregister hh msgId now
    · contradiction
  | timer task =>
    simp only [step] at h
    split at h
    · simp only [Option.ite_none_left_eq_some] at h
      obtain rfl := Option.some.inj h.2
      rw [subscriptions_timeoutRequest]
      exact .same fun _ _ => id
    · contradiction
  | timerSent task =>
    simp only [step] at h
    split at h
    · simp only [Option.ite_none_right_eq_some] at h
      obtain rfl := Option.some.inj h.2
      exact .same fun _ _ => id
    · contradiction

/-! ### The two maps -/

/-- The maps are inverse to each other and about connected sandboxes, no channel is empty and no
sandbox is in too many. -/
structure ConsistentMaps (E : BrokerEnv π) (u : Subscriptions) : Prop where
  inverse : ∀ c s, s ∈ members u.channels c ↔ c ∈ members u.sandboxChannels s
  noEmpty : ∀ c, u.channels.lookup c ≠ some []
  connected : ∀ s, (∃ c, s ∈ members u.channels c) ∨ (u.sandboxChannels.lookup s).isSome →
    (u.connections.lookup s).isSome
  bounded : ∀ s, (members u.sandboxChannels s).length ≤ E.config.maxChannelsPerSandbox

/-- What holds of the maps in every state before a sandbox that is not connected subscribes. -/
structure LinkedMaps (E : BrokerEnv π) (u : Subscriptions) : Prop where
  linked : Linked u.channels u.sandboxChannels
  connected : ∀ s, (u.sandboxChannels.lookup s).isSome → (u.connections.lookup s).isSome
  bounded : ∀ s, (members u.sandboxChannels s).length ≤ E.config.maxChannelsPerSandbox

theorem LinkedMaps.consistent {u : Subscriptions} (h : LinkedMaps E u) : ConsistentMaps E u := by
  refine ⟨fun c s => h.linked.inverse c s, h.linked.noEmpty, ?_, h.bounded⟩
  rintro s (⟨c, hs⟩ | hs)
  · apply h.connected
    have hc := (h.linked.inverse c s).1 hs
    rw [members] at hc
    by_contra hnone
    simp [Option.not_isSome_iff_eq_none.1 hnone] at hc
  · exact h.connected s hs

/-- A sandbox that subscribes is connected. -/
def ConnectedSubscriber (E : BrokerEnv π) (b : Broker π) (e : BrokerEvent π) : Prop :=
  ∀ s c, b.AsksFor E .subscribe s c e → (b.connections.lookup s).isSome

theorem SubscriptionStep.linked {u : Subscriptions} (h : SubscriptionStep E b e u)
    (hl : Linked b.channels b.sandboxChannels) : Linked u.channels u.sandboxChannels := by
  cases h with
  | same | connected => exact hl
  | @subscribed _ s c ha hroom => exact (hl.congr (members_setDefault _ s)).link c s
  | @full _ s c ha => exact hl.congr (members_setDefault _ s)
  | @unsubscribed _ s c chans ha hchans =>
    obtain rfl : members b.sandboxChannels s = chans := members_of_lookup hchans
    exact hl.unlink c s
  | @unknown _ s c ha hchans =>
    refine (hl.unlink c s).congr fun s' => ?_
    rw [members_insert]
    split
    · subst s'
      rw [members_of_none hchans, List.erase_nil]
    · rfl
  | @disconnected ws s msgId now hh hc => exact hl.drop s

theorem SubscriptionStep.connected_subscriber {u : Subscriptions} (h : SubscriptionStep E b e u)
    (hconn : ∀ s, (b.sandboxChannels.lookup s).isSome → (b.connections.lookup s).isSome)
    (hg : ConnectedSubscriber E b e) {s : String} (hs : (u.sandboxChannels.lookup s).isSome) :
    (u.connections.lookup s).isSome := by
  cases h with
  | same => exact hconn s hs
  | @connected ws s' hfree =>
    by_cases he : s = s'
    · subst he
      simp
    · rw [AList.lookup_insert_ne he]
      exact hconn s hs
  | @subscribed _ s' c ha hroom =>
    by_cases he : s = s'
    · subst he
      exact hg s c ha
    · rw [AList.lookup_insert_ne he, lookup_setDefault_ne he] at hs
      exact hconn s hs
  | @full _ s' c ha =>
    by_cases he : s = s'
    · subst he
      exact hg s c ha
    · rw [lookup_setDefault_ne he] at hs
      exact hconn s hs
  | @unsubscribed _ s' c chans ha hchans =>
    by_cases he : s = s'
    · subst he
      exact hconn s (by simp [hchans])
    · rw [AList.lookup_insert_ne he] at hs
      exact hconn s hs
  | unknown ha hchans => exact hconn s hs
  | @disconnected ws s' msgId now hh hc =>
    have hne : s ≠ s' := by
      rintro rfl
      simp at hs
    rw [AList.lookup_erase_ne hne] at hs ⊢
    exact hconn s hs

theorem SubscriptionStep.bounded {u : Subscriptions} (h : SubscriptionStep E b e u)
    (hb : ∀ s, (members b.sandboxChannels s).length ≤ E.config.maxChannelsPerSandbox)
    (s : String) : (members u.sandboxChannels s).length ≤ E.config.maxChannelsPerSandbox := by
  cases h with
  | same | connected | unknown => exact hb s
  | @subscribed _ s' c ha hroom =>
    rw [members_insert]
    split
    · rw [List.length_insert]
      split <;> omega
    · rw [members_setDefault]
      exact hb s
  | full ha =>
    rw [members_setDefault]
    exact hb s
  | @unsubscribed _ s' c chans ha hchans =>
    obtain rfl : members b.sandboxChannels s' = chans := members_of_lookup hchans
    rw [members_insert]
    split
    · exact List.length_erase_le.trans (hb s')
    · exact hb s
  | disconnected hh hc =>
    rw [members_erase]
    split
    · exact Nat.zero_le _
    · exact hb s

/-- Who asks for a channel, or leaves the bus. -/
def Moves (E : BrokerEnv π) (b : Broker π) (s c : String) (e : BrokerEvent π) : Prop :=
  b.AsksFor E .subscribe s c e ∨ b.AsksFor E .unsubscribe s c e ∨
    ∃ ws msgId now, e = .disconnect ws msgId now ∧ b.handlers.lookup ws = some ⟨s, .recv⟩

/-- A sandbox that does nothing about a channel stays where it is. -/
theorem SubscriptionStep.stays {u : Subscriptions} (h : SubscriptionStep E b e u) {s c : String}
    (hm : ¬ b.Moves E s c e) : s ∈ members u.channels c ↔ s ∈ members b.channels c := by
  cases h with
  | same | connected | full => exact Iff.rfl
  | @subscribed _ s' c' ha hroom =>
    rw [members_insert]
    split
    · subst c
      have hne : s ≠ s' := by
        rintro rfl
        exact hm (Or.inl ha)
      simp [hne]
    · exact Iff.rfl
  | @unsubscribed _ s' c' chans ha hchans | @unknown _ s' c' ha hchans =>
    rw [members_leave]
    split
    · subst c
      have hne : s ≠ s' := by
        rintro rfl
        exact hm (Or.inr (Or.inl ha))
      exact List.mem_erase_of_ne hne
    · exact Iff.rfl
  | @disconnected ws s' msgId now hh hc =>
    have hne : s ≠ s' := by
      rintro rfl
      exact hm (Or.inr (Or.inr ⟨ws, msgId, now, rfl, hh⟩))
    exact mem_foldl_leave_of_ne hne _ _ _

/-- Nobody is in the channel without a name. -/
theorem SubscriptionStep.unnamed {u : Subscriptions} (h : SubscriptionStep E b e u)
    (hb : members b.channels "" = []) : members u.channels "" = [] := by
  cases h with
  | same | connected | full => exact hb
  | @subscribed _ s c ha hroom =>
    have hc : "" ≠ c := by
      obtain ⟨ws, m, now, rfl, -⟩ := asksFor_frame ha
      exact (truthy_eq_some.1 ha.2.2.2).2.symm
    rw [members_insert, if_neg hc]
    exact hb
  | @unsubscribed _ s c chans ha hchans | @unknown _ s c ha hchans =>
    rw [members_leave, hb]
    split
    · rename_i hc
      rw [← hc, hb]
      rfl
    · rfl
  | @disconnected ws s msgId now hh hc =>
    rw [List.eq_nil_iff_forall_not_mem]
    intro s' hs'
    have hmem := mem_of_mem_foldl_leave hs'
    rw [hb] at hmem
    contradiction

theorem linkedMaps_step (hi : LinkedMaps E b.subscriptions) (hg : ConnectedSubscriber E b e)
    (h : b.step E e = some b') : LinkedMaps E b'.subscriptions := by
  have hstep := subscription_step h
  exact ⟨hstep.linked hi.linked, fun s hs => hstep.connected_subscriber hi.connected hg hs,
    hstep.bounded hi.bounded⟩

theorem asksFor_unique {op op' : Op} {s s' c c' : String} (h : b.AsksFor E op s c e)
    (h' : b.AsksFor E op' s' c' e) : op' = op ∧ s' = s := by
  obtain ⟨ws, m, now, rfl, -⟩ := asksFor_frame h
  obtain ⟨hh, hop, -⟩ := h
  obtain ⟨hh', hop', -⟩ := h'
  obtain ⟨rfl, -⟩ := Handler.mk.inj (Option.some.inj (hh.symm.trans hh'))
  exact ⟨hop'.symm.trans hop, rfl⟩

/-- A sandbox that subscribes is in one of the maps afterwards, and no connection is new. -/
theorem subscriber_known {s c : String} (ha : b.AsksFor E .subscribe s c e)
    (h : b.step E e = some b') :
    (b'.sandboxChannels.lookup s).isSome ∧ b'.connections = b.connections := by
  have hchans : b'.subscriptions.sandboxChannels = b'.sandboxChannels := rfl
  have hconn : b'.subscriptions.connections = b'.connections := rfl
  rw [← hchans, ← hconn]
  generalize hu : b'.subscriptions = u
  have hstep := hu ▸ subscription_step h
  cases hstep with
  | same hs => exact absurd ha (hs s c)
  | connected | disconnected => exact ha.elim
  | subscribed ha' =>
    obtain ⟨-, rfl⟩ := asksFor_unique ha ha'
    exact ⟨by simp, rfl⟩
  | full ha' =>
    obtain ⟨-, rfl⟩ := asksFor_unique ha ha'
    exact ⟨isSome_setDefault _ _ _, rfl⟩
  | unsubscribed ha' | unknown ha' =>
    obtain ⟨hop, -⟩ := asksFor_unique ha ha'
    contradiction

/-- The two maps stay consistent in a run exactly if every sandbox is connected when it
subscribes. -/
theorem subscriptions_consistent_iff {tr : List (Broker π × BrokerEvent π)}
    (h : (brokerMachine E).Trace tr b) :
    Machine.Always (fun b => ConsistentMaps E b.subscriptions) tr b ↔
      Machine.Guarded (ConnectedSubscriber E) tr := by
  refine h.always_iff_guarded_of_invariant (I := fun b => LinkedMaps E b.subscriptions)
    ⟨Linked.empty, fun s hs => by contradiction, fun s => Nat.zero_le _⟩
    (fun b hi => hi.consistent) ?_
  intro b e b' hi hs
  refine ⟨?_, fun hg => linkedMaps_step hi hg hs⟩
  intro hP s c ha
  obtain ⟨hknown, hconn⟩ := subscriber_known ha hs
  have hc := hP.connected s (Or.inr hknown)
  exact hconn ▸ hc

/-! ### A duplicate that outlives its connection -/

/-- The duplicate subscribes when the connection that it duplicates is gone. -/
def duplicateStays : List (BrokerEvent String) :=
  [.connect 0 "a", .connect 1 "a", .disconnect 0 "m-0" 0, .resume 0 .ok,
    .frame 1 (.ok subscribeSystem) 1]

theorem subscriptions_consistent_iff_duplicateStays : ∃ tr b,
    (brokerMachine jsonText).Trace tr b ∧ tr.map Prod.snd = duplicateStays ∧
      (Machine.Always (fun b => ConsistentMaps jsonText b.subscriptions) tr b ↔
        Machine.Guarded (ConnectedSubscriber jsonText) tr) := by
  obtain ⟨tr, b, h, hevents, -⟩ := Machine.Trace.of_check (M := brokerMachine jsonText)
    duplicateStays (p := fun _ _ => true) (by decide)
  exact ⟨tr, b, h, hevents, subscriptions_consistent_iff h⟩

/-- `a` is subscribed and not connected. -/
theorem subscriptions_inconsistent : ¬ ∀ tr b, (brokerMachine jsonText).Trace tr b →
    ConsistentMaps jsonText b.subscriptions := by
  intro hall
  obtain ⟨tr, b, h, -, hcheck⟩ := Machine.Trace.of_check (M := brokerMachine jsonText)
    duplicateStays (p := fun _ b => decide ("a" ∈ members b.channels "system") &&
      decide (b.connections.lookup "a" = none)) (by decide)
  simp only [Bool.and_eq_true, decide_eq_true_eq] at hcheck
  have hconn := (hall tr b h).connected "a" (Or.inl ⟨"system", hcheck.1⟩)
  have hnone : b.subscriptions.connections.lookup "a" = none := hcheck.2
  rw [hnone] at hconn
  contradiction

end Broker

end NemoClaw
