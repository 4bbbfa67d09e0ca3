import NemoClaw.Nmb.Routing

/-! Connections and names. `_register` keeps the connection that came first, but the handler of
the duplicate goes on into its receive loop: its frames are routed under the name of the other
connection until the close takes effect. -/

namespace NemoClaw

open Lib

/-- The message that a handler in this phase still has to deliver, to acknowledge or to audit. -/
def Phase.inHand {π : Type} : Phase π → Option (NMBMessage π)
  | .sendDeliver m | .requestDeliver m _ | .replyDeliver m | .streamDeliver m
  | .publishFanout m _ => some m
  | .ack a | .error a => a
  | .recv | .shutdownFanout _ _ | .logDisconnection | .closed => none

/-- The phases of a handler that has had nothing to route. -/
def Phase.unrouted {π : Type} : Phase π → Prop
  | .recv | .error none | .closed => True
  | _ => False

theorem Phase.unrouted_recv {π : Type} : (Phase.recv : Phase π).unrouted := trivial

theorem Phase.unrouted_error {π : Type} : (Phase.error none : Phase π).unrouted := trivial

namespace Broker

variable {π : Type} {E : BrokerEnv π} {b b' : Broker π}

/-- Who is registered: the handlers still serving, duplicates apart, are the registered
connections of their sandboxes, and the duplicates are in no table. -/
structure Registry (b : Broker π) : Prop where
  serving : ∀ ws s phase, b.handlers.lookup ws = some ⟨s, phase⟩ → phase.serving = true →
    ws ∉ b.rejecting → b.connections.lookup s = some ws
  known : ∀ s ws, b.connections.lookup s = some ws →
    ws ∉ b.rejecting ∧ b.handlers.lookup ws ≠ none
  named : ∀ ws, b.wsToSandbox.lookup ws ≠ none → ws ∉ b.rejecting ∧ b.handlers.lookup ws ≠ none
  rejected : ∀ ws ∈ b.rejecting, b.handlers.lookup ws ≠ none

theorem handlers_insert_ne_none {b : Broker π} {ws ws' : Ws} (h : Handler π)
    (hold : b.handlers.lookup ws' ≠ none) : (b.handlers.insert ws h).lookup ws' ≠ none := by
  by_cases he : ws' = ws
  · subst he
    simp
  · rw [AList.lookup_insert_ne he]
    exact hold

/-- A second connection under a name that is taken is to be rejected. -/
theorem registry_register_of_taken (hr : Registry b) {s : String} {ws : Ws}
    (hw : b.handlers.lookup ws = none) (hc : (b.connections.lookup s).isSome = true) :
    Registry (b.register s ws) := by
  have hne : ∀ {ws'}, b.handlers.lookup ws' ≠ none → ws' ≠ ws := by
    intro ws' hold heq
    subst heq
    exact hold hw
  rw [register_of_taken hc]
  refine ⟨?_, ?_, ?_, ?_⟩
  · intro ws' s' phase hh hp hrej
    rcases Dict.lookup_insert_eq_some.1 hh with ⟨rfl, -⟩ | ⟨-, hh⟩
    · exact absurd List.mem_cons_self hrej
    · exact hr.serving ws' s' phase hh hp fun hmem => hrej (List.mem_cons_of_mem _ hmem)
  · intro s' ws' hc'
    obtain ⟨hrej, hold⟩ := hr.known s' ws' hc'
    exact ⟨by simp [await, hne hold, hrej], handlers_insert_ne_none _ hold⟩
  · intro ws' hn
    obtain ⟨hrej, hold⟩ := hr.named ws' hn
    exact ⟨by simp [await, hne hold, hrej], handlers_insert_ne_none _ hold⟩
  · intro ws' hrej
    rcases List.mem_cons.1 hrej with rfl | hrej
    · simp [await]
    · exact handlers_insert_ne_none _ (hr.rejected ws' hrej)

/-- The first connection under a name gets it. -/
theorem registry_register_of_free (hr : Registry b) {s : String} {ws : Ws}
    (hw : b.handlers.lookup ws = none) (hc : b.connections.lookup s = none) :
    Registry (b.register s ws) := by
  have hfree : (b.register s ws).connections = b.connections.insert s ws ∧
      (b.register s ws).wsToSandbox = b.wsToSandbox.insert ws s ∧
        (b.register s ws).rejecting = b.rejecting := register_of_free hc
  obtain ⟨hconn, hnames, hrejecting⟩ := hfree
  have hfresh : ws ∉ b.rejecting := fun hmem => hr.rejected ws hmem hw
  refine ⟨?_, ?_, ?_, ?_⟩
  · intro ws' s' phase hh hp hrej
    rw [handlers_register] at hh
    rw [hconn]
    rw [hrejecting] at hrej
    rcases Dict.lookup_insert_eq_some.1 hh with ⟨rfl, hph⟩ | ⟨-, hh⟩
    · obtain ⟨rfl, -⟩ := Handler.mk.inj hph
      simp
    · have hold := hr.serving ws' s' phase hh hp hrej
      refine Dict.lookup_insert_eq_some.2 (Or.inr ⟨?_, hold⟩)
      intro heq
      subst heq
      cases hc.symm.trans hold
  · intro s' ws' hc'
    rw [hconn] at hc'
    rw [hrejecting, handlers_register]
    rcases Dict.lookup_insert_eq_some.1 hc' with ⟨-, rfl⟩ | ⟨-, hc'⟩
    · exact ⟨hfresh, by simp⟩
    · obtain ⟨hrej, hold⟩ := hr.known s' ws' hc'
      exact ⟨hrej, handlers_insert_ne_none _ hold⟩
  · intro ws' hn
    rw [hnames] at hn
    rw [hrejecting, handlers_register]
    by_cases he : ws' = ws
    · subst he
      exact ⟨hfresh, by simp⟩
    · rw [AList.lookup_insert_ne he] at hn
      obtain ⟨hrej, hold⟩ := hr.named ws' hn
      exact ⟨hrej, handlers_insert_ne_none _ hold⟩
  · intro ws' hrej
    rw [hrejecting] at hrej
    rw [handlers_register]
    exact handlers_insert_ne_none _ (hr.rejected ws' hrej)

theorem registry_register (hr : Registry b) {s : String} {ws : Ws}
    (hw : b.handlers.lookup ws = none) : Registry (b.register s ws) := by
  cases hc : b.connections.lookup s with
  | some ws₀ => exact registry_register_of_taken hr hw (by simp [hc])
  | none => exact registry_register_of_free hr hw hc

theorem registry_unregister (hr : Registry b) {s : String} {ws : Ws}
    (hh : b.handlers.lookup ws = some ⟨s, .recv⟩) (msgId : String) (now : ℚ) :
    Registry (b.unregister E s ws msgId now) := by
  obtain ⟨phase, hins, -, hphase⟩ := unregister_handler E b s ws msgId now
  have hdone : phase.serving = false := by
    rcases hphase with rfl | rfl | ⟨left, rfl⟩ <;> rfl
  have hnames : (b.unregister E s ws msgId now).wsToSandbox = b.wsToSandbox.erase ws ∧
      (b.unregister E s ws msgId now).rejecting = b.rejecting := by
    by_cases hc : b.connections.lookup s = some ws
    · exact (unregister_of_registered E hc msgId now).2
    · rw [unregister_of_stale E hc]
      exact ⟨rfl, rfl⟩
  -- only the name of this very connection is freed
  have hconn : ∀ s' ws', (b.unregister E s ws msgId now).connections.lookup s' = some ws' ↔
      b.connections.lookup s' = some ws' ∧ ¬ (s' = s ∧ ws' = ws) := by
    intro s' ws'
    by_cases hc : b.connections.lookup s = some ws
    · rw [(unregister_of_registered E hc msgId now).1, Dict.lookup_erase_eq_some]
      refine ⟨fun ⟨hne, hl⟩ => ⟨hl, fun he => hne he.1⟩, fun ⟨hl, hne⟩ => ⟨?_, hl⟩⟩
      intro heq
      subst heq
      exact hne ⟨rfl, Option.some.inj (hl.symm.trans hc)⟩
    · rw [unregister_of_stale E hc]
      refine ⟨fun hl => ⟨hl, ?_⟩, fun hl => hl.1⟩
      intro hex
      obtain ⟨rfl, rfl⟩ := hex
      exact hc hl
  refine ⟨?_, ?_, ?_, ?_⟩
  · intro ws' s' phase' hh' hp hrej
    rw [hins] at hh'
    rw [hnames.2] at hrej
    rcases Dict.lookup_insert_eq_some.1 hh' with ⟨-, hph⟩ | ⟨hne, hold⟩
    · obtain ⟨-, rfl⟩ := Handler.mk.inj hph
      rw [hdone] at hp
      contradiction
    · exact (hconn s' ws').2 ⟨hr.serving ws' s' phase' hold hp hrej, fun he => hne he.2⟩
  · intro s' ws' hc'
    obtain ⟨hrej, hold⟩ := hr.known s' ws' ((hconn s' ws').1 hc').1
    rw [hnames.2, hins]
    exact ⟨hrej, handlers_insert_ne_none _ hold⟩
  · intro ws' hn
    rw [hnames.1] at hn
    obtain ⟨name, hname⟩ := Option.ne_none_iff_exists'.1 hn
    have hold := (Dict.lookup_erase_eq_some.1 hname).2
    obtain ⟨hrej, hold⟩ := hr.named ws' (by simp [hold])
    rw [hnames.2, hins]
    exact ⟨hrej, handlers_insert_ne_none _ hold⟩
  · intro ws' hrej
    rw [hnames.2] at hrej
    rw [hins]
    exact handlers_insert_ne_none _ (hr.rejected ws' hrej)

theorem registry_step (hr : Registry b) {e : BrokerEvent π} (h : b.step E e = some b') :
    Registry b' := by
  cases route_step h with
  | connected hs hw => exact registry_register hr hw
  | disconnected hh => exact registry_unregister hr hh _ _
  | fired he hc hw hrej hh hs hf =>
    refine ⟨?_, ?_, ?_, ?_⟩
    · simpa only [hc, hrej, hh] using hr.serving
    · simpa only [hc, hrej, hh] using hr.known
    · simpa only [hw, hrej, hh] using hr.named
    · simpa only [hrej, hh] using hr.rejected
  | @served e ws s old phase new b' he hh hs ho =>
    refine ⟨?_, ?_, ?_, ?_⟩
    · intro ws' s' phase' hh' hp hrej
      rw [hs.handlers] at hh'
      rw [hs.rejecting] at hrej
      rw [hs.connections]
      rcases Dict.lookup_insert_eq_some.1 hh' with ⟨rfl, hph⟩ | ⟨-, hold⟩
      · obtain ⟨rfl, rfl⟩ := Handler.mk.inj hph
        exact hr.serving ws' s old hh (ho.serving hp) hrej
      · exact hr.serving ws' s' phase' hold hp hrej
    · intro s' ws' hc'
      rw [hs.connections] at hc'
      obtain ⟨hrej, hold⟩ := hr.known s' ws' hc'
      rw [hs.rejecting, hs.handlers]
      exact ⟨hrej, handlers_insert_ne_none _ hold⟩
    · intro ws' hn
      rw [hs.wsToSandbox] at hn
      obtain ⟨hrej, hold⟩ := hr.named ws' hn
      rw [hs.rejecting, hs.handlers]
      exact ⟨hrej, handlers_insert_ne_none _ hold⟩
    · intro ws' hrej
      rw [hs.rejecting] at hrej
      rw [hs.handlers]
      exact handlers_insert_ne_none _ (hr.rejected ws' hrej)

theorem registry_initial : Registry ({} : Broker π) := by
  refine ⟨?_, ?_, ?_, ?_⟩
  · intro _ _ _ h
    contradiction
  · intro _ _ h
    contradiction
  · intro _ h
    exact absurd rfl h
  · intro _ h
    contradiction

/-! ### Rejected connections -/

/-- What a sandbox owns in the broker: its connection, its subscriptions and its requests. -/
structure Tables where
  connections : Dict String Ws
  wsToSandbox : Dict Ws String
  channels : Dict String (List String)
  sandboxChannels : Dict String (List String)
  pending : Dict String TrackedPending
  pendingCounts : Dict String ℕ

def tables (b : Broker π) : Tables :=
  ⟨b.connections, b.wsToSandbox, b.channels, b.sandboxChannels, b.pending, b.pendingCounts⟩

/-- What the handler of `ws` does at this step goes beyond an ERROR to its own client: it changes a
table, makes an audit call, writes another frame, or takes a message in hand. -/
def Routes (E : BrokerEnv π) (b : Broker π) (e : BrokerEvent π) (b' : Broker π) (ws : Ws) : Prop :=
  b'.tables ≠ b.tables ∨ b'.audit ≠ b.audit ∨
    (∃ f ∈ writes E (b, e), ¬ (f.ws = ws ∧ f.frame.op = .error)) ∨
    ∃ h m, b'.handlers.lookup ws = some h ∧ h.phase.inHand = some m

/-- What is routed for `s` comes from the connection registered for `s`, and a rejected connection
routes nothing. -/
structure Identified (E : BrokerEnv π) (b : Broker π) (e : BrokerEvent π) : Prop where
  registered : ∀ ws s phase b', e.socket = some ws → b.handlers.lookup ws = some ⟨s, phase⟩ →
    phase.serving = true → b.step E e = some b' → Routes E b e b' ws →
      b.connections.lookup s = some ws
  rejected : ∀ ws b', e.socket = some ws → b.step E e = some b' → ws ∈ b'.rejecting →
    ¬ Routes E b e b' ws

/-- A frame that a rejected connection sends before its close takes effect is malformed, or refused
without a trace. -/
def QuietDuplicate (E : BrokerEnv π) (b : Broker π) : BrokerEvent π → Prop
  | .frame ws (.ok m) now => ws ∈ b.rejecting →
      ∀ s, b.handlers.lookup ws = some ⟨s, .recv⟩ → b.Inert E s m now
  | _ => True

def Unrouted (b : Broker π) : Prop :=
  ∀ ws s phase, ws ∈ b.rejecting → b.handlers.lookup ws = some ⟨s, phase⟩ → phase.unrouted

section

variable {e : BrokerEvent π} {ws : Ws} {s : String} {phase : Phase π} {m : NMBMessage π} {now : ℚ}

theorem routes_of_inHand (hs : b'.handlers.lookup ws = some ⟨s, phase⟩)
    (hm : phase.inHand = some m) : Routes E b e b' ws :=
  Or.inr (Or.inr (Or.inr ⟨_, m, hs, hm⟩))

/-- A handler that only answers its own client with an ERROR routes nothing. -/
theorem not_routes {new : List (SentFrame π)} (h : b.step E e = some b')
    (htables : b'.tables = b.tables) (haudit : b'.audit = b.audit)
    (hsent : b'.sent = b.sent ++ new) (hnew : ∀ f ∈ new, f.ws = ws ∧ f.frame.op = .error)
    (hs : b'.handlers.lookup ws = some ⟨s, phase⟩) (hphase : phase.unrouted) :
    ¬ Routes E b e b' ws := by
  rintro (hne | hne | ⟨f, hf, hother⟩ | ⟨hd, m, hlookup, hm⟩)
  · exact hne htables
  · exact hne haudit
  · rw [writes_eq h hsent] at hf
    exact hother (hnew f hf)
  · obtain rfl := Option.some.inj (hs.symm.trans hlookup)
    cases phase with
    | error a =>
      cases a with
      | none => contradiction
      | some m => exact hphase
    | recv | closed => contradiction
    | _ => exact hphase

theorem tables_listed (hc : (b.sandboxChannels.lookup s).isSome = true) :
    (b.listed s).tables = b.tables := by
  simp [listed, tables, Dict.setDefault, hc]

theorem tables_listed_ne (hc : ¬ (b.sandboxChannels.lookup s).isSome = true) :
    (b.listed s).tables ≠ b.tables := by
  intro heq
  have hchannels : (b.listed s).sandboxChannels = b.sandboxChannels :=
    congrArg Tables.sandboxChannels heq
  apply hc
  rw [← hchannels, listed, Dict.setDefault, if_neg hc, AList.lookup_insert]
  rfl

/-- A malformed frame is not routed. -/
theorem not_routes_of_malformed {why : String} (hh : b.handlers.lookup ws = some ⟨s, .recv⟩)
    (h : b.step E (.frame ws (.error why) now) = some b') :
    ¬ Routes E b (.frame ws (.error why) now) b' ws := by
  cases dispatched_of_frame hh h with
  | malformed =>
    refine not_routes h rfl rfl rfl ?_ (AList.lookup_insert _) Phase.unrouted_error
    intro f hf
    obtain rfl := List.mem_singleton.1 hf
    exact ⟨rfl, rfl⟩

/-- A frame is routed unless it is inert. -/
theorem routes_iff_not_inert (hh : b.handlers.lookup ws = some ⟨s, .recv⟩)
    (h : b.step E (.frame ws (.ok m) now) = some b') :
    Routes E b (.frame ws (.ok m) now) b' ws ↔ ¬ b.Inert E s m now := by
  have hinsert : ∀ (b₀ : Broker π) (h₀ : Handler π),
      (b₀.handlers.insert ws h₀).lookup ws = some h₀ := fun b₀ _ => AList.lookup_insert b₀.handlers
  have herror : ∀ {id : String} {code : ErrorCode} {text : String},
      ∀ f ∈ [(⟨ws, errorFrame id code text, none⟩ : SentFrame π)],
        f.ws = ws ∧ f.frame.op = .error := by
    intro id code text f hf
    obtain rfl := List.mem_singleton.1 hf
    exact ⟨rfl, rfl⟩
  have haccepted : ¬ b.Refused E s m now → ¬ b.Inert E s m now := mt refused_of_inert
  cases dispatched_of_frame hh h with
  | refused hr hi =>
    refine iff_of_false ?_ (not_not.2 hi)
    exact not_routes h rfl rfl rfl herror (hinsert _ _) Phase.unrouted_error
  | offline hr hi => exact iff_of_true (routes_of_inHand (hinsert _ _) rfl) hi
  | full hr hv hop hc hfull =>
    have hinert : b.Inert E s m now ↔ (b.sandboxChannels.lookup s).isSome = true := by
      rw [inert_iff_of_valid hv, hop]
      simp only [hc, reduceCtorEq, hfull, true_and, false_or]
    rw [hinert]
    by_cases hlisted : (b.sandboxChannels.lookup s).isSome = true
    · refine iff_of_false ?_ (not_not.2 hlisted)
      exact not_routes h (tables_listed hlisted) rfl rfl herror (hinsert _ _)
        Phase.unrouted_error
    · exact iff_of_true (Or.inl (tables_listed_ne hlisted)) hlisted
  | forwarded hr hop =>
    refine iff_of_true ?_ (haccepted hr)
    rcases hop with ⟨-, rfl⟩ | ⟨-, rfl⟩
    · exact routes_of_inHand (hinsert _ _) rfl
    · exact routes_of_inHand (hinsert _ _) rfl
  | admitted hr | replied hr | unread hr | published hr =>
    exact iff_of_true (routes_of_inHand (hinsert _ _) rfl) (haccepted hr)
  | unheard hr =>
    refine iff_of_true (Or.inr (Or.inl fun heq => ?_)) (haccepted hr)
    exact List.cons_ne_nil _ _ (List.append_right_eq_self.1 heq)
  | subscribed hr | unsubscribed hr =>
    refine iff_of_true (Or.inr (Or.inr (Or.inl ?_))) (haccepted hr)
    rw [writes_eq h rfl]
    exact ⟨_, List.mem_singleton_self _, by simp⟩

theorem handler_of_inert (hi : b.Inert E s m now) (hd : Dispatched E b s ws (.ok m) now b') :
    b'.handlers.lookup ws = some ⟨s, .error none⟩ := by
  have hrefused := refused_of_inert hi
  cases hd with
  | refused | full => exact AList.lookup_insert _
  | offline hr hnot => exact absurd hi hnot
  | forwarded hr | admitted hr | replied hr | unheard hr | subscribed hr | unsubscribed hr
  | unread hr | published hr => exact absurd hrefused hr

/-- A step of a rejected connection that has had nothing to route. -/
theorem rejected_step (hr : Registry b) (hu : Unrouted b) (hg : QuietDuplicate E b e)
    (h : b.step E e = some b') (he : e.socket = some ws) (hrej : ws ∈ b.rejecting) :
    ¬ Routes E b e b' ws ∧ ∃ s phase, b'.handlers.lookup ws = some ⟨s, phase⟩ ∧ phase.unrouted := by
  cases e with
  | timer task | timerSent task => contradiction
  | connect ws₁ s =>
    obtain rfl := Option.some.inj he
    simp only [step, Option.ite_none_left_eq_some, not_or] at h
    obtain ⟨⟨-, hw⟩, -⟩ := h
    exact absurd (by simpa using hw) (hr.rejected ws₁ hrej)
  | frame ws₁ raw now =>
    obtain rfl := Option.some.inj he
    obtain ⟨s, hh, hd⟩ := step_frame h
    cases raw with
    | error why =>
      refine ⟨not_routes_of_malformed hh h, s, .error none, ?_, trivial⟩
      cases hd with
      | malformed => exact AList.lookup_insert _
    | ok m =>
      have hi := hg hrej s hh
      have hquiet : ¬ Routes E b (.frame ws₁ (.ok m) now) b' ws₁ := by
        rw [routes_iff_not_inert hh h, not_not]
        exact hi
      exact ⟨hquiet, s, .error none, handler_of_inert hi hd, trivial⟩
  | resume ws₁ r =>
    obtain rfl := Option.some.inj he
    obtain ⟨⟨s, phase⟩, hh, hresume⟩ := Option.bind_eq_some_iff.1 h
    have hphase := hu ws₁ s phase hrej hh
    cases phase with
    | error a =>
      cases a with
      | none =>
        obtain rfl := Option.some.inj hresume
        have hlookup : (b.handlers.insert ws₁ ⟨s, .recv⟩).lookup ws₁ = some ⟨s, .recv⟩ :=
          AList.lookup_insert _
        exact ⟨not_routes h rfl rfl (List.append_nil _).symm (by simp) hlookup trivial,
          s, .recv, hlookup, trivial⟩
      | some m => exact absurd hphase id
    | recv | closed => simp [resume] at hresume
    | _ => exact absurd hphase id
  | safeSend ws₁ target =>
    obtain rfl := Option.some.inj he
    obtain ⟨⟨s, phase⟩, hh, hsend⟩ := Option.bind_eq_some_iff.1 h
    have hphase := hu ws₁ s phase hrej hh
    cases phase with
    | error a | recv | closed => simp [safeSend] at hsend
    | _ => exact absurd hphase id
  | disconnect ws₁ msgId now =>
    obtain rfl := Option.some.inj he
    have hstep := h
    simp only [step] at hstep
    split at hstep
    · next s hh =>
      obtain rfl := Option.some.inj hstep
      have hc : b.connections.lookup s ≠ some ws₁ := fun hc => (hr.known s ws₁ hc).1 hrej
      have hname : b.wsToSandbox.lookup ws₁ = none := by
        by_contra hne
        exact (hr.named ws₁ hne).1 hrej
      rw [unregister_of_stale E hc, Dict.erase_of_lookup_none hname] at h ⊢
      have hlookup : (b.handlers.insert ws₁ ⟨s, .closed⟩).lookup ws₁ = some ⟨s, .closed⟩ :=
        AList.lookup_insert _
      exact ⟨not_routes h rfl rfl (List.append_nil _).symm (by simp) hlookup trivial,
        s, .closed, hlookup, trivial⟩
    · contradiction

theorem rejecting_of_frame {raw : Except String (NMBMessage π)}
    (h : b.step E (.frame ws raw now) = some b') : b'.rejecting = b.rejecting := by
  obtain ⟨s, hh, hd⟩ := step_frame h
  obtain ⟨phase, new, hs, -⟩ := serves_dispatched hd
  exact hs.rejecting

/-- Only the connection that is rejected at a step comes to be rejected. -/
theorem rejecting_step (h : b.step E e = some b') (hrej : ws ∈ b'.rejecting) :
    ws ∈ b.rejecting ∨ ∃ s, e = .connect ws s ∧ (b.connections.lookup s).isSome = true := by
  cases route_step h with
  | @connected ws₁ s₁ hs hw =>
    cases hc : b.connections.lookup s₁ with
    | none =>
      rw [(register_of_free hc).2.2] at hrej
      exact Or.inl hrej
    | some ws₀ =>
      rw [register_of_taken (by simp [hc])] at hrej
      rcases List.mem_cons.1 hrej with rfl | hrej
      · exact Or.inr ⟨s₁, rfl, by simp [hc]⟩
      · exact Or.inl hrej
  | @disconnected ws₁ s₁ msgId now hh₁ =>
    left
    by_cases hc : b.connections.lookup s₁ = some ws₁
    · rwa [(unregister_of_registered E hc msgId now).2.2] at hrej
    · rwa [unregister_of_stale E hc] at hrej
  | served he hh hs ho => exact Or.inl (hs.rejecting ▸ hrej)
  | fired he hc hw hr hh hs hf => exact Or.inl (hr ▸ hrej)

theorem unrouted_step (hr : Registry b) (hu : Unrouted b) (hg : QuietDuplicate E b e)
    (h : b.step E e = some b') : Unrouted b' := by
  intro ws s phase hrej hh
  rcases rejecting_step h hrej with hold | ⟨s₁, rfl, -⟩
  · by_cases he : e.socket = some ws
    · obtain ⟨-, s₁, phase₁, hlookup, hquiet⟩ := rejected_step hr hu hg h he hold
      obtain ⟨-, rfl⟩ := Handler.mk.inj (Option.some.inj (hlookup.symm.trans hh))
      exact hquiet
    · exact hu ws s phase hold ((handler_other h he).symm.trans hh)
  · obtain ⟨-, rfl⟩ := connect_step h
    rw [handlers_register, AList.lookup_insert] at hh
    obtain ⟨-, rfl⟩ := Handler.mk.inj (Option.some.inj hh)
    trivial

/-- A step that rejects a connection, or that a rejected connection takes, routes nothing. -/
theorem not_routes_of_rejecting (hr : Registry b) (hu : Unrouted b) (hg : QuietDuplicate E b e)
    (h : b.step E e = some b') (he : e.socket = some ws) (hrej : ws ∈ b'.rejecting) :
    ¬ Routes E b e b' ws := by
  rcases rejecting_step h hrej with hold | ⟨s, rfl, htaken⟩
  · exact (rejected_step hr hu hg h he hold).1
  · obtain ⟨-, hreg⟩ := connect_step h
    rw [register_of_taken htaken] at hreg
    subst hreg
    exact not_routes h rfl rfl (List.append_nil _).symm (by simp) (AList.lookup_insert _)
      Phase.unrouted_recv

theorem identified_step (hr : Registry b) (hu : Unrouted b) (hg : QuietDuplicate E b e) :
    Identified E b e := by
  constructor
  · intro ws s phase b' he hh hserving hs hroutes
    by_cases hrej : ws ∈ b.rejecting
    · exact absurd hroutes (rejected_step hr hu hg hs he hrej).1
    · exact hr.serving ws s phase hh hserving hrej
  · intro ws b' he hs hrej
    exact not_routes_of_rejecting hr hu hg hs he hrej

theorem quietDuplicate_of_identified (h : b.step E e = some b') (hident : Identified E b e) :
    QuietDuplicate E b e := by
  unfold QuietDuplicate
  split
  · next ws m now =>
    intro hrej s hh
    have hkept : ws ∈ b'.rejecting := by
      rw [rejecting_of_frame h]
      exact hrej
    have hquiet := hident.rejected ws b' rfl h hkept
    rwa [routes_iff_not_inert hh h, not_not] at hquiet
  · trivial

end

/-- In a run of the broker every step respects the identity of connections exactly if every frame
that is read from a rejected connection before its close takes effect is refused without a trace. -/
theorem connection_identity_iff {tr : List (Broker π × BrokerEvent π)}
    (h : (brokerMachine E).Trace tr b) :
    (∀ p ∈ tr, Identified E p.1 p.2) ↔ Machine.Guarded (QuietDuplicate E) tr := by
  constructor
  · intro hall p hp
    obtain ⟨pre, -, -, b', hs⟩ := h.prefix_of_mem hp
    exact quietDuplicate_of_identified hs (hall p hp)
  · intro hg p hp
    have hinv := (h.always_of_guarded (I := fun b => Registry b ∧ Unrouted b) hg
      ⟨registry_initial, fun _ _ _ h => by contradiction⟩
      fun b e b' hi hge hs => ⟨registry_step hi.1 hs, unrouted_step hi.1 hi.2 hge hs⟩).1 p hp
    exact identified_step hinv.1 hinv.2 (hg p hp)

/-! ### A duplicate that speaks -/

def subscribeSystem : NMBMessage String :=
  { op := .subscribe, id := "m-1", channel := some "system" }

/-- A second connection takes the name of the first one and subscribes. -/
def duplicateSpeaks : List (BrokerEvent String) :=
  [.connect 0 "a", .connect 1 "a", .frame 1 (.ok subscribeSystem) 0]

theorem connection_identity_iff_duplicateSpeaks : ∃ tr b, (brokerMachine jsonText).Trace tr b ∧
    tr.map Prod.snd = duplicateSpeaks ∧ ((∀ p ∈ tr, Identified jsonText p.1 p.2) ↔
      Machine.Guarded (QuietDuplicate jsonText) tr) := by
  obtain ⟨tr, b, h, hevents, -⟩ := Machine.Trace.of_check (M := brokerMachine jsonText)
    duplicateSpeaks (p := fun _ _ => true) (by decide)
  exact ⟨tr, b, h, hevents, connection_identity_iff h⟩

/-- The rejected connection subscribes `a` to a channel. -/
theorem duplicate_routed : ¬ ∀ tr b, (brokerMachine jsonText).Trace tr b →
    ∀ p ∈ tr, Identified jsonText p.1 p.2 := by
  intro hall
  obtain ⟨tr, b, h, -, hcheck⟩ := Machine.Trace.of_check (M := brokerMachine jsonText)
    duplicateSpeaks (p := fun tr b => decide (1 ∈ b.rejecting ∧ ∃ p ∈ tr,
      p.2.socket = some 1 ∧ (∃ b' ∈ p.1.step jsonText p.2, 1 ∈ b'.rejecting ∧
        ∃ f ∈ writes jsonText p, ¬ (f.ws = 1 ∧ f.frame.op = .error)))) (by decide)
  obtain ⟨-, p, hp, hsocket, b', hs, hrej, hwritten⟩ := of_decide_eq_true hcheck
  exact (hall tr b h p hp).rejected 1 b' hsocket hs hrej (Or.inr (Or.inr (Or.inl hwritten)))

end Broker

end NemoClaw
