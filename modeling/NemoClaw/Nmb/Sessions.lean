import NemoClaw.Lib.Transcript
import NemoClaw.Nmb.Confinement
import NemoClaw.Nmb.Ordering

/-! What a client gets for its frames. The handler of a connection serves one frame at a time: it
writes what the frame asks for, answers it with an ACK or an ERROR, and reads the next one. -/

namespace NemoClaw

open Lib

namespace Broker

variable {π : Type}

/-- A frame that was read, with the broker and the time of its reading. -/
abbrev Reading (π : Type) := Broker π × Except String (NMBMessage π) × ℚ

def reads (ws : Ws) (tr : List (Broker π × BrokerEvent π)) : List (Reading π) :=
  tr.filterMap fun p => match p.2 with
    | .frame ws' raw now => if ws' = ws then some (p.1, raw, now) else none
    | _ => none

/-- The frames that the handler of `ws` wrote, to whomever. -/
def written (E : BrokerEnv π) (ws : Ws) (tr : List (Broker π × BrokerEvent π)) :
    List (SentFrame π) :=
  tr.flatMap fun p => if p.2.socket = some ws then writes E p else []

/-- An ACK or an ERROR for the client of `ws`. -/
def answers (ws : Ws) (f : SentFrame π) : Bool :=
  decide (f.ws = ws ∧ (f.frame.op = .ack ∨ f.frame.op = .error))

/-- The id that the answer to a frame has. -/
def Reading.id : Reading π → String
  | (_, .error _, _) => ""
  | (_, .ok m, _) => m.id

/-- Frames that are not acknowledged. -/
def Reading.oneWay : Reading π → Prop
  | (_, .error _, _) => False
  | (_, .ok m, _) => m.op = .reply ∨ m.op = .stream

def ackFrame (msgId : String) : NMBMessage π := { op := .ack, id := msgId }

section

variable (E : BrokerEnv π) (ws : Ws) (s : String)

/-- All that the handler of `s` writes for a frame. -/
inductive Exchange : Reading π → List (SentFrame π) → Prop
  | unparsed {q why now} :
      Exchange (q, .error why, now) [⟨ws, errorFrame "" .invalidFrame why, none⟩]
  | refused {q m now code text} (hr : q.Refused E s m now) :
      Exchange (q, .ok m, now) [⟨ws, errorFrame m.id code text, none⟩]
  | delivered {q m now t w} (hr : ¬ q.Refused E s m now) (hop : m.op = .send ∨ m.op = .request)
      (ht : truthy m.toSandbox = some t) (hc : q.connections.lookup t = some w) :
      Exchange (q, .ok m, now) [⟨w, (stamp m s now).makeDeliver, none⟩, ⟨ws, ackFrame m.id, none⟩]
  | lost {q m now t w text task} (hr : ¬ q.Refused E s m now)
      (hop : m.op = .send ∨ m.op = .request ∨ m.op = .stream)
      (ht : truthy m.toSandbox = some t) (hc : q.connections.lookup t = some w) :
      Exchange (q, .ok m, now) [⟨w, (stamp m s now).makeDeliver, none⟩,
        ⟨ws, errorFrame m.id .targetOffline text, task⟩]
  | streamed {q m now t w} (hr : ¬ q.Refused E s m now) (hop : m.op = .stream)
      (ht : truthy m.toSandbox = some t) (hc : q.connections.lookup t = some w) :
      Exchange (q, .ok m, now) [⟨w, (stamp m s now).makeDeliver, none⟩]
  | replied {q m now rid tracked w} (hr : ¬ q.Refused E s m now) (hop : m.op = .reply)
      (hrid : m.replyTo = some rid) (hp : q.pending.lookup rid = some tracked)
      (hc : q.connections.lookup tracked.owner = some w) :
      Exchange (q, .ok m, now) [⟨w, (stamp m s now).makeDeliver, some tracked.timeoutTask⟩]
  | unheard {q m now rid tracked} (hr : ¬ q.Refused E s m now) (hop : m.op = .reply)
      (hrid : m.replyTo = some rid) (hp : q.pending.lookup rid = some tracked)
      (hc : q.connections.lookup tracked.owner = none) : Exchange (q, .ok m, now) []
  | registered {q m now} (hr : ¬ q.Refused E s m now)
      (hop : m.op = .subscribe ∨ m.op = .unsubscribe) :
      Exchange (q, .ok m, now) [⟨ws, ackFrame m.id, none⟩]
  | published {q m now c} {fanned : List Ws} (hr : ¬ q.Refused E s m now) (hop : m.op = .publish)
      (hc : truthy m.channel = some c)
      (hperm : fanned.Perm (q.subscriberSockets c (some s))) :
      Exchange (q, .ok m, now) (fanned.map (fun w => ⟨w, (stamp m s now).makeDeliver, none⟩) ++
        [⟨ws, ackFrame m.id, none⟩])

/-- What the handler has written of it when it suspends. -/
inductive Begun : Reading π → Phase π → List (SentFrame π) → Prop
  | sending {q m now t w} (hr : ¬ q.Refused E s m now) (hop : m.op = .send)
      (ht : truthy m.toSandbox = some t) (hc : q.connections.lookup t = some w) :
      Begun (q, .ok m, now) (.sendDeliver (stamp m s now))
        [⟨w, (stamp m s now).makeDeliver, none⟩]
  | requesting {q m now t w task} (hr : ¬ q.Refused E s m now) (hop : m.op = .request)
      (ht : truthy m.toSandbox = some t) (hc : q.connections.lookup t = some w) :
      Begun (q, .ok m, now) (.requestDeliver (stamp m s now) task)
        [⟨w, (stamp m s now).makeDeliver, none⟩]
  | streaming {q m now t w} (hr : ¬ q.Refused E s m now) (hop : m.op = .stream)
      (ht : truthy m.toSandbox = some t) (hc : q.connections.lookup t = some w) :
      Begun (q, .ok m, now) (.streamDeliver (stamp m s now))
        [⟨w, (stamp m s now).makeDeliver, none⟩]
  | replying {q m now part} (hx : Exchange E ws s (q, .ok m, now) part) :
      Begun (q, .ok m, now) (.replyDeliver (stamp m s now)) part
  | fanning {q m now c} {fanned left : List Ws} (hr : ¬ q.Refused E s m now)
      (hop : m.op = .publish) (hc : truthy m.channel = some c)
      (hperm : (fanned ++ left).Perm (q.subscriberSockets c (some s))) :
      Begun (q, .ok m, now) (.publishFanout (stamp m s now) left)
        (fanned.map fun w => ⟨w, (stamp m s now).makeDeliver, none⟩)
  | acked {x a part} (hx : Exchange E ws s x part) : Begun x (.ack a) part
  | failed {x a part} (hx : Exchange E ws s x part) : Begun x (.error a) part

end

section

variable {E : BrokerEnv π} {ws : Ws} {s : String} {x : Reading π} {phase : Phase π}
  {part out : List (SentFrame π)}

theorem Begun.serving (h : Begun E ws s x phase part) : phase.serving = true := by
  cases h <;> rfl

/-- What is begun can be ended. -/
theorem Begun.exists_exchange (h : Begun E ws s x phase part) :
    ∃ more, Exchange E ws s x (part ++ more) := by
  cases h with
  | sending hr hop ht hc => exact ⟨[_], .delivered hr (Or.inl hop) ht hc⟩
  | requesting hr hop ht hc => exact ⟨[_], .delivered hr (Or.inr hop) ht hc⟩
  | streaming hr hop ht hc => exact ⟨[], .streamed hr hop ht hc⟩
  | replying hx | acked hx | failed hx => exact ⟨[], by rw [List.append_nil]; exact hx⟩
  | @fanning q m now c fanned left hr hop hc hperm =>
    have hx : Exchange E ws s (q, .ok m, now) _ := .published hr hop hc hperm
    rw [List.map_append, List.append_assoc] at hx
    exact ⟨_, hx⟩

theorem filter_answers_deliver (fanned : List Ws) (m : NMBMessage π) (now : ℚ) :
    (fanned.map fun w => (⟨w, (stamp m s now).makeDeliver, none⟩ : SentFrame π)).filter
      (answers ws) = [] := by
  refine List.filter_eq_nil_iff.2 ?_
  intro f hf
  obtain ⟨w, -, rfl⟩ := List.mem_map.1 hf
  simp [answers, NMBMessage.makeDeliver]

/-- A frame gets one answer, and none at most if it is a reply or a chunk of a stream. -/
theorem Exchange.answered (h : Exchange E ws s x out) :
    (out.filter (answers ws)).map (fun f => f.frame.id) = [x.id] ∨
      x.oneWay ∧ out.filter (answers ws) = [] := by
  cases h with
  | unparsed | refused => exact Or.inl (by simp [answers, errorFrame, Reading.id])
  | delivered =>
    exact Or.inl (by simp [answers, ackFrame, NMBMessage.makeDeliver, Reading.id])
  | lost => exact Or.inl (by simp [answers, errorFrame, NMBMessage.makeDeliver, Reading.id])
  | streamed hr hop => exact Or.inr ⟨Or.inr hop, by simp [answers, NMBMessage.makeDeliver]⟩
  | replied hr hop => exact Or.inr ⟨Or.inl hop, by simp [answers, NMBMessage.makeDeliver]⟩
  | unheard hr hop => exact Or.inr ⟨Or.inl hop, rfl⟩
  | registered => exact Or.inl (by simp [answers, ackFrame, Reading.id])
  | published =>
    left
    rw [List.filter_append, filter_answers_deliver]
    simp [answers, ackFrame, Reading.id]

end

/-! ### What one step writes -/

section

variable {E : BrokerEnv π} {b b' : Broker π} {s : String} {ws : Ws} {m : NMBMessage π} {now : ℚ}

/-- `b'` follows from `b` by reading a frame: it is answered, or begun. -/
def Takes (E : BrokerEnv π) (b b' : Broker π) (ws : Ws) (s : String) (x : Reading π) : Prop :=
  ∃ phase new, Served b b' ws s phase new ∧
    (phase = .recv ∧ Exchange E ws s x new ∨ phase ≠ .recv ∧ Begun E ws s x phase new)

theorem takes_dispatched {raw : Except String (NMBMessage π)}
    (hd : Dispatched E b s ws raw now b') : Takes E b b' ws s (b, raw, now) := by
  have hsame : SameRoutes b b := ⟨rfl, rfl, rfl, rfl, rfl⟩
  cases hd with
  | malformed => exact ⟨_, _, served_send b s ws ws _ none _, .inr ⟨by simp, .failed .unparsed⟩⟩
  | refused hr | offline hr =>
    exact ⟨_, _, served_send b s ws ws _ none _, .inr ⟨by simp, .failed (.refused hr)⟩⟩
  | full hr =>
    refine ⟨_, _, (served_send (b.listed s) s ws ws _ none _).congr ?_,
      .inr ⟨by simp, .failed (.refused hr)⟩⟩
    exact ⟨rfl, rfl, rfl, rfl, rfl⟩
  | forwarded hr hop ht hc =>
    refine ⟨_, _, served_send _ _ _ _ _ _ _, .inr ?_⟩
    rcases hop with ⟨hop, rfl⟩ | ⟨hop, rfl⟩
    · exact ⟨by simp, .sending hr hop ht hc⟩
    · exact ⟨by simp, .streaming hr hop ht hc⟩
  | admitted hr hm ht hc =>
    exact ⟨_, _, (served_send _ _ _ _ _ _ _).congr ⟨rfl, rfl, rfl, rfl, rfl⟩,
      .inr ⟨by simp, .requesting hr hm.op ht hc⟩⟩
  | replied hr hop hrid hp hc =>
    exact ⟨_, _, (served_send _ _ _ _ _ _ _).congr ⟨rfl, rfl, rfl, rfl, rfl⟩,
      .inr ⟨by simp, .replying (.replied hr hop (truthy_eq_some.1 hrid).1 hp hc)⟩⟩
  | unheard hr hop hrid hp hc =>
    exact ⟨_, _, (served_auditMsg _ _ _ _ _ _).congr ⟨rfl, rfl, rfl, rfl, rfl⟩,
      .inl ⟨rfl, .unheard hr hop (truthy_eq_some.1 hrid).1 hp hc⟩⟩
  | subscribed hr hop | unsubscribed hr hop =>
    refine ⟨_, _, (served_send _ s ws ws _ none _).congr ?_,
      .inr ⟨by simp, .acked (.registered hr (by simp [hop]))⟩⟩
    exact ⟨rfl, rfl, rfl, rfl, rfl⟩
  | @unread m now c hr hop hc hnone =>
    have hperm : ([] : List Ws).Perm (b.subscriberSockets c (some s)) := by rw [hnone]
    exact ⟨_, _, served_send b s ws ws _ none _,
      .inr ⟨by simp, .acked (.published hr hop hc hperm)⟩⟩
  | @published m now c hr hop hc =>
    have hbegun : Begun E ws s (b, .ok m, now)
        (.publishFanout (stamp m s now) (b.subscriberSockets c (some s))) [] :=
      .fanning hr hop hc (List.Perm.refl ([] ++ b.subscriberSockets c (some s)))
    exact ⟨_, _, served_await b s ws _, .inr ⟨by simp, hbegun⟩⟩

/-- `b'` follows from `b` by a step of a handler that is serving a frame: it is answered, or begun
further. -/
def Continues (E : BrokerEnv π) (b b' : Broker π) (ws : Ws) (s : String) (old : Phase π) : Prop :=
  ∃ phase new, Served b b' ws s phase new ∧
    (phase = .recv ∧ (∀ x part, Begun E ws s x old part → Exchange E ws s x (part ++ new)) ∨
      phase ≠ .recv ∧ ∀ x part, Begun E ws s x old part → Begun E ws s x phase (part ++ new))

theorem continues_quiet {b₀ : Broker π} (h : SameRoutes b₀ b) {old : Phase π}
    (hx : ∀ x part, Begun E ws s x old part → Exchange E ws s x part) (a : Option (NMBMessage π))
    (status : DeliveryStatus) :
    Continues E b ((b₀.auditMsg a status).await s ws .recv) ws s old := by
  refine ⟨_, _, (served_auditMsg b₀ a status s ws .recv).congr h, .inl ⟨rfl, ?_⟩⟩
  intro x part hbegun
  rw [List.append_nil]
  exact hx x part hbegun

theorem continues_ack {b₀ : Broker π} (h : SameRoutes b₀ b) {old : Phase π} {id : String}
    (hx : ∀ x part, Begun E ws s x old part →
      Exchange E ws s x (part ++ [⟨ws, ackFrame id, none⟩])) (a : Option (NMBMessage π)) :
    Continues E b (b₀.sendAck s ws id a) ws s old :=
  ⟨_, _, (served_send b₀ s ws ws _ none _).congr h,
    .inr ⟨by simp, fun x part hbegun => .acked (hx x part hbegun)⟩⟩

theorem continues_error {b₀ : Broker π} (h : SameRoutes b₀ b) {old : Phase π} {id text : String}
    {task : Option TaskId} (hx : ∀ x part, Begun E ws s x old part →
      Exchange E ws s x (part ++ [⟨ws, errorFrame id .targetOffline text, task⟩]))
    (a : Option (NMBMessage π)) :
    Continues E b (b₀.sendError s ws id .targetOffline text a task) ws s old :=
  ⟨_, _, (served_send b₀ s ws ws _ task _).congr h,
    .inr ⟨by simp, fun x part hbegun => .failed (hx x part hbegun)⟩⟩

theorem continues_resume {r : SendResult} {old : Phase π} (hserving : old.serving = true)
    (h : b.resume s ws r old = some b') : Continues E b b' ws s old := by
  have hsame : SameRoutes b b := ⟨rfl, rfl, rfl, rfl, rfl⟩
  cases old with
  | sendDeliver msg =>
    obtain rfl := Option.some.inj h
    cases r with
    | ok =>
      refine continues_ack hsame ?_ _
      intro x part hbegun
      cases hbegun with
      | sending hr hop ht hc => exact .delivered hr (Or.inl hop) ht hc
    | connectionClosed =>
      refine continues_error hsame ?_ _
      intro x part hbegun
      cases hbegun with
      | sending hr hop ht hc => exact .lost hr (Or.inl hop) ht hc
  | requestDeliver msg task =>
    obtain rfl := Option.some.inj h
    cases r with
    | ok =>
      refine continues_ack hsame ?_ _
      intro x part hbegun
      cases hbegun with
      | requesting hr hop ht hc => exact .delivered hr (Or.inr hop) ht hc
    | connectionClosed =>
      have hrollback : SameRoutes (((b.popPending msg.id).cancelTimer task).freeSlot s) b :=
        ⟨rfl, rfl, rfl, rfl, rfl⟩
      refine continues_error hrollback ?_ _
      intro x part hbegun
      cases hbegun with
      | requesting hr hop ht hc => exact .lost hr (Or.inr (Or.inl hop)) ht hc
  | streamDeliver msg =>
    obtain rfl := Option.some.inj h
    cases r with
    | ok =>
      refine continues_quiet hsame ?_ none .delivered
      intro x part hbegun
      cases hbegun with
      | streaming hr hop ht hc => exact .streamed hr hop ht hc
    | connectionClosed =>
      refine continues_error hsame ?_ _
      intro x part hbegun
      cases hbegun with
      | streaming hr hop ht hc => exact .lost hr (Or.inr (Or.inr hop)) ht hc
  | replyDeliver msg =>
    have hquiet : ∀ x part, Begun E ws s x (.replyDeliver msg) part → Exchange E ws s x part := by
      intro x part hbegun
      cases hbegun with
      | replying hx => exact hx
    obtain rfl := Option.some.inj h
    cases r with
    | ok => exact continues_quiet hsame hquiet _ _
    | connectionClosed => exact continues_quiet hsame hquiet _ _
  | publishFanout msg left =>
    cases left with
    | nil =>
      obtain rfl := Option.some.inj h
      refine continues_ack hsame ?_ _
      intro x part hbegun
      cases hbegun with
      | fanning hr hop hc hperm =>
        rw [List.append_nil] at hperm
        exact .published hr hop hc hperm
    | cons => simp [resume] at h
  | ack a =>
    obtain rfl := Option.some.inj h
    refine continues_quiet hsame ?_ _ _
    intro x part hbegun
    cases hbegun with
    | acked hx => exact hx
  | error a =>
    obtain rfl := Option.some.inj h
    refine continues_quiet hsame ?_ _ _
    intro x part hbegun
    cases hbegun with
    | failed hx => exact hx
  | recv => simp [resume] at h
  | shutdownFanout | logDisconnection | closed => contradiction

theorem continues_safeSend {target : Ws} {old : Phase π} (hserving : old.serving = true)
    (h : b.safeSend s ws target old = some b') : Continues E b b' ws s old := by
  cases old with
  | publishFanout msg left =>
    simp only [safeSend, Option.ite_none_right_eq_some] at h
    obtain ⟨hmem, h⟩ := h
    obtain rfl := Option.some.inj h
    refine ⟨_, _, served_send b s ws target _ none _, .inr ⟨by simp, ?_⟩⟩
    intro x part hbegun
    cases hbegun with
    | @fanning q m now c fanned left hr hop hc hperm =>
      have hmoved : (fanned ++ [target] ++ left.erase target).Perm (fanned ++ left) := by
        rw [List.append_assoc]
        exact (List.perm_cons_erase hmem).symm.append_left fanned
      have hbegun : Begun E ws s (q, .ok m, now) _ _ := .fanning hr hop hc (hmoved.trans hperm)
      rw [List.map_append] at hbegun
      exact hbegun
  | shutdownFanout => contradiction
  | _ => simp [safeSend] at h

end

/-! ### Whole sessions -/

/-- What is under way, for a handler that is in this phase. -/
def underway : Phase π → Option (Phase π)
  | .recv => none
  | phase => some phase

/-- What the handler of `ws` has read and written so far. -/
inductive Session (E : BrokerEnv π) (ws : Ws) (tr : List (Broker π × BrokerEvent π))
    (b : Broker π) : Prop
  | absent (hh : b.handlers.lookup ws = none) (hr : reads ws tr = []) (hw : written E ws tr = [])
  | serving {s phase} (hh : b.handlers.lookup ws = some ⟨s, phase⟩) (hs : phase.serving = true)
      (ht : Transcript (Exchange E ws s) (Begun E ws s) (reads ws tr) (written E ws tr)
        (underway phase))
  | leaving {s phase notices out} (hh : b.handlers.lookup ws = some ⟨s, phase⟩)
      (hs : phase.serving = false)
      (ht : Transcript (Exchange E ws s) (Begun E ws s) (reads ws tr) out none)
      (hw : written E ws tr = out ++ notices)
      (hn : ∀ f ∈ notices, PolicedBroker.Announces f.frame)
      (hphase : ∀ f left, phase = .shutdownFanout f left → PolicedBroker.Announces f)

section

variable {E : BrokerEnv π} {b b' : Broker π} {e : BrokerEvent π} {s : String} {ws : Ws}
  {tr : List (Broker π × BrokerEvent π)}

theorem underway_of_ne {phase : Phase π} (h : phase ≠ .recv) : underway phase = some phase := by
  cases phase with
  | recv => exact absurd rfl h
  | _ => rfl

variable (tr) in
theorem reads_frame (raw : Except String (NMBMessage π)) (now : ℚ) :
    reads ws (tr ++ [(b, .frame ws raw now)]) = reads ws tr ++ [(b, raw, now)] := by
  simp [reads]

variable (tr) in
theorem reads_other (he : ∀ raw now, e ≠ .frame ws raw now) :
    reads ws (tr ++ [(b, e)]) = reads ws tr := by
  unfold reads
  rw [List.filterMap_append]
  cases e with
  | frame ws' raw now =>
    have hne : ws' ≠ ws := fun heq => he raw now (heq ▸ rfl)
    simp [hne]
  | _ => simp

variable (tr) in
theorem written_own (he : e.socket = some ws) (h : b.step E e = some b')
    {new : List (SentFrame π)} (hsent : b'.sent = b.sent ++ new) :
    written E ws (tr ++ [(b, e)]) = written E ws tr ++ new := by
  simp [written, he, writes_eq h hsent]

variable (tr) in
theorem written_other (he : e.socket ≠ some ws) :
    written E ws (tr ++ [(b, e)]) = written E ws tr := by
  simp [written, he]

/-- The steps of others do not matter to a session. -/
theorem Session.other (hsession : Session E ws tr b) (h : b.step E e = some b')
    (he : e.socket ≠ some ws) : Session E ws (tr ++ [(b, e)]) b' := by
  have hhandler := handler_other h he
  have hreads : reads ws (tr ++ [(b, e)]) = reads ws tr := by
    refine reads_other tr ?_
    rintro raw now rfl
    exact he rfl
  have hwritten := written_other (E := E) (b := b) tr he
  cases hsession with
  | absent hh hr hw => exact .absent (hhandler.trans hh) (hreads.trans hr) (hwritten.trans hw)
  | serving hh hs ht =>
    rw [← hreads, ← hwritten] at ht
    exact .serving (hhandler.trans hh) hs ht
  | leaving hh hs ht hw hn hphase =>
    rw [← hreads] at ht
    exact .leaving (hhandler.trans hh) hs ht (hwritten.trans hw) hn hphase

theorem Session.idle (hsession : Session E ws tr b)
    (hh : b.handlers.lookup ws = some ⟨s, .recv⟩) :
    Transcript (Exchange E ws s) (Begun E ws s) (reads ws tr) (written E ws tr) none := by
  cases hsession with
  | absent hh' => cases hh'.symm.trans hh
  | serving hh' hs ht =>
    obtain ⟨rfl, rfl⟩ := Handler.mk.inj (Option.some.inj (hh'.symm.trans hh))
    exact ht
  | leaving hh' hs =>
    obtain ⟨rfl, rfl⟩ := Handler.mk.inj (Option.some.inj (hh'.symm.trans hh))
    contradiction

theorem Session.busy (hsession : Session E ws tr b) {old : Phase π} (hserving : old.serving = true)
    (hh : b.handlers.lookup ws = some ⟨s, old⟩) (hold : old ≠ .recv) :
    Transcript (Exchange E ws s) (Begun E ws s) (reads ws tr) (written E ws tr) (some old) := by
  cases hsession with
  | absent hh' => cases hh'.symm.trans hh
  | serving hh' hs ht =>
    obtain ⟨rfl, rfl⟩ := Handler.mk.inj (Option.some.inj (hh'.symm.trans hh))
    rw [underway_of_ne hold] at ht
    exact ht
  | leaving hh' hs =>
    obtain ⟨rfl, rfl⟩ := Handler.mk.inj (Option.some.inj (hh'.symm.trans hh))
    rw [hs] at hserving
    contradiction

/-- The handler reads a frame. -/
theorem Session.frame (hsession : Session E ws tr b) {raw : Except String (NMBMessage π)} {now : ℚ}
    (h : b.step E (.frame ws raw now) = some b') :
    Session E ws (tr ++ [(b, .frame ws raw now)]) b' := by
  obtain ⟨s, hh, hd⟩ := step_frame h
  have ht := hsession.idle hh
  obtain ⟨phase, new, hs, hx⟩ := takes_dispatched hd
  have hwritten := written_own tr rfl h hs.sent
  rcases hx with ⟨rfl, hx⟩ | ⟨hphase, hx⟩
  · refine .serving hs.lookup rfl ?_
    rw [reads_frame tr, hwritten]
    exact ht.answer hx
  · refine .serving hs.lookup hx.serving ?_
    rw [reads_frame tr, hwritten, underway_of_ne hphase]
    exact ht.begin hx

/-- The handler goes on with the frame that it serves. -/
theorem Session.continue (hsession : Session E ws tr b) (h : b.step E e = some b')
    (he : e.socket = some ws) (hframe : ∀ raw now, e ≠ .frame ws raw now) {old : Phase π}
    (hh : b.handlers.lookup ws = some ⟨s, old⟩) (hserving : old.serving = true)
    (hold : old ≠ .recv) (hc : Continues E b b' ws s old) : Session E ws (tr ++ [(b, e)]) b' := by
  have ht := hsession.busy hserving hh hold
  obtain ⟨phase, new, hs, hx⟩ := hc
  have hwritten := written_own tr he h hs.sent
  rcases hx with ⟨rfl, hx⟩ | ⟨hphase, hx⟩
  · refine .serving hs.lookup rfl ?_
    rw [reads_other tr hframe, hwritten]
    exact ht.finish hx
  · have hserving' : phase.serving = true := by
      obtain ⟨-, x, -, part, -, -, -, hbegun⟩ := ht.exists_of_busy
      exact (hx x part hbegun).serving
    refine .serving hs.lookup hserving' ?_
    rw [reads_other tr hframe, hwritten, underway_of_ne hphase]
    exact ht.proceed hx

/-- The handler takes leave, in which it writes at most the notices of `_unregister`. -/
theorem Session.leave (hsession : Session E ws tr b) (h : b.step E e = some b')
    (he : e.socket = some ws) (hframe : ∀ raw now, e ≠ .frame ws raw now) {old phase : Phase π}
    {new : List (SentFrame π)} (hh : b.handlers.lookup ws = some ⟨s, old⟩)
    (hserving : old.serving = false) (hs : Served b b' ws s phase new)
    (hphase : phase.serving = false) (hnew : ∀ f ∈ new, ∃ left, old = .shutdownFanout f.frame left)
    (hnotice : ∀ f left, phase = .shutdownFanout f left →
      ∃ left', old = .shutdownFanout f left') : Session E ws (tr ++ [(b, e)]) b' := by
  cases hsession with
  | absent hh' => cases hh'.symm.trans hh
  | serving hh' hs' =>
    obtain ⟨rfl, rfl⟩ := Handler.mk.inj (Option.some.inj (hh'.symm.trans hh))
    rw [hs'] at hserving
    contradiction
  | @leaving _ _ notices out hh' _ ht hw hn hannounces =>
    obtain ⟨rfl, rfl⟩ := Handler.mk.inj (Option.some.inj (hh'.symm.trans hh))
    rw [← reads_other (b := b) tr hframe] at ht
    have hnotices : ∀ f ∈ notices ++ new, PolicedBroker.Announces f.frame := by
      intro f hf
      rcases List.mem_append.1 hf with hf | hf
      · exact hn f hf
      · obtain ⟨left, hleft⟩ := hnew f hf
        exact hannounces f.frame left hleft
    refine .leaving hs.lookup hphase ht ?_ hnotices ?_
    · rw [written_own tr he h hs.sent, hw, List.append_assoc]
    · intro f left hf
      obtain ⟨left', hleft⟩ := hnotice f left hf
      exact hannounces f left' hleft

theorem Session.connect (hsession : Session E ws tr b) (h : b.step E (.connect ws s) = some b') :
    Session E ws (tr ++ [(b, .connect ws s)]) b' := by
  obtain ⟨hnew, rfl⟩ := connect_step h
  have hsent : (b.register s ws).sent = b.sent ++ [] := by rw [sent_register, List.append_nil]
  cases hsession with
  | absent hh hr hw =>
    have hserved : (b.register s ws).handlers.lookup ws = some ⟨s, .recv⟩ := by
      rw [handlers_register]
      exact AList.lookup_insert _
    refine .serving hserved rfl ?_
    rw [reads_other tr (by simp), written_own tr rfl h hsent, hr, hw]
    exact .nil
  | serving hh | leaving hh => cases hnew.symm.trans hh

theorem Session.resume {r : SendResult} (hsession : Session E ws tr b)
    (h : b.step E (.resume ws r) = some b') : Session E ws (tr ++ [(b, .resume ws r)]) b' := by
  obtain ⟨⟨s, old⟩, hh, hresume⟩ := Option.bind_eq_some_iff.1 h
  by_cases hserving : old.serving = true
  · refine hsession.continue h rfl (by simp) hh hserving ?_ (continues_resume hserving hresume)
    rintro rfl
    contradiction
  · have hserving := Bool.eq_false_of_not_eq_true hserving
    cases old with
    | shutdownFanout f left =>
      cases left with
      | nil =>
        obtain rfl := Option.some.inj hresume
        exact hsession.leave h rfl (by simp) hh hserving
          ((served_await _ _ _ _).congr ⟨rfl, rfl, rfl, rfl, rfl⟩) rfl (by simp) (by simp)
      | cons => contradiction
    | logDisconnection =>
      obtain rfl := Option.some.inj hresume
      exact hsession.leave h rfl (by simp) hh hserving (served_await _ _ _ _) rfl (by simp)
        (by simp)
    | _ => contradiction

theorem Session.safeSend {target : Ws} (hsession : Session E ws tr b)
    (h : b.step E (.safeSend ws target) = some b') :
    Session E ws (tr ++ [(b, .safeSend ws target)]) b' := by
  obtain ⟨⟨s, old⟩, hh, hsend⟩ := Option.bind_eq_some_iff.1 h
  cases old with
  | publishFanout msg left =>
    exact hsession.continue h rfl (by simp) hh rfl (by simp) (continues_safeSend rfl hsend)
  | shutdownFanout f left =>
    obtain ⟨hmem, hsend⟩ := Option.ite_none_right_eq_some.1 hsend
    obtain rfl := Option.some.inj hsend
    refine hsession.leave h rfl (by simp) hh rfl (served_send b s ws target f none _) rfl ?_ ?_
    · intro f' hf'
      obtain rfl := List.mem_singleton.1 hf'
      exact ⟨left, rfl⟩
    · intro f' left' hf'
      obtain ⟨rfl, -⟩ := Phase.shutdownFanout.inj hf'
      exact ⟨left, rfl⟩
  | _ => contradiction

theorem Session.disconnect {msgId : String} {now : ℚ} (hsession : Session E ws tr b)
    (h : b.step E (.disconnect ws msgId now) = some b') :
    Session E ws (tr ++ [(b, .disconnect ws msgId now)]) b' := by
  have hleft : ∃ s, b.handlers.lookup ws = some ⟨s, .recv⟩ ∧
      b.unregister E s ws msgId now = b' := by
    simp only [Broker.step] at h
    split at h
    · exact ⟨_, ‹_›, Option.some.inj h⟩
    · contradiction
  obtain ⟨s, hh, rfl⟩ := hleft
  obtain ⟨phase, hins, hsent, hphase⟩ := unregister_handler E b s ws msgId now
  have ht := hsession.idle hh
  rw [← reads_other (b := b) (e := .disconnect ws msgId now) tr (by simp)] at ht
  have hlookup : (b.unregister E s ws msgId now).handlers.lookup ws = some ⟨s, phase⟩ := by
    rw [hins]
    exact AList.lookup_insert _
  have hnone : ∀ f ∈ ([] : List (SentFrame π)), PolicedBroker.Announces f.frame := by simp
  refine .leaving hlookup ?_ ht ?_ hnone ?_
  · rcases hphase with rfl | rfl | ⟨left, rfl⟩ <;> rfl
  · rw [List.append_nil, written_own tr rfl h (hsent.trans (List.append_nil _).symm),
      List.append_nil]
  · rintro f left rfl
    rcases hphase with hphase | hphase | ⟨left', hphase⟩
    · contradiction
    · contradiction
    · obtain ⟨rfl, -⟩ := Phase.shutdownFanout.inj hphase
      exact ⟨rfl, rfl⟩

theorem Session.step (hsession : Session E ws tr b) (h : b.step E e = some b') :
    Session E ws (tr ++ [(b, e)]) b' := by
  by_cases he : e.socket = some ws
  · cases e with
    | timer | timerSent => contradiction
    | _ =>
      obtain rfl := Option.some.inj he
      first
        | exact hsession.connect h
        | exact hsession.frame h
        | exact hsession.resume h
        | exact hsession.safeSend h
        | exact hsession.disconnect h
  · exact hsession.other h he

theorem session_of_trace (h : (brokerMachine E).Trace tr b) (ws : Ws) : Session E ws tr b := by
  induction h with
  | nil => exact .absent rfl rfl rfl
  | snoc _ hs ih => exact ih.step hs

/-- A handler answers its own client only. -/
theorem HandlerStep.answers_ws (hb : b.NoticesDeliver) {ws₁ : Ws} {old phase : Phase π}
    {new : List (SentFrame π)} (ho : HandlerStep E b ws₁ s e old phase new)
    (hh : b.handlers.lookup ws₁ = some ⟨s, old⟩) (hne : ws₁ ≠ ws) :
    new.filter (answers ws) = [] := by
  cases ho with
  | acked | refused => simp [answers, hne]
  | forward | reply | fanout => simp [answers, NMBMessage.makeDeliver]
  | notice => simp [answers, (hb _ _ _ _ hh).1]
  | publish | quiet => rfl

theorem answers_of_other (hb : b.NoticesDeliver) (h : b.step E e = some b')
    (he : e.socket ≠ some ws) {new : List (SentFrame π)} (hsent : b'.sent = b.sent ++ new) :
    new.filter (answers ws) = [] := by
  cases route_step h with
  | connected =>
    rw [sent_register] at hsent
    rw [List.self_eq_append_right.1 hsent, List.filter_nil]
  | @disconnected ws₁ s₁ msgId now hh =>
    obtain ⟨phase, -, hsame, -⟩ := unregister_handler E b s₁ ws₁ msgId now
    rw [hsame] at hsent
    rw [List.self_eq_append_right.1 hsent, List.filter_nil]
  | @served _ ws₁ s₁ old phase new' _ he' hh hs ho =>
    obtain rfl := List.append_cancel_left (hs.sent.symm.trans hsent)
    exact ho.answers_ws hb hh fun heq => he (heq ▸ he')
  | @fired _ _ new' he' hc hw hr hh hs hf =>
    obtain rfl := List.append_cancel_left (hs.symm.trans hsent)
    refine List.filter_eq_nil_iff.2 ?_
    intro f hmem
    simp [answers, hf f hmem]

/-- Nobody but its own handler answers a client. -/
theorem answers_eq (h : (brokerMachine E).Trace tr b) (ws : Ws) :
    b.NoticesDeliver ∧ b.sent.filter (answers ws) = (written E ws tr).filter (answers ws) := by
  induction h with
  | nil => exact ⟨fun ws s f left hh => by contradiction, rfl⟩
  | @snoc tr b e b' _ hs ih =>
    obtain ⟨hnotices, hanswers⟩ := ih
    refine ⟨noticesDeliver_step hnotices hs, ?_⟩
    obtain ⟨new, hsent⟩ := sent_grows hs
    rw [hsent, List.filter_append, hanswers]
    by_cases he : e.socket = some ws
    · rw [written_own tr he hs hsent, List.filter_append]
    · rw [written_other tr he, answers_of_other hnotices hs he hsent, List.append_nil]

/-- In every moment, what the handler of a connection wrote is what the frames that it read ask for,
in their order, but that the last one may be unfinished. A client whose handler waits for the next
frame got for each of its frames one answer with the id of the frame, in their order, but for
replies and streams, where it may be none. -/
theorem answered_in_order (h : (brokerMachine E).Trace tr b) (ws : Ws) :
    (∃ s outs rest, written E ws tr = outs.flatten ++ rest ∧
      (List.Forall₂ (Exchange E ws s) (reads ws tr) outs ∧
          (∀ f ∈ rest, PolicedBroker.Announces f.frame) ∨
        ∃ xs x more, reads ws tr = xs ++ [x] ∧ List.Forall₂ (Exchange E ws s) xs outs ∧
          Exchange E ws s x (rest ++ more))) ∧
    ∀ s, b.handlers.lookup ws = some ⟨s, .recv⟩ →
      ∃ outs, written E ws tr = outs.flatten ∧
        List.Forall₂ (Exchange E ws s) (reads ws tr) outs ∧
        b.sent.filter (answers ws) = (outs.map (List.filter (answers ws))).flatten ∧
        List.Forall₂ (fun x (group : List (SentFrame π)) =>
          group.map (fun f => f.frame.id) = [x.id] ∨ x.oneWay ∧ group = [])
          (reads ws tr) (outs.map (List.filter (answers ws))) := by
  have hsession := session_of_trace h ws
  constructor
  · cases hsession with
    | absent hh hr hw =>
      refine ⟨"", [], [], hw, Or.inl ⟨?_, by simp⟩⟩
      rw [hr]
      exact .nil
    | @serving s phase hh hs ht =>
      cases hphase : underway phase with
      | none =>
        rw [hphase] at ht
        obtain ⟨outs, hout, hx⟩ := ht.exists_of_idle
        exact ⟨s, outs, [], by rw [hout, List.append_nil], Or.inl ⟨hx, by simp⟩⟩
      | some phase' =>
        rw [hphase] at ht
        obtain ⟨xs, x, outs, part, hreads, hout, hx, hbegun⟩ := ht.exists_of_busy
        obtain ⟨more, hmore⟩ := hbegun.exists_exchange
        exact ⟨s, outs, part, hout, Or.inr ⟨xs, x, more, hreads, hx, hmore⟩⟩
    | @leaving s phase notices out hh hs ht hw hn =>
      obtain ⟨outs, hout, hx⟩ := ht.exists_of_idle
      exact ⟨s, outs, notices, by rw [hw, hout], Or.inl ⟨hx, hn⟩⟩
  · intro s hh
    obtain ⟨outs, hout, hx⟩ := (hsession.idle hh).exists_of_idle
    refine ⟨outs, hout, hx, ?_, ?_⟩
    · rw [(answers_eq h ws).2, hout, List.filter_flatten]
    · rw [List.forall₂_map_right_iff]
      exact hx.imp fun _ _ hexchange => hexchange.answered

end

/-- A message to a sandbox that is there, and one to a sandbox that is not. -/
def twoMessages : List (BrokerEvent String) :=
  [.connect 1 "orchestrator", .connect 2 "coding",
    .frame 1 (.ok (PolicedBroker.taskFor "m-1" "coding")) 1, .resume 1 .ok, .resume 1 .ok,
    .frame 1 (.ok (PolicedBroker.taskFor "m-2" "ui")) 2, .resume 1 .ok]

theorem answered_in_order_twoMessages : ∃ tr b, (brokerMachine jsonText).Trace tr b ∧
    tr.map Prod.snd = twoMessages ∧
      (b.sent.filter (answers 1)).map (fun f => (f.frame.op, f.frame.id)) =
        [(.ack, "m-1"), (.error, "m-2")] ∧
      ∃ outs, written jsonText 1 tr = outs.flatten ∧
        List.Forall₂ (Exchange jsonText 1 "orchestrator") (reads 1 tr) outs ∧
        b.sent.filter (answers 1) = (outs.map (List.filter (answers 1))).flatten ∧
        List.Forall₂ (fun x (group : List (SentFrame String)) =>
          group.map (fun f => f.frame.id) = [x.id] ∨ x.oneWay ∧ group = [])
          (reads 1 tr) (outs.map (List.filter (answers 1))) := by
  obtain ⟨tr, b, h, hevents, hcheck⟩ :=
    Machine.Trace.of_check (M := brokerMachine jsonText) twoMessages
      (p := fun _ b => decide (b.handlers.lookup 1 = some ⟨"orchestrator", .recv⟩ ∧
        (b.sent.filter (answers 1)).map (fun f => (f.frame.op, f.frame.id)) =
          [(.ack, "m-1"), (.error, "m-2")])) (by decide +kernel)
  obtain ⟨hidle, hsent⟩ := of_decide_eq_true hcheck
  exact ⟨tr, b, h, hevents, hsent, (answered_in_order h 1).2 _ hidle⟩

end Broker

end NemoClaw
