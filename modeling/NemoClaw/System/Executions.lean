import NemoClaw.System.AuditRows
import NemoClaw.System.Redelegation

/-! Which sub-agent executes which assignment. The orchestrator may send the task of a delegation
again and again, each time in a message of its own, and the broker goes by the name that a message
is for. So a process executes one assignment at most, none is executed by two of them, and what a
process executes was sent before, to the agent id it was spawned for. -/

namespace NemoClaw

open Lib

/-- The messages that hold assignments. -/
def AssignType {π : Type} (m : NMBMessage π) : Prop := m.type = some MessageType.taskAssign.value

/-- A process begins the task of an assignment. -/
structure Execution (π : Type) where
  call : CallId
  assign : NMBMessage π
  task : TaskAssignPayload

/-! ### What the broker makes of assignments -/

namespace Broker

variable {π : Type} {E : BrokerEnv π} {b b' : Broker π} {e : BrokerEvent π}
  {sent : List (NMBMessage π)}

/-- The assignments among what is written are those that were sent. -/
def Assigned (sent : List (NMBMessage π)) (m : NMBMessage π) : Prop :=
  AssignType m → m.op = .send ∧ m ∈ sent

/-- A delivery of an assignment. -/
structure Assigns (f : SentFrame π) : Prop where
  op : f.frame.op = .deliver
  type : AssignType f.frame

theorem assignType_ne_shutdown {m : NMBMessage π} (hm : AssignType m) :
    m.type ≠ some shutdownType := by
  intro h
  exact absurd (hm.symm.trans h) (by decide)

theorem forwarded_mono {W W' : NMBMessage π → Prop} (hW : ∀ m, W m → W' m) {f : SentFrame π}
    (hf : Forwarded W b f) : Forwarded W' b f := by
  obtain ⟨m, s, now, hm, hframe, hto⟩ := hf
  exact ⟨m, s, now, hW m hm, hframe, hto⟩

theorem traffic_mono {W W' : NMBMessage π → Prop} (hW : ∀ m, W m → W' m) (hb : Traffic W b) :
    Traffic W' b := by
  refine ⟨hb.named, ?_, fun f hf hop => (hb.sent f hf hop).imp_right (forwarded_mono hW)⟩
  intro ws s phase hh
  have hphase := hb.phases ws s phase hh
  cases phase with
  | publishFanout m left =>
    obtain ⟨m₀, s₀, now, hm, hop, heq⟩ := hphase
    exact ⟨m₀, s₀, now, hW m₀ hm, hop, heq⟩
  | _ => exact hphase

/-- A new delivery of an assignment is made of the frame that the broker reads, and for the
connection under the name that the frame is for. -/
theorem assigns_origin (hb : Traffic (Assigned sent) b)
    (he : ∀ ws m now, e = .frame ws (.ok m) now → Assigned sent m) (h : b.step E e = some b')
    {f : SentFrame π} (hf : f ∈ b'.sent) (ha : Assigns f) :
    f ∈ b.sent ∨ ∃ ws m now target, e = .frame ws (.ok m) now ∧ AssignType m ∧
      f.frame.id = m.id ∧ m.toSandbox = some target ∧
        b.connections.lookup target = some f.ws := by
  rcases sent_origin h hf with hold | hto | ⟨ws, s, old, phase, new, hh, ho, hnew⟩
  · exact Or.inl hold
  · cases hto.symm.trans ha.op
  · have hphase := hb.phases ws s old hh
    cases ho with
    | acked _ hack =>
      obtain rfl := List.mem_singleton.1 hnew
      cases hack.symm.trans ha.op
    | refused _ herr =>
      obtain rfl := List.mem_singleton.1 hnew
      cases herr.symm.trans ha.op
    | forward _ ht hc _ =>
      obtain rfl := List.mem_singleton.1 hnew
      exact Or.inr ⟨_, _, _, _, rfl, ha.type, rfl, (truthy_eq_some.1 ht).1, hc⟩
    | reply hreply _ _ _ =>
      obtain rfl := List.mem_singleton.1 hnew
      obtain ⟨hop, -⟩ := he _ _ _ rfl ha.type
      cases hop.symm.trans hreply
    | publish => contradiction
    | fanout _ =>
      obtain rfl := List.mem_singleton.1 hnew
      obtain ⟨m₀, s₀, now, hm, hpublish, rfl⟩ := hphase
      obtain ⟨hop, -⟩ := hm ha.type
      cases hop.symm.trans hpublish
    | notice _ =>
      obtain rfl := List.mem_singleton.1 hnew
      exact absurd hphase (assignType_ne_shutdown ha.type)
    | quiet => contradiction

end Broker

/-! ### What a sub-agent makes of them -/

namespace Agent

variable {π : Type} {C : Codec π} {a a' : Agent π}

/-- A process goes on: it writes no assignment, hears nothing by itself, and does not come back to
waiting. -/
structure GoesOn (a a' : Agent π) : Prop where
  ws : a'.peer.ws = a.peer.ws
  outbox : ∀ m ∈ a'.peer.outbox, m ∈ a.peer.outbox ∨ ¬ AssignType m
  queue : ∀ m ∈ a'.peer.bus.listenQueue, m ∈ a.peer.bus.listenQueue
  phase : a'.phase = .waitingForAssign → a.phase = .waitingForAssign

theorem not_assignType_answer (answer : Answer) (C : Codec π) (id : String)
    (assign : NMBMessage π) :
    ¬ AssignType (replyMessage id assign answer.type.value (answer.dump C)) := by
  cases answer with
  | complete | error => exact type_ne (by simp [Answer.type])

theorem goesOn_reply (a : Agent π) (id : String) (assign : NMBMessage π) (answer : Answer) :
    a.GoesOn (a.reply C id assign answer) := by
  refine ⟨rfl, ?_, fun m hm => hm, fun hphase => by contradiction⟩
  intro m hm
  rcases List.mem_append.1 hm with hm | hm
  · exact Or.inl hm
  · obtain rfl := List.mem_singleton.1 hm
    exact Or.inr (not_assignType_answer answer C id assign)

theorem goesOn_replyValidationError (a : Agent π) (id : String) (assign : NMBMessage π)
    (exc : PayloadValidationError) : a.GoesOn (a.replyValidationError C id assign exc) := by
  unfold replyValidationError
  split
  · exact goesOn_reply a id assign _
  · exact ⟨rfl, fun m hm => Or.inl hm, fun m hm => hm, fun hphase => by contradiction⟩

/-- The process waited; and if it executes a task now, then that of an assignment on its queue. -/
theorem listen_cases {id : String} (h : a.listen C id = some a') :
    a.phase = .waitingForAssign ∧ a.GoesOn a' ∧
      ∀ assign task, a'.phase = .running assign task → assign ∈ a.peer.bus.listenQueue ∧
        AssignType assign ∧ load C.validateAssign .taskAssign assign.payload = .ok task := by
  unfold listen at h
  split at h
  · rename_i msg rest hwaiting hqueue
    have hrest : ∀ m ∈ rest, m ∈ a.peer.bus.listenQueue :=
      fun m hm => hqueue ▸ List.mem_cons_of_mem _ hm
    refine ⟨hwaiting, ?_⟩
    dsimp only at h
    split at h
    · rename_i htype
      split at h
      · rename_i exc hload
        obtain rfl := Option.some.inj h
        have hgoes := goesOn_replyValidationError (C := C)
          { a with peer := { a.peer with bus := { a.peer.bus with listenQueue := rest } } } id msg
          exc
        refine ⟨⟨hgoes.ws, hgoes.outbox, fun m hm => hrest m (hgoes.queue m hm), fun _ => hwaiting⟩,
          ?_⟩
        intro assign task hrunning
        unfold replyValidationError at hrunning
        split at hrunning <;> contradiction
      · rename_i task hload
        obtain rfl := Option.some.inj h
        refine ⟨⟨rfl, fun m hm => Or.inl hm, hrest, fun _ => hwaiting⟩, ?_⟩
        intro assign task' hrunning
        obtain ⟨rfl, rfl⟩ := AgentPhase.running.inj hrunning
        exact ⟨hqueue ▸ List.mem_cons_self, htype, hload⟩
    · obtain rfl := Option.some.inj h
      refine ⟨⟨rfl, fun m hm => Or.inl hm, hrest, fun _ => hwaiting⟩, ?_⟩
      intro assign task hrunning
      cases hwaiting.symm.trans hrunning
  · contradiction

theorem goesOn_finish {id : String} {answer : Answer} {flush : Option AuditFlushPayload}
    (h : a.finish C id answer flush = some a') : a.GoesOn a' := by
  unfold finish at h
  split at h
  · rename_i assign task hphase
    split_ifs at h
    cases flush with
    | none =>
      obtain rfl := Option.some.inj h
      exact goesOn_reply a id assign answer
    | some payload =>
      obtain rfl := Option.some.inj h
      refine ⟨rfl, ?_, fun m hm => hm, fun hphase => by contradiction⟩
      intro m hm
      rcases List.mem_append.1 hm with hm | hm
      · exact Or.inl hm
      · obtain rfl := List.mem_singleton.1 hm
        exact Or.inr (type_ne (by decide))
  · contradiction

theorem goesOn_flushed {id : String} (h : a.flushed C id = some a') : a.GoesOn a' := by
  unfold flushed at h
  split at h
  · obtain rfl := Option.some.inj h
    exact goesOn_reply a id _ _
  · contradiction

/-- A process has written no assignment, and it has heard what it is about to listen to. -/
structure Informed (b : Broker π) (a : Agent π) : Prop where
  outbox : ∀ m ∈ a.peer.outbox, ¬ AssignType m
  heard : ∀ m ∈ a.peer.bus.listenQueue, Heard b a.peer.ws m

theorem GoesOn.informed (h : a.GoesOn a') {b : Broker π} (ha : a.Informed b) : a'.Informed b := by
  refine ⟨?_, ?_⟩
  · intro m hm
    rcases h.outbox m hm with hm | hm
    · exact ha.outbox m hm
    · exact hm
  · intro m hm
    rw [h.ws]
    exact ha.heard m (h.queue m hm)

end Agent

/-! ### The deployment -/

namespace Deployment

variable {π : Type} {E : DeploymentEnv π} {d d' : Deployment π}

/-- The assignment that the orchestrator sends in this step. -/
def assignment (E : DeploymentEnv π) :
    Deployment π × DeploymentEvent π → Option (NMBMessage π)
  | (d, .attempt c id) => (d.sending c).map fun (task, agent) =>
    sendMessage id agent.sandboxId MessageType.taskAssign.value (E.codec.dumpAssign task)
  | _ => none

/-- The task that a process begins in this step. -/
def execution (E : DeploymentEnv π) : Deployment π × DeploymentEvent π → Option (Execution π)
  | (d, .listen c id) =>
    (d.agents.lookup c).bind fun a =>
      (a.listen E.codec id).bind fun a' =>
        match a'.phase with
        | .running assign task => some ⟨c, assign, task⟩
        | _ => none
  | _ => none

def assignments (E : DeploymentEnv π) (tr : List (Deployment π × DeploymentEvent π)) :
    List (NMBMessage π) :=
  tr.filterMap (assignment E)

def executions (E : DeploymentEnv π) (tr : List (Deployment π × DeploymentEvent π)) :
    List (Execution π) :=
  tr.filterMap (execution E)

/-- What is known after a run in which these assignments were sent and these executed. -/
structure Traced (sent : List (NMBMessage π)) (executed : List (Execution π))
    (d : Deployment π) : Prop where
  broker : d.broker.Traffic (Broker.Assigned sent)
  outbox : ∀ m ∈ d.orchestrator.outbox, m ∈ sent
  agents : ∀ c a, d.agents.lookup c = some a → a.Informed d.broker
  named : ∀ c a, d.agents.lookup c = some a → ∃ call, d.manager.calls.lookup c = some call ∧
    d.broker.Behind a.peer.ws call.task.agentId.val
  apart : ∀ c c' a a', d.agents.lookup c = some a → d.agents.lookup c' = some a' →
    a.peer.ws = a'.peer.ws → c = c'
  once : ∀ f ∈ d.broker.sent, ∀ g ∈ d.broker.sent, Broker.Assigns f → Broker.Assigns g →
    f.frame.id = g.frame.id → f.ws = g.ws
  read : ∀ f ∈ d.broker.sent, Broker.Assigns f → f.frame.id ∈ d.ids ∧
    ∀ m ∈ d.orchestrator.outbox, m.id ≠ f.frame.id
  begun : ∀ x ∈ executed, ∃ a, d.agents.lookup x.call = some a ∧
    a.phase ≠ .waitingForAssign ∧ AssignType x.assign ∧ Heard d.broker a.peer.ws x.assign
  calls : (executed.map Execution.call).Nodup
  ids : (executed.map fun x => x.assign.id).Nodup

variable {sent : List (NMBMessage π)} {executed : List (Execution π)}

/-- The manager goes on. A call keeps its task. -/
theorem traced_manager (h : Traced sent executed d) {m : DelegationManager} {e : DelegationEvent}
    (hs : d.manager.step E.delegation e = some m) {attempts accepted : Dict CallId String} :
    Traced sent executed { d with manager := m, attempts := attempts, accepted := accepted } := by
  refine { h with named := ?_ }
  intro c a ha
  obtain ⟨call, hc, hbehind⟩ := h.named c a ha
  cases DelegationManager.calls_step hs with
  | same hcalls => exact ⟨call, hcalls ▸ hc, hbehind⟩
  | @began c₁ task new hnew hcalls =>
    refine ⟨call, ?_, hbehind⟩
    have hne : c ≠ c₁ := by
      intro heq
      subst heq
      cases hc.symm.trans hnew
    exact hcalls ▸ (AList.lookup_insert_ne hne).trans hc
  | @moved c₁ r task old new hold hcalls =>
    by_cases hne : c = c₁
    · subst hne
      obtain rfl := Option.some.inj (hold.symm.trans hc)
      exact ⟨⟨task, new⟩, hcalls ▸ AList.lookup_insert _, hbehind⟩
    · exact ⟨call, hcalls ▸ (AList.lookup_insert_ne hne).trans hc, hbehind⟩

theorem traced_attempt (h : Traced sent executed d) {c : CallId} {id : String}
    (hs : d.attempt E c id = some d') :
    Traced (sent ++ (assignment E (d, .attempt c id)).toList) executed d' := by
  obtain ⟨⟨task, agent⟩, hc, hs⟩ := Option.bind_eq_some_iff.1 hs
  simp only [Option.ite_none_right_eq_some] at hs
  obtain ⟨⟨-, hid⟩, hs⟩ := hs
  obtain rfl := Option.some.inj hs
  simp only [assignment, hc, Option.map_some, Option.toList_some]
  refine { h with broker := ?_, outbox := ?_, read := ?_ }
  · apply Broker.traffic_mono ?_ h.broker
    intro m hm htype
    obtain ⟨hop, hmem⟩ := hm htype
    exact ⟨hop, List.mem_append_left _ hmem⟩
  · intro m hm
    rcases List.mem_append.1 hm with hm | hm
    · exact List.mem_append_left _ (h.outbox m hm)
    · exact List.mem_append_right _ hm
  · intro f hf ha
    obtain ⟨hknown, hunread⟩ := h.read f hf ha
    refine ⟨List.mem_cons_of_mem _ hknown, ?_⟩
    intro m hm
    rcases List.mem_append.1 hm with hm | hm
    · exact hunread m hm
    · obtain rfl := List.mem_singleton.1 hm
      intro heq
      have heq : id = f.frame.id := heq
      exact hid (heq ▸ hknown)

/-- A process goes on that executes nothing new. -/
theorem traced_agent (h : Traced sent executed d) {c : CallId} {a a' : Agent π}
    (ha : d.agents.lookup c = some a) (hws : a'.peer.ws = a.peer.ws)
    (hphase : a'.phase = .waitingForAssign → a.phase = .waitingForAssign)
    (hinformed : a'.Informed d.broker) :
    Traced sent executed { d with agents := d.agents.insert c a' } := by
  have hlookup : ∀ c₁ a₁, (d.agents.insert c a').lookup c₁ = some a₁ →
      a₁.Informed d.broker ∧ ∃ a₀, d.agents.lookup c₁ = some a₀ ∧ a₁.peer.ws = a₀.peer.ws := by
    intro c₁ a₁ h₁
    rcases Dict.lookup_insert_eq_some.1 h₁ with ⟨rfl, rfl⟩ | ⟨-, h₁⟩
    · exact ⟨hinformed, a, ha, hws⟩
    · exact ⟨h.agents c₁ a₁ h₁, a₁, h₁, rfl⟩
  refine { h with agents := fun c₁ a₁ h₁ => (hlookup c₁ a₁ h₁).1, named := ?_, apart := ?_,
                  begun := ?_ }
  · intro c₁ a₁ h₁
    obtain ⟨-, a₀, h₀, hws₀⟩ := hlookup c₁ a₁ h₁
    rw [hws₀]
    exact h.named c₁ a₀ h₀
  · intro c₁ c₂ a₁ a₂ h₁ h₂ heq
    obtain ⟨-, a₀, h₀, hws₀⟩ := hlookup c₁ a₁ h₁
    obtain ⟨-, a₃, h₃, hws₃⟩ := hlookup c₂ a₂ h₂
    rw [hws₀, hws₃] at heq
    exact h.apart c₁ c₂ a₀ a₃ h₀ h₃ heq
  · intro x hx
    obtain ⟨a₀, h₀, hphase₀, htype, hheard⟩ := h.begun x hx
    by_cases hc : x.call = c
    · obtain rfl := Option.some.inj ((hc ▸ h₀).symm.trans ha)
      refine ⟨a', hc ▸ AList.lookup_insert _, fun hwaiting => hphase₀ (hphase hwaiting), htype, ?_⟩
      rw [hws]
      exact hheard
    · exact ⟨a₀, (AList.lookup_insert_ne hc).trans h₀, hphase₀, htype, hheard⟩

theorem traced_goesOn (h : Traced sent executed d) {c : CallId} {a a' : Agent π}
    (ha : d.agents.lookup c = some a) (hgoes : a.GoesOn a') :
    Traced sent executed { d with agents := d.agents.insert c a' } :=
  traced_agent h ha hgoes.ws hgoes.phase (hgoes.informed (h.agents c a ha))

theorem traced_updateAgent (h : Traced sent executed d) {c : CallId}
    {f : Agent π → Option (Agent π)} (hf : ∀ a a', f a = some a' → a.GoesOn a')
    (hs : d.updateAgent c f = some d') : Traced sent executed d' := by
  obtain ⟨a, ha, hs⟩ := Option.bind_eq_some_iff.1 hs
  obtain ⟨a', ha', rfl⟩ := Option.map_eq_some_iff.1 hs
  exact traced_goesOn h ha (hf a a' ha')

/-- A process that waits has executed nothing. -/
theorem call_ne_of_waiting (h : Traced sent executed d) {c : CallId} {a : Agent π}
    (ha : d.agents.lookup c = some a) (hwaiting : a.phase = .waitingForAssign) :
    ∀ x ∈ executed, x.call ≠ c := by
  intro x hx heq
  obtain ⟨a₀, h₀, hphase, -, -⟩ := h.begun x hx
  obtain rfl := Option.some.inj ((heq ▸ h₀).symm.trans ha)
  exact hphase hwaiting

/-- What was executed was delivered to one process only. -/
theorem call_eq_of_heard (h : Traced sent executed d) {c : CallId} {a : Agent π}
    (ha : d.agents.lookup c = some a) {m : NMBMessage π} (htype : AssignType m)
    (hm : Heard d.broker a.peer.ws m) {x : Execution π} (hx : x ∈ executed)
    (hid : x.assign.id = m.id) : x.call = c := by
  obtain ⟨a₀, h₀, -, htype₀, hop₀, f, hf, hws, hframe⟩ := h.begun x hx
  obtain ⟨hop, g, hg, hws', hframe'⟩ := hm
  apply h.apart x.call c a₀ a h₀ ha
  rw [← hws, ← hws']
  apply h.once f hf g hg
  · exact ⟨hframe ▸ hop₀, hframe ▸ htype₀⟩
  · exact ⟨hframe' ▸ hop, hframe' ▸ htype⟩
  · rw [hframe, hframe']
    exact hid

/-- A process may begin a task, as the first and the only one to do so. -/
theorem traced_listen (h : Traced sent executed d) {c : CallId} {id : String}
    (hs : d.updateAgent c (fun a => a.listen E.codec id) = some d') :
    Traced sent (executed ++ (execution E (d, .listen c id)).toList) d' := by
  obtain ⟨a, ha, hs⟩ := Option.bind_eq_some_iff.1 hs
  obtain ⟨a', ha', rfl⟩ := Option.map_eq_some_iff.1 hs
  obtain ⟨hwaiting, hgoes, hrunning⟩ := Agent.listen_cases ha'
  have hkept := traced_goesOn h ha hgoes
  simp only [execution, ha, ha', Option.bind_some]
  split
  · rename_i assign task hphase
    obtain ⟨hmem, htype, -⟩ := hrunning assign task hphase
    have hheard := (h.agents c a ha).heard assign hmem
    have hfirst := call_ne_of_waiting h ha hwaiting
    refine { hkept with begun := ?_, calls := ?_, ids := ?_ }
    · intro x hx
      rcases List.mem_append.1 hx with hx | hx
      · exact hkept.begun x hx
      · obtain rfl := List.mem_singleton.1 hx
        refine ⟨a', AList.lookup_insert _, ?_, htype, ?_⟩
        · rw [hphase]
          exact fun heq => by contradiction
        · rw [hgoes.ws]
          exact hheard
    · rw [List.map_append]
      refine List.nodup_append.2 ⟨h.calls, List.nodup_singleton _, ?_⟩
      intro c₁ h₁ c₂ h₂
      obtain ⟨x, hx, rfl⟩ := List.mem_map.1 h₁
      obtain rfl := List.mem_singleton.1 h₂
      exact hfirst x hx
    · rw [List.map_append]
      refine List.nodup_append.2 ⟨h.ids, List.nodup_singleton _, ?_⟩
      intro id₁ h₁ id₂ h₂ heq
      obtain ⟨x, hx, rfl⟩ := List.mem_map.1 h₁
      obtain rfl := List.mem_singleton.1 h₂
      exact hfirst x hx (call_eq_of_heard h ha htype hheard hx heq)
  · simpa using hkept

/-- The broker goes on. An assignment that it reads was sent, and is not read again. -/
theorem traced_broker (h : Traced sent executed d) {b : Broker π} {e : BrokerEvent π}
    (hs : d.broker.step E.broker e = some b) (outbox : List (NMBMessage π))
    (hout : ∀ m ∈ outbox, m ∈ d.orchestrator.outbox)
    (he : ∀ ws m now, e = .frame ws (.ok m) now → Broker.Assigned sent m)
    (hnew : ∀ ws m now, e = .frame ws (.ok m) now → AssignType m → m.id ∈ d.ids ∧
      (∀ f ∈ d.broker.sent, Broker.Assigns f → f.frame.id ≠ m.id) ∧ ∀ m' ∈ outbox, m'.id ≠ m.id)
    (deliveries : List (String × Ws)) :
    Traced sent executed { d with
      broker := b
      deliveries := deliveries
      orchestrator := { d.orchestrator with outbox := outbox } } := by
  have horigin := fun f hf ha => Broker.assigns_origin h.broker he hs (f := f) hf ha
  refine ⟨Broker.traffic_step h.broker he hs, fun m hm => h.outbox m (hout m hm), ?_, ?_, h.apart,
    ?_, ?_, ?_, h.calls, h.ids⟩
  · intro c a ha
    exact ⟨(h.agents c a ha).outbox, fun m hm => heard_step ((h.agents c a ha).heard m hm) hs⟩
  · intro c a ha
    obtain ⟨call, hc, hbehind⟩ := h.named c a ha
    exact ⟨call, hc, Broker.behind_step hbehind hs⟩
  · intro f hf g hg haf hag hid
    rcases horigin f hf haf with hf | ⟨ws, m, now, target, heq, htype, hfid, hto, hws⟩
    · rcases horigin g hg hag with hg | ⟨ws, m, now, target, heq, htype, hgid, -, -⟩
      · exact h.once f hf g hg haf hag hid
      · obtain ⟨-, hfresh, -⟩ := hnew ws m now heq htype
        exact absurd (hid.trans hgid) (hfresh f hf haf)
    · rcases horigin g hg hag with hg | ⟨ws', m', now', target', heq', -, -, hto', hws'⟩
      · obtain ⟨-, hfresh, -⟩ := hnew ws m now heq htype
        exact absurd (hid.symm.trans hfid) (hfresh g hg hag)
      · -- both are deliveries of the one frame that is read
        obtain ⟨-, hm, -⟩ := BrokerEvent.frame.inj (heq.symm.trans heq')
        obtain rfl := Except.ok.inj hm
        obtain rfl := Option.some.inj (hto.symm.trans hto')
        exact Option.some.inj (hws.symm.trans hws')
  · intro f hf ha
    rcases horigin f hf ha with hf | ⟨ws, m, now, target, heq, htype, hfid, -, -⟩
    · obtain ⟨hknown, hunread⟩ := h.read f hf ha
      exact ⟨hknown, fun m hm => hunread m (hout m hm)⟩
    · obtain ⟨hknown, -, hunread⟩ := hnew ws m now heq htype
      rw [hfid]
      exact ⟨hknown, hunread⟩
  · intro x hx
    obtain ⟨a, ha, hphase, htype, hheard⟩ := h.begun x hx
    exact ⟨a, ha, hphase, htype, heard_step hheard hs⟩

theorem traced_connect (h : Traced sent executed d) {c : CallId} {ws : Ws}
    (hs : d.connect E c ws = some d') : Traced sent executed d' := by
  unfold connect at hs
  split at hs
  · contradiction
  · contradiction
  · contradiction
  · rename_i task phase _ hcall hnone
    obtain ⟨b, hb, rfl⟩ := Option.map_eq_some_iff.1 hs
    obtain ⟨hnew, hreg⟩ := Broker.connect_step hb
    have hbroker := traced_broker h hb d.orchestrator.outbox (fun m hm => hm)
      (fun _ _ _ heq => by contradiction) (fun _ _ _ heq => by contradiction) d.deliveries
    have hfresh : ∀ c' a', d.agents.lookup c' = some a' → a'.peer.ws ≠ ws := by
      intro c' a' ha' heq
      obtain ⟨_, _, phase', hh⟩ := h.named c' a' ha'
      cases (heq ▸ hh).symm.trans hnew
    have hold : ∀ c' a', (d.agents.insert c { peer := { ws := ws } }).lookup c' = some a' →
        c' = c ∧ a' = { peer := { ws := ws } } ∨ c' ≠ c ∧ d.agents.lookup c' = some a' := by
      intro c' a' ha'
      rcases Dict.lookup_insert_eq_some.1 ha' with ⟨rfl, rfl⟩ | ⟨hne, ha'⟩
      · exact Or.inl ⟨rfl, rfl⟩
      · exact Or.inr ⟨hne, ha'⟩
    refine { hbroker with agents := ?_, named := ?_, apart := ?_, begun := ?_ }
    · intro c' a' ha'
      rcases hold c' a' ha' with ⟨rfl, rfl⟩ | ⟨-, ha'⟩
      · exact ⟨fun m hm => by contradiction, fun m hm => by contradiction⟩
      · exact hbroker.agents c' a' ha'
    · intro c' a' ha'
      rcases hold c' a' ha' with ⟨rfl, rfl⟩ | ⟨-, ha'⟩
      · refine ⟨⟨task, phase⟩, hcall, .recv, ?_⟩
        rw [hreg, Broker.handlers_register]
        exact AList.lookup_insert _
      · exact hbroker.named c' a' ha'
    · intro c₁ c₂ a₁ a₂ h₁ h₂ hws
      rcases hold c₁ a₁ h₁ with ⟨rfl, rfl⟩ | ⟨-, hold₁⟩
      · rcases hold c₂ a₂ h₂ with ⟨rfl, -⟩ | ⟨-, hold₂⟩
        · rfl
        · exact absurd hws.symm (hfresh c₂ a₂ hold₂)
      · rcases hold c₂ a₂ h₂ with ⟨rfl, rfl⟩ | ⟨-, hold₂⟩
        · exact absurd hws (hfresh c₁ a₁ hold₁)
        · exact h.apart c₁ c₂ a₁ a₂ hold₁ hold₂ hws
    · intro x hx
      obtain ⟨a, ha, hrest⟩ := hbroker.begun x hx
      refine ⟨a, ?_, hrest⟩
      have hne : x.call ≠ c := by
        intro heq
        cases (heq ▸ ha).symm.trans hnone
      exact (AList.lookup_insert_ne hne).trans ha

theorem traced_read (hw : d.wires.Wired) (h : Traced sent executed d) {party : Party} {now : ℚ}
    (hs : d.read E party now = some d') : Traced sent executed d' := by
  obtain ⟨p, hp, hs⟩ := Option.bind_eq_some_iff.1 hs
  split at hs
  · contradiction
  · rename_i msg rest hout
    obtain ⟨b, hb, rfl⟩ := Option.map_eq_some_iff.1 hs
    cases party with
    | orchestrator =>
      obtain rfl := Option.some.inj hp
      have hmem : msg ∈ d.orchestrator.outbox := hout ▸ List.mem_cons_self
      obtain ⟨hop, hknown, -⟩ := hw.outbox msg hmem
      refine traced_broker h hb rest (fun m hm => hout ▸ List.mem_cons_of_mem _ hm) ?_ ?_ _
      · intro ws m now' heq _
        obtain ⟨-, hm, -⟩ := BrokerEvent.frame.inj heq
        obtain rfl := Except.ok.inj hm
        exact ⟨hop, h.outbox msg hmem⟩
      · intro ws m now' heq _
        obtain ⟨-, hm, -⟩ := BrokerEvent.frame.inj heq
        obtain rfl := Except.ok.inj hm
        refine ⟨hknown, fun f hf ha => ((h.read f hf ha).2 msg hmem).symm, ?_⟩
        have hnodup : (d.orchestrator.outbox.map NMBMessage.id).Nodup := hw.nodup
        rw [hout, List.map_cons, List.nodup_cons] at hnodup
        intro m' hm' heq'
        exact hnodup.1 (heq' ▸ List.mem_map_of_mem hm')
    | agent c =>
      obtain ⟨a, ha, rfl⟩ := Option.map_eq_some_iff.1 hp
      have hinformed := h.agents c a ha
      have hmsg : ¬ AssignType msg := hinformed.outbox msg (hout ▸ List.mem_cons_self)
      have hbroker := traced_broker h hb d.orchestrator.outbox (fun m hm => hm) ?_ ?_
        (d.deliveries ++ [])
      · rw [if_neg (by simp)]
        simp only [setPeer, ha]
        refine traced_agent hbroker ha rfl id ⟨?_, (hbroker.agents c a ha).heard⟩
        intro m hm
        exact hinformed.outbox m (hout ▸ List.mem_cons_of_mem _ hm)
      · intro ws m now' heq htype
        obtain ⟨-, hm, -⟩ := BrokerEvent.frame.inj heq
        obtain rfl := Except.ok.inj hm
        exact absurd htype hmsg
      · intro ws m now' heq htype
        obtain ⟨-, hm, -⟩ := BrokerEvent.frame.inj heq
        obtain rfl := Except.ok.inj hm
        exact absurd htype hmsg

theorem traced_receive (h : Traced sent executed d) {party : Party} {p p' : Peer π}
    (hp : d.peer party = some p) (hr : p.receive d.broker = some p') :
    Traced sent executed (d.setPeer party p') := by
  obtain ⟨msg, hmsg, rfl⟩ := Option.map_eq_some_iff.1 hr
  obtain ⟨f, hf, hws, rfl⟩ := mem_inbound (List.mem_of_getElem? hmsg)
  cases party with
  | orchestrator =>
    obtain rfl := Option.some.inj hp
    exact { h with }
  | agent c =>
    obtain ⟨a, ha, rfl⟩ := Option.map_eq_some_iff.1 hp
    simp only [setPeer, ha]
    have hinformed := h.agents c a ha
    refine traced_agent h ha rfl id ⟨hinformed.outbox, ?_⟩
    intro m hm
    rcases a.peer.bus.mem_listenQueue_dispatch f.frame hm with hm | ⟨hop, rfl⟩
    · exact hinformed.heard m hm
    · exact ⟨hop, f, hf, hws, rfl⟩

/-- A step that neither sends an assignment nor begins a task. -/
theorem traced_other {e : DeploymentEvent π} (ha : assignment E (d, e) = none)
    (hx : execution E (d, e) = none) (h : Traced sent executed d') :
    Traced (sent ++ (assignment E (d, e)).toList)
      (executed ++ (execution E (d, e)).toList) d' := by
  rw [ha, hx]
  simpa using h

/-- What a step sends and what it begins come on top of what was sent and begun before. -/
theorem traced_step (hw : d.wires.Wired) (h : Traced sent executed d) {e : DeploymentEvent π}
    (hs : d.step E e = some d') :
    Traced (sent ++ (assignment E (d, e)).toList)
      (executed ++ (execution E (d, e)).toList) d' := by
  cases e with
  | manager e =>
    apply traced_other rfl rfl
    have hs : d.manage E e = some d' := hs
    unfold manage at hs
    split at hs
    · simp only [Option.ite_none_left_eq_some] at hs
      obtain ⟨m, hm, rfl⟩ := Option.map_eq_some_iff.1 hs.2
      exact traced_manager h hm
    · obtain ⟨m, hm, rfl⟩ := Option.map_eq_some_iff.1 hs
      exact traced_manager h hm
  | attempt c id =>
    have hkept := traced_attempt h hs
    simpa [execution] using hkept
  | retry c =>
    apply traced_other rfl rfl
    obtain ⟨-, -, hs⟩ := Option.bind_eq_some_iff.1 hs
    obtain ⟨id, -, hs⟩ := Option.bind_eq_some_iff.1 hs
    split at hs
    · split_ifs at hs
      obtain rfl := Option.some.inj hs
      exact { h with }
    · contradiction
  | accept c =>
    apply traced_other rfl rfl
    obtain ⟨-, -, hs⟩ := Option.bind_eq_some_iff.1 hs
    obtain ⟨id, -, hs⟩ := Option.bind_eq_some_iff.1 hs
    split at hs
    · obtain ⟨m, hm, rfl⟩ := Option.map_eq_some_iff.1 hs
      exact traced_manager h hm
    · contradiction
  | connect c ws => exact traced_other rfl rfl (traced_connect h hs)
  | listen c id =>
    have hkept := traced_listen h hs
    simpa [assignment] using hkept
  | finish c id answer flush =>
    exact traced_other rfl rfl (traced_updateAgent h (fun _ _ => Agent.goesOn_finish) hs)
  | flushed c id =>
    exact traced_other rfl rfl (traced_updateAgent h (fun _ _ => Agent.goesOn_flushed) hs)
  | exit c =>
    apply traced_other rfl rfl
    refine traced_updateAgent h ?_ hs
    intro a a' ha
    obtain rfl := Option.some.inj ha
    exact ⟨rfl, fun m hm => Or.inl hm, fun m hm => hm, fun hphase => by contradiction⟩
  | read party now => exact traced_other rfl rfl (traced_read hw h hs)
  | receive party =>
    obtain ⟨p, hp, hs⟩ := Option.bind_eq_some_iff.1 hs
    obtain ⟨p', hr, rfl⟩ := Option.map_eq_some_iff.1 hs
    exact traced_other rfl rfl (traced_receive h hp hr)
  | broker e =>
    simp only [step, Option.ite_none_right_eq_some] at hs
    obtain ⟨hown, hs⟩ := hs
    obtain ⟨b, hb, rfl⟩ := Option.map_eq_some_iff.1 hs
    have hframe : ∀ ws m now, e ≠ .frame ws (.ok m) now := by
      intro ws m now heq
      subst heq
      contradiction
    exact traced_other rfl rfl (traced_broker h hb d.orchestrator.outbox (fun m hm => hm)
      (fun ws m now heq => absurd heq (hframe ws m now))
      (fun ws m now heq => absurd heq (hframe ws m now)) d.deliveries)

theorem traced_initial (E : DeploymentEnv π) : Traced [] [] (deploymentMachine E).init := by
  have hsent : (deploymentMachine E).init.broker.sent = [] := Broker.sent_register
  refine ⟨Broker.traffic_register, fun m hm => by contradiction, fun c a ha => by contradiction,
    fun c a ha => by contradiction, fun c c' a a' ha => by contradiction, ?_, ?_,
    fun x hx => by contradiction, List.nodup_nil, List.nodup_nil⟩
  · intro f hf
    rw [hsent] at hf
    contradiction
  · intro f hf
    rw [hsent] at hf
    contradiction

theorem traced_run {tr : List (Deployment π × DeploymentEvent π)}
    (h : (deploymentMachine E).Trace tr d) :
    d.wires.Wired ∧ Traced (assignments E tr) (executions E tr) d := by
  induction h with
  | nil => exact ⟨wired_initial E, traced_initial E⟩
  | @snoc tr d e d' _ he ih =>
    refine ⟨(keeps_step ih.1 he).wired, ?_⟩
    have hstep := traced_step ih.1 ih.2 he
    simp only [assignments, executions, List.filterMap_append, List.filterMap_cons,
      List.filterMap_nil]
    simp only [assignments, executions] at hstep
    cases ha : assignment E (d, e) with
    | none => cases hx : execution E (d, e) <;> simpa [ha, hx] using hstep
    | some m => cases hx : execution E (d, e) <;> simpa [ha, hx] using hstep

/-- The process that begins a task has heard its assignment, which was sent to the agent id that
the process was spawned for. -/
theorem assigned_of_execution (h : Traced sent executed d) {e : DeploymentEvent π}
    {x : Execution π} (hx : execution E (d, e) = some x) :
    ∃ m ∈ sent, m.id = x.assign.id ∧
      load E.codec.validateAssign .taskAssign m.payload = .ok x.task ∧
        ∃ call, d.manager.calls.lookup x.call = some call ∧
          m.toSandbox = some call.task.agentId.val := by
  cases e with
  | listen c id =>
    obtain ⟨a, ha, hx⟩ := Option.bind_eq_some_iff.1 hx
    obtain ⟨a', ha', hx⟩ := Option.bind_eq_some_iff.1 hx
    split at hx
    · rename_i assign task hphase
      obtain rfl := Option.some.inj hx
      obtain ⟨-, -, hrunning⟩ := Agent.listen_cases ha'
      obtain ⟨hmem, htype, hload⟩ := hrunning assign task hphase
      obtain ⟨hop, f, hf, hws, rfl⟩ := (h.agents c a ha).heard assign hmem
      obtain ⟨call, hc, phase, hh⟩ := h.named c a ha
      rcases h.broker.sent f hf hop with hnotice | ⟨m, s, now, hm, hframe, hto⟩
      · exact absurd hnotice (Broker.assignType_ne_shutdown htype)
      · rw [hframe] at htype hload
        obtain ⟨hsend, hsent⟩ := hm htype
        obtain ⟨target, htarget, phase', hh'⟩ := hto hsend
        refine ⟨m, hsent, (congrArg NMBMessage.id hframe).symm, hload, call, hc, ?_⟩
        rw [hws] at hh'
        obtain ⟨rfl, -⟩ := Handler.mk.inj (Option.some.inj (hh'.symm.trans hh))
        exact htarget
    · contradiction
  | _ => contradiction

/-- Whatever a process executes was sent in an earlier step, to the agent id that the process was
spawned for. -/
def SentBefore (E : DeploymentEnv π) (tr : List (Deployment π × DeploymentEvent π)) : Prop :=
  ∀ pre q post x, tr = pre ++ q :: post → execution E q = some x →
    ∃ m ∈ assignments E pre, m.id = x.assign.id ∧
      load E.codec.validateAssign .taskAssign m.payload = .ok x.task ∧
        ∃ call, q.1.manager.calls.lookup x.call = some call ∧
          m.toSandbox = some call.task.agentId.val

/-- A process executes one assignment at most, an assignment is executed by one process at most,
and it was sent before. -/
theorem assignments_executed_once {tr : List (Deployment π × DeploymentEvent π)}
    (h : (deploymentMachine E).Trace tr d) :
    ((executions E tr).map Execution.call).Nodup ∧
      ((executions E tr).map fun x => x.assign.id).Nodup ∧ SentBefore E tr := by
  obtain ⟨-, htraced⟩ := traced_run h
  refine ⟨htraced.calls, htraced.ids, ?_⟩
  intro pre q post x htr hx
  subst htr
  obtain ⟨-, hbefore⟩ := traced_run h.before
  exact assigned_of_execution hbefore hx

/-- The process of each iteration executes the assignment of its iteration. -/
theorem assignments_executed_once_twoIterations : ∃ tr d,
    (deploymentMachine wireDeployment).Trace tr d ∧
      ((executions wireDeployment tr).map fun x => (x.call, x.assign.id)) =
        [(0, "m-1"), (1, "m-4")] ∧ SentBefore wireDeployment tr := by
  obtain ⟨tr, d, h, -, hd⟩ := Machine.Trace.of_check (M := deploymentMachine wireDeployment)
    (firstIteration ++ .broker (.disconnect 1 "m-5" 1) :: respawn ++ reassign ++
      [.receive (.agent 1), .listen 1 "m-6"])
    (p := fun tr _ => decide (((executions wireDeployment tr).map fun x =>
      (x.call, x.assign.id)) = [(0, "m-1"), (1, "m-4")]))
    (by decide)
  obtain ⟨-, -, hsent⟩ := assignments_executed_once h
  exact ⟨tr, d, h, of_decide_eq_true hd, hsent⟩

end Deployment

end NemoClaw
