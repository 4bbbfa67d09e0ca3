import Mathlib.Data.List.Count
import NemoClaw.Nmb.Lifetimes

/-! The broker with the `connections` table (`audit/models.py`, `audit/db.py`). The insert of a
connection and the update at its end are tasks that run in any order, and the key of the table is
the sandbox, not the connection. -/

namespace NemoClaw

open Lib

/-- The columns of `connections`. -/
structure ConnectionRow where
  sandboxId : String
  connectedAt : ℚ
  disconnectedAt : Option ℚ := none
  disconnectReason : Option String := none
  deriving DecidableEq, Repr

/-- The table by its primary key. -/
abbrev Connections := Dict String ConnectionRow

/-- A second row for a sandbox is refused. -/
def logConnection (table : Connections) (sandboxId : String) (now : ℚ) : Connections :=
  table.setDefault sandboxId { sandboxId := sandboxId, connectedAt := now }

def logDisconnection (table : Connections) (sandboxId reason : String) (now : ℚ) : Connections :=
  match table.lookup sandboxId with
  | some row =>
    if row.disconnectedAt = none then
      table.insert sandboxId
        { row with disconnectedAt := some now, disconnectReason := some reason }
    else table
  | none => table

namespace ConnectionTask

def run (table : Connections) (now : ℚ) : ConnectionTask → Connections
  | .logConnection sandboxId => NemoClaw.logConnection table sandboxId now
  | .logDisconnection sandboxId reason => NemoClaw.logDisconnection table sandboxId reason now

def opens (s : String) : ConnectionTask → Bool
  | .logConnection sandboxId => decide (sandboxId = s)
  | .logDisconnection _ _ => false

def closes (s : String) : ConnectionTask → Bool
  | .logConnection _ => false
  | .logDisconnection sandboxId _ => decide (sandboxId = s)

end ConnectionTask

/-- The connection that the broker accepts at an event. -/
def Broker.admits {π : Type} (b : Broker π) : BrokerEvent π → List (Ws × String)
  | .connect ws s => if (b.connections.lookup s).isSome then [] else [(ws, s)]
  | _ => []

structure ConnectionHistory (π : Type) where
  broker : Broker π := {}
  /-- the audit tasks that have not run -/
  tasks : List ConnectionTask := []
  table : Connections := ∅
  /-- bookkeeping: the accepted connections -/
  accepted : List (Ws × String) := []

inductive HistoryEvent (π : Type)
  | broker (e : BrokerEvent π)
  /-- an audit task runs -/
  | run (task : ConnectionTask) (now : ℚ)

namespace ConnectionHistory

variable {π : Type}

def step (E : BrokerEnv π) (h : ConnectionHistory π) : HistoryEvent π → Option (ConnectionHistory π)
  | .broker e => (h.broker.step E e).map fun b =>
    { h with
      broker := b
      tasks := h.tasks ++ b.connectionTasks.drop h.broker.connectionTasks.length
      accepted := h.accepted ++ h.broker.admits e }
  | .run task now =>
    if task ∈ h.tasks then
      some { h with tasks := h.tasks.erase task, table := task.run h.table now }
    else none

/-- All audit tasks have run, and none is still to come. -/
def Settled (h : ConnectionHistory π) : Prop :=
  h.tasks = [] ∧ ∀ ws s, ¬ h.broker.Announces ws s

/-- There is one row for each accepted connection, and it is closed exactly if the connection has
ended. -/
structure Faithful (h : ConnectionHistory π) : Prop where
  rows : (h.accepted.map Prod.snd).Perm h.table.keys
  ended : ∀ ws s, (ws, s) ∈ h.accepted → ∀ row, h.table.lookup s = some row →
    (row.disconnectedAt.isSome ↔ h.broker.connections.lookup s ≠ some ws)

/-- No sandbox is accepted twice, and no connection is closed before its row is there. -/
def Orderly (h : ConnectionHistory π) : HistoryEvent π → Prop
  | .broker (.connect _ s) => (h.broker.connections.lookup s).isSome ∨
      s ∉ h.accepted.map Prod.snd
  | .run (.logDisconnection s _) _ => (h.table.lookup s).isSome
  | _ => True

end ConnectionHistory

def historyMachine {π : Type} (E : BrokerEnv π) :
    Machine (ConnectionHistory π) (HistoryEvent π) where
  init := {}
  step := ConnectionHistory.step E

/-! ### One sandbox -/

/-- What is known of a sandbox: its connection, who announces its end, how many of its tasks are to
run, and its row. -/
structure Life where
  socket : Option Ws
  announces : Ws → Prop
  opens : ℕ
  closes : ℕ
  row : Option ConnectionRow

namespace Life

def unknown : Life := ⟨none, fun _ => False, 0, 0, none⟩

/-- The row is there, or the task that inserts it. -/
def Inserted (l : Life) : Prop := l.opens = 1 ∧ l.row = none ∨ l.opens = 0 ∧ l.row.isSome

/-- The row, if it is there, is not closed. -/
def Unclosed (l : Life) : Prop := ∀ row, l.row = some row → row.disconnectedAt = none

/-- The life of a connection that is the only one of its sandbox. -/
inductive Stage (ws : Ws) (l : Life) : Prop
  | live (hs : l.socket = some ws) (ha : ∀ ws', ¬ l.announces ws') (hc : l.closes = 0)
      (hr : l.Unclosed)
  | announcing (hs : l.socket = none) (ha : ∀ ws', l.announces ws' ↔ ws' = ws) (hc : l.closes = 0)
      (hr : l.Unclosed)
  | closing (hs : l.socket = none) (ha : ∀ ws', ¬ l.announces ws') (hc : l.closes = 1)
      (hr : l.Unclosed)
  | closed (hs : l.socket = none) (ha : ∀ ws', ¬ l.announces ws') (hc : l.closes = 0)
      (hr : ∃ row, l.row = some row ∧ row.disconnectedAt.isSome)

variable {l : Life} {ws : Ws}

theorem Stage.of_socket {ws' : Ws} (h : l.Stage ws) (hs : l.socket = some ws') :
    ws' = ws ∧ (∀ ws', ¬ l.announces ws') ∧ l.closes = 0 ∧ l.Unclosed := by
  cases h with
  | live hs' ha hc hr => exact ⟨Option.some.inj (hs.symm.trans hs'), ha, hc, hr⟩
  | announcing hs' | closing hs' | closed hs' => cases hs.symm.trans hs'

theorem Stage.of_announces {ws' : Ws} (h : l.Stage ws) (ha : l.announces ws') :
    l.socket = none ∧ (∀ ws'', l.announces ws'' ↔ ws'' = ws') ∧ l.closes = 0 ∧ l.Unclosed := by
  cases h with
  | announcing hs ha' hc hr =>
    obtain rfl := (ha' ws').1 ha
    exact ⟨hs, ha', hc, hr⟩
  | live _ ha' | closing _ ha' | closed _ ha' => exact absurd ha (ha' ws')

theorem Stage.of_closes (h : l.Stage ws) (hc : 0 < l.closes) :
    l.socket = none ∧ (∀ ws', ¬ l.announces ws') ∧ l.closes = 1 ∧ l.Unclosed := by
  cases h with
  | closing hs ha hc' hr => exact ⟨hs, ha, hc', hr⟩
  | live _ _ hc' | announcing _ _ hc' | closed _ _ hc' => omega

/-- A row that is inserted changes no stage. -/
theorem Stage.insert (h : l.Stage ws) (hnone : l.row = none) {opens : ℕ} {row : ConnectionRow}
    (hrow : row.disconnectedAt = none) :
    Stage ws { l with opens := opens, row := some row } := by
  have hopen : Unclosed { l with opens := opens, row := some row } := by
    rintro _ ⟨⟩
    exact hrow
  cases h with
  | live hs ha hc => exact .live hs ha hc hopen
  | announcing hs ha hc => exact .announcing hs ha hc hopen
  | closing hs ha hc => exact .closing hs ha hc hopen
  | closed hs ha hc hr =>
    obtain ⟨row', hrow', -⟩ := hr
    cases hnone.symm.trans hrow'

end Life

namespace ConnectionHistory

variable {π : Type} {E : BrokerEnv π} {h h' : ConnectionHistory π} {s : String}

def life (h : ConnectionHistory π) (s : String) : Life where
  socket := h.broker.connections.lookup s
  announces ws := h.broker.Announces ws s
  opens := h.tasks.countP (ConnectionTask.opens s)
  closes := h.tasks.countP (ConnectionTask.closes s)
  row := h.table.lookup s

/-- No sandbox is accepted twice, and each that is has a stage. -/
structure Coherent (h : ConnectionHistory π) : Prop where
  nodup : (h.accepted.map Prod.snd).Nodup
  unknown : ∀ s, s ∉ h.accepted.map Prod.snd → h.life s = .unknown
  known : ∀ ws s, (ws, s) ∈ h.accepted → (h.life s).Inserted ∧ (h.life s).Stage ws

theorem Coherent.mem (hc : h.Coherent) (hs : h.life s ≠ .unknown) :
    ∃ ws, (ws, s) ∈ h.accepted ∧ (h.life s).Inserted ∧ (h.life s).Stage ws := by
  have hmem : s ∈ h.accepted.map Prod.snd := by
    by_contra hnot
    exact hs (hc.unknown s hnot)
  obtain ⟨⟨ws, _⟩, hws, rfl⟩ := List.mem_map.1 hmem
  exact ⟨ws, hws, hc.known ws _ hws⟩

/-- A step that moves one accepted sandbox to another stage. -/
theorem Coherent.move (hc : h.Coherent) (haccepted : h'.accepted = h.accepted)
    (hothers : ∀ s', s' ≠ s → h'.life s' = h.life s') {ws : Ws} (hmem : (ws, s) ∈ h.accepted)
    (hinserted : (h'.life s).Inserted) (hstage : (h'.life s).Stage ws) : h'.Coherent := by
  refine ⟨haccepted ▸ hc.nodup, ?_, ?_⟩
  · rw [haccepted]
    intro s' hs'
    have hne : s' ≠ s := by
      rintro rfl
      exact hs' (List.mem_map_of_mem hmem)
    rw [hothers s' hne]
    exact hc.unknown s' hs'
  · rw [haccepted]
    intro ws' s' hmem'
    by_cases hne : s' = s
    · subst hne
      obtain rfl : ws' = ws :=
        congrArg Prod.fst (List.inj_on_of_nodup_map hc.nodup hmem' hmem rfl)
      exact ⟨hinserted, hstage⟩
    · rw [hothers s' hne]
      exact hc.known ws' s' hmem'

theorem Coherent.same (hc : h.Coherent) (haccepted : h'.accepted = h.accepted)
    (hlife : ∀ s, h'.life s = h.life s) : h'.Coherent := by
  refine ⟨haccepted ▸ hc.nodup, ?_, ?_⟩
  · rw [haccepted]
    intro s hs
    rw [hlife]
    exact hc.unknown s hs
  · rw [haccepted]
    intro ws s hmem
    rw [hlife]
    exact hc.known ws s hmem

/-! ### Steps -/

/-- The history after a step of the broker. -/
def after (h : ConnectionHistory π) (b : Broker π) (new : List ConnectionTask)
    (accepted : List (Ws × String)) : ConnectionHistory π :=
  { h with broker := b, tasks := h.tasks ++ new, accepted := h.accepted ++ accepted }

theorem life_after (h : ConnectionHistory π) (b : Broker π) (new : List ConnectionTask)
    (accepted : List (Ws × String)) (s : String) :
    (h.after b new accepted).life s =
      { socket := b.connections.lookup s
        announces := fun ws => b.Announces ws s
        opens := (h.life s).opens + new.countP (ConnectionTask.opens s)
        closes := (h.life s).closes + new.countP (ConnectionTask.closes s)
        row := (h.life s).row } := by
  simp only [life, after, List.countP_append]

theorem accepted_after (h : ConnectionHistory π) (b : Broker π) (new : List ConnectionTask) :
    (h.after b new []).accepted = h.accepted :=
  List.append_nil _

/-- A new connection is live, and its row is to be inserted. -/
theorem coherent_opened (hc : h.Coherent) {b : Broker π} {ws : Ws}
    (hnew : s ∉ h.accepted.map Prod.snd)
    (hconn : b.connections = h.broker.connections.insert s ws)
    (hann : ∀ ws' s', b.Announces ws' s' ↔ h.broker.Announces ws' s') :
    (h.after b [.logConnection s] [(ws, s)]).Coherent := by
  have hunknown := hc.unknown s hnew
  have hself : (h.after b [.logConnection s] [(ws, s)]).life s =
      ⟨some ws, fun _ => False, 1, 0, none⟩ := by
    have hnone : ∀ ws', ¬ h.broker.Announces ws' s := fun ws' hws' => by
      have hfalse : (h.life s).announces ws' := hws'
      rwa [hunknown] at hfalse
    simp [life_after, hconn, hann, hnone, hunknown, Life.unknown, ConnectionTask.opens,
      ConnectionTask.closes]
  have hothers : ∀ s', s' ≠ s → (h.after b [.logConnection s] [(ws, s)]).life s' = h.life s' := by
    intro s' hne
    rw [life_after]
    simp [hconn, hann, AList.lookup_insert_ne hne, ConnectionTask.opens, ConnectionTask.closes,
      hne.symm, life]
  have hmap : (h.after b [.logConnection s] [(ws, s)]).accepted.map Prod.snd =
      h.accepted.map Prod.snd ++ [s] := by
    simp [after]
  refine ⟨?_, ?_, ?_⟩
  · rw [hmap, List.nodup_append]
    refine ⟨hc.nodup, List.nodup_singleton _, ?_⟩
    rintro s' hs' _ hs rfl
    exact hnew (List.mem_singleton.1 hs ▸ hs')
  · intro s' hs'
    rw [hmap, List.mem_append, List.mem_singleton, not_or] at hs'
    rw [hothers s' hs'.2]
    exact hc.unknown s' hs'.1
  · intro ws' s' hafter
    rcases List.mem_append.1 hafter with hmem | hmem
    · have hne : s' ≠ s := by
        rintro rfl
        exact hnew (List.mem_map_of_mem hmem)
      rw [hothers s' hne]
      exact hc.known ws' s' hmem
    · obtain ⟨rfl, rfl⟩ := Prod.mk.inj (List.mem_singleton.1 hmem)
      rw [hself]
      exact ⟨Or.inl ⟨rfl, rfl⟩, .live rfl (fun _ => id) rfl nofun⟩

/-- The other sandboxes when a connection ends. -/
theorem life_others {b : Broker π} {new : List ConnectionTask} {s' : String} (hne : s' ≠ s)
    (hconn : b.connections.lookup s' = h.broker.connections.lookup s')
    (hann : ∀ ws, b.Announces ws s' ↔ h.broker.Announces ws s')
    (hnew : new = [] ∨ new = [.logDisconnection s "disconnected"]) :
    (h.after b new []).life s' = h.life s' := by
  rcases hnew with rfl | rfl
  · rw [life_after]
    simp [hconn, hann, life]
  · rw [life_after]
    simp [hconn, hann, life, ConnectionTask.opens, ConnectionTask.closes, hne.symm]

/-- What is known of a sandbox with a connection. -/
theorem Coherent.of_live (hc : h.Coherent) {ws : Ws}
    (hlive : h.broker.connections.lookup s = some ws) :
    (ws, s) ∈ h.accepted ∧ (h.life s).Inserted ∧ (∀ ws', ¬ h.broker.Announces ws' s) ∧
      (h.life s).closes = 0 ∧ (h.life s).Unclosed := by
  have hsocket : (h.life s).socket = some ws := hlive
  have hknown : h.life s ≠ .unknown := by
    intro hunknown
    rw [hunknown] at hsocket
    contradiction
  obtain ⟨_, hmem, hinserted, hstage⟩ := hc.mem hknown
  obtain ⟨rfl, hnone, hcloses, hrow⟩ := hstage.of_socket hsocket
  exact ⟨hmem, hinserted, hnone, hcloses, hrow⟩

/-- A connection has ended, and its handler is to announce it. -/
theorem coherent_announced (hc : h.Coherent) {b : Broker π} {ws : Ws}
    (hlive : h.broker.connections.lookup s = some ws)
    (hconn : b.connections = h.broker.connections.erase s)
    (hann : ∀ ws' s', b.Announces ws' s' ↔ h.broker.Announces ws' s' ∨ ws' = ws ∧ s' = s) :
    (h.after b [] []).Coherent := by
  obtain ⟨hmem, hinserted, hnone, hcloses, hrow⟩ := hc.of_live hlive
  refine hc.move (accepted_after _ _ _) (fun s' hne => ?_) hmem ?_ ?_
  · refine life_others hne (by rw [hconn, AList.lookup_erase_ne hne]) (fun ws' => ?_) (Or.inl rfl)
    rw [hann, or_iff_left fun he => hne he.2]
  · rw [life_after]
    exact hinserted
  · rw [life_after]
    refine .announcing (by simp [hconn]) (fun ws' => ?_) hcloses hrow
    simp [hann, hnone]

/-- A connection has ended, and nothing is to be announced. -/
theorem coherent_ended (hc : h.Coherent) {b : Broker π} {ws : Ws}
    (hlive : h.broker.connections.lookup s = some ws)
    (hconn : b.connections = h.broker.connections.erase s)
    (hann : ∀ ws' s', b.Announces ws' s' ↔ h.broker.Announces ws' s') :
    (h.after b [.logDisconnection s "disconnected"] []).Coherent := by
  obtain ⟨hmem, hinserted, hnone, hcloses, hrow⟩ := hc.of_live hlive
  refine hc.move (accepted_after _ _ _) (fun s' hne => ?_) hmem ?_ ?_
  · exact life_others hne (by rw [hconn, AList.lookup_erase_ne hne]) (fun ws' => hann ws' s')
      (Or.inr rfl)
  · rw [life_after]
    exact hinserted
  · rw [life_after]
    refine .closing (by simp [hconn]) (fun ws' => ?_) ?_ hrow
    · simp [hann, hnone]
    · simp [hcloses, ConnectionTask.closes]

/-- A handler has announced the end of its connection. -/
theorem coherent_logged (hc : h.Coherent) {b : Broker π} {ws : Ws}
    (hlast : h.broker.Announces ws s) (hconn : b.connections = h.broker.connections)
    (hann : ∀ ws' s', b.Announces ws' s' ↔ h.broker.Announces ws' s' ∧ ws' ≠ ws) :
    (h.after b [.logDisconnection s "disconnected"] []).Coherent := by
  have hannounces : (h.life s).announces ws := hlast
  have hknown : h.life s ≠ .unknown := by
    intro hunknown
    rw [hunknown] at hannounces
    exact hannounces
  obtain ⟨_, hmem, hinserted, hstage⟩ := hc.mem hknown
  obtain ⟨hsocket, honly, hcloses, hrow⟩ := hstage.of_announces hannounces
  refine hc.move (accepted_after _ _ _) (fun s' hne => ?_) hmem ?_ ?_
  · refine life_others hne (by rw [hconn]) (fun ws' => ?_) (Or.inr rfl)
    rw [hann, and_iff_left_of_imp]
    rintro ⟨phase, hh, -⟩ rfl
    obtain ⟨phase', hh', -⟩ := hlast
    exact hne (Handler.mk.inj (Option.some.inj (hh.symm.trans hh'))).1
  · rw [life_after]
    exact hinserted
  · rw [life_after]
    refine .closing (by rw [hconn]; exact hsocket) (fun ws' => ?_) ?_ hrow
    · have hiff : h.broker.Announces ws' s ↔ ws' = ws := honly ws'
      simp [hann, hiff]
    · simp [hcloses, ConnectionTask.closes]

theorem coherent_broker (hc : h.Coherent) {e : BrokerEvent π} (hg : h.Orderly (.broker e))
    (hs : h.step E (.broker e) = some h') : h'.Coherent := by
  obtain ⟨b, hb, rfl⟩ := Option.map_eq_some_iff.1 hs
  obtain ⟨new, htasks, hlife⟩ := Broker.life_step hb
  rw [htasks, List.drop_left]
  change (h.after b new (h.broker.admits e)).Coherent
  cases hlife with
  | @opened ws s hfree hconn hann =>
    have hadmits : h.broker.admits (.connect ws s) = [(ws, s)] := by
      simp [Broker.admits, hfree]
    rw [hadmits]
    exact coherent_opened hc (hg.resolve_left (by simp [hfree])) hconn hann
  | announced hlive hconn hann => exact coherent_announced hc hlive hconn hann
  | ended hlive hconn hann => exact coherent_ended hc hlive hconn hann
  | logged hlast hconn hann => exact coherent_logged hc hlast hconn hann
  | same he hconn hann =>
    have hadmits : h.broker.admits e = [] := by
      cases e with
      | connect ws s => simp [Broker.admits, he ws s rfl]
      | _ => rfl
    rw [hadmits]
    refine hc.same (accepted_after _ _ _) fun s => ?_
    rw [life_after]
    simp [hconn, hann, life]

/-- The insert of a row, when it is its turn. -/
theorem coherent_inserted (hc : h.Coherent) {now : ℚ} (hmem : .logConnection s ∈ h.tasks) :
    Coherent { h with
      tasks := h.tasks.erase (.logConnection s), table := logConnection h.table s now } := by
  have hpos : 0 < (h.life s).opens :=
    List.countP_pos_iff.2 ⟨_, hmem, by simp [ConnectionTask.opens]⟩
  obtain ⟨ws, haccepted, hinserted, hstage⟩ := hc.mem (s := s) (by
    intro hunknown
    rw [hunknown] at hpos
    exact absurd hpos (Nat.lt_irrefl 0))
  obtain ⟨hone, hnone⟩ := hinserted.resolve_right fun h => by omega
  have htable : logConnection h.table s now =
      h.table.insert s { sandboxId := s, connectedAt := now } := by
    have hlookup : h.table.lookup s = none := hnone
    simp [logConnection, Dict.setDefault, hlookup]
  have hself : life { h with
      tasks := h.tasks.erase (.logConnection s), table := logConnection h.table s now } s =
        { h.life s with opens := 0, row := some { sandboxId := s, connectedAt := now } } := by
    have hone : h.tasks.countP (ConnectionTask.opens s) = 1 := hone
    simp [life, htable, List.countP_erase, hmem, hone, ConnectionTask.opens,
      ConnectionTask.closes]
  refine hc.move rfl (fun s' hne => ?_) haccepted ?_ ?_
  · simp [life, htable, List.countP_erase, hmem, ConnectionTask.opens, ConnectionTask.closes,
      hne.symm, AList.lookup_insert_ne hne]
  · rw [hself]
    exact Or.inr ⟨rfl, rfl⟩
  · rw [hself]
    exact hstage.insert hnone rfl

/-- The update of a row that is there. -/
theorem coherent_closed (hc : h.Coherent) {reason : String} {now : ℚ}
    (hmem : .logDisconnection s reason ∈ h.tasks) (hrow : (h.table.lookup s).isSome) :
    Coherent { h with
      tasks := h.tasks.erase (.logDisconnection s reason)
      table := logDisconnection h.table s reason now } := by
  have hpos : 0 < (h.life s).closes :=
    List.countP_pos_iff.2 ⟨_, hmem, by simp [ConnectionTask.closes]⟩
  obtain ⟨ws, haccepted, hinserted, hstage⟩ := hc.mem (s := s) (by
    intro hunknown
    rw [hunknown] at hpos
    exact absurd hpos (Nat.lt_irrefl 0))
  obtain ⟨hsocket, hannounces, hone, hopen⟩ := hstage.of_closes hpos
  obtain ⟨row, hlookup⟩ := Option.isSome_iff_exists.1 hrow
  have htable : logDisconnection h.table s reason now = h.table.insert s
      { row with disconnectedAt := some now, disconnectReason := some reason } := by
    have hunclosed : row.disconnectedAt = none := hopen row hlookup
    simp [logDisconnection, hlookup, hunclosed]
  have hself : life { h with
      tasks := h.tasks.erase (.logDisconnection s reason)
      table := logDisconnection h.table s reason now } s =
        { h.life s with
          closes := 0
          row := some
            { row with disconnectedAt := some now, disconnectReason := some reason } } := by
    have hone : h.tasks.countP (ConnectionTask.closes s) = 1 := hone
    simp [life, htable, List.countP_erase, hmem, hone, ConnectionTask.opens,
      ConnectionTask.closes]
  refine hc.move rfl (fun s' hne => ?_) haccepted ?_ ?_
  · simp [life, htable, List.countP_erase, hmem, ConnectionTask.opens, ConnectionTask.closes,
      hne.symm, AList.lookup_insert_ne hne]
  · rw [hself]
    refine Or.inr ⟨?_, rfl⟩
    rcases hinserted with ⟨-, hnone⟩ | ⟨hzero, -⟩
    · cases hlookup.symm.trans hnone
    · exact hzero
  · rw [hself]
    exact .closed hsocket hannounces rfl ⟨_, rfl, rfl⟩

theorem coherent_step (hc : h.Coherent) {e : HistoryEvent π} (hg : h.Orderly e)
    (hs : h.step E e = some h') : h'.Coherent := by
  cases e with
  | broker e => exact coherent_broker hc hg hs
  | run task now =>
    simp only [step, Option.ite_none_right_eq_some] at hs
    obtain ⟨hmem, hs⟩ := hs
    obtain rfl := Option.some.inj hs
    cases task with
    | logConnection s => exact coherent_inserted hc hmem
    | logDisconnection s reason => exact coherent_closed hc hmem hg

theorem coherent_initial : Coherent ({} : ConnectionHistory π) := by
  refine ⟨List.nodup_nil, fun s _ => ?_, nofun⟩
  have hnone : ∀ ws, ¬ ({} : Broker π).Announces ws s := by
    rintro ws ⟨phase, hh, -⟩
    contradiction
  simp only [life, Life.unknown, hnone]
  rfl

/-- When all tasks have run, the table tells of every connection what the broker knows. -/
theorem faithful_of_coherent (hc : h.Coherent) (hsettled : h.Settled) : h.Faithful := by
  obtain ⟨htasks, hannounces⟩ := hsettled
  have hrow : ∀ ws s, (ws, s) ∈ h.accepted → ∃ row, h.table.lookup s = some row ∧
      (row.disconnectedAt.isSome ↔ h.broker.connections.lookup s ≠ some ws) := by
    intro ws s hmem
    obtain ⟨hinserted, hstage⟩ := hc.known ws s hmem
    have hopens : (h.life s).opens = 0 := by simp [life, htasks]
    have hcloses : (h.life s).closes = 0 := by simp [life, htasks]
    obtain ⟨-, hsome⟩ := hinserted.resolve_left fun h => by omega
    obtain ⟨row, hlookup⟩ := Option.isSome_iff_exists.1 hsome
    refine ⟨row, hlookup, ?_⟩
    cases hstage with
    | live hs ha hc hr =>
      have hsocket : h.broker.connections.lookup s = some ws := hs
      simp [hr row hlookup, hsocket]
    | announcing hs ha hc hr => exact absurd ((ha ws).2 rfl) (hannounces ws s)
    | closing hs ha hc hr => omega
    | closed hs ha hc hr =>
      obtain ⟨row', hlookup', hclosed⟩ := hr
      obtain rfl := Option.some.inj (hlookup.symm.trans hlookup')
      have hsocket : h.broker.connections.lookup s = none := hs
      simp [hclosed, hsocket]
  constructor
  · refine (List.perm_ext_iff_of_nodup hc.nodup h.table.keys_nodup).2 fun s => ?_
    have hkeys : s ∈ h.table.keys ↔ (h.table.lookup s).isSome := AList.lookup_isSome.symm
    rw [hkeys]
    constructor
    · intro haccepted
      obtain ⟨⟨ws, s⟩, hmem, rfl⟩ := List.mem_map.1 haccepted
      obtain ⟨row, hlookup, -⟩ := hrow ws s hmem
      rw [hlookup]
      rfl
    · intro hsome
      by_contra hnot
      have hnone : (h.life s).row = none := by rw [hc.unknown s hnot]; rfl
      have hlookup : h.table.lookup s = none := hnone
      rw [hlookup] at hsome
      contradiction
  · intro ws s hmem row hlookup
    obtain ⟨row', hlookup', hiff⟩ := hrow ws s hmem
    obtain rfl := Option.some.inj (hlookup.symm.trans hlookup')
    exact hiff

/-- In a run that accepts no sandbox twice and closes no connection before its row is there, the
history is faithful whenever all tasks have run. -/
theorem history_faithful {tr : List (ConnectionHistory π × HistoryEvent π)}
    (ht : (historyMachine E).Trace tr h) (hg : Machine.Guarded Orderly tr) :
    Machine.Always (fun h => h.Settled → h.Faithful) tr h :=
  (ht.always_of_guarded hg coherent_initial fun _ _ _ hc hg hs => coherent_step hc hg hs).imp
    fun _ hc => faithful_of_coherent hc

/-! ### A sandbox that comes and goes -/

def reviewConnection : List (HistoryEvent String) :=
  [.broker (.connect 1 "review"), .run (.logConnection "review") 0,
    .broker (.disconnect 1 "m-1" 8), .run (.logDisconnection "review" "disconnected") 9]

def orderly (h : ConnectionHistory π) : HistoryEvent π → Bool
  | .broker (.connect _ s) => (h.broker.connections.lookup s).isSome ||
      decide (s ∉ h.accepted.map Prod.snd)
  | .run (.logDisconnection s _) _ => (h.table.lookup s).isSome
  | _ => true

theorem orderly_of_orderly (h : ConnectionHistory π) (e : HistoryEvent π)
    (hg : h.orderly e = true) : h.Orderly e := by
  cases e with
  | broker e =>
    cases e with
    | connect ws s =>
      simp only [orderly, Bool.or_eq_true, decide_eq_true_eq] at hg
      exact hg
    | _ => trivial
  | run task now =>
    cases task with
    | logConnection s => trivial
    | logDisconnection s reason => exact hg

theorem history_faithful_review : ∃ tr h,
    (historyMachine jsonText).Trace tr h ∧ tr.map Prod.snd = reviewConnection ∧
      Machine.Always (fun h => h.Settled → h.Faithful) tr h := by
  obtain ⟨tr, h, ht, hevents, hg⟩ := Machine.Trace.of_guarded_check
    (M := historyMachine jsonText) reviewConnection orderly_of_orderly (by decide)
  exact ⟨tr, h, ht, hevents, history_faithful ht hg⟩

/-- The sandbox connects again under its name. -/
def reviewAgain : List (HistoryEvent String) :=
  reviewConnection ++ [.broker (.connect 2 "review"), .run (.logConnection "review") 20]

/-- There is one row for two connections. -/
theorem connection_lost : ¬ ∀ tr h, (historyMachine jsonText).Trace tr h → h.Settled →
    h.Faithful := by
  intro hall
  obtain ⟨tr, h, ht, -, hcheck⟩ := Machine.Trace.of_check (M := historyMachine jsonText)
    reviewAgain (p := fun _ h => decide (h.tasks = [] ∧
      h.broker.handlers.entries.all (fun x => !x.2.phase.announcing) = true ∧
      h.accepted.length = 2 ∧ h.table.keys = ["review"])) (by decide)
  obtain ⟨htasks, hsilent, htwo, hkeys⟩ := of_decide_eq_true hcheck
  have hannounces : ∀ ws s, ¬ h.broker.Announces ws s := by
    rintro ws s ⟨phase, hh, hp⟩
    have hentry := List.all_eq_true.1 hsilent _ (AList.mem_lookup_iff.1 hh)
    rw [hp] at hentry
    contradiction
  have hperm := (hall tr h ht ⟨htasks, hannounces⟩).rows
  have hlength := hperm.length_eq
  rw [hkeys, List.length_map, htwo] at hlength
  contradiction

end ConnectionHistory

end NemoClaw
