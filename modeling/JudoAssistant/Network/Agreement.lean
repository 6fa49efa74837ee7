import Mathlib.Data.Fintype.Basic
import JudoAssistant.Lib.Run
import JudoAssistant.Network.InFlight
import JudoAssistant.Network.Steps
import JudoAssistant.StoreManager.Runs

/-!
# Agreement of the replicas

The master, its connected clients and the server hold the same tournament whenever nothing is in
flight, provided that the server trims no action off its stack while an undo of it is under way.
-/

namespace JudoAssistant

open Undoable

variable {T : Type} {K : ActionModel T} {ι : Type}

/-- The store manager holds the actions of the view `v` on top of its base, and nothing else. -/
def StoreManager.Holds (v : View K) (m : StoreManager K) : Prop :=
  m.syncing = 0 ∧ m.ReplayInv v.base ∧ m.replica v.base = ⟨m.id, v, [], ∅⟩

namespace System

/-- No message, posted call or signal is in flight. -/
def Quiet (s : System ι K) : Prop :=
  s.signals = [] ∧ s.master.posted = [] ∧ ∀ i, (s.clients i).signals = [] ∧
    (s.clients i).ui.posted = [] ∧ ∀ l ∈ (s.clients i).connection, l.up = [] ∧ l.down = []

/-- The tournament of the server with its action stack replayed on top. -/
def replayed (s : System ι K) : T := K.effects (s.server.stack.map Prod.snd) s.server.tournament

/-- The master and all clients hold the tournament of the server. -/
def Agreed (s : System ι K) : Prop :=
  s.master.tournament = s.replayed ∧ ∀ i, (s.clients i).ui.tournament = s.replayed

/-- Every client is connected, and taking what is under way leads all parties to the server. -/
structure Converging (s : System ι K) : Prop where
  ids_ne : ∀ i, (s.clients i).ui.id ≠ s.master.id
  ids_inj : ∀ i j, (s.clients i).ui.id = (s.clients j).ui.id → i = j
  server : s.server.WF
  master : ∃ base, s.master.Leads s.server.view s.signals base
  clients : ∀ i, ∃ l base, (s.clients i).Agrees s.server.view l base

/-- The steps of connected clients, without a sync: an action can be dispatched if a new id is drawn,
listed actions can be undone by the master, and whatever is in flight can be delivered. -/
def Steady (s : System ι K) : Event ι K → Prop
  | .masterDispatch draws _ => (s.master.drawActionId draws).isSome = true
  | .masterUndo k => k ∈ s.master.listed ∧ k ∉ s.master.unconfirmedUndos
  | .masterSignal => s.signals.isEmpty = false
  | .serverPost => s.master.posted.isEmpty = false
  | .clientDispatch i draws _ => ((s.clients i).ui.drawActionId draws).isSome = true
  | .clientPost i => (s.clients i).ui.posted.isEmpty = false
  | .clientSignal i => (s.clients i).signals.isEmpty = false
  | .clientRead i => ((s.clients i).connection.elim [] (·.down)).isEmpty = false
  | .serverRead i => ((s.clients i).connection.elim [] (·.up)).isEmpty = false
  | _ => False

/-- Does the server execute an action in the step? -/
def executes (s : System ι K) : Event ι K → Bool
  | .serverPost => (s.master.posted.head?.bind Post.action).isSome
  | .serverRead i => (((s.clients i).connection.elim [] (·.up)).head?.bind sentAction).isSome
  | _ => false

/-- Trimming and undoing do not meet: the master undoes no action that a signal queued for it trims,
and the server trims no action of which an undo is posted. -/
def Timely (s : System ι K) : Event ι K → Prop
  | .masterUndo k => s.master.KeepsListed k s.signals
  | .serverPost => s.executes .serverPost = true → s.master.FrontKept s.server.view
  | .serverRead i => s.executes (.serverRead i) = true → s.master.FrontKept s.server.view
  | _ => True

variable {s s' : System ι K}

/-- A step of the master alone. -/
theorem Converging.setMaster (h : s.Converging) (hserver : s'.server = s.server)
    (hclients : s'.clients = s.clients) (hid : s'.master.id = s.master.id)
    (hm : ∃ base, s'.master.Leads s.server.view s'.signals base) : s'.Converging where
  ids_ne i := by
    rw [hclients, hid]
    exact h.ids_ne i
  ids_inj := by
    rw [hclients]
    exact h.ids_inj
  server := hserver ▸ h.server
  master := hserver ▸ hm
  clients := by
    rw [hserver, hclients]
    exact h.clients

/-- All parties follow a step of the server. -/
theorem Converging.follow (h : s.Converging) (hserver : s'.server.WF)
    (hid : s'.master.id = s.master.id)
    (hm : ∃ base, s'.master.Leads s'.server.view s'.signals base)
    (hc : ∀ i, (s'.clients i).ui.id = (s.clients i).ui.id ∧
      ∃ l base, (s'.clients i).Agrees s'.server.view l base) : s'.Converging where
  ids_ne i := by
    rw [(hc i).1, hid]
    exact h.ids_ne i
  ids_inj i j := by
    rw [(hc i).1, (hc j).1]
    exact h.ids_inj i j
  server := hserver
  master := hm
  clients i := (hc i).2

/-- A step of one client alone. -/
theorem Converging.setClient [DecidableEq ι] (h : s.Converging) {i : ι} {c : Client K}
    (hid : c.ui.id = (s.clients i).ui.id) (hc : ∃ l base, c.Agrees s.server.view l base) :
    (s.setClient i c).Converging := by
  refine h.follow h.server rfl h.master fun j => ?_
  by_cases hj : j = i
  · subst hj
    rw [setClient_self]
    exact ⟨hid, hc⟩
  · rw [setClient_of_ne s c hj]
    exact ⟨rfl, h.clients j⟩

/-- The server runs a call of the master. -/
theorem Converging.serverPost (h : s.Converging) (hp : s.master.posted.isEmpty = false)
    (ht : s.executes .serverPost = true → s.master.FrontKept s.server.view) :
    ∃ s', s.serverPost = some s' ∧ s'.Converging := by
  obtain ⟨base, hm⟩ := h.master
  cases hposted : s.master.posted with
  | nil => simp [hposted] at hp
  | cons call posted =>
    cases call with
    | postAction k p =>
      have hown : k.clientId = s.master.id := hm.owned (k, p) (by simp [hposted, Post.action])
      have hnew : k ∉ s.server.view.ids := fun hk =>
        (List.nodup_append.1 hm.listed_nodup).2.2 k hk k (by simp [hposted, Post.action]) rfl
      obtain ⟨server, hserver, hwf, hview⟩ := NetworkServer.push_spec h.server hnew p
      have hfront := ht (by simp [executes, hposted, Post.action])
      refine ⟨_, by simp only [System.serverPost, hposted, hserver]; rfl, ?_⟩
      refine h.follow hwf rfl ⟨base, ?_⟩ fun i => ?_
      · exact hview ▸ hm.postAction hposted hfront
      · obtain ⟨l, base, hc⟩ := h.clients i
        obtain ⟨l', hc'⟩ := hc.broadcastAction p (hown ▸ (h.ids_ne i).symm) hnew
        exact ⟨rfl, l', base, hview ▸ hc'⟩
    | postUndo k =>
      obtain ⟨hk, hm'⟩ := hm.postUndo hposted
      have hcontains : s.server.actions.contains k = true :=
        (h.server.actions.contains_iff k).2 (by rwa [← NetworkServer.ids_view])
      obtain ⟨hwf, hview⟩ := NetworkServer.erase_spec h.server k
      refine ⟨_, by simp only [System.serverPost, hposted, hcontains, if_true]; rfl, ?_⟩
      refine h.follow hwf rfl ⟨base, ?_⟩ fun i => ?_
      · exact hview ▸ hm'
      · obtain ⟨l, base, hc⟩ := h.clients i
        obtain ⟨l', hc'⟩ := hc.broadcastUndo hk
        exact ⟨rfl, l', base, hview ▸ hc'⟩
    | postSync t =>
      have := hm.posted (.postSync t) (by simp [hposted])
      simp [Post.action, Post.undo] at this

/-- The server reads a message of a client. -/
theorem Converging.serverRead [DecidableEq ι] (h : s.Converging) {i : ι}
    (hup : ((s.clients i).connection.elim [] (·.up)).isEmpty = false)
    (ht : s.executes (.serverRead i) = true → s.master.FrontKept s.server.view) :
    ∃ s', s.serverRead i = some s' ∧ s'.Converging := by
  obtain ⟨mbase, hm⟩ := h.master
  obtain ⟨l, base, hc⟩ := h.clients i
  simp only [executes, hc.connection, Option.elim_some] at hup ht
  cases hl : l.up with
  | nil => simp [hl] at hup
  | cons m up =>
    obtain ⟨n, k, p, rfl⟩ : ∃ n k p, m = (n, .action k p) := by
      have := hc.sent m (by simp [hl])
      obtain ⟨n, m⟩ := m
      cases m with
      | action k p => exact ⟨n, k, p, rfl⟩
      | _ => simp [isAction] at this
    have hout : (k, p) ∈ (s.clients i).outgoing l := by simp [Client.outgoing, hl, sentAction]
    have hown : k.clientId = (s.clients i).ui.id := hc.owned (k, p) hout
    have hnew : k ∉ s.server.view.ids := fun hk =>
      (List.nodup_append.1 hc.listed_nodup).2.2 k hk k (List.mem_map_of_mem hout) rfl
    have hfront := ht (by simp [hl, sentAction])
    obtain ⟨server, hserver, hwf, hview⟩ := NetworkServer.push_spec h.server hnew p
    have hread : l.read s.server = some (.accept { l with up := up } ⟨k, n, l.delivered⟩ p) := by
      simp [Connection.read, hc.joined, hl]
    refine ⟨_, by simp only [System.serverRead, hc.connection, Option.bind_eq_bind,
      Option.bind_some, hread, deliverAction, hserver]; rfl, ?_⟩
    refine h.follow hwf rfl ⟨mbase, ?_⟩ fun j => ?_
    · exact hview ▸ hm.received p (hown ▸ h.ids_ne i) hnew hfront
    · by_cases hj : j = i
      · subst hj
        rw [setClient_self]
        obtain ⟨l', hc'⟩ := hc.accept hl
        exact ⟨rfl, l', base, hview ▸ hc'⟩
      · rw [setClient_of_ne _ _ hj]
        obtain ⟨l, base, hc⟩ := h.clients j
        have hne : k.clientId ≠ (s.clients j).ui.id := fun he =>
          hj (h.ids_inj j i (he.symm.trans hown))
        obtain ⟨l', hc'⟩ := hc.broadcastAction p hne hnew
        exact ⟨rfl, l', base, hview ▸ hc'⟩

/-- Every steady step that is timely succeeds and keeps all parties converging. -/
theorem step_converging [DecidableEq ι] (h : s.Converging) {e : Event ι K} (he : s.Steady e)
    (ht : s.Timely e) : ∃ s', s.step e = some s' ∧ s'.Converging := by
  obtain ⟨mbase, hm⟩ := h.master
  cases e with
  | masterDispatch draws p =>
    obtain ⟨m', hm', hid, hl⟩ := hm.dispatch he p
    refine ⟨_, by simp only [step, hm']; rfl, ?_⟩
    exact h.setMaster rfl rfl hid ⟨mbase, hl⟩
  | masterUndo k =>
    obtain ⟨m', hm', hid, hl⟩ := hm.undo ht he.2
    refine ⟨_, by simp only [step, hm']; rfl, ?_⟩
    exact h.setMaster rfl rfl hid ⟨mbase, hl⟩
  | masterSignal =>
    cases hsignals : s.signals with
    | nil => simp [Steady, hsignals] at he
    | cons signal signals =>
      rw [hsignals] at hm
      obtain ⟨m', base', hm', hid, hl⟩ := hm.signal
      refine ⟨_, by simp only [step, hsignals, hm']; rfl, ?_⟩
      exact h.setMaster rfl rfl hid ⟨base', hl⟩
  | serverPost => exact h.serverPost he ht
  | serverRead i => exact h.serverRead he ht
  | clientDispatch i draws p =>
    obtain ⟨l, base, hc⟩ := h.clients i
    obtain ⟨ui, hui, hid, hc'⟩ := hc.dispatch he p
    have hs := h.setClient hid ⟨l, base, hc'⟩
    refine ⟨_, by simp only [step, hui]; rfl, ?_⟩
    exact ⟨hs.ids_ne, hs.ids_inj, hs.server, hs.master, hs.clients⟩
  | clientPost i =>
    obtain ⟨l, base, hc⟩ := h.clients i
    cases hposted : (s.clients i).ui.posted with
    | nil => simp [Steady, hposted] at he
    | cons call posted =>
      have hcall := hc.posted call (by simp [hposted])
      cases call with
      | postAction k p =>
        obtain ⟨l', hc'⟩ := hc.post hposted
        refine ⟨_, by simp only [step, hposted]; rfl, ?_⟩
        exact h.setClient rfl ⟨l', base, hc'⟩
      | postUndo k => simp [Post.action] at hcall
      | postSync t => simp [Post.action] at hcall
  | clientSignal i =>
    obtain ⟨l, base, hc⟩ := h.clients i
    cases hsignals : (s.clients i).signals with
    | nil => simp [Steady, hsignals] at he
    | cons signal signals =>
      obtain ⟨ui, base', hui, hid, hc'⟩ := hc.signal hsignals
      refine ⟨_, by simp only [step, hsignals, hui]; rfl, ?_⟩
      exact h.setClient hid ⟨l, base', hc'⟩
  | clientRead i =>
    obtain ⟨l, base, hc⟩ := h.clients i
    obtain ⟨c', l', hread, hui, hc'⟩ := hc.read (by simpa [Steady, hc.connection] using he)
    refine ⟨_, by simp only [step, hread]; rfl, ?_⟩
    exact h.setClient (by rw [hui]) ⟨l', base, hc'⟩
  | _ => exact absurd he (by simp [Steady])

/-- Converging parties agree when nothing is in flight. -/
theorem Converging.agreed (hK : K.toOps.Lawful) (h : s.Converging) (hq : s.Quiet) : s.Agreed := by
  obtain ⟨hsignals, hposted, hclients⟩ := hq
  have key : ∀ {m : StoreManager K} {base : T}, m.ReplayInv base →
      m.replica base = ⟨m.id, s.server.view, [], ∅⟩ → m.tournament = s.replayed := by
    intro m base hinv hr
    obtain ⟨-, hview, hpending, hundos⟩ := (Replica.ext_iff ..).1 hr
    obtain ⟨hbase, hlog⟩ := (View.ext_iff ..).1 hview
    have hU : m.unconfirmedActionList = [] := List.map_eq_nil_iff.1 hpending
    have hS : m.unconfirmedUndos = ∅ := hundos
    have hlog : (m.confirmedActionList.map fun e => e.obj.param) = s.server.stack.map Prod.snd := by
      rw [← show items m.confirmedActionList = s.server.stack from hlog, items, List.map_map]
      rfl
    have hall : (m.confirmedActionList.filter fun e => decide (e.key ∉ (∅ : Finset _))) =
        m.confirmedActionList := List.filter_eq_self.2 fun _ _ => by simp
    rw [hinv.tournament_eq hK, hU, hS, List.append_nil, hall, hlog]
    exact congrArg (K.effects _) hbase
  constructor
  · obtain ⟨base, hm⟩ := h.master
    have := hm.queue
    rw [hsignals, hposted] at this
    exact key hm.replay (Option.some.inj this)
  · intro i
    obtain ⟨l, base, hc⟩ := h.clients i
    obtain ⟨hsig, hpost, hl⟩ := hclients i
    obtain ⟨hup, hdown⟩ := hl l hc.connection
    have := hc.queue
    simp only [Client.incoming, Client.outgoing, hsig, hpost, hup, hdown] at this
    exact key hc.replay (Option.some.inj this)

/-! ## Runs -/

/-- All clients are connected and synced, and nothing is in flight. -/
structure Connected (s : System ι K) : Prop where
  ids_ne : ∀ i, (s.clients i).ui.id ≠ s.master.id
  ids_inj : ∀ i j, (s.clients i).ui.id = (s.clients j).ui.id → i = j
  quiet : s.Quiet
  server : s.server.WF
  master : s.master.Holds s.server.view
  clients : ∀ i, (s.clients i).phase = .connectIdle ∧
    (s.clients i).connection.map (fun l => (l.participant, l.removed)) = some (.joined false, false) ∧
    (s.clients i).ui.Holds s.server.view

theorem Connected.converging (h : s.Connected) : s.Converging := by
  obtain ⟨hsignals, hposted, hquiet⟩ := h.quiet
  refine ⟨h.ids_ne, h.ids_inj, h.server, ⟨s.server.view.base, ?_⟩, fun i => ?_⟩
  · obtain ⟨hsy, hinv, hr⟩ := h.master
    exact {
      replay := hinv
      syncing := hsy
      queue := by simp [hsignals, hposted, Replica.receiveAll, hr]
      foreign := by simp [hsignals]
      owned := by simp [hposted]
      undone := by simp [hposted]
      ordered := by simp [hposted]
      posted := by simp [hposted] }
  · obtain ⟨hphase, hp, hsy, hinv, hr⟩ := h.clients i
    obtain ⟨l, hl, hp⟩ := Option.map_eq_some_iff.1 hp
    obtain ⟨hsig, hpost, hempty⟩ := hquiet i
    obtain ⟨hup, hdown⟩ := hempty l hl
    refine ⟨l, s.server.view.base, ?_⟩
    exact {
      phase := hphase
      connection := hl
      joined := (Prod.ext_iff.1 hp).1
      listed := (Prod.ext_iff.1 hp).2
      replay := hinv
      syncing := hsy
      queue := by
        simp [Client.incoming, Client.outgoing, hsig, hpost, hup, hdown, Replica.receiveAll, hr]
      foreign := by simp [Client.incoming, hsig, hdown]
      owned := by simp [Client.outgoing, hpost, hup]
      acked := by simp [hdown]
      kept := by simp [hup]
      sent := by simp [hup]
      posted := by simp [hpost] }

/-- Replica agreement.  From a connected system every run of steady steps in which trimming and
undoing do not meet succeeds, and whenever nothing is in flight at its end, the master, every client
and the server with its action stack replayed hold the same tournament. -/
theorem run_agrees [DecidableEq ι] (hK : K.toOps.Lawful) (h : s.Connected) (es : List (Event ι K))
    (hes : Runs.Guarded step (fun s e => s.Steady e ∧ s.Timely e) es s) :
    ∃ s', Runs.run step es s = some s' ∧ (s'.Quiet → s'.Agreed) := by
  obtain ⟨s', hrun, hs'⟩ := Runs.run_total
    (fun _ _ h he => step_converging h he.1 he.2) h.converging hes
  exact ⟨s', hrun, hs'.agreed hK⟩

/-! ## Synced systems -/

section Synced

variable (K) (masterId : ℕ) (t : T) (actions : List (ClientActionId × K.Param)) (ids : ι → ℕ)

/-- The store manager after a `SYNC` with the tournament and the actions. -/
def syncedManager (id : ℕ) : StoreManager K :=
  ((StoreManager.init K id t).receiveSync (.build K t actions [])).getD (StoreManager.init K id t)

/-- The system when all clients have synced with a server that holds the tournament and the
actions. -/
def synced : System ι K where
  master := syncedManager K t actions masterId
  signals := []
  server := ⟨t, Table.empty.pushAll (actions.map fun a => (a.1, Obj.fresh a.2))⟩
  clients i := {
    ui := syncedManager K t actions (ids i)
    signals := []
    phase := .connectIdle
    unconfirmed := Table.empty
    connection := some ⟨[], [], .joined false, 1, 1, false⟩
    stale := [] }
  history := []
  drawn := []

variable {K masterId t actions ids}

theorem syncedManager_holds (hn : (actions.map Prod.fst).Nodup) (id : ℕ) :
    (syncedManager K t actions id).Holds ⟨t, actions⟩ ∧ (syncedManager K t actions id).id = id ∧
      (syncedManager K t actions id).posted = [] := by
  have hn' : (actions.map Prod.fst ++ ([] : List (ClientActionId × K.Param)).map Prod.fst).Nodup := by
    simpa using hn
  obtain ⟨m, hm, ho⟩ := StoreManager.receiveSync_spec (StoreManager.init K id t) (t := t) hn'
    (by simp)
  have : syncedManager K t actions id = m := by simp [syncedManager, hm]
  rw [this]
  refine ⟨⟨ho.syncing_eq, ho.inv, ?_⟩, ho.id_eq, ho.posted_eq⟩
  rw [ho.replica_eq, ho.id_eq]

theorem fresh_pushAll {l : List (ClientActionId × K.Param)} {table : Table ClientActionId K.toOps}
    (h : ∀ e ∈ table.entries, e.obj = Obj.fresh e.obj.param) :
    ∀ e ∈ (table.pushAll (l.map fun a => (a.1, Obj.fresh a.2))).entries,
      e.obj = Obj.fresh e.obj.param := by
  induction l generalizing table with
  | nil => exact h
  | cons a l ih =>
    refine ih fun e he => ?_
    rcases List.mem_append.1 he with he | he
    · exact h e he
    · rw [List.mem_singleton.1 he]
      rfl

theorem connected_synced (hn : (actions.map Prod.fst).Nodup) (hids : Function.Injective ids)
    (hne : ∀ i, ids i ≠ masterId) : (synced K masterId t actions ids).Connected := by
  have hid : ∀ id, (syncedManager K t actions id).id = id := fun id =>
    (syncedManager_holds hn id).2.1
  have hposted : ∀ id, (syncedManager K t actions id).posted = [] := fun id =>
    (syncedManager_holds hn id).2.2
  obtain ⟨hwf, hitems⟩ := (Table.wf_empty (κ := ClientActionId) (K := K.toOps)).pushAll
    (l := actions.map fun a => (a.1, Obj.fresh a.2))
    (by simpa [Table.empty, Function.comp_def] using hn)
  have hview : (synced K masterId t actions ids).server.view = ⟨t, actions⟩ := by
    refine View.ext rfl (hitems.trans ?_)
    simp [Table.empty, Function.comp_def]
  exact {
    ids_ne := fun i => by
      show (syncedManager K t actions (ids i)).id ≠ (syncedManager K t actions masterId).id
      rw [hid, hid]
      exact hne i
    ids_inj := fun i j h => by
      refine hids ?_
      rw [← hid (ids i), ← hid (ids j)]
      exact h
    quiet := ⟨rfl, hposted _, fun i => ⟨rfl, hposted _, by simp [synced]⟩⟩
    server := ⟨hwf, fresh_pushAll (by simp [Table.empty])⟩
    master := hview ▸ (syncedManager_holds hn _).1
    clients := fun i => ⟨rfl, rfl, hview ▸ (syncedManager_holds hn _).1⟩ }

end Synced

instance (s : System ι K) (e : Event ι K) : Decidable (s.Steady e) :=
  match e with
  | .masterDispatch draws _ => inferInstanceAs (Decidable ((s.master.drawActionId draws).isSome = true))
  | .masterUndo k => inferInstanceAs (Decidable (k ∈ s.master.listed ∧ k ∉ s.master.unconfirmedUndos))
  | .masterSignal => inferInstanceAs (Decidable (s.signals.isEmpty = false))
  | .serverPost => inferInstanceAs (Decidable (s.master.posted.isEmpty = false))
  | .clientDispatch i draws _ =>
    inferInstanceAs (Decidable (((s.clients i).ui.drawActionId draws).isSome = true))
  | .clientPost i => inferInstanceAs (Decidable ((s.clients i).ui.posted.isEmpty = false))
  | .clientSignal i => inferInstanceAs (Decidable ((s.clients i).signals.isEmpty = false))
  | .clientRead i =>
    inferInstanceAs (Decidable (((s.clients i).connection.elim [] (·.down)).isEmpty = false))
  | .serverRead i =>
    inferInstanceAs (Decidable (((s.clients i).connection.elim [] (·.up)).isEmpty = false))
  | .masterSync _ | .clientConnect _ | .clientJoin _ | .clientQuit _ | .clientKill _ _
  | .serverReadStale _ _ | .serverLeave _ | .serverLeaveStale _ _ | .serverRemove _
  | .serverRemoveStale _ _ => inferInstanceAs (Decidable False)

instance (v : View K) (m : StoreManager K) : Decidable (m.FrontKept v) :=
  inferInstanceAs (Decidable (maxActionStackSize ≤ v.log.length →
    ∀ a ∈ v.log.head?, a.1 ∉ m.posted.filterMap Post.undo))

instance (s : System ι K) (e : Event ι K) : Decidable (s.Timely e) :=
  match e with
  | .masterUndo k => inferInstanceAs (Decidable (s.master.KeepsListed k s.signals))
  | .serverPost => inferInstanceAs
      (Decidable (s.executes .serverPost = true → s.master.FrontKept s.server.view))
  | .serverRead i => inferInstanceAs
      (Decidable (s.executes (.serverRead i) = true → s.master.FrontKept s.server.view))
  | .masterDispatch _ _ | .masterSignal | .clientDispatch _ _ _ | .clientPost _ | .clientSignal _
  | .clientRead _ | .masterSync _ | .clientConnect _ | .clientJoin _ | .clientQuit _
  | .clientKill _ _ | .serverReadStale _ _ | .serverLeave _ | .serverLeaveStale _ _
  | .serverRemove _ | .serverRemoveStale _ _ => .isTrue trivial

instance [Fintype ι] (s : System ι K) : Decidable s.Quiet :=
  inferInstanceAs (Decidable (s.signals = [] ∧ s.master.posted = [] ∧
    ∀ i, (s.clients i).signals = [] ∧ (s.clients i).ui.posted = [] ∧
      ∀ l ∈ (s.clients i).connection, l.up = [] ∧ l.down = []))

/-- A client and the master dispatch at the same time; then the master undoes the action of the
client. -/
def crossing : List (Event (Fin 2) scoreActions) :=
  [.clientDispatch 0 [0] (2 : ℤ), .masterDispatch [0] (3 : ℤ), .clientPost 0, .serverPost,
    .serverRead 0, .masterSignal, .masterSignal, .masterUndo ⟨1, 0⟩, .clientRead 0, .clientRead 1,
    .clientSignal 0, .clientSignal 1, .serverPost, .masterSignal, .clientRead 0, .clientRead 1,
    .clientRead 0, .clientRead 1, .clientSignal 0, .clientSignal 0, .clientSignal 1,
    .clientSignal 1]

theorem run_agrees_crossing :
    ∃ s, Runs.run step crossing (synced scoreActions 0 (5 : ℤ) [] fun i => i.val + 1) = some s ∧
      s.Quiet ∧ s.replayed = (8 : ℤ) ∧ s.Agreed := by
  have hstart : (synced scoreActions 0 (5 : ℤ) [] fun i : Fin 2 => i.val + 1).Connected :=
    connected_synced List.nodup_nil (fun i j h => Fin.ext (Nat.succ.inj h))
      fun i => Nat.succ_ne_zero _
  obtain ⟨s, hrun, hs⟩ := run_agrees scoreActions_lawful hstart crossing (by decide)
  have h : (Runs.run step crossing (synced scoreActions 0 (5 : ℤ) [] fun i => i.val + 1)).map
      (fun s => (decide s.Quiet, s.replayed)) = some (true, (8 : ℤ)) := by decide
  rw [hrun, Option.map_some, Option.some.injEq, Prod.mk.injEq] at h
  exact ⟨s, hrun, of_decide_eq_true h.1, h.2, hs (of_decide_eq_true h.1)⟩

/-- The first hundred actions of the master. -/
def hundredActions : List (ClientActionId × scoreActions.Param) :=
  (List.range 100).map fun n => (⟨0, n⟩, (1 : ℤ))

/-- The master undoes its oldest action while the server executes an action of the client, for which
it trims this oldest action. -/
def undoMeetsTrim : List (Event (Fin 1) scoreActions) :=
  [.masterUndo ⟨0, 0⟩, .clientDispatch 0 [0] (1 : ℤ), .clientPost 0, .serverRead 0, .serverPost,
    .masterSignal, .masterSignal, .clientRead 0, .clientSignal 0]

/-- The undo of an action that the server has trimmed is lost, but not on the master. -/
theorem undo_meets_trim_disagree :
    (synced scoreActions 0 (0 : ℤ) hundredActions fun _ : Fin 1 => 1).Connected ∧
      Runs.Guarded step Steady undoMeetsTrim
        (synced scoreActions 0 (0 : ℤ) hundredActions fun _ => 1) ∧
      ∃ s, Runs.run step undoMeetsTrim
          (synced scoreActions 0 (0 : ℤ) hundredActions fun _ => 1) = some s ∧
        s.Quiet ∧ ¬ s.Agreed := by
  refine ⟨connected_synced (by decide +kernel) (fun i j _ => Subsingleton.elim i j) (by decide),
    by decide +kernel, ?_⟩
  have h : (Runs.run step undoMeetsTrim
      (synced scoreActions 0 (0 : ℤ) hundredActions fun _ => 1)).map
        (fun s => (decide s.Quiet, s.master.tournament, s.replayed)) =
      some (true, (100 : ℤ), (101 : ℤ)) := by decide +kernel
  obtain ⟨s, hrun, hs⟩ := Option.map_eq_some_iff.1 h
  obtain ⟨hq, hm, hr⟩ := (Prod.mk.injEq ..).mp hs |>.imp_right (Prod.mk.injEq ..).mp
  refine ⟨s, hrun, of_decide_eq_true hq, fun hagreed => ?_⟩
  exact absurd (hm.symm.trans (hagreed.1.trans hr)) (by decide)

end System

end JudoAssistant
