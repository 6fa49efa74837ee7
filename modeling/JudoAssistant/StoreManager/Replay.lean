import JudoAssistant.StoreManager.Model

/-!
# The replay invariant of the store manager

The tournament of a store manager is its base tournament followed by the redo of the listed actions
that are not in `unconfirmedUndos` (`ReplayInv`).  Each operation keeps the invariant; the lemmas
`…_spec` also say what the operation does to the listed ids and parameters and to the base, in
terms of the abstract log `View`: a push trims the front of the log at `maxActionStackSize`, and
the trimmed action moves into the base.
-/

namespace JudoAssistant

open Undoable

variable {T : Type} {K : ActionModel T}

/-- A base tournament and the confirmed actions on top of it. -/
@[ext] structure View (K : ActionModel T) where
  base : T
  log : List (ClientActionId × K.Param)

namespace View

/-- Move the front action into the base if the log is too long and the action is not undone. -/
def trim (undos : Finset ClientActionId) (v : View K) : View K :=
  if v.log.length > maxActionStackSize then
    match v.log with
    | [] => v
    | a :: l => if a.1 ∈ undos then v else ⟨K.effect a.2 v.base, l⟩
  else v

/-- Append an action and trim the log. -/
def push (undos : Finset ClientActionId) (v : View K) (a : ClientActionId × K.Param) : View K :=
  trim undos ⟨v.base, v.log ++ [a]⟩

/-- Remove an action from the log. -/
def erase (v : View K) (k : ClientActionId) : View K := ⟨v.base, v.log.filter fun a => a.1 ≠ k⟩

end View

/-! ## Bookkeeping -/

theorem undoneIn_cons (undos : Finset ClientActionId) (e : Entry ClientActionId K.toOps)
    (l : ActionList K) :
    undoneIn undos (e :: l) = undoneIn undos l + if e.key ∈ undos then 1 else 0 := by
  simp [undoneIn, List.countP_cons]

theorem undoneIn_of_sigs (undos : Finset ClientActionId) {l l' : ActionList K}
    (h : sigs l = sigs l') : undoneIn undos l = undoneIn undos l' := by
  rw [undoneIn, keys_of_sigs h, undoneIn]

theorem undoneIn_congr {undos undos' : Finset ClientActionId} {l : ActionList K}
    (h : ∀ k ∈ keys l, k ∈ undos ↔ k ∈ undos') : undoneIn undos l = undoneIn undos' l :=
  List.countP_congr fun k hk => by simpa using h k hk

theorem undoneIn_insert {undos : Finset ClientActionId} {k : ClientActionId} {l : ActionList K}
    (hn : (keys l).Nodup) (hk : k ∉ undos) :
    undoneIn (insert k undos) l = undoneIn undos l + if k ∈ keys l then 1 else 0 := by
  induction l with
  | nil => rfl
  | cons e l ih =>
    obtain ⟨he, hn⟩ := List.nodup_cons.1 hn
    rw [undoneIn_cons, undoneIn_cons, ih hn]
    by_cases hek : e.key = k
    · have hkl : k ∉ keys l := by rwa [← hek]
      simp [hek, hk, hkl]
    · simp [hek, Ne.symm hek]
      omega

/-- The bookkeeping of a store manager with the confirmed and unconfirmed actions `C` and `U` and
the unconfirmed undos `S`: ids are listed once, undos are listed, the counter counts and the maps
name exactly the entries of the lists. -/
structure Books (C U : ActionList K) (mC mU : ClientActionId → Option ℕ)
    (S : Finset ClientActionId) (count next : ℕ) : Prop where
  nodup : (keys (C ++ U)).Nodup
  undos : ∀ k ∈ S, k ∈ keys (C ++ U)
  count_eq : count = undoneIn S U
  confirmedIndex : Indexed mC C
  unconfirmedIndex : Indexed mU U
  nodes_nodup : (nodes (C ++ U)).Nodup
  nodes_lt : ∀ n ∈ nodes (C ++ U), n < next

namespace Books

variable {C U C' U' : ActionList K} {mC mU : ClientActionId → Option ℕ}
  {S : Finset ClientActionId} {count next : ℕ}

theorem of_sigs (h : Books C U mC mU S count next) (hC : sigs C' = sigs C)
    (hU : sigs U' = sigs U) : Books C' U' mC mU S count next where
  nodup := by
    rw [keys_append, keys_of_sigs hC, keys_of_sigs hU, ← keys_append]
    exact h.nodup
  undos := by
    rw [keys_append, keys_of_sigs hC, keys_of_sigs hU, ← keys_append]
    exact h.undos
  count_eq := by rw [undoneIn_of_sigs S hU, h.count_eq]
  confirmedIndex := h.confirmedIndex.of_sigs hC
  unconfirmedIndex := h.unconfirmedIndex.of_sigs hU
  nodes_nodup := by
    rw [nodes_append, nodes_of_sigs hC, nodes_of_sigs hU, ← nodes_append]
    exact h.nodes_nodup
  nodes_lt := by
    rw [nodes_append, nodes_of_sigs hC, nodes_of_sigs hU, ← nodes_append]
    exact h.nodes_lt

/-- A list of new entries on top of numbered nodes. -/
theorem nodes_insert {l l' : ActionList K} {e : Entry ClientActionId K.toOps}
    (hp : l'.Perm (e :: l)) (hn : (nodes l).Nodup) (hlt : ∀ n ∈ nodes l, n < next)
    (he : e.node = next) : (nodes l').Nodup ∧ ∀ n ∈ nodes l', n < next + 1 := by
  have hp' : (nodes l').Perm (next :: nodes l) := by
    rw [← he]
    exact hp.map Entry.node
  constructor
  · refine hp'.nodup_iff.2 (List.nodup_cons.2 ⟨fun h => ?_, hn⟩)
    exact lt_irrefl next (hlt next h)
  · intro n hn
    rcases List.mem_cons.1 (hp'.subset hn) with rfl | hn
    · exact Nat.lt_succ_self _
    · exact Nat.lt_succ_of_lt (hlt n hn)

theorem push (h : Books C U mC mU S count next) (e : Entry ClientActionId K.toOps)
    (hk : e.key ∉ keys (C ++ U)) (he : e.node = next) :
    Books (C ++ [e]) U (Function.update mC e.key (some e.node)) mU S count (next + 1) := by
  have hp : ((C ++ [e]) ++ U).Perm (e :: (C ++ U)) := by simp
  have hp' : (keys ((C ++ [e]) ++ U)).Perm (e.key :: keys (C ++ U)) := hp.map Entry.key
  obtain ⟨hn, hlt⟩ := nodes_insert hp h.nodes_nodup h.nodes_lt he
  exact {
    nodup := hp'.nodup_iff.2 (List.nodup_cons.2 ⟨hk, h.nodup⟩)
    undos := fun k hk => hp'.mem_iff.2 (List.mem_cons_of_mem _ (h.undos k hk))
    count_eq := h.count_eq
    confirmedIndex := h.confirmedIndex.push e fun hk' => hk (by simp [hk'])
    unconfirmedIndex := h.unconfirmedIndex
    nodes_nodup := hn
    nodes_lt := hlt }

theorem pushUnconfirmed (h : Books C U mC mU S count next) (e : Entry ClientActionId K.toOps)
    (hk : e.key ∉ keys (C ++ U)) (he : e.node = next) :
    Books C (U ++ [e]) mC (Function.update mU e.key (some e.node)) S count (next + 1) := by
  have hp : (C ++ (U ++ [e])).Perm (e :: (C ++ U)) := by
    rw [← List.append_assoc]
    exact List.perm_append_singleton _ _
  have hp' : (keys (C ++ (U ++ [e]))).Perm (e.key :: keys (C ++ U)) := hp.map Entry.key
  obtain ⟨hn, hlt⟩ := nodes_insert hp h.nodes_nodup h.nodes_lt he
  have hS : e.key ∉ S := fun hk' => hk (h.undos _ hk')
  exact {
    nodup := hp'.nodup_iff.2 (List.nodup_cons.2 ⟨hk, h.nodup⟩)
    undos := fun k hk => hp'.mem_iff.2 (List.mem_cons_of_mem _ (h.undos k hk))
    count_eq := by simp [h.count_eq, undoneIn, hS]
    confirmedIndex := h.confirmedIndex
    unconfirmedIndex := h.unconfirmedIndex.push e fun hk' => hk (by simp [hk'])
    nodes_nodup := hn
    nodes_lt := hlt }

/-- Unlink a confirmed entry together with its undo. -/
theorem unlink {l l' : ActionList K} {e : Entry ClientActionId K.toOps}
    (h : Books (l ++ e :: l') U mC mU S count next) :
    Books (l ++ l') U (Function.update mC e.key none) mU (S.erase e.key) count next := by
  have hp : ((l ++ e :: l') ++ U).Perm (e :: ((l ++ l') ++ U)) := by simp
  have hp' : (keys ((l ++ e :: l') ++ U)).Perm (e.key :: keys ((l ++ l') ++ U)) :=
    hp.map Entry.key
  have hpn : (nodes ((l ++ e :: l') ++ U)).Perm (e.node :: nodes ((l ++ l') ++ U)) :=
    hp.map Entry.node
  obtain ⟨hk, hnd⟩ := List.nodup_cons.1 (hp'.nodup_iff.1 h.nodup)
  exact {
    nodup := hnd
    undos := fun k hkS => by
      obtain ⟨hne, hkS⟩ := Finset.mem_erase.1 hkS
      exact (List.mem_cons.1 (hp'.subset (h.undos k hkS))).resolve_left hne
    count_eq := by
      rw [h.count_eq]
      refine undoneIn_congr fun k hkU => ?_
      have : k ≠ e.key := fun hke => hk (by simp [← hke, hkU])
      simp [this]
    confirmedIndex := h.confirmedIndex.unlink
      ((List.sublist_append_left _ _).nodup (by simpa only [keys_append] using h.nodup))
    unconfirmedIndex := h.unconfirmedIndex
    nodes_nodup := (List.nodup_cons.1 (hpn.nodup_iff.1 h.nodes_nodup)).2
    nodes_lt := fun n hn => h.nodes_lt n (hpn.symm.subset (List.mem_cons_of_mem _ hn)) }

/-- The front unconfirmed entry becomes the last confirmed one. -/
theorem confirm {front : Entry ClientActionId K.toOps}
    (h : Books C (front :: U) mC mU S count next) :
    Books (C ++ [{ front with node := next }]) U
      (Function.update mC front.key (some next)) (Function.update mU front.key none) S
      (undoneIn S U) (next + 1) := by
  have hp : ((C ++ [{ front with node := next }]) ++ U).Perm
      ({ front with node := next } :: (C ++ U)) := by simp
  have hkeys : keys ((C ++ [{ front with node := next }]) ++ U) = keys (C ++ front :: U) := by
    simp
  have hpn : (nodes (C ++ front :: U)).Perm (front.node :: nodes (C ++ U)) :=
    List.Perm.map Entry.node List.perm_middle
  obtain ⟨hn, hlt⟩ := nodes_insert hp (List.nodup_cons.1 (hpn.nodup_iff.1 h.nodes_nodup)).2
    (fun n hn => h.nodes_lt n (hpn.symm.subset (List.mem_cons_of_mem _ hn))) rfl
  have hnd := h.nodup
  simp only [keys_append, keys_cons, List.nodup_append] at hnd
  exact {
    nodup := by
      rw [hkeys]
      exact h.nodup
    undos := by
      rw [hkeys]
      exact h.undos
    count_eq := rfl
    confirmedIndex := h.confirmedIndex.push { front with node := next } fun hk =>
      hnd.2.2 _ hk front.key (by simp) rfl
    unconfirmedIndex := h.unconfirmedIndex.unlink_head hnd.2.1
    nodes_nodup := hn
    nodes_lt := hlt }

/-- A listed action is marked as undone. -/
theorem undo (h : Books C U mC mU S count next) {k : ClientActionId} (hk : k ∈ keys (C ++ U))
    (hkS : k ∉ S) :
    Books C U mC mU (insert k S) (count + if k ∈ keys U then 1 else 0) next where
  nodup := h.nodup
  undos := fun k' hk' => by
    rcases Finset.mem_insert.1 hk' with rfl | hk'
    · exact hk
    · exact h.undos k' hk'
  count_eq := by
    have hn : (keys U).Nodup :=
      (List.sublist_append_right _ _).nodup (by simpa only [keys_append] using h.nodup)
    rw [h.count_eq, undoneIn_insert hn hkS]
  confirmedIndex := h.confirmedIndex
  unconfirmedIndex := h.unconfirmedIndex
  nodes_nodup := h.nodes_nodup
  nodes_lt := h.nodes_lt

end Books

namespace StoreManager

/-- The confirmed actions of a store manager on top of a base. -/
def view (s : StoreManager K) (base : T) : View K := ⟨base, items s.confirmedActionList⟩

/-- The ids of the listed actions. -/
def listed (s : StoreManager K) : List ClientActionId :=
  keys (s.confirmedActionList ++ s.unconfirmedActionList)

/-- The listed actions that are not undone are exactly the done ones and, if the actions are lawful,
the tournament is the base followed by them. -/
structure ReplayInv (base : T) (s : StoreManager K) : Prop where
  chain : K.toOps.Lawful →
    Chain base (s.confirmedActionList ++ s.unconfirmedActionList) s.tournament
  marked : Marked s.unconfirmedUndos (s.confirmedActionList ++ s.unconfirmedActionList)
  books : Books s.confirmedActionList s.unconfirmedActionList s.confirmedActionMap
    s.unconfirmedActionMap s.unconfirmedUndos s.undoneUnconfirmedActions s.nextNode

variable {base : T} {s : StoreManager K}

theorem replayInv_init (id : ℕ) (t : T) : ReplayInv t (init K id t) where
  chain _ := rfl
  marked := by simp [Marked, init]
  books := {
    nodup := by simp [init]
    undos := by simp [init]
    count_eq := rfl
    confirmedIndex := indexed_nil
    unconfirmedIndex := indexed_nil
    nodes_nodup := by simp [init]
    nodes_lt := by simp [init] }

/-- The tournament in terms of the base and the listed actions. -/
theorem ReplayInv.tournament_eq (hK : K.toOps.Lawful) (h : ReplayInv base s) :
    s.tournament = K.effects (((s.confirmedActionList ++ s.unconfirmedActionList).filter fun e =>
      decide (e.key ∉ s.unconfirmedUndos)).map fun e => e.obj.param) base := by
  rw [← h.marked.filter_done]
  exact (h.chain hK).effect hK

/-- The ids and parameters that a store manager keeps: the confirmed log, the unconfirmed actions
and the unconfirmed undos. -/
@[ext] structure Ledger (K : ActionModel T) where
  log : List (ClientActionId × K.Param)
  pending : List (ClientActionId × K.Param)
  undos : Finset ClientActionId

/-- The ledger of a store manager. -/
def ledger (s : StoreManager K) : Ledger K :=
  ⟨items s.confirmedActionList, items s.unconfirmedActionList, s.unconfirmedUndos⟩

/-- An operation led from `s` to `s'`, with the given base, ledger and posted calls. -/
structure Outcome (s s' : StoreManager K) (base : T) (ledger : Ledger K) (posted : List (Post K)) :
    Prop where
  inv : ReplayInv base s'
  id_eq : s'.id = s.id
  syncing_eq : s'.syncing = s.syncing
  ledger_eq : s'.ledger = ledger
  posted_eq : s'.posted = posted

theorem ite_emit (c : Prop) [Decidable c] (s : StoreManager K) (signal : UiSignal) :
    (if c then s.emit signal else s) =
      { s with emitted := if c then s.emitted ++ [signal] else s.emitted } := by
  split <;> rfl

/-! ## Trimming -/

/-- `trim` moves the front of the confirmed list into the base, or does nothing.  The confirmed
actions lead to the tournament `mid`; the unconfirmed ones may be rewound. -/
theorem trim_spec (s : StoreManager K) {mid : T}
    (hc : K.toOps.Lawful → Chain base s.confirmedActionList mid)
    (hm : Marked s.unconfirmedUndos s.confirmedActionList)
    (hb : Books s.confirmedActionList s.unconfirmedActionList s.confirmedActionMap
      s.unconfirmedActionMap s.unconfirmedUndos s.undoneUnconfirmedActions s.nextNode) :
    ∃ l m undoId em, s.trim = some { s with
        confirmedActionList := l
        confirmedActionMap := m
        undoActionId := undoId
        emitted := em } ∧
      (K.toOps.Lawful → Chain ((s.view base).trim s.unconfirmedUndos).base l mid) ∧
      Marked s.unconfirmedUndos l ∧
      items l = ((s.view base).trim s.unconfirmedUndos).log ∧
      Books l s.unconfirmedActionList m s.unconfirmedActionMap s.unconfirmedUndos
        s.undoneUnconfirmedActions s.nextNode := by
  by_cases hlen : s.confirmedActionList.length > maxActionStackSize
  · cases hl : s.confirmedActionList with
    | nil => simp [hl] at hlen
    | cons front rest =>
      rw [hl] at hc hm hb hlen
      have hlen' : maxActionStackSize < rest.length + 1 := by simpa using hlen
      have hmark := (marked_cons.1 hm).1
      cases hd : front.obj.done with
      | false =>
        have hk : front.key ∈ s.unconfirmedUndos := by
          by_contra hk
          simp [hmark.2 hk] at hd
        refine ⟨front :: rest, s.confirmedActionMap, s.undoActionId, s.emitted, ?_, ?_, hm, ?_, hb⟩
        · simp only [trim, hl, hlen, if_true, popActionListFront, hd, Bool.false_eq_true, if_false]
          rw [← hl]
        · simpa [View.trim, view, hl, hk] using hc
        · simp [View.trim, view, hl, hk]
      | true =>
        have hk : front.key ∉ s.unconfirmedUndos := hmark.1 hd
        have hc' : K.toOps.Lawful → Chain (K.effect front.obj.param base) rest mid := by
          intro hK
          obtain ⟨m, -, hc'⟩ := (chain_cons_done hd).1 (hc hK)
          rwa [hK.redo_snd] at hc'
        refine ⟨rest, Function.update s.confirmedActionMap front.key none,
          if s.undoActionId = some front.key then none else s.undoActionId,
          (if s.undoActionId = some front.key then s.emitted ++ [.undoStatusChanged false]
            else s.emitted) ++ [.actionErased front.key], ?_, ?_, (marked_cons.1 hm).2, ?_, ?_⟩
        · simp only [trim, hl, hlen, if_true, popActionListFront, hd, emit]
          split <;> rfl
        · simpa [View.trim, view, hl, hk, items, hlen'] using hc'
        · simp [View.trim, view, hl, hk, items, hlen']
        · have := Books.unlink (l := []) hb
          rwa [Finset.erase_eq_of_notMem hk] at this
  · have hlen' : ¬ (items s.confirmedActionList).length > maxActionStackSize := by
      simpa [items] using hlen
    refine ⟨s.confirmedActionList, s.confirmedActionMap, s.undoActionId, s.emitted,
      by simp [trim, hlen], ?_, hm, ?_, hb⟩
    · simpa [View.trim, view, hlen'] using hc
    · simp [View.trim, view, hlen']

/-! ## Local actions and actions of others -/

/-- The id drawn by `dispatch` belongs to the client and is not listed. -/
theorem drawActionId_spec (h : ReplayInv base s) {draws : List ℕ} {k : ClientActionId}
    (hk : s.drawActionId draws = some k) : k.clientId = s.id ∧ k ∉ s.listed := by
  have hp := List.find?_some hk
  obtain ⟨a, -, rfl⟩ := List.mem_map.1 (List.mem_of_find?_eq_some hk)
  refine ⟨rfl, ?_⟩
  simp only [containsConfirmedAction, containsUnconfirmedAction, Bool.and_eq_true,
    Bool.not_eq_true', ← Bool.not_eq_true, h.books.confirmedIndex.isSome_iff,
    h.books.unconfirmedIndex.isSome_iff] at hp
  simpa [listed] using hp

theorem dispatch_spec (h : ReplayInv base s) {draws : List ℕ} {k : ClientActionId}
    (hk : s.drawActionId draws = some k) (p : K.Param) :
    ∃ s', s.dispatch draws p = some s' ∧
      Outcome s s' base { s.ledger with pending := s.ledger.pending ++ [(k, p)] }
        (s.posted ++ [.postAction k p]) := by
  obtain ⟨-, hnew⟩ := drawActionId_spec h hk
  have hS : k ∉ s.unconfirmedUndos := fun hk' => hnew (h.books.undos k hk')
  let e : Entry ClientActionId K.toOps :=
    newEntry s.nextNode k ⟨p, (K.redo p K.init s.tournament).1, true⟩
  have hrun : ∃ em, s.dispatch draws p = some { s with
      tournament := (K.redo p K.init s.tournament).2
      unconfirmedActionList := s.unconfirmedActionList ++ [e]
      unconfirmedActionMap := Function.update s.unconfirmedActionMap k (some s.nextNode)
      nextNode := s.nextNode + 1
      undoActionId := some k
      posted := s.posted ++ [.postAction k p]
      emitted := em } := by
    simp only [dispatch, hk, Obj.redo_of_not_done (Obj.fresh_done p), Option.bind_eq_bind,
      Option.bind_some, Option.pure_def, emit, post]
    split <;> exact ⟨_, rfl⟩
  obtain ⟨em, hrun⟩ := hrun
  refine ⟨_, hrun, ⟨?_, ?_, h.books.pushUnconfirmed e hnew rfl⟩, rfl, rfl, ?_, rfl⟩
  · intro hK
    rw [← List.append_assoc]
    exact (h.chain hK).redo_snoc e K.init rfl rfl
  · rw [← List.append_assoc]
    exact h.marked.append (by simpa [Marked, e, newEntry] using hS)
  · simp [ledger, e, newEntry]

/-- The base and the log after a confirmed action has been appended. -/
def pushed (s : StoreManager K) (base : T) (a : ClientActionId × K.Param) : View K :=
  (s.view base).push s.unconfirmedUndos a

theorem receiveAction_spec (h : ReplayInv base s) (hs : s.syncing = 0) {k : ClientActionId}
    (hnew : k ∉ s.listed) (p : K.Param) :
    ∃ s', s.receiveAction k p = some s' ∧
      Outcome s s' (s.pushed base (k, p)).base
        { s.ledger with log := (s.pushed base (k, p)).log } s.posted := by
  obtain ⟨hmC, hmU⟩ := marked_append.1 h.marked
  have hS : k ∉ s.unconfirmedUndos := fun hk' => hnew (h.books.undos k hk')
  let mid := (rewind s.unconfirmedActionList s.tournament).2
  have hC : K.toOps.Lawful → Chain base s.confirmedActionList mid := by
    intro hK
    obtain ⟨mid', hC, hU⟩ := chain_append.1 (h.chain hK)
    rwa [← rewind_chain hK hU] at hC
  have hsg := sigs_rewind s.unconfirmedActionList s.tournament
  let e : Entry ClientActionId K.toOps := newEntry s.nextNode k ⟨p, (K.redo p K.init mid).1, true⟩
  -- the state handed to `trim`: the unconfirmed actions are rewound, the new one is done
  let s₀ : StoreManager K :=
    { s.emit (.actionAboutToBeAdded k (s.confirmedActionList.length -
        (s.unconfirmedUndos.card - s.undoneUnconfirmedActions))) with
      tournament := (K.redo p K.init mid).2
      unconfirmedActionList := (rewind s.unconfirmedActionList s.tournament).1
      confirmedActionList := s.confirmedActionList ++ [e]
      confirmedActionMap := Function.update s.confirmedActionMap k (some s.nextNode)
      nextNode := s.nextNode + 1 }
  have hview : s₀.view base = ⟨base, (s.view base).log ++ [(k, p)]⟩ := by
    simp [s₀, view, e, newEntry]
  have hpush : (s₀.view base).trim s.unconfirmedUndos = s.pushed base (k, p) := by
    rw [hview, pushed, View.push, view]
  obtain ⟨l, m, uid, em, htrim, hc, hm, hlog, hb⟩ := trim_spec s₀
    (fun hK => (hC hK).redo_snoc e K.init rfl rfl)
    (hmC.append (by simpa [Marked, e, newEntry] using hS))
    ((h.books.push e hnew rfl).of_sigs rfl hsg)
  obtain ⟨l', t', hrep, hsg', hc', hm'⟩ := replay_chain s.unconfirmedUndos
    (not_done_rewind s.unconfirmedActionList s.tournament) (K.redo p K.init mid).2
  have hrun : ∃ em', s.receiveAction k p = some { s with
      tournament := t'
      confirmedActionList := l
      confirmedActionMap := m
      unconfirmedActionList := l'
      undoActionId := uid
      nextNode := s.nextNode + 1
      emitted := em' } := by
    have heq : s.receiveAction k p = s₀.trim.bind fun s' =>
        (replay s'.unconfirmedUndos s'.unconfirmedActionList s'.tournament).bind fun q =>
          some ({ s' with unconfirmedActionList := q.1, tournament := q.2 }.emit
            (.actionAdded k (s.confirmedActionList.length -
              (s.unconfirmedUndos.card - s.undoneUnconfirmedActions)))) := by
      simp only [receiveAction, hs, lt_irrefl, if_false,
        Obj.redo_of_not_done (Obj.fresh_done p), Option.bind_eq_bind, Option.bind_some]
      rfl
    rw [heq, htrim]
    exact ⟨_, congrArg (Option.bind · _) hrep⟩
  obtain ⟨em', hrun⟩ := hrun
  refine ⟨_, hrun, ⟨?_, hm.append hm', hb.of_sigs rfl hsg'⟩, rfl, rfl, ?_, rfl⟩
  · rw [← hpush]
    exact fun hK => chain_append.2 ⟨_, hc hK, hc'⟩
  · rw [← hpush]
    simp only [ledger, items_of_sigs (hsg'.trans hsg), hlog]
    rfl

theorem receiveActionConfirm_spec (h : ReplayInv base s) (hs : s.syncing = 0) {k : ClientActionId}
    {p : K.Param} {rest : List (ClientActionId × K.Param)} (hfront : s.ledger.pending = (k, p) :: rest) :
    ∃ s', s.receiveActionConfirm k = some s' ∧
      Outcome s s' (s.pushed base (k, p)).base
        ⟨(s.pushed base (k, p)).log, rest, s.ledger.undos⟩ s.posted := by
  cases hU : s.unconfirmedActionList with
  | nil => simp [ledger, hU] at hfront
  | cons front U =>
    have hbooks := h.books
    have hchain := h.chain
    have hmarked := h.marked
    rw [hU] at hbooks hchain hmarked
    simp only [ledger, hU, items_cons, List.cons.injEq, Prod.mk.injEq] at hfront
    obtain ⟨⟨rfl, rfl⟩, rfl⟩ := hfront
    have hmark := (marked_cons.1 (marked_append.1 hmarked).2).1
    have hcount := hbooks.count_eq
    rw [undoneIn_cons] at hcount
    have hne : ¬ (front.obj.done = false ∧ s.undoneUnconfirmedActions = 0) := by
      rintro ⟨hd, h0⟩
      have hk : front.key ∈ s.unconfirmedUndos := by
        by_contra hk
        simp [hmark.2 hk] at hd
      rw [if_pos hk, h0] at hcount
      omega
    have hcount' : (if front.obj.done then s.undoneUnconfirmedActions
        else s.undoneUnconfirmedActions - 1) = undoneIn s.unconfirmedUndos U := by
      cases hd : front.obj.done with
      | true => simpa [hmark.1 hd] using hcount
      | false =>
        have hk : front.key ∈ s.unconfirmedUndos := by
          by_contra hk
          simp [hmark.2 hk] at hd
        rw [if_pos hk] at hcount
        simp [hcount]
    let s₀ : StoreManager K := { s with
      unconfirmedActionList := U
      unconfirmedActionMap := Function.update s.unconfirmedActionMap front.key none
      undoneUnconfirmedActions := undoneIn s.unconfirmedUndos U
      confirmedActionList := s.confirmedActionList ++ [{ front with node := s.nextNode }]
      confirmedActionMap := Function.update s.confirmedActionMap front.key (some s.nextNode)
      nextNode := s.nextNode + 1 }
    have hrun : s.receiveActionConfirm front.key = s₀.trim := by
      have hs' : ¬ s.syncing > 0 := by omega
      simp only [receiveActionConfirm, hs', if_false, hU, ne_eq, not_true_eq_false, hne, hcount']
      rfl
    have hpush : (s₀.view base).trim s.unconfirmedUndos =
        s.pushed base (front.key, front.obj.param) := by
      simp [s₀, view, pushed, View.push]
    rw [List.append_cons] at hchain hmarked
    obtain ⟨hmC, hmU⟩ := marked_append.1 hmarked
    -- renumbering the front entry changes neither its object nor its key
    obtain ⟨mid, hmid⟩ : ∃ mid, K.toOps.Lawful →
        Chain base s₀.confirmedActionList mid ∧ Chain mid U s.tournament := by
      by_cases hK : K.toOps.Lawful
      · obtain ⟨mid, hC, hU'⟩ := chain_append.1 (hchain hK)
        obtain ⟨t, h₁, h₂⟩ := chain_append.1 hC
        exact ⟨mid, fun _ => ⟨chain_append.2 ⟨t, h₁, h₂⟩, hU'⟩⟩
      · exact ⟨base, fun hK' => absurd hK' hK⟩
    have hmC' : Marked s.unconfirmedUndos s₀.confirmedActionList :=
      (marked_append.1 hmC).1.append (by simpa [Marked] using hmark)
    obtain ⟨l, m, uid, em, htrim, hc, hm, hlog, hb⟩ :=
      trim_spec s₀ (fun hK => (hmid hK).1) hmC' hbooks.confirm
    refine ⟨_, hrun.trans htrim, ⟨?_, hm.append hmU, hb⟩, rfl, rfl, ?_, rfl⟩
    · rw [← hpush]
      exact fun hK => chain_append.2 ⟨_, hc hK, (hmid hK).2⟩
    · rw [← hpush]
      simp only [ledger, hlog]
      rfl

/-! ## Undo of confirmed actions -/

/-- The keys below and above an entry of a log without repetitions differ from its own. -/
theorem ne_of_nodup_middle {l r : ActionList K} {e : Entry ClientActionId K.toOps}
    (h : (keys (l ++ e :: r)).Nodup) : ∀ k ∈ keys (l ++ r), k ≠ e.key := by
  have hp : (keys (l ++ e :: r)).Perm (e.key :: keys (l ++ r)) :=
    List.Perm.map Entry.key List.perm_middle
  rintro k hk rfl
  exact (List.nodup_cons.1 (hp.nodup_iff.1 h)).1 hk

theorem items_erase_middle {l l' : ActionList K} {e : Entry ClientActionId K.toOps}
    (h : (keys (l ++ e :: l')).Nodup) :
    (items (l ++ e :: l')).filter (fun a => a.1 ≠ e.key) = items (l ++ l') := by
  have hne : ∀ a ∈ items (l ++ l'), a.1 ≠ e.key := by
    intro a ha
    refine ne_of_nodup_middle h a.1 ?_
    rw [← keys_items]
    exact List.mem_map_of_mem ha
  have hl : ∀ a ∈ items l, decide (a.1 ≠ e.key) = true := fun a ha =>
    decide_eq_true (hne a (by simp [ha]))
  have hl' : ∀ a ∈ items l', decide (a.1 ≠ e.key) = true := fun a ha =>
    decide_eq_true (hne a (by simp [ha]))
  rw [items_append, items_cons, List.filter_append, List.filter_cons_of_neg (by simp),
    List.filter_eq_self.2 hl, List.filter_eq_self.2 hl', items_append]

theorem receiveUndo_spec (h : ReplayInv base s) (hs : s.syncing = 0) {k : ClientActionId}
    (hk : k ∈ keys s.confirmedActionList) :
    ∃ s', s.receiveUndo k = some s' ∧
      Outcome s s' base ⟨((s.view base).erase k).log, s.ledger.pending, s.ledger.undos.erase k⟩
        s.posted := by
  obtain ⟨below, target, above, hsplit, hC, rfl⟩ := exists_splitLast hk
  have hbooks := h.books
  have hchain := h.chain
  have hmarked := h.marked
  rw [hC] at hbooks hchain hmarked
  obtain ⟨hmC, hmU⟩ := marked_append.1 hmarked
  have hmark := (marked_cons.1 (marked_append.1 hmC).2).1
  have hne := ne_of_nodup_middle
    ((List.sublist_append_left _ _).nodup (by simpa only [keys_append] using hbooks.nodup))
  have hguard : target.obj.done ≠ decide (target.key ∈ s.unconfirmedUndos) := by
    intro hd
    rw [hd] at hmark
    by_cases hkS : target.key ∈ s.unconfirmedUndos <;> simp [hkS] at hmark
  let mid := (rewind s.unconfirmedActionList s.tournament).2
  let low := (target.obj.unroll (rewind above mid).2).2
  have hlow : K.toOps.Lawful → Chain base below low := by
    intro hK
    obtain ⟨mid', hCc, hUc⟩ := chain_append.1 (hchain hK)
    obtain ⟨low', hlow, hrest⟩ := chain_append.1 hCc
    rw [← rewind_chain hK hUc] at hrest
    rwa [← rewind_chain hK hrest] at hlow
  obtain ⟨a', t', hrepC, hsgC, hcC, hmC'⟩ := replay_chain (s.unconfirmedUndos.erase target.key)
    (not_done_rewind above mid) low
  obtain ⟨u', t'', hrepU, hsgU, hcU, hmU'⟩ := replay_chain (s.unconfirmedUndos.erase target.key)
    (not_done_rewind s.unconfirmedActionList s.tournament) t'
  have hrun : ∃ uid em, s.receiveUndo target.key = some { s with
      tournament := t''
      confirmedActionList := below ++ a'
      confirmedActionMap := Function.update s.confirmedActionMap target.key none
      unconfirmedActionList := u'
      unconfirmedUndos := s.unconfirmedUndos.erase target.key
      undoActionId := uid
      emitted := em } := by
    have hcont : (!s.containsConfirmedAction target.key) = false := by
      simpa [containsConfirmedAction] using (h.books.confirmedIndex.isSome_iff _).2 hk
    have hs' : ¬ s.syncing > 0 := by omega
    simp only [receiveUndo, hs', if_false, hcont, Bool.false_eq_true, hsplit,
      Option.bind_eq_bind, Option.bind_some, hguard, hrepC, hrepU, Option.pure_def, emit, low, mid]
    split
    · split <;> exact ⟨_, _, rfl⟩
    · exact ⟨_, _, rfl⟩
  obtain ⟨uid, em, hrun⟩ := hrun
  have hsigC : sigs (below ++ a') = sigs (below ++ above) := by
    rw [sigs_append, hsgC, sigs_rewind, ← sigs_append]
  have hsigU : sigs u' = sigs s.unconfirmedActionList := hsgU.trans (sigs_rewind _ _)
  refine ⟨_, hrun, ⟨?_, ?_, hbooks.unlink.of_sigs hsigC hsigU⟩, rfl, rfl, ?_, rfl⟩
  · exact fun hK => chain_append.2 ⟨_, chain_append.2 ⟨_, hlow hK, hcC⟩, hcU⟩
  · refine ((marked_append.1 hmC).1.congr fun k hk => ?_).append hmC' |>.append hmU'
    have : k ≠ target.key := hne k (by simp [hk])
    simp [this]
  · have hlog : ((s.view base).erase target.key).log = items (below ++ above) := by
      rw [← items_erase_middle ((List.sublist_append_left _ _).nodup
        (by simpa only [keys_append] using hbooks.nodup)), ← hC]
      rfl
    rw [hlog]
    simp only [ledger, items_of_sigs hsigC, items_of_sigs hsigU]

theorem receiveUndoConfirm_spec (h : ReplayInv base s) (hs : s.syncing = 0) {k : ClientActionId}
    (hk : k ∈ s.unconfirmedUndos ∧ k ∈ keys s.confirmedActionList ∨ k ∉ s.listed) :
    Outcome s (s.receiveUndoConfirm k) base
      ⟨((s.view base).erase k).log, s.ledger.pending, s.ledger.undos.erase k⟩ s.posted := by
  have hs' : ¬ s.syncing > 0 := by omega
  rcases hk with ⟨hkS, hk⟩ | hk
  · obtain ⟨below, target, above, -, hC, rfl⟩ := exists_splitLast hk
    have hbooks := h.books
    have hchain := h.chain
    have hmarked := h.marked
    rw [hC] at hbooks hchain hmarked
    obtain ⟨hmC, hmU⟩ := marked_append.1 hmarked
    obtain ⟨hmB, hmA⟩ := marked_append.1 hmC
    have hnd : (keys (below ++ target :: above)).Nodup :=
      (List.sublist_append_left _ _).nodup (by simpa only [keys_append] using hbooks.nodup)
    have hne := ne_of_nodup_middle (r := above ++ s.unconfirmedActionList)
      (by simpa using hbooks.nodup)
    have hd : target.obj.done = false := by
      simpa [hkS] using (marked_cons.1 hmA).1
    have hmap : s.confirmedActionMap target.key = some target.node :=
      (hbooks.confirmedIndex _ _).2 ⟨target, by simp, rfl, rfl⟩
    have herase : eraseNode target.node s.confirmedActionList = below ++ above := by
      rw [hC]
      exact eraseNode_append
        ((List.sublist_append_left _ _).nodup (by simpa only [nodes_append] using hbooks.nodes_nodup))
    have hrun : s.receiveUndoConfirm target.key = { s with
        unconfirmedUndos := s.unconfirmedUndos.erase target.key
        confirmedActionList := below ++ above
        confirmedActionMap := Function.update s.confirmedActionMap target.key none } := by
      simp only [receiveUndoConfirm, hs', if_false, hmap, herase]
    rw [hrun]
    refine ⟨⟨?_, ?_, hbooks.unlink⟩, rfl, rfl, ?_, rfl⟩
    · intro hK
      obtain ⟨mid, hCc, hUc⟩ := chain_append.1 (hchain hK)
      obtain ⟨low, hlow, hrest⟩ := chain_append.1 hCc
      exact chain_append.2 ⟨mid, chain_append.2 ⟨low, hlow, (chain_cons_not_done hd).1 hrest⟩, hUc⟩
    · refine Marked.congr ((hmB.append (marked_cons.1 hmA).2).append hmU) fun k hk => ?_
      have : k ≠ target.key := hne k (by simpa using hk)
      simp [this]
    · have hlog : ((s.view base).erase target.key).log = items (below ++ above) := by
        rw [← items_erase_middle hnd, ← hC]
        rfl
      rw [hlog]
      rfl
  · have hmap : s.confirmedActionMap k = none :=
      h.books.confirmedIndex.eq_none fun hk' => hk (by simp [listed, hk'])
    have hS : s.unconfirmedUndos.erase k = s.unconfirmedUndos :=
      Finset.erase_eq_of_notMem fun hk' => hk (h.books.undos k hk')
    have hrun : s.receiveUndoConfirm k = s := by
      simp only [receiveUndoConfirm, hs', if_false, hmap, hS]
    have hlog : ((s.view base).erase k).log = s.ledger.log := by
      refine List.filter_eq_self.2 fun a ha => decide_eq_true ?_
      rintro rfl
      refine hk ?_
      simp only [listed, keys_append, List.mem_append]
      rw [← keys_items]
      exact .inl (List.mem_map_of_mem ha)
    rw [hrun, hlog]
    exact ⟨h, rfl, rfl, by simp [ledger, hS], rfl⟩

/-! ## Undo by the local client -/

/-- Marking one more action as undone leaves the marks of logs without it alone. -/
theorem marked_insert {S : Finset ClientActionId} {k : ClientActionId} {l : ActionList K}
    (h : Marked S l) (hk : k ∉ keys l) : Marked (insert k S) l := by
  refine h.congr fun k' hk' => ?_
  have : k' ≠ k := fun he => hk (he ▸ hk')
  simp [this]

/-- The lists and the tournament that the walks of `undo` compute. -/
structure Undone (s : StoreManager K) (base : T) (k : ClientActionId) (C U : ActionList K) (t : T) :
    Prop where
  chain : K.toOps.Lawful → Chain base (C ++ U) t
  marked : Marked (insert k s.unconfirmedUndos) (C ++ U)
  sigsC : sigs C = sigs s.confirmedActionList
  sigsU : sigs U = sigs s.unconfirmedActionList

/-- The walk for an unconfirmed action. -/
theorem unrollUnconfirmed_spec (h : ReplayInv base s) {k : ClientActionId}
    (hk : k ∈ keys s.unconfirmedActionList) :
    ∃ l t o U t', s.unrollUnconfirmed k = (l, t, some o) ∧
      replayRest (insert k s.unconfirmedUndos) l t = some (U, t') ∧
      Undone s base k s.confirmedActionList U t' := by
  obtain ⟨below, target, above, hsplit, hU, rfl⟩ := exists_splitLast hk
  have hnd := h.books.nodup
  have hchain := h.chain
  have hmarked := h.marked
  rw [hU] at hnd hchain hmarked
  obtain ⟨hmC, hmU⟩ := marked_append.1 hmarked
  obtain ⟨hmB, hmA⟩ := marked_append.1 hmU
  have hne := ne_of_nodup_middle (l := s.confirmedActionList ++ below) (by simpa using hnd)
  let o := target.obj.unroll (rewind above s.tournament).2
  have hlow : K.toOps.Lawful → Chain base (s.confirmedActionList ++ below) o.2 := by
    intro hK
    obtain ⟨mid, hCc, hUc⟩ := chain_append.1 (hchain hK)
    obtain ⟨low, hlow, hrest⟩ := chain_append.1 hUc
    rw [← rewind_chain hK hrest] at hlow
    exact chain_append.2 ⟨mid, hCc, hlow⟩
  obtain ⟨a', t', hrep, hsg, hc, hm⟩ := replay_chain (insert target.key s.unconfirmedUndos)
    (not_done_rewind above s.tournament) o.2
  have hmB' : Marked (insert target.key s.unconfirmedUndos)
      (below ++ [{ target with obj := o.1 }]) := by
    refine (marked_insert hmB fun hk => hne _ (by simp [hk]) rfl).append ?_
    simpa [Marked] using Obj.unroll_done _ _
  refine ⟨_, _, _, below ++ { target with obj := o.1 } :: a', t',
    by simp only [unrollUnconfirmed, hsplit]; rfl, ?_, ?_, ?_, rfl, ?_⟩
  · change replayRest _ (below ++ { target with obj := o.1 } :: (rewind above s.tournament).1) o.2 =
      _
    rw [List.append_cons, replayRest_append_of_marked hmB',
      replayRest_of_not_done _ (not_done_rewind above s.tournament), hrep]
    simp
  · intro hK
    rw [← List.append_assoc]
    exact chain_append.2 ⟨o.2, hlow hK, (chain_cons_not_done (Obj.unroll_done _ _)).2 hc⟩
  · rw [List.append_cons]
    exact (marked_insert hmC fun hk => hne _ (by simp [hk]) rfl).append (hmB'.append hm)
  · rw [hU, sigs_append, sigs_append, sigs_cons, sigs_cons, sig_unroll, hsg, sigs_rewind]

/-- The walk for a confirmed action: the unconfirmed actions are rewound, the confirmed ones are
walked back to the action. -/
theorem rollConfirmed_spec (h : ReplayInv base s) {k : ClientActionId}
    (hk : k ∈ keys s.confirmedActionList) (hkS : k ∉ s.unconfirmedUndos) :
    ∃ l t C t₁ o U t', s.unrollUnconfirmed k = (l, t, none) ∧
      rollConfirmed (insert k s.unconfirmedUndos) k s.confirmedActionList t = some (C, t₁, o) ∧
      replayRest (insert k s.unconfirmedUndos) l t₁ = some (U, t') ∧
      Undone s base k C U t' := by
  obtain ⟨below, target, above, hsplit, hC, rfl⟩ := exists_splitLast hk
  have hnd := h.books.nodup
  have hchain := h.chain
  have hmarked := h.marked
  rw [hC] at hnd hchain hmarked
  obtain ⟨hmC, hmU⟩ := marked_append.1 hmarked
  obtain ⟨hmB, hmA⟩ := marked_append.1 hmC
  have hne := ne_of_nodup_middle (r := above ++ s.unconfirmedActionList) (by simpa using hnd)
  have hkU : target.key ∉ keys s.unconfirmedActionList := fun hk => hne _ (by simp [hk]) rfl
  have hd : target.obj.done = true := (marked_cons.1 hmA).1.2 hkS
  let mid := (rewind s.unconfirmedActionList s.tournament).2
  let o := target.obj.unroll (rewind above mid).2
  have hundo : target.obj.undo (rewind above mid).2 = some o := by
    simp only [o, Obj.unroll, Obj.undo_of_done hd, Option.getD_some]
  have hlow : K.toOps.Lawful → Chain base below o.2 := by
    intro hK
    obtain ⟨mid', hCc, hUc⟩ := chain_append.1 (hchain hK)
    obtain ⟨low, hlow, hrest⟩ := chain_append.1 hCc
    rw [← rewind_chain hK hUc] at hrest
    rwa [← rewind_chain hK hrest] at hlow
  obtain ⟨a', t₁, hrepC, hsgC, hcC, hmC'⟩ := replay_chain (insert target.key s.unconfirmedUndos)
    (not_done_rewind above mid) o.2
  obtain ⟨u', t', hrepU, hsgU, hcU, hmU'⟩ := replay_chain (insert target.key s.unconfirmedUndos)
    (not_done_rewind s.unconfirmedActionList s.tournament) t₁
  refine ⟨_, mid, below ++ { target with obj := o.1 } :: a', t₁, o.1.freshClone, u', t', ?_, ?_,
    (replayRest_of_not_done _ (not_done_rewind _ _) _).trans hrepU, ?_, ?_, ?_,
    hsgU.trans (sigs_rewind _ _)⟩
  · simp only [unrollUnconfirmed, splitLast_eq_none.2 hkU, mid]
  · simp only [rollConfirmed, hsplit, Option.bind_eq_bind, Option.bind_some, hundo, hrepC,
      Option.pure_def]
  · intro hK
    refine chain_append.2 ⟨t₁, chain_append.2 ⟨o.2, hlow hK, ?_⟩, hcU⟩
    exact (chain_cons_not_done (Obj.unroll_done _ _)).2 hcC
  · refine Marked.append (Marked.append ?_ (marked_cons.2 ⟨?_, hmC'⟩)) hmU'
    · exact marked_insert hmB fun hk => hne _ (by simp [hk]) rfl
    · simpa using Obj.unroll_done _ _
  · rw [hC, sigs_append, sigs_append, sigs_cons, sigs_cons, sig_unroll, hsgC, sigs_rewind]

/-- `undo` of an action that is listed and not yet undone: the action is marked as undone, every
other listed action stays as it was. -/
theorem undo_spec (h : ReplayInv base s) {k : ClientActionId} (hk : k ∈ s.listed) (hkS : k ∉ s.unconfirmedUndos) :
    ∃ s', s.undo k = some s' ∧
      Outcome s s' base { s.ledger with undos := insert k s.ledger.undos }
        (s.posted ++ [.postUndo k]) := by
  have hC := h.books.confirmedIndex.isSome_iff k
  have hU := h.books.unconfirmedIndex.isSome_iff k
  obtain ⟨C, U, t', hundone, hrun⟩ : ∃ C U t', Undone s base k C U t' ∧
      ∃ uid redo em, s.undo k = some { s with
        unconfirmedUndos := insert k s.unconfirmedUndos
        tournament := t'
        confirmedActionList := C
        unconfirmedActionList := U
        undoneUnconfirmedActions :=
          s.undoneUnconfirmedActions + if k ∈ keys s.unconfirmedActionList then 1 else 0
        undoActionId := uid
        redoList := redo
        posted := s.posted ++ [.postUndo k]
        emitted := em } := by
    by_cases hkU : k ∈ keys s.unconfirmedActionList
    · obtain ⟨l, t, o, U, t', hun, hrep, hund⟩ := unrollUnconfirmed_spec h hkU
      refine ⟨_, _, _, hund, ?_⟩
      simp only [undo, unrollConfirmed, containsUnconfirmedAction, hU.2 hkU, hun, hrep, Bool.not_true, Bool.and_false,
        Bool.false_eq_true, if_false, if_true, Option.bind_eq_bind, Option.bind_some, hkU,
        Option.isSome_some, Option.pure_def, ite_emit]
      exact ⟨_, _, _, rfl⟩
    · have hkC : k ∈ keys s.confirmedActionList := by
        simpa [listed, hkU] using hk
      obtain ⟨l, t, C, t₁, o, U, t', hun, hroll, hrep, hund⟩ := rollConfirmed_spec h hkC hkS
      refine ⟨_, _, _, hund, ?_⟩
      have hU' : (s.unconfirmedActionMap k).isSome = false := by
        simpa [hkU] using hU
      simp only [undo, unrollConfirmed, containsUnconfirmedAction, containsConfirmedAction, hU', hC.2 hkC, hun, hroll,
        hrep, Bool.not_true, Bool.false_and, Bool.false_eq_true, if_false, Option.bind_eq_bind,
        Option.bind_some, hkU, Option.map_some, Option.isSome_none, Option.pure_def, ite_emit]
      exact ⟨_, _, _, rfl⟩
  obtain ⟨uid, redo, em, hrun⟩ := hrun
  refine ⟨_, hrun, ⟨hundone.chain, hundone.marked,
    (h.books.undo hk hkS).of_sigs hundone.sigsC hundone.sigsU⟩, rfl, rfl, ?_, rfl⟩
  simp only [ledger, items_of_sigs hundone.sigsC, items_of_sigs hundone.sigsU]

/-! ## Synchronisation -/

theorem map_fst_redoAll (l : List (ClientActionId × K.Param)) (t : T) :
    (redoAll K l t).1.map Prod.fst = l.map Prod.fst := by
  induction l generalizing t with
  | nil => rfl
  | cons a l ih => simp [redoAll, ih]

theorem items_redoAll (n : ℕ) (l : List (ClientActionId × K.Param)) (t : T) :
    items (number n (redoAll K l t).1) = l := by
  induction l generalizing n t with
  | nil => rfl
  | cons a l ih => simp [redoAll, number, ih]

theorem marked_redoAll (n : ℕ) (l : List (ClientActionId × K.Param)) (t : T) :
    Marked ∅ (number n (redoAll K l t).1) := by
  induction l generalizing n t with
  | nil => simp [Marked, redoAll, number]
  | cons a l ih => exact marked_cons.2 ⟨by simp, ih _ _⟩

theorem chain_redoAll (n : ℕ) (l : List (ClientActionId × K.Param)) (t : T) :
    Chain t (number n (redoAll K l t).1) (redoAll K l t).2 := by
  induction l generalizing n t with
  | nil => rfl
  | cons a l ih => exact (chain_cons_done rfl).2 ⟨K.init, rfl, ih _ _⟩

/-- The books of two freshly numbered lists. -/
theorem books_number {c u : List (ClientActionId × Obj K.toOps)} (n : ℕ)
    (hn : (c.map Prod.fst ++ u.map Prod.fst).Nodup) :
    Books (K := K) (number n c) (number (n + c.length) u) (index (number n c))
      (index (number (n + c.length) u)) ∅ 0 (n + c.length + u.length) := by
  have hnodes : nodes (number n c ++ number (n + c.length) u) =
      List.range' n (c.length + u.length) := by
    rw [← number_append, nodes_number, List.length_append]
  exact {
    nodup := by simpa only [keys_append, keys_number] using hn
    undos := by simp
    count_eq := by simp [undoneIn]
    confirmedIndex := indexed_index (by
      rw [keys_number]
      exact (List.sublist_append_left _ _).nodup hn)
    unconfirmedIndex := indexed_index (by
      rw [keys_number]
      exact (List.sublist_append_right _ _).nodup hn)
    nodes_nodup := by
      rw [hnodes]
      exact List.nodup_range'
    nodes_lt := by
      rw [hnodes]
      intro i hi
      have := List.mem_range'_1.1 hi
      omega }

theorem receiveSync_spec (s : StoreManager K) {t : T}
    {actions unconfirmed : List (ClientActionId × K.Param)}
    (hn : (actions.map Prod.fst ++ unconfirmed.map Prod.fst).Nodup)
    (hown : ∀ a ∈ unconfirmed, a.1.clientId = s.id) :
    ∃ s', s.receiveSync (.build K t actions unconfirmed) = some s' ∧
      Outcome s s' t ⟨actions, unconfirmed, ∅⟩ s.posted := by
  let c := redoAll K actions t
  let u := redoAll K unconfirmed c.2
  have hguard : ¬ ∃ e ∈ (number (s.nextNode + c.1.length) u.1 : ActionList K),
      e.key.clientId ≠ s.id := by
    rintro ⟨e, he, hne⟩
    have hk : e.key ∈ keys (number (s.nextNode + c.1.length) u.1) := List.mem_map_of_mem he
    rw [keys_number, map_fst_redoAll] at hk
    obtain ⟨a, ha, hak⟩ := List.mem_map.1 hk
    exact hne (hak ▸ hown a ha)
  have hzero : undoneIn ∅ (number (s.nextNode + c.1.length) u.1 : ActionList K) = 0 := by
    simp [undoneIn]
  have hrun : ∃ uid redo em, s.receiveSync (.build K t actions unconfirmed) = some { s with
      redoList := redo
      tournament := u.2
      undoActionId := uid
      confirmedActionList := number s.nextNode c.1
      confirmedActionMap := index (number s.nextNode c.1 : ActionList K)
      unconfirmedActionList := number (s.nextNode + c.1.length) u.1
      unconfirmedActionMap := index (number (s.nextNode + c.1.length) u.1 : ActionList K)
      undoneUnconfirmedActions := undoneIn ∅ (number (s.nextNode + c.1.length) u.1 : ActionList K)
      unconfirmedUndos := ∅
      nextNode := s.nextNode + c.1.length + u.1.length
      emitted := em } := ⟨_, _, _, if_neg hguard⟩
  rw [hzero] at hrun
  obtain ⟨uid, redo, em, hrun⟩ := hrun
  refine ⟨_, hrun, ⟨?_, ?_, books_number _ (by simpa [c, u, map_fst_redoAll] using hn)⟩, rfl, rfl,
    ?_, rfl⟩
  · exact fun _ => chain_append.2 ⟨c.2, chain_redoAll _ _ _, chain_redoAll _ _ _⟩
  · exact (marked_redoAll _ _ _).append (marked_redoAll _ _ _)
  · simp only [ledger, c, u, items_redoAll]

end StoreManager

end JudoAssistant
