import JudoAssistant.StoreManager.Runs

/-!
# The action that the next undo takes

`mUndoActionId` caches the latest done action of the local client, and the user interface keeps the
value that `undoStatusChanged` emitted last.  Every operation but one keeps both right:
`sync` with a new tournament clears the lists and not the cache.
-/

namespace JudoAssistant

open Undoable

variable {T : Type} {K : ActionModel T}

/-! ### The latest action -/

/-- The last element of a list that satisfies `p`. -/
def latest (p : ClientActionId → Bool) (ks : List ClientActionId) : Option ClientActionId :=
  (ks.filter p).getLast?

section

variable {p q : ClientActionId → Bool} {k : ClientActionId} {ks : List ClientActionId}

theorem latest_congr (h : ∀ k ∈ ks, p k = q k) : latest p ks = latest q ks := by
  unfold latest
  rw [List.filter_congr h]

theorem latest_append (ks ks' : List ClientActionId) :
    latest p (ks ++ ks') = (latest p ks').or (latest p ks) := by
  unfold latest
  rw [List.filter_append, List.getLast?_append]

theorem latest_eq_none : latest p ks = none ↔ ∀ k ∈ ks, p k = false := by
  unfold latest
  rw [List.getLast?_eq_none_iff, List.filter_eq_nil_iff]
  simp

theorem mem_of_latest (h : latest p ks = some k) : k ∈ ks ∧ p k = true :=
  List.mem_filter.1 (List.mem_of_getLast? h)

theorem latest_singleton (p : ClientActionId → Bool) (k : ClientActionId) :
    latest p [k] = if p k then some k else none := by
  unfold latest
  by_cases h : p k = true <;> simp [h]

/-- The latest element stays the latest when another one is taken out. -/
theorem latest_and_ne (h : latest p ks ≠ some k) :
    latest (fun k' => p k' && decide (k' ≠ k)) ks = latest p ks := by
  induction ks using List.reverseRecOn with
  | nil => rfl
  | append_singleton ks x ih =>
    rw [latest_append, latest_singleton] at h ⊢
    rw [latest_append, latest_singleton]
    by_cases hx : p x = true
    · have hne : x ≠ k := by
        rintro rfl
        simp [hx] at h
      simp [hx, hne]
    · simp only [hx, Bool.false_eq_true, if_false, Bool.false_and, Option.none_or] at h ⊢
      exact ih h

/-- Behind the latest element there is none. -/
theorem latest_behind {below above : List ClientActionId} (hn : (below ++ k :: above).Nodup)
    (h : latest p (below ++ k :: above) = some k) : latest p above = none := by
  cases ha : latest p above with
  | none => rfl
  | some x =>
    rw [← List.singleton_append, latest_append, latest_append, ha, Option.some_or, Option.some_or,
      Option.some.injEq] at h
    have hx := (mem_of_latest ha).1
    rw [h] at hx
    exact absurd hx (List.nodup_cons.1 (List.nodup_append.1 hn).2.1).1

end

/-- The actions of a client that are not among the undos. -/
def ownDone (id : ℕ) (undos : Finset ClientActionId) (k : ClientActionId) : Bool :=
  k.clientId == id && decide (k ∉ undos)

/-! ### The value that the user interface keeps -/

/-- The value of the signal `undoStatusChanged` that was emitted last. -/
def lastUndoStatus (signals : List UiSignal) : Bool :=
  signals.foldl (fun b signal => match signal with
    | .undoStatusChanged canUndo => canUndo
    | _ => b) false

@[simp] theorem lastUndoStatus_concat (signals : List UiSignal) (signal : UiSignal) :
    lastUndoStatus (signals ++ [signal]) = match signal with
      | .undoStatusChanged canUndo => canUndo
      | _ => lastUndoStatus signals := by
  simp only [lastUndoStatus, List.foldl_append]
  rfl

theorem lastUndoStatus_ite_redo (c : Prop) [Decidable c] (signals : List UiSignal) (b : Bool) :
    lastUndoStatus (if c then signals ++ [.redoStatusChanged b] else signals) =
      lastUndoStatus signals := by
  split
  · rw [lastUndoStatus_concat]
  · rfl

namespace StoreManager

variable {s s' : StoreManager K} {k : ClientActionId}

def undoStatus (s : StoreManager K) : Bool := lastUndoStatus s.emitted

/-- A walk from the back finds the latest entry. -/
theorem find?_reverse_eq (l : ActionList K) (p : Entry ClientActionId K.toOps → Bool) (q : ClientActionId → Bool)
    (h : ∀ e ∈ l, p e = q e.key) : (l.reverse.find? p).map Entry.key = latest q (keys l) := by
  unfold latest
  rw [← List.head?_filter, List.filter_reverse, List.head?_reverse, List.filter_congr h, keys,
    List.filter_map, List.getLast?_map]
  rfl

/-- The walk back through done actions finds the latest one of the client. -/
theorem latestOwn_eq {undos : Finset ClientActionId} {l : ActionList K} (h : Marked undos l) :
    s.latestOwn l = latest (ownDone s.id undos) (keys l) := by
  refine find?_reverse_eq l _ _ fun e he => ?_
  have := h e he
  unfold ownDone
  cases hd : e.obj.done <;> simp [hd] at this <;> simp [this]

/-- The cached action is the latest done one of the client, and the user interface knows whether
there is one. -/
structure UndoInv (s : StoreManager K) : Prop where
  latest_eq : s.undoActionId = latest (ownDone s.id s.unconfirmedUndos) s.listed
  status_eq : s.undoStatus = s.undoActionId.isSome

variable {base : T}

theorem listed_eq (s : StoreManager K) :
    s.listed = (s.ledger.log ++ s.ledger.pending).map Prod.fst := by
  simp only [listed, ledger, List.map_append, keys_items, keys_append]

/-- The cache is right when it is right for the ids that the operation leaves. -/
theorem Outcome.undoInv {l : Ledger K} {posted : List (Post K)} (h : Outcome s s' base l posted)
    (hlatest : s'.undoActionId = latest (ownDone s.id l.undos) ((l.log ++ l.pending).map Prod.fst))
    (hstatus : s'.undoStatus = s'.undoActionId.isSome) : s'.UndoInv := by
  refine ⟨?_, hstatus⟩
  have hundos : s'.unconfirmedUndos = l.undos := by rw [← h.ledger_eq]; rfl
  rw [hlatest, h.id_eq, listed_eq, h.ledger_eq, hundos]

/-! ### Actions of the client -/

theorem undoInv_dispatch (h : ReplayInv base s) (hu : s.UndoInv) {draws : List ℕ} {p : K.Param}
    (hs' : s.dispatch draws p = some s') : s'.UndoInv := by
  obtain ⟨k, hk⟩ : ∃ k, s.drawActionId draws = some k := by
    cases hk : s.drawActionId draws with
    | none => simp [dispatch, hk] at hs'
    | some k => exact ⟨k, rfl⟩
  obtain ⟨hown, hnew⟩ := drawActionId_spec h hk
  have hS : k ∉ s.unconfirmedUndos := fun hk' => hnew (h.books.undos k hk')
  obtain ⟨s'', hrun, ho⟩ := dispatch_spec h hk p
  obtain rfl : s'' = s' := Option.some.inj (hrun.symm.trans hs')
  simp only [dispatch, hk, Obj.redo_of_not_done (Obj.fresh_done p), Option.bind_eq_bind,
    Option.bind_some, Option.pure_def, Option.some.injEq] at hs'
  have hid : s''.undoActionId = some k := by
    rw [← hs']
    split <;> rfl
  have hstatus : s''.undoStatus = true := by
    rw [← hs']
    split
    · next hsome =>
      simp only [undoStatus, emit, post, lastUndoStatus_concat]
      exact hu.status_eq.trans hsome
    · simp only [undoStatus, emit, lastUndoStatus_concat]
  refine ho.undoInv ?_ (by rw [hstatus, hid]; rfl)
  rw [hid, ← List.append_assoc, List.map_append, latest_append, List.map_singleton, latest_singleton,
    if_pos]
  · rfl
  · show (k.clientId == s.id && decide (k ∉ s.unconfirmedUndos)) = true
    simp [hown, hS]

theorem undoInv_redo (h : ReplayInv base s) (hu : s.UndoInv) {draws : List ℕ}
    (hs' : s.redo draws = some s') : s'.UndoInv := by
  unfold redo at hs'
  simp only [Option.bind_eq_bind, Option.bind_eq_some_iff, Option.pure_def, Option.some.injEq] at hs'
  obtain ⟨action, -, s₁, hrun, rfl⟩ := hs'
  have h₁ : s₁.UndoInv :=
    undoInv_dispatch (s := { s with redoList := s.redoList.dropLast }) ⟨h.chain, h.marked, h.books⟩
      ⟨hu.latest_eq, hu.status_eq⟩ hrun
  split
  · refine ⟨h₁.latest_eq, ?_⟩
    simp only [undoStatus, emit, lastUndoStatus_concat]
    exact h₁.status_eq
  · exact h₁

/-! ### Trimming -/

/-- Taking a done action off the front of the lists keeps the cache right. -/
theorem undoInv_trim {rest : List ClientActionId} {front : ClientActionId} {id : ℕ}
    {undos : Finset ClientActionId} (hn : (front :: rest).Nodup)
    (hlatest : s.undoActionId = latest (ownDone id undos) (front :: rest)) :
    (if s.undoActionId = some front then none else s.undoActionId) =
      latest (ownDone id undos) rest := by
  rw [← List.singleton_append, latest_append, latest_singleton] at hlatest
  split
  · next h =>
    have := latest_behind (p := ownDone id undos) (show ([] ++ front :: rest).Nodup from hn)
    rw [List.nil_append, ← List.singleton_append, latest_append, latest_singleton, ← hlatest] at this
    exact (this h).symm
  · next h =>
    cases hrest : latest (ownDone id undos) rest with
    | some k => rw [hlatest, hrest, Option.some_or]
    | none =>
      rw [hlatest, hrest, Option.none_or] at h ⊢
      split at h
      · exact absurd rfl h
      · next hp => rw [if_neg hp]

theorem trim_undoInv (hs' : s.trim = some s') (rest : List ClientActionId)
    (hn : (keys s.confirmedActionList ++ rest).Nodup)
    (hlatest : s.undoActionId =
      latest (ownDone s.id s.unconfirmedUndos) (keys s.confirmedActionList ++ rest))
    (hstatus : s.undoStatus = s.undoActionId.isSome) :
    s'.undoActionId =
        latest (ownDone s.id s.unconfirmedUndos) (keys s'.confirmedActionList ++ rest) ∧
      s'.undoStatus = s'.undoActionId.isSome := by
  unfold trim popActionListFront at hs'
  split at hs'
  · cases hC : s.confirmedActionList with
    | nil => rw [hC] at hs'; cases hs'
    | cons front l =>
      rw [hC] at hs' hn hlatest
      simp only at hs'
      rw [keys_cons, List.cons_append] at hn hlatest
      split at hs'
      · have huid := undoInv_trim hn hlatest
        cases hs'
        split
        · next h =>
          rw [if_pos h] at huid
          refine ⟨huid, ?_⟩
          simp only [undoStatus, emit, lastUndoStatus_concat]
          rfl
        · next h =>
          rw [if_neg h] at huid
          refine ⟨huid, ?_⟩
          simp only [undoStatus, emit, lastUndoStatus_concat]
          exact hstatus
      · cases hs'
        rw [hC, keys_cons, List.cons_append]
        exact ⟨hlatest, hstatus⟩
  · cases hs'
    exact ⟨hlatest, hstatus⟩

/-- `trim` changes the confirmed actions and the cache only. -/
theorem trim_rest (hs' : s.trim = some s') : s'.id = s.id ∧
    s'.unconfirmedUndos = s.unconfirmedUndos ∧ s'.unconfirmedActionList = s.unconfirmedActionList := by
  unfold trim popActionListFront at hs'
  split at hs'
  · split at hs'
    · cases hs'
    · split at hs'
      · cases hs'
        split <;> exact ⟨rfl, rfl, rfl⟩
      · cases hs'
        exact ⟨rfl, rfl, rfl⟩
  · cases hs'
    exact ⟨rfl, rfl, rfl⟩

/-! ### Signals of the network -/

theorem undoInv_receiveAction (h : ReplayInv base s) (hu : s.UndoInv) (hs : s.syncing = 0)
    (hnew : k ∉ s.listed) (hown : k.clientId ≠ s.id) {p : K.Param}
    (hs' : s.receiveAction k p = some s') : s'.UndoInv := by
  obtain ⟨s'', hrun, ho⟩ := receiveAction_spec h hs hnew p
  obtain rfl : s'' = s' := Option.some.inj (hrun.symm.trans hs')
  simp only [receiveAction, hs, lt_irrefl, if_false, Obj.redo_of_not_done (Obj.fresh_done p),
    Option.bind_eq_bind, Option.bind_some, Option.bind_eq_some_iff, Option.pure_def,
    Option.some.injEq] at hs'
  obtain ⟨s₁, htrim, q, -, rfl⟩ := hs'
  obtain ⟨hid, hundos, -⟩ := trim_rest htrim
  have hnodup : (keys s.confirmedActionList ++ [k] ++ keys s.unconfirmedActionList).Nodup := by
    rw [List.append_assoc, List.singleton_append, List.nodup_middle, List.nodup_cons, ← keys_append]
    exact ⟨hnew, h.books.nodup⟩
  have hlatest : s.undoActionId = latest (ownDone s.id s.unconfirmedUndos)
      (keys s.confirmedActionList ++ [k] ++ keys s.unconfirmedActionList) := by
    have hk : ownDone s.id s.unconfirmedUndos k = false := by simp [ownDone, hown]
    rw [hu.latest_eq, listed, keys_append, latest_append, latest_append, latest_append,
      latest_singleton, hk]
    rfl
  have hpending : keys q.1 = keys s.unconfirmedActionList := by
    have := congrArg (fun l => l.pending.map Prod.fst) ho.ledger_eq
    simpa only [ledger, keys_items, emit] using this
  -- `trim` sees the new action at the end of the confirmed ones.
  obtain ⟨hlatest', hstatus'⟩ := trim_undoInv htrim (keys s.unconfirmedActionList)
    (by rw [keys_append]; exact hnodup) (by rw [keys_append]; exact hlatest)
    (by simpa only [undoStatus, emit, lastUndoStatus_concat] using hu.status_eq)
  refine ⟨?_, by simpa only [undoStatus, emit, lastUndoStatus_concat] using hstatus'⟩
  simp only [listed, emit, keys_append, hpending, hid, hundos]
  exact hlatest'

theorem undoInv_receiveActionConfirm (h : ReplayInv base s) (hu : s.UndoInv) (hs : s.syncing = 0)
    (hs' : s.receiveActionConfirm k = some s') : s'.UndoInv := by
  have hsync : ¬ s.syncing > 0 := by omega
  simp only [receiveActionConfirm, hsync, if_false] at hs'
  split at hs'
  · cases hs'
  · next front rest hU =>
    split at hs'
    · cases hs'
    · split at hs'
      · cases hs'
      · have hlisted : keys (s.confirmedActionList ++ [{ front with node := s.nextNode }]) ++ keys rest =
            s.listed := by
          simp only [listed, hU, keys_append, keys_cons, keys_nil, List.append_assoc,
            List.singleton_append]
        obtain ⟨hid, hundos, hrest⟩ := trim_rest hs'
        obtain ⟨hlatest', hstatus'⟩ := trim_undoInv hs' (keys rest)
          (by rw [hlisted]; exact h.books.nodup) (by rw [hlisted]; exact hu.latest_eq) hu.status_eq
        refine ⟨?_, hstatus'⟩
        simp only [listed, keys_append, hrest, hid, hundos]
        exact hlatest'

/-- The cache and the signal after an undo from the network. -/
theorem receiveUndo_cache {below above : ActionList K} {target : Entry ClientActionId K.toOps}
    (hs : s.syncing = 0) (hcont : s.containsConfirmedAction k = true)
    (hsplit : splitLast k s.confirmedActionList = some (below, target, above))
    (hs' : s.receiveUndo k = some s') :
    s'.undoActionId = (if s.undoActionId = some k then s.latestOwn below else s.undoActionId) ∧
      s'.undoStatus = if s.undoActionId = some k ∧ s.latestOwn below = none then false
        else s.undoStatus := by
  have hsync : ¬ s.syncing > 0 := by omega
  simp only [receiveUndo, hsync, if_false, hcont, Bool.not_true, Bool.false_eq_true, hsplit,
    Option.bind_eq_bind, Option.bind_some] at hs'
  split at hs'
  · cases hs'
  · simp only [Option.bind_eq_some_iff, Option.pure_def, Option.some.injEq] at hs'
    obtain ⟨q, -, q', -, rfl⟩ := hs'
    by_cases hid : s.undoActionId = some k
    · cases hlatest : s.latestOwn below with
      | some new => simp only [undoStatus, emit, lastUndoStatus_concat, hid, if_true]; simp
      | none => simp only [undoStatus, emit, lastUndoStatus_concat, hid, if_true]; simp
    · simp only [undoStatus, emit, lastUndoStatus_concat, hid, if_false]; simp

/-- An action that is taken out of the lists together with its undo. -/
theorem latest_erase {ks : List ClientActionId} {undos : Finset ClientActionId} {id : ℕ}
    (h : latest (ownDone id undos) ks ≠ some k) :
    latest (ownDone id (undos.erase k)) (ks.filter (· ≠ k)) = latest (ownDone id undos) ks := by
  rw [← latest_and_ne h]
  unfold latest
  rw [List.filter_filter]
  refine congrArg _ (List.filter_congr fun k' _ => ?_)
  by_cases hne : k' = k
  · simp [hne]
  · simp [ownDone, hne]

theorem map_fst_filter_ne (l : List (ClientActionId × K.Param)) (k : ClientActionId) :
    (l.filter fun a => a.1 ≠ k).map Prod.fst = (l.map Prod.fst).filter (· ≠ k) := by
  rw [List.filter_map]
  rfl

/-- The ids after an action has been taken out of the confirmed ones. -/
theorem listed_erase (s : StoreManager K) (base : T) (hk : k ∉ keys s.unconfirmedActionList) :
    (((s.view base).erase k).log ++ s.ledger.pending).map Prod.fst = s.listed.filter (· ≠ k) := by
  have hpending : (keys s.unconfirmedActionList).filter (· ≠ k) = keys s.unconfirmedActionList :=
    List.filter_eq_self.2 fun k' hk' => decide_eq_true fun he => hk (he ▸ hk')
  rw [List.map_append, View.erase, view, map_fst_filter_ne, keys_items, listed, keys_append,
    List.filter_append, hpending, ledger, keys_items]

theorem undoInv_receiveUndo (h : ReplayInv base s) (hu : s.UndoInv) (hs : s.syncing = 0)
    (hk : k ∈ keys s.confirmedActionList) (hs' : s.receiveUndo k = some s') : s'.UndoInv := by
  obtain ⟨s'', hrun, ho⟩ := receiveUndo_spec h hs hk
  obtain rfl : s'' = s' := Option.some.inj (hrun.symm.trans hs')
  obtain ⟨below, target, above, hsplit, hC, rfl⟩ := exists_splitLast hk
  have hcont : s.containsConfirmedAction target.key = true :=
    (h.books.confirmedIndex.isSome_iff _).2 hk
  have hmarked : Marked s.unconfirmedUndos below := by
    have := h.marked
    rw [hC] at this
    exact (marked_append.1 (marked_append.1 this).1).1
  have hlisted : s.listed = keys below ++ target.key :: (keys above ++ keys s.unconfirmedActionList) := by
    simp [listed, hC]
  have hnodup := h.books.nodup
  rw [← listed, hlisted] at hnodup
  have hne : ∀ k ∈ keys below ++ (keys above ++ keys s.unconfirmedActionList), k ≠ target.key := by
    rintro k hk' rfl
    exact (List.nodup_cons.1 (List.nodup_middle.1 hnodup)).1 hk'
  have hpending : target.key ∉ keys s.unconfirmedActionList :=
    fun hk' => hne _ (by simp [hk']) rfl
  obtain ⟨hid, hstatus⟩ := receiveUndo_cache hs hcont hsplit hs'
  rw [latestOwn_eq hmarked] at hid hstatus
  have hlatest : s''.undoActionId = latest (ownDone s.id (s.unconfirmedUndos.erase target.key))
      (s.listed.filter (· ≠ target.key)) := by
    rw [hid]
    split
    · next hlast =>
      rw [hu.latest_eq, hlisted] at hlast
      have hfilter : s.listed.filter (· ≠ target.key) =
          keys below ++ (keys above ++ keys s.unconfirmedActionList) := by
        rw [hlisted, List.filter_append, List.filter_cons_of_neg (by simp), ← List.filter_append]
        exact List.filter_eq_self.2 fun k hk' => decide_eq_true (hne k hk')
      have hcongr : ∀ k ∈ keys below ++ (keys above ++ keys s.unconfirmedActionList),
          ownDone s.id (s.unconfirmedUndos.erase target.key) k = ownDone s.id s.unconfirmedUndos k := by
        intro k hk'
        simp [ownDone, hne k hk']
      rw [hfilter, latest_congr hcongr, latest_append, latest_behind hnodup hlast, Option.none_or]
    · next hlast =>
      rw [hu.latest_eq] at hlast ⊢
      exact (latest_erase hlast).symm
  refine ho.undoInv ?_ ?_
  · rw [listed_erase s base hpending]
    exact hlatest
  · rw [hstatus, hid]
    by_cases hlast : s.undoActionId = some target.key
    · cases hbelow : latest (ownDone s.id s.unconfirmedUndos) (keys below) with
      | none => simp [hlast]
      | some new => simp [hlast, hu.status_eq]
    · simp [hlast, hu.status_eq]

theorem undoInv_receiveUndoConfirm (h : ReplayInv base s) (hu : s.UndoInv) (hs : s.syncing = 0)
    (hk : k ∈ s.unconfirmedUndos ∧ k ∈ keys s.confirmedActionList ∨ k ∉ s.listed) :
    (s.receiveUndoConfirm k).UndoInv := by
  have ho := receiveUndoConfirm_spec h hs hk
  have hsync : ¬ s.syncing > 0 := by omega
  have hcache : (s.receiveUndoConfirm k).undoActionId = s.undoActionId ∧
      (s.receiveUndoConfirm k).undoStatus = s.undoStatus := by
    unfold receiveUndoConfirm
    rw [if_neg hsync]
    split <;> exact ⟨rfl, rfl⟩
  have hpending : k ∉ keys s.unconfirmedActionList := by
    rcases hk with ⟨-, hk⟩ | hk
    · intro hk'
      have := h.books.nodup
      rw [keys_append] at this
      exact (List.nodup_append.1 this).2.2 k hk k hk' rfl
    · exact fun hk' => hk (by simp [listed, hk'])
  have hlast : latest (ownDone s.id s.unconfirmedUndos) s.listed ≠ some k := by
    intro hlast
    obtain ⟨hmem, hown⟩ := mem_of_latest hlast
    rcases hk with ⟨hk, -⟩ | hk
    · simp [ownDone, hk] at hown
    · exact hk hmem
  refine ho.undoInv ?_ (by rw [hcache.1, hcache.2, hu.status_eq])
  rw [listed_erase s base hpending, hcache.1, hu.latest_eq]
  exact (latest_erase hlast).symm

/-! ### Undo by the client -/

/-- The cache and the signal after an undo by the client. -/
theorem undo_cache (hs' : s.undo k = some s')
    (hk : s.containsConfirmedAction k = true ∨ s.containsUnconfirmedAction k = true) :
    s'.undoActionId = (if s.undoActionId = some k then
        s.latestOwn (undoCandidates k s'.confirmedActionList s'.unconfirmedActionList)
      else s.undoActionId) ∧
      s'.undoStatus = if s'.undoActionId = none then false else s.undoStatus := by
  unfold undo at hs'
  rw [if_neg (by rcases hk with hk | hk <;> simp [hk])] at hs'
  simp only [Option.bind_eq_bind, Option.bind_eq_some_iff, Option.pure_def, Option.some.injEq] at hs'
  obtain ⟨c, -, q, -, clone, -, hs'⟩ := hs'
  rw [ite_emit, ite_emit] at hs'
  subst hs'
  refine ⟨rfl, ?_⟩
  simp only [undoStatus, emit, post, lastUndoStatus_ite_redo]
  generalize (if s.undoActionId = some k then s.latestOwn (undoCandidates k c.1 q.1)
    else s.undoActionId) = uid
  cases uid with
  | none => simp only [Option.isNone_none, if_true, lastUndoStatus_concat]
  | some new => simp only [Option.isNone_some, Bool.false_eq_true, if_false, lastUndoStatus_concat,
      reduceCtorEq]

/-- The actions that the walk for the new cache goes through are the listed ones up to the undone
one. -/
theorem keys_undoCandidates {C U : ActionList K} (hn : (keys (C ++ U)).Nodup) (hk : k ∈ keys (C ++ U)) :
    ∃ below above, keys (C ++ U) = below ++ k :: above ∧ keys (undoCandidates k C U) = below ++ [k] := by
  unfold undoCandidates
  by_cases hU : k ∈ keys U
  · obtain ⟨below, target, above, hsplit, rfl, rfl⟩ := exists_splitLast hU
    refine ⟨keys C ++ keys below, keys above, by simp, ?_⟩
    simp [hsplit]
  · have hC : k ∈ keys C := by simpa [hU] using hk
    obtain ⟨below, target, above, hsplit, rfl, rfl⟩ := exists_splitLast hC
    refine ⟨keys below, keys above ++ keys U, by simp, ?_⟩
    simp [hsplit, splitLast_eq_none.2 hU]

theorem marked_undoCandidates {C U : ActionList K} {undos : Finset ClientActionId}
    (h : Marked undos (C ++ U)) : Marked undos (undoCandidates k C U) := by
  obtain ⟨hC, hU⟩ := marked_append.1 h
  unfold undoCandidates
  split
  · next below target above hsplit =>
    obtain ⟨rfl, -⟩ := splitLast_eq_some hsplit
    obtain ⟨hbelow, hrest⟩ := marked_append.1 hU
    exact (hC.append hbelow).append (by simpa [Marked] using (marked_cons.1 hrest).1)
  · split
    · next below target above hsplit =>
      obtain ⟨rfl, -⟩ := splitLast_eq_some hsplit
      obtain ⟨hbelow, hrest⟩ := marked_append.1 hC
      exact hbelow.append (by simpa [Marked] using (marked_cons.1 hrest).1)
    · simp [Marked]

theorem undo_of_not_listed (h : ReplayInv base s) (hk : k ∉ s.listed) : s.undo k = some s := by
  have hC : s.containsConfirmedAction k = false :=
    Bool.eq_false_iff.2 fun hc => hk (by simp [listed, (h.books.confirmedIndex.isSome_iff k).1 hc])
  have hU : s.containsUnconfirmedAction k = false :=
    Bool.eq_false_iff.2 fun hc => hk (by simp [listed, (h.books.unconfirmedIndex.isSome_iff k).1 hc])
  simp [undo, hC, hU]

theorem undoInv_undo (h : ReplayInv base s) (hu : s.UndoInv) (hkS : k ∉ s.unconfirmedUndos)
    (hs' : s.undo k = some s') : s'.UndoInv := by
  by_cases hk : k ∈ s.listed
  · obtain ⟨s'', hrun, ho⟩ := undo_spec h hk hkS
    obtain rfl : s'' = s' := Option.some.inj (hrun.symm.trans hs')
    have hcont : s.containsConfirmedAction k = true ∨ s.containsUnconfirmedAction k = true := by
      rw [listed, keys_append, List.mem_append] at hk
      exact hk.imp (h.books.confirmedIndex.isSome_iff k).2 (h.books.unconfirmedIndex.isSome_iff k).2
    have hlisted : s''.listed = s.listed := by rw [listed_eq, listed_eq, ho.ledger_eq]
    have hundos : s''.unconfirmedUndos = insert k s.unconfirmedUndos := by
      have := congrArg Ledger.undos ho.ledger_eq
      exact this
    have hmarked := ho.inv.marked
    obtain ⟨hid, hstatus⟩ := undo_cache hs' hcont
    have hlatest : s''.undoActionId = latest (ownDone s.id (insert k s.unconfirmedUndos)) s.listed := by
      rw [hid]
      split
      · next hlast =>
        obtain ⟨below, above, hkeys, hcand⟩ := keys_undoCandidates ho.inv.books.nodup
          (show k ∈ s''.listed by rw [hlisted]; exact hk)
        rw [hu.latest_eq, ← hlisted, listed, hkeys] at hlast
        have hnodup := ho.inv.books.nodup
        rw [hkeys] at hnodup
        have habove : latest (ownDone s.id (insert k s.unconfirmedUndos)) above = none := by
          refine latest_eq_none.2 fun k' hk' => ?_
          have := latest_eq_none.1 (latest_behind hnodup hlast) k' hk'
          simp only [ownDone, Bool.and_eq_false_iff, decide_eq_false_iff_not, not_not] at this ⊢
          exact this.imp_right (Finset.mem_insert_of_mem ·)
        rw [latestOwn_eq (marked_undoCandidates hmarked), hcand, hundos, ← hlisted, listed, hkeys,
          List.append_cons below k above, latest_append _ above, habove, Option.none_or]
      · next hlast =>
        rw [hu.latest_eq] at hlast ⊢
        rw [← latest_and_ne hlast]
        refine latest_congr fun k' _ => ?_
        by_cases hne : k' = k <;> simp [ownDone, hne]
    rw [listed_eq] at hlatest
    refine ho.undoInv hlatest ?_
    rw [hstatus]
    split
    · next hnone => rw [hnone]; rfl
    · next hsome =>
      have hbefore : s.undoActionId.isSome = true := by
        cases hnone : s.undoActionId with
        | some _ => rfl
        | none => simp [hid, hnone] at hsome
      rw [hu.status_eq, hbefore]
      exact (Option.isSome_iff_ne_none.2 hsome).symm
  · rw [undo_of_not_listed h hk] at hs'
    cases hs'
    exact hu

/-! ### Synchronisation -/

theorem undoInv_receiveSync {t : T} {actions unconfirmed : List (ClientActionId × K.Param)}
    (hn : (actions.map Prod.fst ++ unconfirmed.map Prod.fst).Nodup)
    (hown : ∀ a ∈ unconfirmed, a.1.clientId = s.id)
    (hs' : s.receiveSync (.build K t actions unconfirmed) = some s') : s'.UndoInv := by
  obtain ⟨s'', hrun, ho⟩ := receiveSync_spec s (t := t) hn hown
  obtain rfl : s'' = s' := Option.some.inj (hrun.symm.trans hs')
  unfold receiveSync at hs'
  simp only [] at hs'
  split at hs'
  · cases hs'
  · cases hs'
    refine ho.undoInv ?_ (by simp only [undoStatus, emit, lastUndoStatus_concat])
    have hunconfirmed : latest (ownDone s.id ∅) (unconfirmed.map Prod.fst) =
        (unconfirmed.map Prod.fst).getLast? := by
      unfold latest
      rw [List.filter_eq_self.2 fun k hk => ?_]
      obtain ⟨a, ha, rfl⟩ := List.mem_map.1 hk
      simp [ownDone, hown a ha]
    have hkeys (n : ℕ) (l : List (ClientActionId × K.Param)) (t : T) :
        keys (number n (redoAll K l t).1 : ActionList K) = l.map Prod.fst := by
      rw [keys_number, map_fst_redoAll]
    simp only [emit, SyncPayload.build]
    rw [List.map_append, latest_append, hunconfirmed,
      find?_reverse_eq _ _ (ownDone s.id ∅) fun e _ => by simp [ownDone], hkeys, ← List.getLast?_map]
    exact congrArg (fun l => Option.or l.getLast? _) (hkeys _ _ _)

theorem undoInv_sync (hnone : s.undoActionId = none) (t : T) : (s.sync t).UndoInv :=
  ⟨hnone, by simp only [undoStatus, sync, emit, post, lastUndoStatus_concat, hnone, Option.isSome_none]⟩

theorem replayInv_sync (s : StoreManager K) (t : T) : ReplayInv t (s.sync t) where
  chain _ := rfl
  marked := by simp [Marked, sync, emit, post]
  books := {
    nodup := by simp [sync, emit, post]
    undos := by simp [sync, emit, post]
    count_eq := rfl
    confirmedIndex := indexed_nil
    unconfirmedIndex := indexed_nil
    nodes_nodup := by simp [sync, emit, post]
    nodes_lt := by simp [sync, emit, post] }

end StoreManager

/-! ### Runs -/

/-- The operations of a store manager: the calls and signals, `redo`, and a synchronisation that the
store manager starts and that is confirmed later. -/
inductive Operation (K : ActionModel T) where
  | call (call : Call K)
  | redo (draws : List ℕ)
  | sync (tournament : T)
  | confirmSync

namespace StoreManager

/-- One call or signal. -/
def call (s : StoreManager K) : Call K → Option (StoreManager K)
  | .dispatch draws p => s.dispatch draws p
  | .undo k => s.undo k
  | .receiveAction k p => s.receiveAction k p
  | .receiveActionConfirm k => s.receiveActionConfirm k
  | .receiveUndo k => s.receiveUndo k
  | .receiveUndoConfirm k => some (s.receiveUndoConfirm k)
  | .receiveSync t actions kept =>
    s.receiveSync (.build K t actions (stillUnconfirmed actions kept))

/-- One operation. -/
def operate (s : StoreManager K) : Operation K → Option (StoreManager K)
  | .call c => s.call c
  | .redo draws => s.redo draws
  | .sync t => some (s.sync t)
  | .confirmSync => some s.confirmSync

/-- When the user and the network make an operation.  The signals of the network are as they come from
the server, which does not send a client its own actions; they are ignored while a synchronisation is
not confirmed. -/
def Permitted (s : StoreManager K) : Operation K → Prop
  | .call (.dispatch draws p) => Allowed s (.dispatch draws p)
  | .call (.undo k) => k ∉ s.unconfirmedUndos
  | .call (.receiveAction k p) => s.syncing = 0 → Allowed s (.receiveAction k p) ∧ k.clientId ≠ s.id
  | .call (.receiveSync t actions kept) => Allowed s (.receiveSync t actions kept)
  | .call c => s.syncing = 0 → Allowed s c
  | .redo draws => s.canRedo = true ∧ (s.drawActionId draws).isSome = true
  | .sync _ => True
  | .confirmSync => True

/-- A synchronisation is started only when there is nothing to undo. -/
def SyncsClean (s : StoreManager K) : Operation K → Prop
  | .sync _ => s.canUndo = false
  | _ => True

instance (s : StoreManager K) : (op : Operation K) → Decidable (s.Permitted op)
  | .call (.dispatch draws p) => inferInstanceAs (Decidable (Allowed s (.dispatch draws p)))
  | .call (.undo k) => inferInstanceAs (Decidable (k ∉ s.unconfirmedUndos))
  | .call (.receiveAction k p) => inferInstanceAs (Decidable
      (s.syncing = 0 → Allowed s (.receiveAction k p) ∧ k.clientId ≠ s.id))
  | .call (.receiveActionConfirm k) =>
    inferInstanceAs (Decidable (s.syncing = 0 → Allowed s (.receiveActionConfirm k)))
  | .call (.receiveUndo k) => inferInstanceAs (Decidable (s.syncing = 0 → Allowed s (.receiveUndo k)))
  | .call (.receiveUndoConfirm k) =>
    inferInstanceAs (Decidable (s.syncing = 0 → Allowed s (.receiveUndoConfirm k)))
  | .call (.receiveSync t actions kept) =>
    inferInstanceAs (Decidable (Allowed s (.receiveSync t actions kept)))
  | .redo draws =>
    inferInstanceAs (Decidable (s.canRedo = true ∧ (s.drawActionId draws).isSome = true))
  | .sync _ => inferInstanceAs (Decidable True)
  | .confirmSync => inferInstanceAs (Decidable True)

instance (s : StoreManager K) : (op : Operation K) → Decidable (s.SyncsClean op)
  | .sync _ => inferInstanceAs (Decidable (s.canUndo = false))
  | .call _ => inferInstanceAs (Decidable True)
  | .redo _ => inferInstanceAs (Decidable True)
  | .confirmSync => inferInstanceAs (Decidable True)

/-- The lists and the cache are right. -/
def Sound (s : StoreManager K) : Prop := (∃ base, ReplayInv base s) ∧ s.UndoInv

theorem sound_call {s : StoreManager K} (h : s.Sound) {c : Call K} (hp : s.Permitted (.call c)) :
    ∃ s', s.call c = some s' ∧ s'.Sound := by
  obtain ⟨⟨base, hr⟩, hu⟩ := h
  cases c with
  | dispatch draws p =>
    obtain ⟨k, hk⟩ := Option.isSome_iff_exists.1 hp
    obtain ⟨s', hs', ho⟩ := dispatch_spec hr hk p
    exact ⟨s', hs', ⟨_, ho.inv⟩, undoInv_dispatch hr hu hs'⟩
  | undo k =>
    by_cases hk : k ∈ s.listed
    · obtain ⟨s', hs', ho⟩ := undo_spec hr hk hp
      exact ⟨s', hs', ⟨_, ho.inv⟩, undoInv_undo hr hu hp hs'⟩
    · exact ⟨s, undo_of_not_listed hr hk, ⟨base, hr⟩, hu⟩
  | receiveAction k p =>
    by_cases hs : s.syncing = 0
    · obtain ⟨hnew, hown⟩ := hp hs
      obtain ⟨s', hs', ho⟩ := receiveAction_spec hr hs hnew p
      exact ⟨s', hs', ⟨_, ho.inv⟩, undoInv_receiveAction hr hu hs hnew hown hs'⟩
    · exact ⟨s, if_pos (by omega), ⟨base, hr⟩, hu⟩
  | receiveActionConfirm k =>
    by_cases hs : s.syncing = 0
    · have hfront := hp hs
      obtain ⟨p, rest, hpending⟩ : ∃ p rest, s.ledger.pending = (k, p) :: rest := by
        simp only [Allowed] at hfront
        cases hU : s.unconfirmedActionList with
        | nil => rw [hU] at hfront; cases hfront
        | cons front rest =>
          rw [hU] at hfront
          cases hfront
          exact ⟨_, _, by simp only [ledger, hU, items_cons]; rfl⟩
      obtain ⟨s', hs', ho⟩ := receiveActionConfirm_spec hr hs hpending
      exact ⟨s', hs', ⟨_, ho.inv⟩, undoInv_receiveActionConfirm hr hu hs hs'⟩
    · exact ⟨s, if_pos (by omega), ⟨base, hr⟩, hu⟩
  | receiveUndo k =>
    by_cases hs : s.syncing = 0
    · obtain ⟨s', hs', ho⟩ := receiveUndo_spec hr hs (hp hs)
      exact ⟨s', hs', ⟨_, ho.inv⟩, undoInv_receiveUndo hr hu hs (hp hs) hs'⟩
    · exact ⟨s, if_pos (by omega), ⟨base, hr⟩, hu⟩
  | receiveUndoConfirm k =>
    by_cases hs : s.syncing = 0
    · exact ⟨_, rfl, ⟨_, (receiveUndoConfirm_spec hr hs (hp hs)).inv⟩,
        undoInv_receiveUndoConfirm hr hu hs (hp hs)⟩
    · exact ⟨s, congrArg some (if_pos (by omega)), ⟨base, hr⟩, hu⟩
  | receiveSync t actions kept =>
    obtain ⟨hn, hnk, hown⟩ := hp
    have hnd := nodup_stillUnconfirmed hn hnk
    have hown' : ∀ a ∈ stillUnconfirmed actions kept, a.1.clientId = s.id :=
      fun a ha => hown a (List.mem_filter.1 ha).1
    obtain ⟨s', hs', ho⟩ := receiveSync_spec s (t := t) hnd hown'
    exact ⟨s', hs', ⟨_, ho.inv⟩, undoInv_receiveSync hnd hown' hs'⟩

/-- Every permitted operation succeeds and keeps the cache right, unless it is a synchronisation that
is started while there is something to undo. -/
theorem sound_operate {s : StoreManager K} (h : s.Sound) {op : Operation K} (hp : s.Permitted op)
    (hc : s.SyncsClean op) : ∃ s', s.operate op = some s' ∧ s'.Sound := by
  cases op with
  | call c => exact sound_call h hp
  | redo draws =>
    obtain ⟨⟨base, hr⟩, hu⟩ := h
    obtain ⟨k, hk⟩ := Option.isSome_iff_exists.1 hp.2
    obtain ⟨action, haction⟩ : ∃ action, s.redoList.getLast? = some action :=
      Option.isSome_iff_exists.1 (List.getLast?_isSome.2 (by simpa [canRedo] using hp.1))
    obtain ⟨s', hs', ho⟩ := dispatch_spec (s := { s with redoList := s.redoList.dropLast })
      ⟨hr.chain, hr.marked, hr.books⟩ hk action.param
    have hredo : s.redo draws =
        some (if s'.redoList.isEmpty then s'.emit (.redoStatusChanged false) else s') := by
      simp only [redo, haction, hs', Option.bind_eq_bind, Option.bind_some, Option.pure_def]
    refine ⟨_, hredo, ⟨base, ?_⟩, undoInv_redo hr hu hredo⟩
    split
    · exact ⟨ho.inv.chain, ho.inv.marked, ho.inv.books⟩
    · exact ho.inv
  | sync t =>
    refine ⟨_, rfl, ⟨t, replayInv_sync s t⟩, undoInv_sync ?_ t⟩
    exact Option.isSome_eq_false_iff.1 hc |> Option.isNone_iff_eq_none.1
  | confirmSync =>
    obtain ⟨⟨base, hr⟩, hu⟩ := h
    exact ⟨_, rfl, ⟨base, hr.chain, hr.marked, hr.books⟩, hu.latest_eq, hu.status_eq⟩

theorem sound_init (id : ℕ) (t : T) : (init K id t).Sound :=
  ⟨⟨t, replayInv_init id t⟩, rfl, rfl⟩

/-- The listed actions of the local client that are done, in list order. -/
def ownDoneActions (s : StoreManager K) : ActionList K :=
  (s.confirmedActionList ++ s.unconfirmedActionList).filter fun e =>
    e.obj.done && e.key.clientId == s.id

/-- What the cache and the user interface should say: there is something to undo when the local client
has a done action, the next undo takes the latest one, and the last signal says so. -/
structure UndoAvailable (s : StoreManager K) : Prop where
  canUndo_iff : s.canUndo = true ↔ s.ownDoneActions ≠ []
  undoActionId_eq : s.undoActionId = s.ownDoneActions.getLast?.map Entry.key
  status_eq : s.undoStatus = s.canUndo

theorem Sound.undoAvailable {s : StoreManager K} (h : s.Sound) : s.UndoAvailable := by
  obtain ⟨⟨base, hr⟩, hu⟩ := h
  have hid : s.undoActionId = s.ownDoneActions.getLast?.map Entry.key := by
    rw [hu.latest_eq, listed, ← latestOwn_eq hr.marked, latestOwn, ownDoneActions, ← List.head?_filter,
      List.filter_reverse, List.head?_reverse]
  refine ⟨?_, hid, hu.status_eq⟩
  rw [canUndo, hid, Option.isSome_map, List.getLast?_isSome]

/-- Every run of permitted operations from a new store manager succeeds and, if no synchronisation is
started while there is something to undo, keeps the cache and the user interface right. -/
theorem run_undoAvailable (id : ℕ) (t : T) (ops : List (Operation K))
    (h : Runs.Guarded operate (fun s op => s.Permitted op ∧ s.SyncsClean op) ops (init K id t)) :
    ∃ s, Runs.run operate ops (init K id t) = some s ∧ s.UndoAvailable := by
  obtain ⟨s, hrun, hs⟩ := Runs.run_total
    (fun _ _ hs hop => sound_operate hs hop.1 hop.2) (sound_init id t) h
  exact ⟨s, hrun, hs.undoAvailable⟩

/-- An action that is undone, redone and undone again before a synchronisation is started. -/
def cleanOperations : List (Operation scoreActions) :=
  [.call (.dispatch [0] (4 : ℤ)), .call (.receiveAction ⟨2, 0⟩ (8 : ℤ)), .call (.undo ⟨7, 0⟩),
    .redo [1], .call (.undo ⟨7, 1⟩), .sync (3 : ℤ), .confirmSync, .call (.dispatch [2] (5 : ℤ))]

theorem run_undoAvailable_clean : ∃ s,
    Runs.run operate cleanOperations (init scoreActions 7 (0 : ℤ)) = some s ∧ s.UndoAvailable := by
  refine run_undoAvailable 7 (0 : ℤ) cleanOperations ?_
  decide

/-- A synchronisation after a dispatch leaves the id of an action that is in no list. -/
theorem sync_keeps_undoActionId : ∃ s,
    Runs.Guarded operate Permitted [.call (.dispatch [0] (4 : ℤ)), .sync (3 : ℤ)]
      (init scoreActions 7 (0 : ℤ)) ∧
    Runs.run operate [.call (.dispatch [0] (4 : ℤ)), .sync (3 : ℤ)] (init scoreActions 7 (0 : ℤ)) =
      some s ∧ s.canUndo = true ∧ s.ownDoneActions = [] ∧ s.undoStatus = false :=
  ⟨_, by decide, rfl, rfl, rfl, rfl⟩

end StoreManager

end JudoAssistant
