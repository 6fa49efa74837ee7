import JudoAssistant.Network.Frame
import JudoAssistant.StoreManager.Replay

/-!
# The abstract replica

What a store manager is for, without tournament states, list nodes and maps: a base with a log of
confirmed actions, the pending actions of the local client and the undos that are not confirmed.
`Replica.receive` says what a signal of the network does to it, and `none` if the signal does not fit;
`receive_refines` says that the store manager does the same.  `receiveAll` runs a queue of signals; a
queue goes on fitting when a local action is appended or when a listed action that the queue keeps is
undone.
-/

namespace JudoAssistant

open Undoable

variable {T : Type} {K : ActionModel T}

/-- The ids of a log. -/
def View.ids (v : View K) : List ClientActionId := v.log.map Prod.fst

namespace View

theorem ids_trim_sublist (undos : Finset ClientActionId) (v : View K) :
    (v.trim undos).ids.Sublist v.ids := by
  unfold trim
  split
  · split
    · exact .refl _
    · rename_i a l hl
      split
      · exact .refl _
      · simp [ids, hl]
  · exact .refl _

theorem ids_push_sublist (undos : Finset ClientActionId) (v : View K)
    (a : ClientActionId × K.Param) : (v.push undos a).ids.Sublist (v.ids ++ [a.1]) := by
  have h := ids_trim_sublist undos (⟨v.base, v.log ++ [a]⟩ : View K)
  simpa [ids, push] using h

theorem ids_erase (v : View K) (k : ClientActionId) :
    (v.erase k).ids = v.ids.filter fun k' => decide (k' ≠ k) := by
  rw [ids, ids, List.filter_map]
  rfl

/-- A push asks for the undos only when the log is full, and then only about its front. -/
theorem push_congr {undos undos' : Finset ClientActionId} {v : View K}
    {a : ClientActionId × K.Param}
    (h : maxActionStackSize ≤ v.log.length →
      ∀ b ∈ (v.log ++ [a]).head?, b.1 ∈ undos ↔ b.1 ∈ undos') :
    v.push undos a = v.push undos' a := by
  unfold push trim
  split
  · rename_i hlen
    cases hl : v.log ++ [a] with
    | nil => rfl
    | cons b l =>
      have hb : b.1 ∈ undos ↔ b.1 ∈ undos' :=
        h (by simpa [Nat.lt_succ_iff] using hlen) b (by simp [hl])
      simp only [hb]
  · rfl

/-- The front of a full log leaves it, unless it is undone. -/
theorem front_notMem_push {undos : Finset ClientActionId} {v : View K}
    {a b : ClientActionId × K.Param} (hn : (v.ids ++ [a.1]).Nodup)
    (hlen : maxActionStackSize ≤ v.log.length) (hb : b ∈ (v.log ++ [a]).head?)
    (hu : b.1 ∉ undos) : b.1 ∉ (v.push undos a).ids := by
  cases hl : v.log ++ [a] with
  | nil => simp at hl
  | cons b' l =>
    obtain rfl : b' = b := by simpa [hl] using hb
    have hn' : (b'.1 :: l.map Prod.fst).Nodup := by
      rw [← List.map_cons, ← hl]
      simpa [ids] using hn
    have hpush : v.push undos a = ⟨K.effect b'.2 v.base, l⟩ := by
      have : maxActionStackSize < (b' :: l).length := by
        rw [← hl, List.length_append, List.length_singleton]
        omega
      unfold push trim
      simp only [hl, if_pos this, if_neg hu]
    rw [hpush]
    exact (List.nodup_cons.1 hn').1

/-- A push drops nothing but the front of a full log. -/
theorem mem_ids_push (undos : Finset ClientActionId) {v : View K} {a : ClientActionId × K.Param}
    {k : ClientActionId} (hk : k ∈ v.ids ++ [a.1])
    (hfront : maxActionStackSize ≤ v.log.length → ∀ b ∈ (v.log ++ [a]).head?, b.1 ≠ k) :
    k ∈ (v.push undos a).ids := by
  have hk : k ∈ (v.log ++ [a]).map Prod.fst := by simpa [ids] using hk
  unfold push trim
  split
  · rename_i hlen
    cases hl : v.log ++ [a] with
    | nil => simp at hl
    | cons b l =>
      have hb := hfront (by simpa [Nat.lt_succ_iff] using hlen) b (by simp [hl])
      rw [hl, List.map_cons, List.mem_cons] at hk
      by_cases hu : b.1 ∈ undos
      · simpa [ids, hu] using hk
      · simpa [ids, hu] using hk.resolve_left (Ne.symm hb)
  · exact hk

end View

/-- The abstract state of a store manager. -/
@[ext] structure Replica (K : ActionModel T) where
  id : ℕ
  view : View K
  pending : List (ClientActionId × K.Param)
  undos : Finset ClientActionId

/-- Does the signal replace the whole state? -/
def Signal.isSync : Signal K → Bool
  | .syncReceived _ _ _ => true
  | _ => false

/-- The signal brings no action of the client `id` itself. -/
def Signal.Foreign (id : ℕ) : Signal K → Prop
  | .actionReceived k _ => k.clientId ≠ id
  | _ => True

namespace Replica

/-- The ids of the listed actions. -/
def listed (r : Replica K) : List ClientActionId := r.view.ids ++ r.pending.map Prod.fst

/-- Take a signal. -/
def receive (r : Replica K) : Signal K → Option (Replica K)
  | .actionReceived k p =>
    if k ∈ r.listed then none else some { r with view := r.view.push r.undos (k, p) }
  | .actionConfirmReceived k =>
    match r.pending with
    | [] => none
    | a :: rest =>
      if a.1 = k then some { r with view := r.view.push r.undos a, pending := rest } else none
  | .undoReceived k =>
    if k ∈ r.view.ids then some { r with view := r.view.erase k, undos := r.undos.erase k } else none
  | .undoConfirmReceived k =>
    if k ∈ r.undos ∧ k ∈ r.view.ids then
      some { r with view := r.view.erase k, undos := r.undos.erase k }
    else none
  | .syncReceived t actions unconfirmed =>
    if (actions.map Prod.fst ++ unconfirmed.map Prod.fst).Nodup ∧
        ∀ a ∈ unconfirmed, a.1.clientId = r.id then
      some ⟨r.id, ⟨t, actions⟩, unconfirmed, ∅⟩
    else none
  | .syncConfirmed => none

/-- What a signal other than a sync does. -/
inductive Receives (r : Replica K) : Signal K → Replica K → Prop
  | action {k : ClientActionId} {p : K.Param} (hk : k ∉ r.listed) :
    Receives r (.actionReceived k p) { r with view := r.view.push r.undos (k, p) }
  | confirm {a : ClientActionId × K.Param} {rest : List (ClientActionId × K.Param)}
    (hp : r.pending = a :: rest) :
    Receives r (.actionConfirmReceived a.1)
      { r with view := r.view.push r.undos a, pending := rest }
  | undo {k : ClientActionId} (hk : k ∈ r.view.ids) :
    Receives r (.undoReceived k) { r with view := r.view.erase k, undos := r.undos.erase k }
  | undoConfirm {k : ClientActionId} (hu : k ∈ r.undos) (hk : k ∈ r.view.ids) :
    Receives r (.undoConfirmReceived k) { r with view := r.view.erase k, undos := r.undos.erase k }

variable {r r' : Replica K} {signal : Signal K}

theorem receive_cases (h : r.receive signal = some r') (hs : signal.isSync = false) :
    Receives r signal r' := by
  cases signal with
  | actionReceived k p =>
    simp only [receive] at h
    split at h
    · cases h
    · rename_i hk
      cases h
      exact .action hk
  | actionConfirmReceived k =>
    simp only [receive] at h
    split at h
    · cases h
    · rename_i a rest hp
      split at h
      · rename_i hk
        subst hk
        cases h
        exact .confirm hp
      · cases h
  | undoReceived k =>
    simp only [receive] at h
    split at h
    · rename_i hk
      cases h
      exact .undo hk
    · cases h
  | undoConfirmReceived k =>
    simp only [receive] at h
    split at h
    · rename_i hk
      cases h
      exact .undoConfirm hk.1 hk.2
    · cases h
  | syncReceived t actions unconfirmed => simp [Signal.isSync] at hs
  | syncConfirmed => cases h

theorem Receives.eq (h : Receives r signal r') : r.receive signal = some r' := by
  cases h with
  | action hk => exact if_neg hk
  | confirm hp => simp [receive, hp]
  | undo hk => exact if_pos hk
  | undoConfirm hu hk => exact if_pos ⟨hu, hk⟩

theorem Receives.id_eq (h : Receives r signal r') : r'.id = r.id := by
  cases h <;> rfl

/-- A signal lists at most one new id, behind the log. -/
theorem Receives.listed_nodup (h : Receives r signal r') (hn : r.listed.Nodup) :
    r'.listed.Nodup := by
  cases h with
  | @action k p hk =>
    have hp : (r.view.ids ++ [k] ++ r.pending.map Prod.fst).Perm (k :: r.listed) := by
      simp [listed]
    exact ((View.ids_push_sublist r.undos r.view (k, p)).append_right _).nodup
      (hp.nodup_iff.2 (List.nodup_cons.2 ⟨hk, hn⟩))
  | @confirm a rest hp =>
    refine ((View.ids_push_sublist r.undos r.view a).append_right _).nodup ?_
    simpa [listed, hp] using hn
  | undo hk | undoConfirm hu hk =>
    rw [listed, View.ids_erase]
    exact (List.filter_sublist.append_right _).nodup hn

/-- Actions of the local client are listed before and after a signal. -/
theorem Receives.mem_listed (h : Receives r signal r') (hf : signal.Foreign r.id)
    {k : ClientActionId} (hk : k.clientId = r.id) (hk' : k ∈ r'.listed) : k ∈ r.listed := by
  cases h with
  | @action k' p hk₁ =>
    rcases List.mem_append.1 hk' with hk' | hk'
    · have := (View.ids_push_sublist r.undos r.view (k', p)).subset hk'
      rcases List.mem_append.1 this with hk' | hk'
      · exact List.mem_append_left _ hk'
      · rw [List.mem_singleton.1 hk'] at hk
        exact absurd hk hf
    · exact List.mem_append_right _ hk'
  | @confirm a rest hp =>
    have hsub := (View.ids_push_sublist r.undos r.view a).append_right (rest.map Prod.fst)
    simpa [listed, hp] using hsub.subset hk'
  | undo _ | undoConfirm _ _ =>
    rw [listed, View.ids_erase] at hk'
    exact (List.filter_sublist.append_right _).subset hk'

/-- Dispatch actions: they become the last pending ones. -/
def extend (r : Replica K) (l : List (ClientActionId × K.Param)) : Replica K :=
  { r with pending := r.pending ++ l }

/-- Mark a listed action as undone. -/
def undo (r : Replica K) (k : ClientActionId) : Replica K := { r with undos := insert k r.undos }

theorem Receives.extend (h : Receives r signal r') (hf : signal.Foreign r.id)
    {l : List (ClientActionId × K.Param)} (hl : ∀ a ∈ l, a.1.clientId = r.id) :
    Receives (r.extend l) signal (r'.extend l) := by
  cases h with
  | @action k p hk =>
    refine .action ?_
    intro hk'
    rw [listed, Replica.extend, List.map_append, ← List.append_assoc] at hk'
    rcases List.mem_append.1 hk' with hk' | hk'
    · exact hk hk'
    · obtain ⟨a, ha, rfl⟩ := List.mem_map.1 hk'
      exact hf (hl a ha)
  | @confirm a rest hp => exact .confirm (r := r.extend l) (by simp [Replica.extend, hp])
  | undo hk => exact .undo hk
  | undoConfirm hu hk => exact .undoConfirm hu hk

/-- A push leaves a listed action listed, so it does not ask whether the action is undone. -/
theorem push_insert {k : ClientActionId} {a : ClientActionId × K.Param} {v : View K}
    {undos : Finset ClientActionId} (hn : (v.ids ++ [a.1]).Nodup) (hu : k ∉ undos)
    (hk : k ∈ (v.push undos a).ids ∨ k ∉ v.ids ++ [a.1]) :
    v.push (insert k undos) a = v.push undos a := by
  refine View.push_congr fun hlen b hb => ?_
  have hne : b.1 ≠ k := by
    rintro rfl
    rcases hk with hk | hk
    · exact View.front_notMem_push hn hlen hb hu hk
    · refine hk ?_
      have := List.mem_map_of_mem (f := Prod.fst) (List.mem_of_mem_head? hb)
      simpa [View.ids] using this
  simp [hne]

theorem ne_of_mem_erased {k k' : ClientActionId} (hn : r.listed.Nodup) (hk' : k' ∈ r.view.ids)
    (hk : k ∈ (r.view.erase k').ids ++ r.pending.map Prod.fst) : k ≠ k' := by
  rintro rfl
  rcases List.mem_append.1 hk with hk | hk
  · rw [View.ids_erase] at hk
    simp at hk
  · exact (List.nodup_append.1 hn).2.2 k hk' k hk rfl

/-- Marking an action as undone commutes with a signal that leaves it listed. -/
theorem Receives.undo_comm (h : Receives r signal r') (hn : r.listed.Nodup)
    {k : ClientActionId} (hu : k ∉ r.undos) (hk : k ∈ r'.listed) :
    Receives (r.undo k) signal (r'.undo k) ∧ k ∉ r'.undos := by
  cases h with
  | @action k' p hk' =>
    refine ⟨?_, hu⟩
    have hp : (r.view.ids ++ [k'] ++ r.pending.map Prod.fst).Perm (k' :: r.listed) := by
      simp [listed]
    have hnp := hp.nodup_iff.2 (List.nodup_cons.2 ⟨hk', hn⟩)
    have hpush : r.view.push (insert k r.undos) (k', p) = r.view.push r.undos (k', p) := by
      refine push_insert ((List.sublist_append_left _ _).nodup hnp) hu ?_
      rcases List.mem_append.1 hk with hk | hk
      · exact .inl hk
      · exact .inr fun hk'' => (List.nodup_append.1 hnp).2.2 k hk'' k hk rfl
    have := Receives.action (r := r.undo k) (p := p) hk'
    simp only [Replica.undo, hpush] at this ⊢
    exact this
  | @confirm a rest hp =>
    refine ⟨?_, hu⟩
    have hnp : (r.view.ids ++ [a.1] ++ rest.map Prod.fst).Nodup := by
      simpa [listed, hp] using hn
    have hpush : r.view.push (insert k r.undos) a = r.view.push r.undos a := by
      refine push_insert ((List.sublist_append_left _ _).nodup hnp) hu ?_
      rcases List.mem_append.1 hk with hk | hk
      · exact .inl hk
      · exact .inr fun hk'' => (List.nodup_append.1 hnp).2.2 k hk'' k hk rfl
    have := Receives.confirm (r := r.undo k) hp
    simp only [Replica.undo, hpush] at this ⊢
    exact this
  | @undo k' hk' =>
    have hne := ne_of_mem_erased hn hk' hk
    refine ⟨?_, fun hk => hu (Finset.mem_of_mem_erase hk)⟩
    have := Receives.undo (r := r.undo k) hk'
    simp only [Replica.undo, Finset.erase_insert_of_ne hne] at this ⊢
    exact this
  | @undoConfirm k' hu' hk' =>
    have hne := ne_of_mem_erased hn hk' hk
    refine ⟨?_, fun hk => hu (Finset.mem_of_mem_erase hk)⟩
    have := Receives.undoConfirm (r := r.undo k) (Finset.mem_insert_of_mem hu') hk'
    simp only [Replica.undo, Finset.erase_insert_of_ne hne] at this ⊢
    exact this

/-- Take a queue of signals. -/
def receiveAll : List (Signal K) → Replica K → Option (Replica K)
  | [], r => some r
  | signal :: signals, r => (r.receive signal).bind (receiveAll signals)

theorem receiveAll_append (l l' : List (Signal K)) (r : Replica K) :
    receiveAll (l ++ l') r = (receiveAll l r).bind (receiveAll l') := by
  induction l generalizing r with
  | nil => rfl
  | cons signal l ih =>
    simp only [List.cons_append, receiveAll]
    cases r.receive signal with
    | none => rfl
    | some r' => exact ih r'

theorem receiveAll_concat {l : List (Signal K)} {r r' : Replica K} (h : receiveAll l r = some r')
    (signal : Signal K) : receiveAll (l ++ [signal]) r = r'.receive signal := by
  rw [receiveAll_append, h, Option.bind_some]
  exact Option.bind_fun_some _

section Queue

variable {l : List (Signal K)} {R : Replica K}

theorem receiveAll_cons (h : receiveAll (signal :: l) r = some R) :
    ∃ r', r.receive signal = some r' ∧ receiveAll l r' = some R := Option.bind_eq_some_iff.1 h

theorem receiveAll_nodup (hs : ∀ signal ∈ l, signal.isSync = false)
    (h : receiveAll l r = some R) (hn : r.listed.Nodup) : R.listed.Nodup := by
  induction l generalizing r with
  | nil =>
    cases h
    exact hn
  | cons signal l ih =>
    obtain ⟨r', hr', h⟩ := receiveAll_cons h
    have hr := receive_cases hr' (hs signal (by simp))
    exact ih (fun s hsl => hs s (List.mem_cons_of_mem _ hsl)) h (hr.listed_nodup hn)

/-- The own actions listed at the end of a queue were listed at its start. -/
theorem receiveAll_mem_listed (hs : ∀ signal ∈ l, signal.isSync = false ∧ signal.Foreign r.id)
    (h : receiveAll l r = some R) {k : ClientActionId} (hk : k.clientId = r.id)
    (hk' : k ∈ R.listed) : k ∈ r.listed := by
  induction l generalizing r with
  | nil =>
    cases h
    exact hk'
  | cons signal l ih =>
    obtain ⟨r', hr', h⟩ := receiveAll_cons h
    have hr := receive_cases hr' (hs signal (by simp)).1
    refine hr.mem_listed (hs signal (by simp)).2 hk (ih (fun s hsl => ?_) h ?_)
    · rw [hr.id_eq]
      exact hs s (List.mem_cons_of_mem _ hsl)
    · rw [hr.id_eq, hk]

/-- Actions dispatched before a queue is taken stay behind the pending ones. -/
theorem receiveAll_extend (hs : ∀ signal ∈ l, signal.isSync = false ∧ signal.Foreign r.id)
    (h : receiveAll l r = some R) {new : List (ClientActionId × K.Param)}
    (hl : ∀ a ∈ new, a.1.clientId = r.id) : receiveAll l (r.extend new) = some (R.extend new) := by
  induction l generalizing r with
  | nil =>
    cases h
    rfl
  | cons signal l ih =>
    obtain ⟨r', hr', h⟩ := receiveAll_cons h
    have hr := receive_cases hr' (hs signal (by simp)).1
    rw [receiveAll, (hr.extend (hs signal (by simp)).2 hl).eq, Option.bind_some]
    refine ih (fun s hsl => ?_) h ?_
    · rw [hr.id_eq]
      exact hs s (List.mem_cons_of_mem _ hsl)
    · rwa [hr.id_eq]

end Queue

end Replica

/-- The abstract state of a store manager on a base. -/
def StoreManager.replica (s : StoreManager K) (base : T) : Replica K :=
  ⟨s.id, s.view base, items s.unconfirmedActionList, s.unconfirmedUndos⟩

namespace StoreManager

variable {s : StoreManager K} {base : T}

theorem replica_listed (s : StoreManager K) (base : T) : (s.replica base).listed = s.listed := by
  simp [Replica.listed, replica, View.ids, view, listed, keys_items]

/-- An outcome in terms of replicas. -/
theorem Outcome.replica_eq {s' : StoreManager K} {ledger : Ledger K} {posted : List (Post K)}
    (h : Outcome s s' base ledger posted) :
    s'.replica base = ⟨s.id, ⟨base, ledger.log⟩, ledger.pending, ledger.undos⟩ := by
  have := h.ledger_eq
  subst this
  simp [replica, view, StoreManager.ledger, h.id_eq]

/-- A store manager takes a signal as its abstract state does. -/
theorem receive_refines (h : ReplayInv base s) (hs : s.syncing = 0) {signal : Signal K}
    {r : Replica K} (hr : (s.replica base).receive signal = some r) :
    ∃ s' base', s.receive signal = some s' ∧ ReplayInv base' s' ∧ s'.replica base' = r ∧
      s'.posted = s.posted ∧ s'.syncing = 0 := by
  cases signal with
  | actionReceived k p =>
    simp only [Replica.receive, replica_listed] at hr
    split at hr
    · cases hr
    · rename_i hk
      cases hr
      obtain ⟨s', hs', ho⟩ := receiveAction_spec h hs hk p
      exact ⟨s', _, hs', ho.inv, ho.replica_eq, ho.posted_eq, ho.syncing_eq.trans hs⟩
  | actionConfirmReceived k =>
    cases hp : items s.unconfirmedActionList with
    | nil => simp [Replica.receive, replica, hp] at hr
    | cons a rest =>
      simp only [Replica.receive, replica, hp] at hr
      split at hr
      · rename_i hk
        subst hk
        cases hr
        obtain ⟨s', hs', ho⟩ := receiveActionConfirm_spec h hs (k := a.1) (p := a.2) hp
        exact ⟨s', _, hs', ho.inv, ho.replica_eq, ho.posted_eq, ho.syncing_eq.trans hs⟩
      · cases hr
  | undoReceived k =>
    simp only [Replica.receive] at hr
    split at hr
    · rename_i hk
      cases hr
      have hk' : k ∈ keys s.confirmedActionList := by
        simpa [replica, View.ids, view, keys_items] using hk
      obtain ⟨s', hs', ho⟩ := receiveUndo_spec h hs hk'
      exact ⟨s', _, hs', ho.inv, ho.replica_eq, ho.posted_eq, ho.syncing_eq.trans hs⟩
    · cases hr
  | undoConfirmReceived k =>
    simp only [Replica.receive] at hr
    split at hr
    · rename_i hk
      cases hr
      have hk' : k ∈ keys s.confirmedActionList := by
        simpa [replica, View.ids, view, keys_items] using hk.2
      have ho := receiveUndoConfirm_spec h hs (.inl ⟨hk.1, hk'⟩)
      exact ⟨_, _, rfl, ho.inv, ho.replica_eq, ho.posted_eq, ho.syncing_eq.trans hs⟩
    · cases hr
  | syncReceived t actions unconfirmed =>
    simp only [Replica.receive] at hr
    split at hr
    · rename_i hok
      cases hr
      obtain ⟨s', hs', ho⟩ := receiveSync_spec s (t := t) hok.1 hok.2
      exact ⟨s', _, hs', ho.inv, ho.replica_eq, ho.posted_eq, ho.syncing_eq.trans hs⟩
    · cases hr
  | syncConfirmed => cases hr

theorem listed_nodup (h : ReplayInv base s) : (s.replica base).listed.Nodup := by
  rw [replica_listed]
  exact h.books.nodup

/-- The action stays listed while the store manager receives the signals. -/
def KeepsListed (k : ClientActionId) : List (Signal K) → StoreManager K → Prop
  | [], s => k ∈ s.listed
  | signal :: signals, s => k ∈ s.listed ∧ match s.receive signal with
    | some s' => KeepsListed k signals s'
    | none => True

instance decidableKeepsListed (k : ClientActionId) :
    ∀ (signals : List (Signal K)) (s : StoreManager K), Decidable (KeepsListed k signals s)
  | [], s => inferInstanceAs (Decidable (k ∈ s.listed))
  | signal :: signals, s =>
    have : Decidable (match s.receive signal with
        | some s' => KeepsListed k signals s'
        | none => True) :=
      match s.receive signal with
      | some s' => decidableKeepsListed k signals s'
      | none => .isTrue trivial
    inferInstanceAs (Decidable (k ∈ s.listed ∧ _))

theorem KeepsListed.mem {k : ClientActionId} {signals : List (Signal K)}
    (h : s.KeepsListed k signals) : k ∈ s.listed := by
  cases signals with
  | nil => exact h
  | cons signal signals => exact h.1

/-- Marking an action as undone commutes with a queue of signals that leaves it listed. -/
theorem receiveAll_undo (h : ReplayInv base s) (hs : s.syncing = 0) {signals : List (Signal K)}
    (hsync : ∀ signal ∈ signals, signal.isSync = false) {k : ClientActionId}
    (hk : s.KeepsListed k signals) (hu : k ∉ s.unconfirmedUndos) {R : Replica K}
    (hR : Replica.receiveAll signals (s.replica base) = some R) :
    Replica.receiveAll signals ((s.replica base).undo k) = some (R.undo k) ∧ k ∉ R.undos ∧
      k ∈ R.listed := by
  induction signals generalizing s base with
  | nil =>
    cases hR
    exact ⟨rfl, hu, (replica_listed s base).symm ▸ hk⟩
  | cons signal signals ih =>
    obtain ⟨r', hr', hR⟩ := Replica.receiveAll_cons hR
    have hr := Replica.receive_cases hr' (hsync signal (by simp))
    obtain ⟨s', base', hs', h', rfl, -, hsy⟩ := receive_refines h hs hr'
    have hk' := hk.2
    simp only [hs'] at hk'
    obtain ⟨hr, hu'⟩ := hr.undo_comm (listed_nodup h) hu
      ((replica_listed s' base').symm ▸ hk'.mem)
    rw [Replica.receiveAll, hr.eq, Option.bind_some]
    exact ih h' hsy (fun s hsl => hsync s (List.mem_cons_of_mem _ hsl)) hk' hu' hR

end StoreManager

/-! ## The server -/

namespace NetworkServer

/-- The tournament of the server with its action stack on top. -/
def view (server : NetworkServer K) : View K := ⟨server.tournament, server.stack⟩

/-- The action stack is well-formed and its actions have never been redone. -/
structure WF (server : NetworkServer K) : Prop where
  actions : server.actions.WF
  fresh : ∀ e ∈ server.actions.entries, e.obj = Obj.fresh e.obj.param

variable {server : NetworkServer K}

theorem ids_view (server : NetworkServer K) : server.view.ids = keys server.actions.entries :=
  keys_items _

/-- The actions of the server have never been redone, so a push returns. -/
theorem push_view (hfresh : ∀ e ∈ server.actions.entries, e.obj = Obj.fresh e.obj.param)
    (k : ClientActionId) (p : K.Param) :
    ∃ server', server.push k p = some server' ∧ server'.view = server.view.push ∅ (k, p) ∧
      (∀ e ∈ server'.actions.entries, e.obj = Obj.fresh e.obj.param) ∧
      (server'.actions = server.actions.push k (Obj.fresh p) ∨
        server'.actions = (server.actions.push k (Obj.fresh p)).popFront) := by
  have hfresh' : ∀ e ∈ (server.actions.push k (Obj.fresh p)).entries,
      e.obj = Obj.fresh e.obj.param := by
    intro e he
    rcases List.mem_append.1 he with he | he
    · exact hfresh e he
    · rw [List.mem_singleton.1 he]
      rfl
  have hitems : items (server.actions.push k (Obj.fresh p)).entries = server.stack ++ [(k, p)] :=
    server.actions.items_push k (Obj.fresh p)
  have hview : server.view.push ∅ (k, p) = View.trim ∅ ⟨server.tournament,
      items (server.actions.push k (Obj.fresh p)).entries⟩ := by rw [hitems]; rfl
  rw [hview]
  unfold push
  generalize server.actions.push k (Obj.fresh p) = actions at hfresh'
  have hlen : (items actions.entries).length = actions.entries.length := by simp [items]
  by_cases hfull : actions.entries.length > maxActionStackSize
  · cases he : actions.entries with
    | nil => simp [he] at hfull
    | cons e l =>
      have hpop : actions.popFront.entries = l := by simp [Table.popFront, he]
      have hobj := hfresh' e (by simp [he])
      refine ⟨⟨(K.redo e.obj.param K.init server.tournament).2, actions.popFront⟩, ?_, ?_, ?_, .inr rfl⟩
      · rw [he] at hfull
        simp only [he, if_pos hfull, List.head?_cons, Option.bind_eq_bind, Option.bind_some]
        rw [hobj, Obj.redo_of_not_done (Obj.fresh_done _)]
        rfl
      · rw [View.trim, if_pos (by rwa [← he, hlen])]
        simp [view, stack, hpop, Ops.effect]
      · rw [hpop]
        intro e' he'
        exact hfresh' e' (by simp [he, he'])
  · refine ⟨{ server with actions := actions }, if_neg hfull, ?_, hfresh', .inl rfl⟩
    rw [View.trim, if_neg (by rwa [hlen])]
    rfl

theorem push_spec (h : server.WF) {k : ClientActionId} (hk : k ∉ server.view.ids) (p : K.Param) :
    ∃ server', server.push k p = some server' ∧ server'.WF ∧
      server'.view = server.view.push ∅ (k, p) := by
  rw [ids_view] at hk
  have hwf := h.actions.push hk (Obj.fresh p)
  obtain ⟨server', hpush, hview, hfresh, hactions | hactions⟩ := push_view h.fresh k p
  · exact ⟨server', hpush, ⟨hactions ▸ hwf, hfresh⟩, hview⟩
  · exact ⟨server', hpush, ⟨hactions ▸ hwf.popFront, hfresh⟩, hview⟩

theorem erase_spec (h : server.WF) (k : ClientActionId) :
    ({ server with actions := server.actions.erase k } : NetworkServer K).WF ∧
      view { server with actions := server.actions.erase k } = server.view.erase k := by
  refine ⟨⟨h.actions.erase k, fun e he => h.fresh e ((server.actions.erase_sublist k).subset he)⟩, ?_⟩
  rw [view, stack, h.actions.items_erase]
  rfl

end NetworkServer

end JudoAssistant
