import JudoAssistant.Web.LoadedTournament

/-!
# Runs of a tournament on the web server

Two things are kept beside the tournament by hand.  The set `actionIds` decides which undos are
refused, so it should hold the ids of the action list; `sync` replaces the list and leaves the set.
The two times decide whether a `save` is needed, so a tournament that was not modified after it was
saved should be in the file; an action that throws may have changed the tournament, and the time of
the last modification is not recorded then.
-/

namespace JudoAssistant

namespace SharedActionList

/-! ### The loops of an undo -/

@[simp] theorem ids_replay (l : SharedActionList) (t : TournamentStore) :
    ids (replay l t).actionList = ids l := by
  induction l generalizing t with
  | nil => rfl
  | cons p l ih =>
    simp only [replay]
    split
    · rw [ids_cons, ih, ids_cons]
    · rfl

/-- The iterator walks over the list and leaves its ids. -/
theorem ids_rewind (actionId : ClientActionId) (l above : SharedActionList) (t : TournamentStore) :
    (ids (rewind actionId l above t).below).reverse ++ ids (rewind actionId l above t).above =
      (ids l).reverse ++ ids above := by
  fun_induction rewind actionId l above t with
  | case1 => rfl
  | case2 => rfl
  | case3 => rfl
  | case4 p q below above t hne call _ hok ih =>
    rw [ih]
    simp
  | case5 => simp

/-- A walk that is not broken off by an exception reaches an id of the list. -/
theorem rewind_found {actionId : ClientActionId} {l above : SharedActionList} {t : TournamentStore}
    (hmem : actionId ∈ ids l) (hok : (rewind actionId l above t).result = .ok ()) :
    ∃ o below, (rewind actionId l above t).below = (actionId, o) :: below := by
  fun_induction rewind actionId l above t with
  | case1 => simp at hmem
  | case2 p above t =>
    obtain rfl : actionId = p.1 := by simpa using hmem
    exact ⟨p.2, [], rfl⟩
  | case3 p q below above t heq => exact ⟨p.2, q :: below, by rw [← heq]⟩
  | case4 p q below above t hne call _ hcall ih =>
    refine ih ?_ hok
    rw [ids_cons] at hmem
    exact (List.mem_cons.1 hmem).resolve_left (Ne.symm hne)
  | case5 => cases hok

/-- An undo of an id of the list that is not broken off by an exception succeeds and takes the action
out of the list. -/
theorem unwind_found {actionId : ClientActionId} {l : SharedActionList} {t : TournamentStore}
    (hmem : actionId ∈ ids l) : ∃ u, unwind actionId l t = some u ∧ ∀ b, u.result = .ok b →
      b = true ∧ ∃ front back, ids l = front ++ actionId :: back ∧ ids u.actionList = front ++ back := by
  have hids := ids_rewind actionId l.reverse [] t
  have hfound := @rewind_found actionId l.reverse [] t (by simpa using hmem)
  rw [ids_reverse, List.reverse_reverse, ids_nil, List.append_nil] at hids
  unfold unwind
  generalize rewind actionId l.reverse [] t = walk at hids hfound ⊢
  obtain ⟨result, below, above, t'⟩ := walk
  cases result with
  | error e =>
    refine ⟨_, rfl, ?_⟩
    intro b hb
    cases hb
  | ok _ =>
    obtain ⟨o, below, rfl⟩ := hfound rfl
    simp only [if_true]
    rw [ids_cons, List.reverse_cons, List.append_assoc] at hids
    cases (o.undo t').result with
    | error e =>
      refine ⟨_, rfl, ?_⟩
      intro b hb
      cases hb
    | ok _ =>
      refine ⟨_, rfl, ?_⟩
      intro b hb
      refine ⟨?_, (ids below).reverse, ids above, hids.symm, ?_⟩
      · simp only [Unwound.ofReplayed] at hb
        cases hr : (replay above (o.undo t').tournament).result with
        | error e => simp [hr, Except.map] at hb
        | ok _ => simpa [hr, Except.map] using hb.symm
      · simp [Unwound.ofReplayed]

end SharedActionList

namespace LoadedTournament

open SharedActionList

variable {s s' : LoadedTournament}

/-! ### The index of the actions -/

/-- The ids are as the master sends them: no two actions of a list have the same id, and the id of a
new action is none of the list. -/
def FromMaster (s : LoadedTournament) : Handler → Prop
  | .sync _ actionList _ => (ids actionList).Nodup
  | .dispatch actionId _ => actionId ∉ ids s.actionList
  | _ => True

/-- A `sync` brings the ids that are in the set already, and an undo of an action of the list is not
broken off by an exception of an action. -/
def KeepsIndex (s : LoadedTournament) : Handler → Prop
  | .sync _ actionList _ => (ids actionList).toFinset = s.actionIds
  | .undo actionId => actionId ∈ ids s.actionList → ∀ t u, s.tournament = some t →
    unwind actionId s.actionList t = some u → ∃ b, u.result = .ok b
  | _ => True

/-- The set holds the ids of the list, which are distinct, and the tournament is there if there is an
action. -/
structure Indexed (s : LoadedTournament) : Prop where
  actionIds : s.actionIds = (ids s.actionList).toFinset
  nodup : (ids s.actionList).Nodup
  present : s.actionList ≠ [] → s.tournament.isSome = true

/-- The index depends on the tournament and the two fields only. -/
theorem Indexed.congr (h : s.Indexed) (hids : s'.actionIds = s.actionIds)
    (hlist : s'.actionList = s.actionList) (hpresent : s'.tournament.isSome = s.tournament.isSome) :
    s'.Indexed where
  actionIds := by rw [hids, hlist, h.actionIds]
  nodup := by rw [hlist]; exact h.nodup
  present := by rw [hlist, hpresent]; exact h.present

theorem indexed_trim (h : s.Indexed) : s.trim.Indexed := by
  unfold trim
  cases hlist : s.actionList with
  | nil => exact h
  | cons p l =>
    have hids := h.actionIds
    have hnodup := h.nodup
    rw [hlist, ids_cons] at hids hnodup
    simp only
    split
    · refine ⟨?_, (List.nodup_cons.1 hnodup).2, fun _ => h.present (by simp [hlist])⟩
      rw [hids, List.toFinset_cons, Finset.erase_insert]
      exact fun hp => (List.nodup_cons.1 hnodup).1 (List.mem_toFinset.1 hp)
    · exact h

theorem indexed_push {now : ℕ} {actionId : ClientActionId} (h : s.Indexed)
    (hnew : actionId ∉ ids s.actionList) (call : ActionCall) : (s.push now actionId call).Indexed := by
  refine indexed_trim ⟨?_, ?_, fun _ => rfl⟩
  · simp [h.actionIds]
  · rw [ids_append, ids_cons, ids_nil, List.nodup_append_comm]
    exact List.nodup_cons.2 ⟨hnew, h.nodup⟩

/-- The action of an undo that succeeds is taken out of the list and of the set. -/
theorem indexed_undone {actionId : ClientActionId} {t : TournamentStore} {u : Unwound} {now : ℕ}
    (h : s.Indexed) (hid : actionId ∈ s.actionIds) (hu : unwind actionId s.actionList t = some u)
    (hok : u.result = .ok true) :
    Indexed { s with
      tournament := some u.tournament
      actionList := u.actionList
      modificationTime := now
      actionIds := s.actionIds.erase actionId } := by
  have hmem : actionId ∈ ids s.actionList := by rwa [h.actionIds, List.mem_toFinset] at hid
  obtain ⟨u', hu', hfound⟩ := @unwind_found actionId s.actionList t hmem
  rw [hu, Option.some.injEq] at hu'
  subst hu'
  obtain ⟨-, front, back, hids, hrest⟩ := hfound true hok
  have hnodup := h.nodup
  rw [hids, List.nodup_middle, List.nodup_cons] at hnodup
  refine ⟨?_, ?_, fun _ => rfl⟩
  · have hset : (ids s.actionList).toFinset = insert actionId (front ++ back).toFinset := by
      rw [hids]
      ext k
      simp only [List.mem_toFinset, List.mem_append, List.mem_cons, Finset.mem_insert]
      tauto
    simp only [hrest]
    rw [h.actionIds, hset, Finset.erase_insert]
    exact fun hk => hnodup.1 (List.mem_toFinset.1 hk)
  · simp only [hrest]
    exact hnodup.2

/-- An undo of an action of the list succeeds. -/
theorem undo_found {now : ℕ} {actionId : ClientActionId} (h : s.Indexed)
    (hmem : actionId ∈ ids s.actionList) (hkeeps : s.KeepsIndex (.undo actionId)) :
    ∃ s', s.undo now actionId = some (s', true) := by
  have hnonempty : s.actionList ≠ [] := by
    intro hnil
    simp [hnil] at hmem
  obtain ⟨t, ht⟩ := Option.isSome_iff_exists.1 (h.present hnonempty)
  obtain ⟨u, hu, hfound⟩ := @unwind_found actionId s.actionList t hmem
  obtain ⟨b, hb⟩ := hkeeps hmem t u ht hu
  obtain ⟨rfl, -⟩ := hfound b hb
  exact ⟨_, by simp [undo, h.actionIds, hmem, ht, hu, hb]; rfl⟩

/-- An undo of an action that is not in the list is refused. -/
theorem undo_refused {now : ℕ} {actionId : ClientActionId} (h : s.Indexed)
    (hmem : actionId ∉ ids s.actionList) : s.undo now actionId = some (s, false) := by
  unfold undo
  rw [if_neg]
  rwa [h.actionIds, List.mem_toFinset]

theorem indexed_ran {now : ℕ} {e : Handler} {ok : Bool} (h : s.Indexed) (hmaster : s.FromMaster e)
    (hkeeps : s.KeepsIndex e) (hran : s.Ran now e s' ok) : s'.Indexed := by
  cases hran with
  | synced t l diff => exact ⟨hkeeps.symm, hmaster, fun _ => rfl⟩
  | dispatched ht hok => exact indexed_push h hmaster _
  | threw ht herr => exact h.congr rfl rfl (by rw [ht]; rfl)
  | undone hid ht hu hok => exact indexed_undone h hid hu hok
  | notUndone hid ht hu hno =>
    -- An undo of an action of the list does not fail.
    rw [h.actionIds, List.mem_toFinset] at hid
    obtain ⟨b, hb⟩ := hkeeps hid _ _ ht hu
    obtain ⟨u, hu', hfound⟩ := @unwind_found _ s.actionList _ hid
    rw [hu, Option.some.injEq] at hu'
    subst hu'
    obtain ⟨rfl, -⟩ := hfound b hb
    exact absurd hb hno
  | refused hid => exact h
  | loaded hfree hfile => exact ⟨rfl, List.nodup_nil, fun hne => absurd rfl hne⟩
  | inUse outcome => exact h
  | _ => exact h.congr rfl rfl rfl

/-- In every run in which a `sync` brings the ids that are in the set already and no action throws
inside an undo, the set holds the ids of the list, an undo succeeds if and only if its action is in the
list, and an undo that is refused changes nothing. -/
theorem run_actionIds (file : Option SaveFile) (es : List (ℕ × Handler)) (s : LoadedTournament)
    (hes : Runs.Guarded step (fun s e => s.FromMaster e.2 ∧ s.KeepsIndex e.2) es { file := file })
    (hrun : Runs.run step es { file := file } = some s) :
    s.actionIds = (ids s.actionList).toFinset ∧
    ∀ now actionId, s.KeepsIndex (.undo actionId) → ∃ s' ok, s.undo now actionId = some (s', ok) ∧
      (ok = true ↔ actionId ∈ ids s.actionList) ∧
      (ok = false → s'.tournament = s.tournament ∧ s'.actionList = s.actionList) := by
  have hinit : Indexed { file := file } := ⟨rfl, List.nodup_nil, fun hne => absurd rfl hne⟩
  have h : s.Indexed := by
    refine Runs.run_inv ?_ hinit hes hrun
    rintro s e s' h ⟨hmaster, hkeeps⟩ hstep
    obtain ⟨s₁, ok, hran, rfl⟩ := step_eq_some hstep
    exact (indexed_ran h hmaster hkeeps hran).congr rfl rfl rfl
  refine ⟨h.actionIds, ?_⟩
  intro now actionId hkeeps
  by_cases hmem : actionId ∈ ids s.actionList
  · obtain ⟨s', hs'⟩ := @undo_found s now actionId h hmem hkeeps
    exact ⟨s', true, hs', by simp [hmem], by simp⟩
  · exact ⟨s, false, undo_refused h hmem, by simp [hmem], by simp⟩

/-- A tournament is received and an action on it. -/
def firstAction : List (ℕ × Handler) :=
  [(1, .sync {} [] 0), (2, .dispatch ⟨1, 1⟩ (ActionObject.addCategory ⟨1⟩))]

theorem run_actionIds_firstAction : ∃ s, Runs.run step firstAction {} = some s ∧
    s.actionIds = (ids s.actionList).toFinset := by
  refine ⟨_, rfl, (run_actionIds none firstAction _ ?_ rfl).1⟩
  exact ⟨⟨List.nodup_nil, rfl⟩, ⟨by simp [FromMaster, sync], trivial⟩, trivial⟩

/-- A tournament is received with an action on it. -/
def syncedAction : List (ℕ × Handler) :=
  [(1, .sync ActionObject.oneCategory [(⟨1, 1⟩, ((ActionObject.addCategory ⟨1⟩).redo {}).object)] 0)]

/-- The ids of a list that is received are not in the set: an undo of the action is refused, though the
action is in the list. -/
theorem run_actionIds_syncedAction : ∃ s, Runs.Guarded step (fun s e => s.FromMaster e.2) syncedAction {} ∧
    Runs.run step syncedAction {} = some s ∧ s.actionIds ≠ (ids s.actionList).toFinset ∧
    (⟨1, 1⟩ : ClientActionId) ∈ ids s.actionList ∧ s.undo 2 ⟨1, 1⟩ = some (s, false) := by
  refine ⟨_, ⟨List.nodup_singleton _, trivial⟩, rfl, ?_, List.mem_singleton_self _, rfl⟩
  intro h
  have hmem : (⟨1, 1⟩ : ClientActionId) ∈ (∅ : Finset ClientActionId) := by
    rw [show (∅ : Finset ClientActionId) = _ from h]
    exact List.mem_toFinset.2 (List.mem_singleton_self _)
  simp at hmem

/-! ### The times of a save -/

/-- The last completely written file encodes the tournament, if there is one. -/
def Saved (s : LoadedTournament) : Prop :=
  ∀ t, s.tournament = some t → ∃ f, s.file = some f ∧ f.tournament = t

/-- A `dispatch` or an undo that fails leaves the tournament, and a file that was opened is written
completely. -/
def Undisturbed (s : LoadedTournament) : Handler → Prop
  | .dispatch _ action => ∀ t, s.tournament = some t →
    (action.redo t).result ≠ .ok () → (action.redo t).tournament = t
  | .undo actionId => actionId ∈ s.actionIds → ∀ t u, s.tournament = some t →
    unwind actionId s.actionList t = some u → u.result ≠ .ok true → u.tournament = t
  | .save outcome => outcome ≠ .incomplete
  | _ => True

/-- The times lie in the past, and the tournament is saved unless it was modified after the last
time recorded. -/
structure Timed (s : LoadedTournament) : Prop where
  modified : s.modificationTime ≤ s.clock
  synchronized : s.synchronizationTime ≤ s.clock
  saved : s.needsSave = false → s.Saved

/-- A tournament that was modified last. -/
theorem timed_of_modified (hlate : s.synchronizationTime < s.modificationTime)
    (hclock : s.modificationTime ≤ s.clock) : s.Timed where
  modified := hclock
  synchronized := hlate.le.trans hclock
  saved hsave := by simp [needsSave, hlate] at hsave

/-- Time passes, and the fields that the times and the file are about stay. -/
theorem Timed.later (h : s.Timed) (hclock : s.clock ≤ s'.clock)
    (htournament : s'.tournament = s.tournament) (hfile : s'.file = s.file)
    (hmodified : s'.modificationTime = s.modificationTime)
    (hsynchronized : s'.synchronizationTime = s.synchronizationTime) : s'.Timed where
  modified := by rw [hmodified]; exact h.modified.trans hclock
  synchronized := by rw [hsynchronized]; exact h.synchronized.trans hclock
  saved := by
    have hsaved := h.saved
    unfold needsSave Saved at *
    rwa [hmodified, hsynchronized, htournament, hfile]

theorem timed_ran {now : ℕ} {e : Handler} {ok : Bool} (h : s.Timed) (hclock : s.clock < now)
    (hquiet : s.Undisturbed e) (hran : s.Ran now e s' ok) : Timed { s' with clock := now } := by
  have hlate : s.synchronizationTime < now := h.synchronized.trans_lt hclock
  cases hran with
  | synced t l diff => exact timed_of_modified hlate le_rfl
  | dispatched ht hok =>
    obtain ⟨actionList, actionIds, heq⟩ := s.push_eq now _ _
    rw [heq]
    exact timed_of_modified hlate le_rfl
  | threw ht herr =>
    have hsame := hquiet _ ht herr
    exact h.later hclock.le (by simp only [hsame, ht]) rfl rfl rfl
  | undone hid ht hu hok => exact timed_of_modified hlate le_rfl
  | notUndone hid ht hu hno =>
    have hsame := hquiet hid _ _ ht hu hno
    exact h.later hclock.le (by simp only [hsame, ht]) rfl rfl rfl
  | @loaded file hfree hfile =>
    refine ⟨h.modified.trans hclock.le, le_rfl, fun _ t ht => ?_⟩
    cases ht
    exact ⟨file, hfile, rfl⟩
  | damaged => exact absurd rfl hquiet
  | @saved t ht =>
    -- The snapshot is the tournament at the time that is recorded.
    refine ⟨h.modified.trans hclock.le, le_rfl, fun _ t' ht' => ?_⟩
    have heq : t = t' := Option.some.inj (ht.symm.trans ht')
    exact ⟨⟨s.clockDiff, t⟩, rfl, heq⟩
  | _ => exact h.later hclock.le rfl rfl rfl rfl

/-- In every run with an increasing clock in which failing actions leave the tournament and files are
written completely: where no `save` is needed, the last completely written file encodes the
tournament. -/
theorem run_saved (file : Option SaveFile) (es : List (ℕ × Handler)) (s : LoadedTournament)
    (hes : Runs.Guarded step (fun s e => s.clock < e.1 ∧ s.Undisturbed e.2) es { file := file })
    (hrun : Runs.run step es { file := file } = some s) (hclean : s.needsSave = false) :
    ∀ t, s.tournament = some t → ∃ f, s.file = some f ∧ f.tournament = t := by
  have hinit : Timed { file := file } := ⟨le_rfl, le_rfl, fun _ t ht => by cases ht⟩
  have h : s.Timed := by
    refine Runs.run_inv ?_ hinit hes hrun
    rintro s e s' h ⟨hclock, hquiet⟩ hstep
    obtain ⟨s₁, ok, hran, rfl⟩ := step_eq_some hstep
    exact timed_ran h hclock hquiet hran
  exact h.saved hclean

/-- A tournament is received and saved. -/
def firstSave : List (ℕ × Handler) := [(1, .sync ActionObject.oneCategory [] 0), (2, .save .complete)]

theorem run_saved_firstSave : ∃ s, Runs.run step firstSave {} = some s ∧ s.needsSave = false ∧
    ∀ t, s.tournament = some t → ∃ f, s.file = some f ∧ f.tournament = t := by
  refine ⟨_, rfl, rfl, run_saved none firstSave _ ?_ rfl rfl⟩
  exact ⟨⟨by decide, trivial⟩, ⟨by decide, by rintro ⟨⟩⟩, trivial⟩

/-- An action that throws after it has added a player. -/
def failedAction : List (ℕ × Handler) :=
  firstSave ++ [(3, .dispatch ⟨1, 1⟩ (ActionObject.addPlayerAndCategory ⟨2⟩ ⟨1⟩))]

/-- The player is lost: no `save` is needed, and the file holds the tournament without the player. -/
theorem run_saved_failedAction : ∃ s, Runs.Guarded step (fun s e => s.clock < e.1) failedAction {} ∧
    Runs.run step failedAction {} = some s ∧ s.needsSave = false ∧
    ∃ t, s.tournament = some t ∧ ∀ f, s.file = some f → f.tournament ≠ t := by
  refine ⟨_, by decide, rfl, rfl, _, rfl, ?_⟩
  rintro f hf heq
  cases hf
  have hplayer : (ActionObject.oneCategory.players ⟨2⟩).isSome = true := by
    rw [show ActionObject.oneCategory.players = _ from congrArg TournamentStore.players heq]
    rfl
  cases hplayer

end LoadedTournament

end JudoAssistant
