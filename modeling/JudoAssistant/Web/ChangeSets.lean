import Mathlib.Data.Finset.Union
import JudoAssistant.Lib.NetChange
import JudoAssistant.Tournament.Algorithm
import JudoAssistant.Tournament.Stores

/-!
# The changes that the web server tells its clients

`WebTournamentStore` (`src/web/web_tournament_store.cpp`) is told by the actions what they add, erase
and change, and keeps the net change of the players and of the categories since `clearChanges`.  A
callback has no result if one of its assertions fires.
-/

namespace JudoAssistant

/-- What the callbacks read of the tournament: the players, the categories and who is in them. -/
structure Roster where
  players : Finset PlayerId := ∅
  categories : Finset CategoryId := ∅
  members : CategoryId → Finset PlayerId := fun _ => ∅

/-- The changes of a `WebTournamentStore`. -/
structure WebTournamentStore where
  tournamentChanged : Bool := false
  /-- `mChangedPlayers`, `mAddedPlayers` and `mErasedPlayers` -/
  players : NetChange PlayerId := {}
  playerMatchResets : Finset PlayerId := ∅
  /-- `mChangedCategories`, `mAddedCategories` and `mErasedCategories` -/
  categories : NetChange CategoryId := {}
  categoryMatchResets : Finset CategoryId := ∅
  categoryResultsResets : Finset CategoryId := ∅
  changedMatches : Finset CombinedId := ∅
  resettingTatamis : Bool := true

namespace WebTournamentStore

variable (s : WebTournamentStore)

def clearChanges : WebTournamentStore := { resettingTatamis := s.resettingTatamis }

def changeTournament : WebTournamentStore := { s with tournamentChanged := true }

/-! ### Players -/

def changePlayers (ids : List PlayerId) : Option WebTournamentStore := do
  let players ← s.players.changeAll ids
  return { s with players := players }

def beginAddPlayers (_ : List PlayerId) : Option WebTournamentStore := some s

def endAddPlayers (ids : List PlayerId) : Option WebTournamentStore := do
  let players ← s.players.addAll ids
  return { s with
    players := players
    playerMatchResets := s.playerMatchResets ∪ ids.toFinset }

def beginErasePlayers (ids : List PlayerId) : Option WebTournamentStore := do
  let players ← s.players.eraseAll ids
  return { s with
    players := players
    playerMatchResets := s.playerMatchResets \ ids.toFinset }

def endErasePlayers (_ : List PlayerId) : Option WebTournamentStore := some s

def beginResetPlayers (r : Roster) : Option WebTournamentStore := s.beginErasePlayers (inOrder r.players)

/-- The players are added by `beginAddPlayers`, which does nothing. -/
def endResetPlayers (r : Roster) : Option WebTournamentStore := s.beginAddPlayers (inOrder r.players)

def addPlayersToCategory (categoryId : CategoryId) (ids : List PlayerId) : WebTournamentStore :=
  { s with
    playerMatchResets := s.playerMatchResets ∪ ids.toFinset
    categoryMatchResets := insert categoryId s.categoryMatchResets }

def erasePlayersFromCategory (categoryId : CategoryId) (ids : List PlayerId) : WebTournamentStore :=
  { s with
    playerMatchResets := s.playerMatchResets ∪ ids.toFinset
    categoryMatchResets := insert categoryId s.categoryMatchResets }

/-! ### Categories -/

/-- Reset the matches of the players of categories, which `getCategory` asserts to exist. -/
def resetMembers (r : Roster) (ids : List CategoryId) : Option WebTournamentStore :=
  if ∀ id ∈ ids, id ∈ r.categories then
    some { s with playerMatchResets := s.playerMatchResets ∪ ids.toFinset.biUnion r.members }
  else none

def changeCategories (ids : List CategoryId) : Option WebTournamentStore := do
  let categories ← s.categories.changeAll ids
  return { s with categories := categories }

def beginAddCategories (_ : List CategoryId) : Option WebTournamentStore := some s

def endAddCategories (r : Roster) (ids : List CategoryId) : Option WebTournamentStore := do
  let categories ← s.categories.addAll ids
  resetMembers { s with
    categories := categories
    categoryMatchResets := s.categoryMatchResets ∪ ids.toFinset
    categoryResultsResets := s.categoryResultsResets ∪ ids.toFinset } r ids

def beginEraseCategories (r : Roster) (ids : List CategoryId) : Option WebTournamentStore := do
  let categories ← s.categories.eraseAll ids
  resetMembers { s with
    categories := categories
    categoryMatchResets := s.categoryMatchResets \ ids.toFinset } r ids

def endEraseCategories (_ : List CategoryId) : Option WebTournamentStore := some s

def beginResetCategories (r : Roster) : Option WebTournamentStore :=
  s.beginEraseCategories r (inOrder r.categories)

def endResetCategories (r : Roster) : Option WebTournamentStore :=
  s.endAddCategories r (inOrder r.categories)

/-! ### Matches, results and tatamis -/

def changeMatches (categoryId : CategoryId) (ids : List MatchId) : WebTournamentStore :=
  { s with changedMatches := s.changedMatches ∪ (ids.map (CombinedId.mk categoryId)).toFinset }

def endResetMatches (r : Roster) (ids : List CategoryId) : Option WebTournamentStore :=
  resetMembers { s with categoryMatchResets := s.categoryMatchResets ∪ ids.toFinset } r ids

def addMatchesToPlayer (id : PlayerId) : WebTournamentStore :=
  { s with playerMatchResets := insert id s.playerMatchResets }

def eraseMatchesFromPlayer (id : PlayerId) : WebTournamentStore :=
  { s with playerMatchResets := insert id s.playerMatchResets }

/-- The four callbacks for added and erased tatamis. -/
def resetTatamis : WebTournamentStore := { s with resettingTatamis := true, tournamentChanged := true }

def resetCategoryResults (ids : List CategoryId) : WebTournamentStore :=
  { s with categoryResultsResets := s.categoryResultsResets ∪ ids.toFinset }

end WebTournamentStore

/-! ### Notifications -/

/-- What the store is told.  A reset comes with what there is after it. -/
inductive Notification where
  | changeTournament
  | changePlayers (ids : List PlayerId)
  | addPlayers (ids : List PlayerId)
  | erasePlayers (ids : List PlayerId)
  | resetPlayers (players : Finset PlayerId)
  | addPlayersToCategory (categoryId : CategoryId) (ids : List PlayerId)
  | erasePlayersFromCategory (categoryId : CategoryId) (ids : List PlayerId)
  | changeCategories (ids : List CategoryId)
  | addCategories (ids : List CategoryId) (members : CategoryId → Finset PlayerId)
  | eraseCategories (ids : List CategoryId)
  | resetCategories (categories : Finset CategoryId) (members : CategoryId → Finset PlayerId)
  | changeMatches (categoryId : CategoryId) (ids : List MatchId)
  | resetMatches (ids : List CategoryId)
  | addMatchesToPlayer (id : PlayerId)
  | eraseMatchesFromPlayer (id : PlayerId)
  | resetTatamis
  | resetCategoryResults (ids : List CategoryId)

namespace Notification

/-- The tournament after what the notification is about. -/
def roster (r : Roster) : Notification → Roster
  | addPlayers ids => { r with players := r.players ∪ ids.toFinset }
  | erasePlayers ids => { r with players := r.players \ ids.toFinset }
  | resetPlayers players => { r with players := players }
  | addPlayersToCategory categoryId ids =>
    { r with members := Function.update r.members categoryId (r.members categoryId ∪ ids.toFinset) }
  | erasePlayersFromCategory categoryId ids =>
    { r with members := Function.update r.members categoryId (r.members categoryId \ ids.toFinset) }
  | addCategories ids members => { r with
      categories := r.categories ∪ ids.toFinset
      members := fun id => if id ∈ ids then members id else r.members id }
  | eraseCategories ids => { r with categories := r.categories \ ids.toFinset }
  | resetCategories categories members => { r with categories := categories, members := members }
  | _ => r

/-- The notification is one for the tournament: what is added does not exist, and what is erased or
changed does. -/
def Fits (r : Roster) : Notification → Prop
  | changePlayers ids => ∀ id ∈ ids, id ∈ r.players
  | addPlayers ids => ids.Nodup ∧ ∀ id ∈ ids, id ∉ r.players
  | erasePlayers ids => ids.Nodup ∧ ∀ id ∈ ids, id ∈ r.players
  | changeCategories ids => ∀ id ∈ ids, id ∈ r.categories
  | addCategories ids _ => ids.Nodup ∧ ∀ id ∈ ids, id ∉ r.categories
  | eraseCategories ids => ids.Nodup ∧ ∀ id ∈ ids, id ∈ r.categories
  | resetMatches ids => ∀ id ∈ ids, id ∈ r.categories
  | _ => True

/-- The callbacks of a notification.  A callback that begins an erasure reads the tournament as it was,
and one that ends an addition reads it as it is then. -/
def receive (r : Roster) (s : WebTournamentStore) : Notification → Option WebTournamentStore
  | changeTournament => some s.changeTournament
  | changePlayers ids => s.changePlayers ids
  | addPlayers ids => do
    let s ← s.beginAddPlayers ids
    s.endAddPlayers ids
  | erasePlayers ids => do
    let s ← s.beginErasePlayers ids
    s.endErasePlayers ids
  | resetPlayers players => do
    let s ← s.beginResetPlayers r
    s.endResetPlayers ((resetPlayers players).roster r)
  | addPlayersToCategory categoryId ids => some (s.addPlayersToCategory categoryId ids)
  | erasePlayersFromCategory categoryId ids => some (s.erasePlayersFromCategory categoryId ids)
  | changeCategories ids => s.changeCategories ids
  | addCategories ids members => do
    let s ← s.beginAddCategories ids
    s.endAddCategories ((addCategories ids members).roster r) ids
  | eraseCategories ids => do
    let s ← s.beginEraseCategories r ids
    s.endEraseCategories ids
  | resetCategories categories members => do
    let s ← s.beginResetCategories r
    s.endResetCategories ((resetCategories categories members).roster r)
  | changeMatches categoryId ids => some (s.changeMatches categoryId ids)
  | resetMatches ids => s.endResetMatches r ids
  | addMatchesToPlayer id => some (s.addMatchesToPlayer id)
  | eraseMatchesFromPlayer id => some (s.eraseMatchesFromPlayer id)
  | resetTatamis => some s.resetTatamis
  | resetCategoryResults ids => some (s.resetCategoryResults ids)

/-- The players that are reported as changed. -/
def changedPlayers : Notification → Finset PlayerId
  | changePlayers ids => ids.toFinset
  | _ => ∅

/-- The categories that are reported as changed. -/
def changedCategories : Notification → Finset CategoryId
  | changeCategories ids => ids.toFinset
  | _ => ∅

end Notification

/-- The notifications fit the tournament, one after the other. -/
def Consistent : Roster → List Notification → Prop
  | _, [] => True
  | r, n :: ns => n.Fits r ∧ Consistent (n.roster r) ns

/-- The tournament after the notifications. -/
def rosterAfter (r : Roster) (ns : List Notification) : Roster := ns.foldl Notification.roster r

/-- The callbacks of the notifications. -/
def receiveAll : Roster → List Notification → WebTournamentStore → Option WebTournamentStore
  | _, [], s => some s
  | r, n :: ns, s => (n.receive r s).bind (receiveAll (n.roster r) ns)

/-- All that is reported as changed. -/
def reported {ι : Type} [DecidableEq ι] (f : Notification → Finset ι) : List Notification → Finset ι
  | [] => ∅
  | n :: ns => f n ∪ reported f ns

/-- The changes since the start are the net changes of the players and of the categories. -/
structure WebTournamentStore.NetSince (s : WebTournamentStore) (start now : Roster)
    (changedPlayers : Finset PlayerId) (changedCategories : Finset CategoryId) : Prop where
  players : s.players.Net start.players now.players changedPlayers
  categories : s.categories.Net start.categories now.categories changedCategories

namespace WebTournamentStore

variable {s s' : WebTournamentStore} {start r : Roster} {players : Finset PlayerId}
  {categories : Finset CategoryId}

theorem netSince_clearChanges (s : WebTournamentStore) (start : Roster) :
    s.clearChanges.NetSince start start ∅ ∅ := ⟨.init _, .init _⟩

theorem NetSince.of_eq (h : s.NetSince start r players categories) (hplayers : s'.players = s.players)
    (hcategories : s'.categories = s.categories) : s'.NetSince start r players categories :=
  ⟨by rw [hplayers]; exact h.players, by rw [hcategories]; exact h.categories⟩

theorem resetMembers_of_mem (ids : List CategoryId) (hids : ∀ id ∈ ids, id ∈ r.categories) :
    ∃ s', s.resetMembers r ids = some s' ∧ s'.players = s.players ∧ s'.categories = s.categories := by
  unfold resetMembers
  rw [if_pos hids]
  exact ⟨_, rfl, rfl, rfl⟩

theorem NetSince.endAddCategories {now : Finset CategoryId} {ids : List CategoryId}
    (hplayers : s.players.Net start.players r.players players)
    (h : s.categories.Net start.categories now categories) (hnodup : ids.Nodup) (hids : ∀ id ∈ ids, id ∉ now)
    (hnow : r.categories = now ∪ ids.toFinset) :
    ∃ s', s.endAddCategories r ids = some s' ∧ s'.NetSince start r players categories := by
  obtain ⟨log, hlog, hnet⟩ := h.addAll hnodup hids
  obtain ⟨s', hs', hsame, hcategories⟩ := resetMembers_of_mem (r := r) ids
    (s := { s with
      categories := log
      categoryMatchResets := s.categoryMatchResets ∪ ids.toFinset
      categoryResultsResets := s.categoryResultsResets ∪ ids.toFinset })
    (fun id hid => by rw [hnow]; exact Finset.mem_union_right _ (List.mem_toFinset.2 hid))
  refine ⟨s', ?_, by rw [hsame]; exact hplayers, by rw [hcategories, hnow]; exact hnet⟩
  unfold WebTournamentStore.endAddCategories
  rw [hlog]
  exact hs'

theorem NetSince.beginEraseCategories (h : s.NetSince start r players categories) {ids : List CategoryId}
    (hnodup : ids.Nodup) (hids : ∀ id ∈ ids, id ∈ r.categories) :
    ∃ s', s.beginEraseCategories r ids = some s' ∧
      s'.players.Net start.players r.players players ∧
      s'.categories.Net start.categories (r.categories \ ids.toFinset) categories := by
  obtain ⟨log, hlog, hnet⟩ := h.categories.eraseAll hnodup hids
  obtain ⟨s', hs', hsame, hcategories⟩ := resetMembers_of_mem _ hids
    (s := { s with categories := log, categoryMatchResets := s.categoryMatchResets \ ids.toFinset })
  refine ⟨s', ?_, by rw [hsame]; exact h.players, by rw [hcategories]; exact hnet⟩
  unfold WebTournamentStore.beginEraseCategories
  rw [hlog]
  exact hs'

theorem NetSince.beginErasePlayers (h : s.NetSince start r players categories) {ids : List PlayerId}
    (hnodup : ids.Nodup) (hids : ∀ id ∈ ids, id ∈ r.players) :
    ∃ s', s.beginErasePlayers ids = some s' ∧
      s'.NetSince start { r with players := r.players \ ids.toFinset } players categories := by
  obtain ⟨log, hlog, hnet⟩ := h.players.eraseAll hnodup hids
  refine ⟨{ s with players := log, playerMatchResets := s.playerMatchResets \ ids.toFinset }, ?_, hnet,
    h.categories⟩
  unfold WebTournamentStore.beginErasePlayers
  rw [hlog]
  rfl

theorem toFinset_inOrder {ι : Type} [LinearOrder ι] [d : DecidableEq ι] (s : Finset ι) :
    @List.toFinset ι d (inOrder s) = s := by
  ext id
  simp

/-- Nothing more is reported as changed. -/
theorem NetSince.silent (h : s.NetSince start r players categories) :
    s.NetSince start r (players ∪ ∅) (categories ∪ ∅) := by
  rw [Finset.union_empty, Finset.union_empty]
  exact h

/-- A notification that fits keeps the net changes, unless it loses players. -/
theorem NetSince.receive (h : s.NetSince start r players categories) {n : Notification} (hn : n.Fits r)
    (hreset : ∀ ps, n = .resetPlayers ps → ps = ∅) :
    ∃ s', n.receive r s = some s' ∧ s'.NetSince start (n.roster r) (players ∪ n.changedPlayers)
      (categories ∪ n.changedCategories) := by
  cases n with
  | changePlayers ids =>
    obtain ⟨log, hlog, hnet⟩ := h.players.changeAll hn
    refine ⟨{ s with players := log }, ?_, hnet, h.silent.categories⟩
    show (s.players.changeAll ids).bind _ = _
    rw [hlog]
    rfl
  | addPlayers ids =>
    obtain ⟨log, hlog, hnet⟩ := h.players.addAll hn.1 hn.2
    refine ⟨{ s with players := log, playerMatchResets := s.playerMatchResets ∪ ids.toFinset }, ?_,
      NetSince.silent (r := (Notification.addPlayers ids).roster r) ⟨hnet, h.categories⟩⟩
    show (s.players.addAll ids).bind _ = _
    rw [hlog]
    rfl
  | erasePlayers ids =>
    obtain ⟨s', hs', hnet⟩ := h.beginErasePlayers hn.1 hn.2
    refine ⟨s', ?_, hnet.silent⟩
    show (s.beginErasePlayers ids).bind _ = _
    rw [hs']
    rfl
  | resetPlayers ps =>
    obtain rfl := hreset ps rfl
    obtain ⟨s', hs', hnet⟩ := h.beginErasePlayers (nodup_inOrder r.players) (fun id hid => mem_inOrder.1 hid)
    rw [toFinset_inOrder, sdiff_self] at hnet
    refine ⟨s', ?_, hnet.silent⟩
    show (s.beginErasePlayers (inOrder r.players)).bind _ = _
    rw [hs']
    rfl
  | changeCategories ids =>
    obtain ⟨log, hlog, hnet⟩ := h.categories.changeAll hn
    refine ⟨{ s with categories := log }, ?_, h.silent.players, hnet⟩
    show (s.categories.changeAll ids).bind _ = _
    rw [hlog]
    rfl
  | addCategories ids members =>
    obtain ⟨s', hs', hnet⟩ := NetSince.endAddCategories
      (r := (Notification.addCategories ids members).roster r) h.players h.categories hn.1 hn.2 rfl
    exact ⟨s', hs', hnet.silent⟩
  | eraseCategories ids =>
    obtain ⟨s', hs', hplayers, hcategories⟩ := h.beginEraseCategories hn.1 hn.2
    refine ⟨s', ?_, NetSince.silent (r := (Notification.eraseCategories ids).roster r) ⟨hplayers, hcategories⟩⟩
    show (s.beginEraseCategories r ids).bind _ = _
    rw [hs']
    rfl
  | resetCategories cs members =>
    obtain ⟨s₁, hs₁, hplayers, hcategories⟩ := h.beginEraseCategories (nodup_inOrder r.categories)
      (fun id hid => mem_inOrder.1 hid)
    rw [toFinset_inOrder, sdiff_self] at hcategories
    obtain ⟨s', hs', hnet⟩ := NetSince.endAddCategories
      (r := (Notification.resetCategories cs members).roster r) hplayers hcategories
      (nodup_inOrder cs) (by simp) (by rw [toFinset_inOrder]; simp [Notification.roster])
    refine ⟨s', ?_, hnet.silent⟩
    show (s.beginEraseCategories r (inOrder r.categories)).bind _ = _
    rw [hs₁]
    exact hs'
  | resetMatches ids =>
    obtain ⟨s', hs', hplayers, hcategories⟩ := resetMembers_of_mem _ hn
      (s := { s with categoryMatchResets := s.categoryMatchResets ∪ ids.toFinset })
    exact ⟨s', hs', (h.of_eq hplayers hcategories).silent⟩
  | changeTournament | addPlayersToCategory | erasePlayersFromCategory | changeMatches | addMatchesToPlayer
      | eraseMatchesFromPlayer | resetTatamis | resetCategoryResults =>
    exact ⟨_, rfl, NetSince.silent ⟨h.players, h.categories⟩⟩

/-! ### Lost players -/

/-- The log is wrong about the player: he is logged as erased though he is there at both times, or he
was not there at the start, is there now or logged as erased, and is not logged as added. -/
def Spoiled (x : PlayerId) (start now : Finset PlayerId) (log : NetChange PlayerId) : Prop :=
  (x ∈ start ∧ x ∈ now ∧ x ∈ log.erased) ∨
    (x ∉ start ∧ x ∉ log.added ∧ (x ∈ now ∨ x ∈ log.erased))

variable {x : PlayerId} {log log' : NetChange PlayerId} {now : Finset PlayerId} {ids : List PlayerId}

theorem Spoiled.not_net (h : Spoiled x start.players now log) {reported : Finset PlayerId}
    (hnet : log.Net start.players now reported) : False := by
  unfold Spoiled at h
  rw [hnet.added, hnet.erased] at h
  simp only [Finset.mem_sdiff] at h
  tauto

theorem Spoiled.changeAll (h : Spoiled x start.players now log) (hlog : log.changeAll ids = some log') :
    Spoiled x start.players now log' := by
  obtain ⟨-, rfl⟩ := NetChange.changeAll_eq_some.1 hlog
  exact h

theorem Spoiled.addAll (h : Spoiled x start.players now log) (hnodup : ids.Nodup)
    (hids : ∀ id ∈ ids, id ∉ now) (hlog : log.addAll ids = some log') :
    Spoiled x start.players (now ∪ ids.toFinset) log' := by
  obtain ⟨-, rfl⟩ := (NetChange.addAll_eq_some hnodup).1 hlog
  have hx := hids x
  unfold Spoiled at h ⊢
  simp only [Finset.mem_union, Finset.mem_sdiff, List.mem_toFinset]
  tauto

theorem Spoiled.eraseAll (h : Spoiled x start.players now log) (hnodup : ids.Nodup)
    (hids : ∀ id ∈ ids, id ∈ now) (hlog : log.eraseAll ids = some log') :
    Spoiled x start.players (now \ ids.toFinset) log' := by
  obtain ⟨herased, rfl⟩ := (NetChange.eraseAll_eq_some hnodup).1 hlog
  have hx := herased x
  have hmem := hids x
  unfold Spoiled at h ⊢
  simp only [Finset.mem_union, Finset.mem_sdiff, List.mem_toFinset]
  tauto

theorem players_resetMembers {cs : List CategoryId} (h : s.resetMembers r cs = some s') :
    s'.players = s.players := by
  unfold resetMembers at h
  split at h
  · cases h
    rfl
  · cases h

theorem players_endAddCategories {cs : List CategoryId} (h : s.endAddCategories r cs = some s') :
    s'.players = s.players := by
  obtain ⟨log, -, h⟩ := Option.bind_eq_some_iff.1 h
  have hplayers := players_resetMembers h
  exact hplayers

theorem players_beginEraseCategories {cs : List CategoryId} (h : s.beginEraseCategories r cs = some s') :
    s'.players = s.players := by
  obtain ⟨log, -, h⟩ := Option.bind_eq_some_iff.1 h
  have hplayers := players_resetMembers h
  exact hplayers

/-- No notification repairs the log. -/
theorem Spoiled.receive (h : Spoiled x start.players r.players s.players) {n : Notification}
    (hn : n.Fits r) (hs : n.receive r s = some s') :
    Spoiled x start.players (n.roster r).players s'.players := by
  cases n with
  | changePlayers ids =>
    obtain ⟨log, hlog, hs⟩ := Option.bind_eq_some_iff.1 hs
    cases hs
    exact h.changeAll hlog
  | addPlayers ids =>
    obtain ⟨log, hlog, hs⟩ := Option.bind_eq_some_iff.1 (show (s.players.addAll ids).bind _ = _ from hs)
    cases hs
    exact h.addAll hn.1 hn.2 hlog
  | erasePlayers ids =>
    obtain ⟨s₁, hs₁, hs⟩ := Option.bind_eq_some_iff.1 hs
    cases hs
    obtain ⟨log, hlog, hs₁⟩ := Option.bind_eq_some_iff.1 hs₁
    cases hs₁
    exact h.eraseAll hn.1 hn.2 hlog
  | resetPlayers ps =>
    obtain ⟨s₁, hs₁, hs⟩ := Option.bind_eq_some_iff.1 hs
    cases hs
    obtain ⟨log, hlog, hs₁⟩ := Option.bind_eq_some_iff.1 hs₁
    cases hs₁
    have hspoiled := h.eraseAll (nodup_inOrder _) (fun id hid => mem_inOrder.1 hid) hlog
    rw [toFinset_inOrder, sdiff_self] at hspoiled
    -- Nobody is there between the two halves of the reset, so the player is logged as erased.
    obtain ⟨-, hnone, -⟩ | ⟨hstart, hadded, hnone | herased⟩ := hspoiled
    · simp at hnone
    · simp at hnone
    · exact .inr ⟨hstart, hadded, .inr herased⟩
  | changeCategories cs =>
    obtain ⟨log, -, hs⟩ := Option.bind_eq_some_iff.1 hs
    cases hs
    exact h
  | addCategories cs members =>
    rw [players_endAddCategories hs]
    exact h
  | eraseCategories cs =>
    obtain ⟨s₁, hs₁, hs⟩ := Option.bind_eq_some_iff.1 hs
    cases hs
    rw [players_beginEraseCategories hs₁]
    exact h
  | resetCategories cs members =>
    obtain ⟨s₁, hs₁, hs⟩ := Option.bind_eq_some_iff.1 hs
    rw [players_endAddCategories hs, players_beginEraseCategories hs₁]
    exact h
  | resetMatches cs =>
    rw [players_resetMembers hs]
    exact h
  | changeTournament | addPlayersToCategory | erasePlayersFromCategory | changeMatches | addMatchesToPlayer
  | eraseMatchesFromPlayer | resetTatamis | resetCategoryResults =>
    cases hs
    exact h

/-- A player who is there after a reset spoils the log. -/
theorem NetSince.spoiled_resetPlayers (h : s.NetSince start r players categories) {ps : Finset PlayerId}
    (hx : x ∈ ps) (hs : (Notification.resetPlayers ps).receive r s = some s') :
    Spoiled x start.players ps s'.players := by
  obtain ⟨s₁, hs₁, hs⟩ := Option.bind_eq_some_iff.1 hs
  cases hs
  obtain ⟨log, hlog, hs₁⟩ := Option.bind_eq_some_iff.1 hs₁
  cases hs₁
  obtain ⟨-, rfl⟩ := (NetChange.eraseAll_eq_some (nodup_inOrder _)).1 hlog
  unfold Spoiled
  simp only [toFinset_inOrder, h.players.added, h.players.erased, Finset.mem_union, Finset.mem_sdiff]
  tauto

theorem Spoiled.receiveAll {ns : List Notification} (h : Spoiled x start.players r.players s.players)
    (hns : Consistent r ns) (hs : receiveAll r ns s = some s') :
    Spoiled x start.players (rosterAfter r ns).players s'.players := by
  induction ns generalizing r s with
  | nil =>
    cases hs
    exact h
  | cons n ns ih =>
    obtain ⟨s₁, hs₁, hs⟩ := Option.bind_eq_some_iff.1 hs
    exact ih (h.receive hns.1 hs₁) hns.2 hs

/-- From net changes the notifications lead to net changes exactly if no reset loses players. -/
theorem NetSince.receiveAll_iff {ns : List Notification} (h : s.NetSince start r players categories)
    (hns : Consistent r ns) :
    (∃ s', receiveAll r ns s = some s' ∧ s'.NetSince start (rosterAfter r ns)
        (players ∪ reported Notification.changedPlayers ns)
        (categories ∪ reported Notification.changedCategories ns)) ↔
      ∀ ps, .resetPlayers ps ∈ ns → ps = ∅ := by
  induction ns generalizing r s players categories with
  | nil => exact iff_of_true ⟨s, rfl, h.silent⟩ (by simp)
  | cons n ns ih =>
    by_cases hreset : ∀ ps, n = .resetPlayers ps → ps = ∅
    · obtain ⟨s₁, hs₁, hnet⟩ := h.receive hns.1 hreset
      have hih := ih hnet hns.2
      simp only [Finset.union_assoc] at hih
      show (∃ s', (n.receive r s).bind _ = _ ∧ _) ↔ _
      rw [hs₁]
      refine hih.trans ⟨fun hall ps hps => ?_, fun hall ps hps => hall ps (List.mem_cons_of_mem _ hps)⟩
      rcases List.mem_cons.1 hps with hps | hps
      · exact hreset ps hps.symm
      · exact hall ps hps
    · push Not at hreset
      obtain ⟨ps, rfl, hne⟩ := hreset
      obtain ⟨x, hx⟩ := hne
      refine iff_of_false ?_ fun hall => by
        rw [hall ps List.mem_cons_self] at hx
        simp at hx
      rintro ⟨s', hs', hnet⟩
      obtain ⟨s₁, hs₁, hs'⟩ := Option.bind_eq_some_iff.1 hs'
      exact Spoiled.not_net ((h.spoiled_resetPlayers hx hs₁).receiveAll hns.2 hs') hnet.players

end WebTournamentStore

/-- Notifications that fit the tournament leave the net changes since `clearChanges`, and no assertion
fires, exactly if no reset of the players leaves a player. -/
theorem netSince_iff_no_player_lost (s : WebTournamentStore) (start : Roster) (ns : List Notification)
    (h : Consistent start ns) :
    (∃ s', receiveAll start ns s.clearChanges = some s' ∧ s'.NetSince start (rosterAfter start ns)
        (reported Notification.changedPlayers ns) (reported Notification.changedCategories ns)) ↔
      ∀ players, .resetPlayers players ∈ ns → players = ∅ := by
  have hiff := (s.netSince_clearChanges start).receiveAll_iff h
  rwa [Finset.empty_union, Finset.empty_union] at hiff

/-- Player 1 is erased and added again, category 2 is added, changed and erased again, and player 3 is
added and changed. -/
def eraseAndAdd : List Notification :=
  [.erasePlayers [⟨1⟩], .addCategories [⟨2⟩] fun _ => ∅, .changeCategories [⟨2⟩],
    .addPlayers [⟨1⟩, ⟨3⟩], .changePlayers [⟨3⟩], .eraseCategories [⟨2⟩]]

theorem netSince_eraseAndAdd :
    Consistent { players := {⟨1⟩} } eraseAndAdd ∧
      ∃ s', receiveAll { players := {⟨1⟩} } eraseAndAdd (WebTournamentStore.clearChanges {}) = some s' ∧
        s'.NetSince { players := {⟨1⟩} } (rosterAfter { players := {⟨1⟩} } eraseAndAdd)
          (reported Notification.changedPlayers eraseAndAdd)
          (reported Notification.changedCategories eraseAndAdd) := by
  have hconsistent : Consistent { players := {⟨1⟩} } eraseAndAdd := by
    simp only [eraseAndAdd, Consistent, Notification.Fits, Notification.roster, and_true]
    decide
  refine ⟨hconsistent, (netSince_iff_no_player_lost {} _ _ hconsistent).2 ?_⟩
  simp [eraseAndAdd]

/-- After a reset that leaves player 1, he is logged as erased. -/
theorem netSince_resetPlayers_fails :
    Consistent { players := {⟨1⟩} } [.resetPlayers {⟨1⟩}] ∧
      ¬ ∃ s', receiveAll { players := {⟨1⟩} } [.resetPlayers {⟨1⟩}]
          (WebTournamentStore.clearChanges {}) = some s' ∧
        s'.NetSince { players := {⟨1⟩} } (rosterAfter { players := {⟨1⟩} } [.resetPlayers {⟨1⟩}])
          (reported Notification.changedPlayers [.resetPlayers {⟨1⟩}])
          (reported Notification.changedCategories [.resetPlayers {⟨1⟩}]) := by
  refine ⟨⟨trivial, trivial⟩, ?_⟩
  rintro ⟨s', hs', hnet⟩
  have herased : s'.players.erased = {⟨1⟩} := by
    cases hs'
    decide
  have hnone : s'.players.erased = {⟨1⟩} \ {⟨1⟩} := hnet.players.erased
  rw [herased] at hnone
  exact absurd hnone (by decide)

end JudoAssistant
