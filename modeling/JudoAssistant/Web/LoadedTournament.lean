import Mathlib.Data.Finset.Erase
import JudoAssistant.StoreManager.Model
import JudoAssistant.Tournament.Session

/-!
# A tournament on the web server

`LoadedTournament` (`src/web/loaded_tournament.cpp`) holds the web server's copy of a tournament with
the last actions on it.  The methods post handlers on a strand, which runs one handler at a time.  A
handler that is dispatched by a running handler of the same context runs at once, so `save` takes the
snapshot, writes the file and records the time in one handler.

A handler has no result where the code dereferences the tournament that is not there, where an
assertion fires, or where the handler is none for the state.  The messages to the web participants
are left out.
-/

namespace JudoAssistant

/-- `SharedActionList` -/
abbrev SharedActionList := List (ClientActionId × ActionObject)

namespace SharedActionList

/-- The ids of the actions in order. -/
def ids (l : SharedActionList) : List ClientActionId := l.map Prod.fst

@[simp] theorem ids_nil : ids [] = [] := rfl

@[simp] theorem ids_cons (p : ClientActionId × ActionObject) (l : SharedActionList) :
    ids (p :: l) = p.1 :: ids l := rfl

@[simp] theorem ids_append (l l' : SharedActionList) : ids (l ++ l') = ids l ++ ids l' :=
  List.map_append

@[simp] theorem ids_reverse (l : SharedActionList) : ids l.reverse = (ids l).reverse :=
  List.map_reverse

/-- How a loop over the actions ends, with the actions and the tournament as they are then. -/
structure Replayed where
  result : Except Failure Unit
  actionList : SharedActionList
  tournament : TournamentStore

/-- The last loop of `LoadedTournament::undo`: every action from the iterator on is redone. -/
def replay : SharedActionList → TournamentStore → Replayed
  | [], t => ⟨.ok (), [], t⟩
  | p :: l, t =>
    let call := p.2.redo t
    match call.result with
    | .ok _ =>
      let rest := replay l call.tournament
      { rest with actionList := (p.1, call.object) :: rest.actionList }
    | .error e => ⟨.error e, (p.1, call.object) :: l, call.tournament⟩

/-- How the first loop of `LoadedTournament::undo` ends: the actions up to the iterator, the last one
first, those above it, and the tournament. -/
structure Rewound where
  result : Except Failure Unit
  below : SharedActionList
  above : SharedActionList
  tournament : TournamentStore

/-- The first loop of `LoadedTournament::undo`: from the last action on, every action is undone until
the iterator is at the action with the id or at the first one. -/
def rewind (actionId : ClientActionId) :
    SharedActionList → SharedActionList → TournamentStore → Rewound
  | [], above, t => ⟨.ok (), [], above, t⟩
  | [p], above, t => ⟨.ok (), [p], above, t⟩
  | p :: q :: below, above, t =>
    if p.1 = actionId then ⟨.ok (), p :: q :: below, above, t⟩
    else
      let call := p.2.undo t
      match call.result with
      | .ok _ => rewind actionId (q :: below) ((p.1, call.object) :: above) call.tournament
      | .error e => ⟨.error e, (p.1, call.object) :: q :: below, above, call.tournament⟩

/-- How the `try` block of `LoadedTournament::undo` ends: with the flag `success` or with an
exception. -/
structure Unwound where
  result : Except Failure Bool
  actionList : SharedActionList
  tournament : TournamentStore

/-- The actions below the iterator stay and those above it are redone. -/
def Unwound.ofReplayed (success : Bool) (below : SharedActionList) (r : Replayed) : Unwound :=
  ⟨r.result.map fun _ => success, below.reverse ++ r.actionList, r.tournament⟩

/-- The `try` block of `LoadedTournament::undo`.  There is no such run on an empty list, of which the
code takes the last element. -/
def unwind (actionId : ClientActionId) (l : SharedActionList) (t : TournamentStore) : Option Unwound :=
  let walk := rewind actionId l.reverse [] t
  match walk.result, walk.below with
  | .error e, below => some ⟨.error e, below.reverse ++ walk.above, walk.tournament⟩
  | .ok _, [] => none
  | .ok _, p :: below =>
    if p.1 = actionId then
      let call := p.2.undo walk.tournament
      match call.result with
      | .ok _ => some (.ofReplayed true below (replay walk.above call.tournament))
      | .error e =>
        some ⟨.error e, below.reverse ++ (p.1, call.object) :: walk.above, call.tournament⟩
    else some (.ofReplayed false (p :: below) (replay walk.above walk.tournament))

end SharedActionList

/-- The failures that are a `std::exception`. -/
def Failure.isException : Failure → Bool
  | .actionExecution _ | .badOptionalAccess | .outOfRange => true
  | .assertion _ | .indeterminate | .unbounded => false

/-- What a save-file encodes. -/
structure SaveFile where
  clockDiff : ℤ
  tournament : TournamentStore

/-- The fields of `LoadedTournament`.  `file`, `damaged` and `clock` are no fields: the last completely
written file, whether a later write was not complete, and the time at which the last handler ran. -/
structure LoadedTournament where
  tournament : Option TournamentStore := none
  actionList : SharedActionList := []
  clockDiff : ℤ := 0
  actionIds : Finset ClientActionId := ∅
  webParticipants : Finset ℕ := ∅
  playerSubscriptions : ℕ → Option PlayerId := fun _ => none
  categorySubscriptions : ℕ → Option CategoryId := fun _ => none
  tatamiSubscriptions : ℕ → Option ℕ := fun _ => none
  fileInUse : Bool := false
  synchronizationTime : ℕ := 0
  modificationTime : ℕ := 0
  file : Option SaveFile := none
  damaged : Bool := false
  clock : ℕ := 0

namespace LoadedTournament

/-- How `load` ends that finds the file not in use. -/
inductive LoadOutcome where
  /-- The file cannot be opened, read or decompressed. -/
  | unreadable
  /-- The decoding throws, after the clock difference was read. -/
  | undecodable (clockDiff : ℤ)
  | decoded

/-- How `save` ends that finds the file not in use. -/
inductive SaveOutcome where
  /-- The tournament or the header cannot be serialized, the tournament cannot be compressed, or the
  file cannot be opened. -/
  | failed
  /-- The code does not notice a write that is not complete, since a `std::ofstream` does not throw. -/
  | incomplete
  | complete

/-- The handlers of a tournament. -/
inductive Handler where
  | sync (tournament : TournamentStore) (actionList : SharedActionList) (diff : ℤ)
  | dispatch (actionId : ClientActionId) (action : ActionObject)
  | undo (actionId : ClientActionId)
  | load (outcome : LoadOutcome)
  | save (outcome : SaveOutcome)
  | addParticipant (participant : ℕ)
  | eraseParticipant (participant : ℕ)
  | subscribeCategory (participant : ℕ) (category : CategoryId)
  | subscribePlayer (participant : ℕ) (player : PlayerId)
  | subscribeTatami (participant : ℕ) (index : ℕ)

variable (s : LoadedTournament) (now : ℕ)

/-- `saveIfNeccesary` posts a `save`. -/
def needsSave : Bool := decide (s.synchronizationTime < s.modificationTime)

/-- `LoadedTournament::sync` -/
def sync (tournament : TournamentStore) (actionList : SharedActionList) (diff : ℤ) : LoadedTournament :=
  { s with
    tournament := some tournament
    actionList := actionList
    clockDiff := diff
    modificationTime := now }

/-- The oldest action is dropped from a list that has become too long. -/
def trim : LoadedTournament :=
  match s.actionList with
  | [] => s
  | p :: l =>
    if maxActionStackSize < (p :: l).length then
      { s with actionList := l, actionIds := s.actionIds.erase p.1 }
    else s

/-- What `dispatch` does after the action was redone. -/
def push (actionId : ClientActionId) (call : ActionCall) : LoadedTournament :=
  trim { s with
    tournament := some call.tournament
    actionList := s.actionList ++ [(actionId, call.object)]
    actionIds := insert actionId s.actionIds
    modificationTime := now }

/-- A new action changes the tournament, its list and its set, and is the last modification. -/
theorem push_eq (s : LoadedTournament) (now : ℕ) (actionId : ClientActionId) (call : ActionCall) :
    ∃ actionList actionIds, s.push now actionId call =
      { s with
        tournament := some call.tournament
        actionList := actionList
        actionIds := actionIds
        modificationTime := now } := by
  unfold push trim
  split
  · exact ⟨_, _, rfl⟩
  · split
    · exact ⟨_, _, rfl⟩
    · exact ⟨_, _, rfl⟩

/-- `LoadedTournament::dispatch` -/
def dispatch (actionId : ClientActionId) (action : ActionObject) : Option (LoadedTournament × Bool) :=
  match s.tournament with
  | none => none
  | some t =>
    let call := action.redo t
    match call.result with
    | .ok _ => some (s.push now actionId call, true)
    | .error e =>
      if e.isException then some ({ s with tournament := some call.tournament }, false) else none

/-- `LoadedTournament::undo` -/
def undo (actionId : ClientActionId) : Option (LoadedTournament × Bool) :=
  if actionId ∈ s.actionIds then
    match s.tournament with
    | none => none
    | some t => (SharedActionList.unwind actionId s.actionList t).bind fun u =>
      let s := { s with tournament := some u.tournament, actionList := u.actionList }
      match u.result with
      | .ok true =>
        some ({ s with modificationTime := now, actionIds := s.actionIds.erase actionId }, true)
      | .ok false => some (s, false)
      | .error e => if e.isException then some (s, false) else none
  else some (s, false)

/-- `LoadedTournament::load` -/
def load (outcome : LoadOutcome) : LoadedTournament × Bool :=
  if s.fileInUse then (s, false)
  else match outcome, s.damaged, s.file with
    | .decoded, false, some file =>
      ({ s with
        tournament := some file.tournament
        clockDiff := file.clockDiff
        actionIds := ∅
        actionList := []
        synchronizationTime := now }, true)
    | .undecodable clockDiff, _, _ => ({ s with clockDiff := clockDiff }, false)
    | _, _, _ => (s, false)

/-- `LoadedTournament::save` -/
def save (outcome : SaveOutcome) : Option (LoadedTournament × Bool) :=
  if s.fileInUse then some (s, false)
  else match s.tournament with
    | none => none
    | some t =>
      let s := { s with fileInUse := true }
      match outcome with
      | .failed => some ({ s with fileInUse := false }, false)
      | .incomplete =>
        some ({ s with damaged := true, fileInUse := false, synchronizationTime := now }, true)
      | .complete =>
        let s := { s with file := some ⟨s.clockDiff, t⟩, damaged := false }
        some ({ s with fileInUse := false, synchronizationTime := now }, true)

/-- The part that the subscriptions share: they dereference the tournament. -/
def withTournament (s' : LoadedTournament) : Option (LoadedTournament × Bool) :=
  if s.tournament.isSome then some (s', true) else none

def addParticipant (participant : ℕ) : Option (LoadedTournament × Bool) :=
  s.withTournament { s with webParticipants := insert participant s.webParticipants }

def eraseParticipant (participant : ℕ) : LoadedTournament :=
  { s with
    webParticipants := s.webParticipants.erase participant
    playerSubscriptions := Function.update s.playerSubscriptions participant none
    categorySubscriptions := Function.update s.categorySubscriptions participant none
    tatamiSubscriptions := Function.update s.tatamiSubscriptions participant none }

/-- A participant has at most one of the three subscriptions. -/
def subscribe (participant : ℕ) (category : Option CategoryId) (player : Option PlayerId)
    (tatami : Option ℕ) : Option (LoadedTournament × Bool) :=
  s.withTournament { s with
    playerSubscriptions := Function.update s.playerSubscriptions participant player
    categorySubscriptions := Function.update s.categorySubscriptions participant category
    tatamiSubscriptions := Function.update s.tatamiSubscriptions participant tatami }

def subscribeCategory (participant : ℕ) (category : CategoryId) : Option (LoadedTournament × Bool) :=
  s.subscribe participant (some category) none none

def subscribePlayer (participant : ℕ) (player : PlayerId) : Option (LoadedTournament × Bool) :=
  s.subscribe participant none (some player) none

def subscribeTatami (participant : ℕ) (index : ℕ) : Option (LoadedTournament × Bool) :=
  s.subscribe participant none none (some index)

/-- What a handler that runs at a time makes of the tournament, and what its callback is told. -/
def handle : Handler → Option (LoadedTournament × Bool)
  | .sync tournament actionList diff => some (s.sync now tournament actionList diff, true)
  | .dispatch actionId action => s.dispatch now actionId action
  | .undo actionId => s.undo now actionId
  | .load outcome => some (s.load now outcome)
  | .save outcome => s.save now outcome
  | .addParticipant participant => s.addParticipant participant
  | .eraseParticipant participant => some (s.eraseParticipant participant, true)
  | .subscribeCategory participant category => s.subscribeCategory participant category
  | .subscribePlayer participant player => s.subscribePlayer participant player
  | .subscribeTatami participant index => s.subscribeTatami participant index

/-- What the handlers do, case by case. -/
inductive Ran : Handler → LoadedTournament → Bool → Prop
  | synced (t : TournamentStore) (l : SharedActionList) (diff : ℤ) :
    Ran (.sync t l diff) (s.sync now t l diff) true
  | dispatched {actionId : ClientActionId} {action : ActionObject} {t : TournamentStore}
    (ht : s.tournament = some t) (hok : (action.redo t).result = .ok ()) :
    Ran (.dispatch actionId action) (s.push now actionId (action.redo t)) true
  | threw {actionId : ClientActionId} {action : ActionObject} {t : TournamentStore}
    (ht : s.tournament = some t) (herr : (action.redo t).result ≠ .ok ()) :
    Ran (.dispatch actionId action) { s with tournament := some (action.redo t).tournament } false
  | undone {actionId : ClientActionId} {t : TournamentStore} {u : SharedActionList.Unwound}
    (hid : actionId ∈ s.actionIds) (ht : s.tournament = some t)
    (hu : SharedActionList.unwind actionId s.actionList t = some u) (hok : u.result = .ok true) :
    Ran (.undo actionId)
      { s with
        tournament := some u.tournament
        actionList := u.actionList
        modificationTime := now
        actionIds := s.actionIds.erase actionId } true
  | notUndone {actionId : ClientActionId} {t : TournamentStore} {u : SharedActionList.Unwound}
    (hid : actionId ∈ s.actionIds) (ht : s.tournament = some t)
    (hu : SharedActionList.unwind actionId s.actionList t = some u) (hno : u.result ≠ .ok true) :
    Ran (.undo actionId) { s with tournament := some u.tournament, actionList := u.actionList } false
  | refused {actionId : ClientActionId} (hid : actionId ∉ s.actionIds) : Ran (.undo actionId) s false
  | loaded {file : SaveFile} (hfree : s.fileInUse = false) (hfile : s.file = some file) :
    Ran (.load .decoded)
      { s with
        tournament := some file.tournament
        clockDiff := file.clockDiff
        actionIds := ∅
        actionList := []
        synchronizationTime := now } true
  | notLoaded (outcome : LoadOutcome) (clockDiff : ℤ) :
    Ran (.load outcome) { s with clockDiff := clockDiff } false
  | inUse (outcome : SaveOutcome) : Ran (.save outcome) s false
  | notSaved : Ran (.save .failed) { s with fileInUse := false } false
  | damaged : Ran (.save .incomplete)
      { s with damaged := true, fileInUse := false, synchronizationTime := now } true
  | saved {t : TournamentStore} (ht : s.tournament = some t) :
    Ran (.save .complete)
      { s with
        file := some ⟨s.clockDiff, t⟩
        damaged := false
        fileInUse := false
        synchronizationTime := now } true
  | audience (e : Handler) (webParticipants : Finset ℕ) (players : ℕ → Option PlayerId)
    (categories : ℕ → Option CategoryId) (tatamis : ℕ → Option ℕ) :
    Ran e
      { s with
        webParticipants := webParticipants
        playerSubscriptions := players
        categorySubscriptions := categories
        tatamiSubscriptions := tatamis } true

variable {s now} {s' : LoadedTournament} {ok : Bool}

theorem ran_dispatch {actionId : ClientActionId} {action : ActionObject}
    (h : s.dispatch now actionId action = some (s', ok)) :
    s.Ran now (.dispatch actionId action) s' ok := by
  unfold dispatch at h
  cases ht : s.tournament with
  | none => simp [ht] at h
  | some t =>
    simp only [ht] at h
    cases hr : (action.redo t).result with
    | ok _ =>
      simp only [hr, Option.some.injEq, Prod.mk.injEq] at h
      obtain ⟨rfl, rfl⟩ := h
      exact .dispatched ht hr
    | error e =>
      simp only [hr] at h
      split at h
      · obtain ⟨rfl, rfl⟩ : _ ∧ _ := by simpa using h
        exact .threw ht (by simp [hr])
      · cases h

theorem ran_undo {actionId : ClientActionId} (h : s.undo now actionId = some (s', ok)) :
    s.Ran now (.undo actionId) s' ok := by
  unfold undo at h
  split at h
  · next hid =>
    cases ht : s.tournament with
    | none => simp [ht] at h
    | some t =>
      simp only [ht] at h
      obtain ⟨u, hu, h⟩ := Option.bind_eq_some_iff.1 h
      split at h
      · next hr =>
        cases h
        exact .undone hid ht hu hr
      · next hr =>
        cases h
        exact .notUndone hid ht hu (by simp [hr])
      · next e hr =>
        split at h
        · cases h
          exact .notUndone hid ht hu (by simp [hr])
        · cases h
  · next hid =>
    cases h
    exact .refused hid

theorem ran_load {outcome : LoadOutcome} (h : s.load now outcome = (s', ok)) :
    s.Ran now (.load outcome) s' ok := by
  unfold load at h
  split at h
  · cases h
    exact .notLoaded outcome s.clockDiff
  · next hfree =>
    split at h
    · next hfile =>
      cases h
      exact .loaded (by simpa using hfree) hfile
    · cases h
      exact .notLoaded _ _
    · cases h
      exact .notLoaded _ s.clockDiff

theorem ran_save {outcome : SaveOutcome} (h : s.save now outcome = some (s', ok)) :
    s.Ran now (.save outcome) s' ok := by
  unfold save at h
  split at h
  · cases h
    exact .inUse outcome
  · split at h
    · cases h
    · next t ht =>
      cases outcome with
      | failed =>
        cases h
        exact .notSaved
      | incomplete =>
        cases h
        exact .damaged
      | complete =>
        cases h
        exact .saved ht

theorem withTournament_eq_some {t : LoadedTournament} (h : s.withTournament t = some (s', ok)) :
    s.tournament.isSome = true ∧ s' = t ∧ ok = true := by
  unfold withTournament at h
  split at h
  · next hsome =>
    cases h
    exact ⟨hsome, rfl, rfl⟩
  · cases h

/-- Every handler does what one of the cases says. -/
theorem ran_handle {e : Handler} (h : s.handle now e = some (s', ok)) : s.Ran now e s' ok := by
  cases e with
  | sync t l diff =>
    cases h
    exact .synced t l diff
  | dispatch actionId action => exact ran_dispatch h
  | undo actionId => exact ran_undo h
  | load outcome => exact ran_load (Option.some.inj h)
  | save outcome => exact ran_save h
  | eraseParticipant participant =>
    cases h
    exact .audience _ _ _ _ _
  | addParticipant participant =>
    obtain ⟨-, rfl, rfl⟩ := withTournament_eq_some h
    exact .audience _ _ _ _ _
  | subscribeCategory participant category =>
    obtain ⟨-, rfl, rfl⟩ := withTournament_eq_some h
    exact .audience _ _ _ _ _
  | subscribePlayer participant player =>
    obtain ⟨-, rfl, rfl⟩ := withTournament_eq_some h
    exact .audience _ _ _ _ _
  | subscribeTatami participant index =>
    obtain ⟨-, rfl, rfl⟩ := withTournament_eq_some h
    exact .audience _ _ _ _ _

/-- The tournament does not go away. -/
theorem isSome_of_handle {e : Handler} (h : s.handle now e = some (s', ok))
    (hs : s.tournament.isSome = true) : s'.tournament.isSome = true := by
  cases ran_handle h with
  | dispatched ht hok =>
    obtain ⟨_, _, heq⟩ := s.push_eq now _ _
    rw [heq]
    rfl
  | synced | threw | undone | notUndone | loaded => rfl
  | _ => exact hs

theorem isSome_of_load {outcome : LoadOutcome} (h : s.load now outcome = (s', true)) :
    s'.tournament.isSome = true := by
  unfold load at h
  split at h
  · cases h
  · split at h
    · cases h
      rfl
    · cases h
    · cases h

variable (s now)

/-- A step: a handler runs at a time. -/
def step (e : ℕ × Handler) : Option LoadedTournament :=
  (s.handle e.1 e.2).map fun r => { r.1 with clock := e.1 }

variable {s}

theorem step_eq_some {e : ℕ × Handler} (h : s.step e = some s') :
    ∃ s₁ ok, s.Ran e.1 e.2 s₁ ok ∧ s' = { s₁ with clock := e.1 } := by
  obtain ⟨⟨s₁, ok⟩, hrun, rfl⟩ := Option.map_eq_some_iff.1 h
  exact ⟨s₁, ok, ran_handle hrun, rfl⟩

end LoadedTournament

end JudoAssistant
