import JudoAssistant.Lib.Effect
import JudoAssistant.Tournament.Tatamis

/-!
# Changing the tournament

The functions of the core that change a tournament take it by reference.  Here they are computations
`Exec` on the tournament; a failing one keeps the tournament as it was at that point.  The signals
to the front ends are left out.
-/

namespace JudoAssistant

/-- `TournamentStore` -/
structure TournamentStore where
  name : String := ""
  webName : String := ""
  location : String := ""
  date : String := ""
  players : PlayerId → Option PlayerStore := fun _ => none
  categories : Categories := fun _ => none
  tatamis : TatamiList := {}
  preferences : PreferencesStore := {}

/-- A computation on the tournament. -/
abbrev Exec (α : Type) := EStateM Failure TournamentStore α

namespace TournamentStore

variable (t : TournamentStore)

def containsPlayer (id : PlayerId) : Bool := (t.players id).isSome

def containsCategory (id : CategoryId) : Bool := (t.categories id).isSome

/-- `TournamentStore::getPlayer` -/
def getPlayer (id : PlayerId) : Except Failure PlayerStore :=
  match t.players id with
  | some p => .ok p
  | none => .error (.assertion .tournamentStore)

/-- `TournamentStore::getCategory` -/
def getCategory (id : CategoryId) : Except Failure CategoryStore := t.categories.getCategory id

def setPlayer (id : PlayerId) (p : PlayerStore) : TournamentStore :=
  { t with players := Function.update t.players id (some p) }

def setCategory (id : CategoryId) (c : CategoryStore) : TournamentStore :=
  { t with categories := Function.update t.categories id (some c) }

end TournamentStore

namespace Exec

open Effect (lift)

/-- Read the tournament. -/
def read {α : Type} (f : TournamentStore → Except Failure α) : Exec α := fun t => lift (f t) t

def getPlayer (id : PlayerId) : Exec PlayerStore := read (·.getPlayer id)

def getCategory (id : CategoryId) : Exec CategoryStore := read (·.getCategory id)

/-- Change a player through the reference that `getPlayer` returns. -/
def editPlayer (id : PlayerId) (f : PlayerStore → Except Failure PlayerStore) : Exec Unit := do
  let p ← getPlayer id
  let p ← lift (f p)
  modify (·.setPlayer id p)

/-- Change a category through the reference that `getCategory` returns. -/
def editCategory (id : CategoryId) (f : CategoryStore → Except Failure CategoryStore) :
    Exec Unit := do
  let c ← getCategory id
  let c ← lift (f c)
  modify (·.setCategory id c)

/-- The match that the category and its `getMatch` return. -/
def getMatch (id : CombinedId) : Exec MatchStore := do
  let c ← getCategory id.categoryId
  lift (c.getMatch id.matchId)

/-- Change a match through the reference that `getMatch` returns. -/
def editMatch (id : CombinedId) (f : MatchStore → Except Failure MatchStore) : Exec Unit :=
  editCategory id.categoryId fun c => do
    let m ← c.getMatch id.matchId
    let m ← f m
    return c.setMatch id.matchId m

/-- `TournamentStore::addPlayer` -/
def addPlayer (p : PlayerStore) : Exec Unit := do
  let t ← get
  lift (check .tournamentStore (t.players p.id).isNone)
  modify (·.setPlayer p.id p)

/-- `TournamentStore::erasePlayer` -/
def erasePlayer (id : PlayerId) : Exec PlayerStore := do
  let p ← getPlayer id
  modify fun t => { t with players := Function.update t.players id none }
  return p

/-- `TournamentStore::addCategory` -/
def addCategory (c : CategoryStore) : Exec Unit := do
  let t ← get
  lift (check .tournamentStore (t.categories c.id).isNone)
  modify (·.setCategory c.id c)

/-- `TournamentStore::eraseCategory` -/
def eraseCategory (id : CategoryId) : Exec CategoryStore := do
  let c ← getCategory id
  modify fun t => { t with categories := Function.update t.categories id none }
  return c

/-- Change the tatamis by a function that reads the categories. -/
def editTatamis (f : Categories → TatamiList → Except Failure TatamiList) : Exec Unit := do
  let t ← get
  let tatamis ← lift (f t.categories t.tatamis)
  set { t with tatamis := tatamis }

/-- An `if` without `else`. -/
def doIf (b : Bool) (x : Exec Unit) : Exec Unit := if b then x else pure ()

/-- Run the computations in order and keep the results. -/
def forEach {α β : Type} (f : α → Exec β) : List α → Exec (List β)
  | [] => pure []
  | a :: as => do
    let b ← f a
    let bs ← forEach f as
    return b :: bs

end Exec

end JudoAssistant
