import Mathlib.Algebra.GroupWithZero.Nat
import Mathlib.Data.Finset.Image
import JudoAssistant.Tournament.Rulesets

/-!
# Tatamis

The blocks of a category (its elimination and its final matches) are placed on tatamis
(`src/core/stores/tatami`): a tatami has concurrent groups, a concurrent group has sequential
groups, and a sequential group has blocks.  A concurrent group caches the order of its matches and
which of them are started and finished; `recompute` builds the cache from the categories and
`updateStatus` changes it for one match.
-/

namespace JudoAssistant

/-- `PositionManager` -/
structure PositionManager (α : Type) where
  ids : List PositionId := []
  elements : PositionId → Option α := fun _ => none

namespace PositionManager

variable {α : Type}

/-- `PositionManager::size` -/
def size (p : PositionManager α) : ℕ := p.ids.length

/-- `PositionManager::contains` -/
def contains (p : PositionManager α) (handle : PositionHandle) : Bool :=
  (p.elements handle.id).isSome

/-- `PositionManager::at` -/
def at' (p : PositionManager α) (handle : PositionHandle) : Except Failure α :=
  match p.elements handle.id with
  | some a => .ok a
  | none => .error (.assertion .tatamis)

/-- Write through the reference that `at` returns. -/
def set (p : PositionManager α) (handle : PositionHandle) (a : α) : PositionManager α :=
  { p with elements := Function.update p.elements handle.id (some a) }

/-- `PositionManager::insert`, and what `operator[]` does for a handle without an element. -/
def insert (p : PositionManager α) (handle : PositionHandle) (a : α) : PositionManager α :=
  if p.contains handle then p
  else
    { ids := p.ids.insertIdx (min p.ids.length handle.index) handle.id
      elements := Function.update p.elements handle.id (some a) }

/-- `PositionManager::erase` -/
def erase (p : PositionManager α) (handle : PositionHandle) : PositionManager α :=
  if handle.id ∈ p.ids then
    { ids := p.ids.erase handle.id
      elements := Function.update p.elements handle.id none }
  else p

/-- `PositionManager::getHandle` -/
def getHandle (p : PositionManager α) (index : ℕ) : Except Failure PositionHandle :=
  match p.ids[index]? with
  | some id => .ok ⟨id, index⟩
  | none => .error (.assertion .tatamis)

/-- `PositionManager::getIndex` -/
def getIndex (p : PositionManager α) (handle : PositionHandle) : Except Failure ℕ := do
  check .tatamis (handle.id ∈ p.ids)
  return p.ids.idxOf handle.id

/-- The elements in their order, as a loop over `at(index)` reads them. -/
def inOrder (p : PositionManager α) : Except Failure (List (PositionHandle × α)) :=
  p.ids.zipIdx.mapM fun (id, index) => do
    let a ← p.at' ⟨id, index⟩
    return (⟨id, index⟩, a)

end PositionManager

/-- A block: a category and one of its match types. -/
abbrev Block := CategoryId × MatchType

/-- `SequentialBlockGroup` -/
structure SequentialBlockGroup where
  blocks : List Block := []
  expectedDuration : ℤ := 0

/-- The categories as the functions of the tatamis read them. -/
abbrev Categories := CategoryId → Option CategoryStore

/-- `TournamentStore::getCategory` -/
def Categories.getCategory (categories : Categories) (id : CategoryId) :
    Except Failure CategoryStore :=
  match categories id with
  | some c => .ok c
  | none => .error (.assertion .tournamentStore)

/-- `CategoryStore::MIN_EXPECTED_DURATION` -/
def minExpectedDuration : ℤ := 6 * 60 * 1000

/-- `CategoryStore::expectedDuration`.  The count is a `size_t`, so that the product and the comparison are unsigned;
the result is signed again. -/
def CategoryStore.expectedDuration (c : CategoryStore) (type : MatchType) : ℤ :=
  let duration := UInt64.ofInt c.ruleset.getExpectedTime * c.matchCount.get type
  if duration < UInt64.ofInt minExpectedDuration then minExpectedDuration else duration.toInt64.toInt

namespace SequentialBlockGroup

def eraseBlock (g : SequentialBlockGroup) (block : Block) : Except Failure SequentialBlockGroup := do
  check .tatamis (block ∈ g.blocks)
  return { g with blocks := g.blocks.erase block }

def addBlock (g : SequentialBlockGroup) (index : ℕ) (block : Block) :
    Except Failure SequentialBlockGroup := do
  check .tatamis (index ≤ g.blocks.length)
  return { g with blocks := g.blocks.insertIdx index block }

def recompute (categories : Categories) (g : SequentialBlockGroup) :
    Except Failure SequentialBlockGroup := do
  let durations ← g.blocks.mapM fun block => do
    let c ← categories.getCategory block.1
    return c.expectedDuration block.2
  return { g with expectedDuration := durations.sum }

end SequentialBlockGroup

/-! ### The iterator over the matches of a sequential group -/

/-- `ConstMatchIterator`: a block and a match of its category. -/
structure ConstMatchIterator where
  currentBlock : ℕ
  currentMatch : ℕ
  deriving DecidableEq, Repr

namespace ConstMatchIterator

/-- The first match from position `i` on that is of the type and not a permanent bye. -/
def nextMatch (type : MatchType) : List MatchStore → ℕ → Option ℕ
  | [], _ => none
  | m :: ms, i =>
    if m.permanentBye then nextMatch type ms (i + 1)
    else if type ≠ m.type then nextMatch type ms (i + 1)
    else some i

/-- `ConstMatchIterator::loadMatch`, where the remaining blocks start with the current one. -/
def loadMatch (categories : Categories) :
    List Block → ConstMatchIterator → Except Failure ConstMatchIterator
  | [], it => .ok it
  | (categoryId, type) :: blocks, it => do
    let c ← categories.getCategory categoryId
    if c.matchesHidden then loadMatch categories blocks ⟨it.currentBlock + 1, 0⟩
    else match nextMatch type (c.matchList.drop it.currentMatch) it.currentMatch with
      | some i => return ⟨it.currentBlock, i⟩
      | none => loadMatch categories blocks ⟨it.currentBlock + 1, 0⟩

variable (categories : Categories) (g : SequentialBlockGroup)

/-- `SequentialBlockGroup::matchesBegin` -/
def first : Except Failure ConstMatchIterator := loadMatch categories g.blocks ⟨0, 0⟩

/-- `SequentialBlockGroup::matchesEnd` -/
def last : ConstMatchIterator := ⟨g.blocks.length, 0⟩

/-- `ConstMatchIterator::operator++` -/
def next (it : ConstMatchIterator) : Except Failure ConstMatchIterator :=
  loadMatch categories (g.blocks.drop it.currentBlock) ⟨it.currentBlock, it.currentMatch + 1⟩

/-- `ConstMatchIterator::operator*` -/
def deref (it : ConstMatchIterator) : Except Failure CombinedId :=
  match g.blocks[it.currentBlock]? with
  | none => .error (.assertion .tatamis)
  | some block => do
    let c ← categories.getCategory block.1
    match c.matchList[it.currentMatch]? with
    | some m => return ⟨c.id, m.id⟩
    | none => .error .outOfRange

end ConstMatchIterator

/-- `mergeMatchIterators`: the loop over the queue of groups.  Each turn takes a match from the group
in front and puts the group at the back, or drops the group when it has no more matches. -/
def mergeMatchIterators (categories : Categories) :
    ℕ → List (SequentialBlockGroup × ConstMatchIterator) → Except Failure (List CombinedId)
  | _, [] => .ok []
  | 0, _ :: _ => .error .unbounded
  | fuel + 1, (g, it) :: queue =>
    if it = ConstMatchIterator.last g then mergeMatchIterators categories fuel queue
    else do
      let id ← it.deref categories g
      let it ← it.next categories g
      let ids ← mergeMatchIterators categories fuel (queue ++ [(g, it)])
      return id :: ids

/-- A bound on the turns of `mergeMatchIterators`: one for every match and one for every group. -/
def mergeBound (categories : Categories) (groups : List SequentialBlockGroup) : ℕ :=
  (groups.map fun g =>
    (g.blocks.map fun block => ((categories block.1).map (·.matchList.length)).getD 0).sum + 1).sum

/-! ### Concurrent groups -/

/-- `ConcurrentBlockGroup::Status` -/
inductive GroupStatus where
  | notStarted
  | started
  | finished
  deriving DecidableEq, Repr

theorem disjoint_noMatches : Disjoint (∅ : Finset CombinedId) ∅ := Finset.disjoint_empty_left _

/-- `ConcurrentBlockGroup`.  No match is both started and finished. -/
structure ConcurrentBlockGroup where
  groups : PositionManager SequentialBlockGroup := {}
  matchIds : List CombinedId := []
  status : GroupStatus := .notStarted
  expectedDuration : ℤ := 0
  startedMatches : Finset CombinedId := ∅
  finishedMatches : Finset CombinedId := ∅
  disjoint : Disjoint startedMatches finishedMatches := by exact disjoint_noMatches

namespace ConcurrentBlockGroup

/-- `ConcurrentBlockGroup::MAX_GROUP_COUNT` -/
def maxGroupCount : ℕ := 3

/-- The status that `recomputeStatus` gives. -/
def groupStatus (matchIds : List CombinedId) (started finished : Finset CombinedId) : GroupStatus :=
  if matchIds.length = finished.card then .finished
  else if started ≠ ∅ ∨ finished ≠ ∅ then .started
  else .notStarted

/-- The status of a match, as the loop of `recompute` looks it up. -/
def matchStatus (categories : Categories) (id : CombinedId) : Except Failure MatchStatus := do
  let c ← categories.getCategory id.categoryId
  let m ← c.getMatch id.matchId
  return m.getStatus

/-- The matches that `recompute` puts into the set of the finished, or of the started matches. -/
def withStatus (categories : Categories) (ids : List CombinedId) (p : MatchStatus → Bool) :
    Finset CombinedId :=
  ids.toFinset.filter fun id => ((matchStatus categories id).toOption.map p).getD false

def isFinished : MatchStatus → Bool
  | .finished => true
  | _ => false

def isStarted : MatchStatus → Bool
  | .paused | .unpaused => true
  | _ => false

theorem disjoint_withStatus (categories : Categories) (ids : List CombinedId) :
    Disjoint (withStatus categories ids isStarted) (withStatus categories ids isFinished) := by
  refine Finset.disjoint_filter.2 fun id _ h => ?_
  cases hs : (matchStatus categories id).toOption with
  | none => simp
  | some status =>
    rw [hs] at h
    revert h
    cases status <;> simp [isStarted, isFinished]

/-- `ConcurrentBlockGroup::recompute` -/
def recompute (categories : Categories) (g : ConcurrentBlockGroup) :
    Except Failure ConcurrentBlockGroup := do
  let groups ← g.groups.inOrder
  let groups := groups.map (·.2)
  let iterators ← groups.mapM fun group => do
    let it ← ConstMatchIterator.first categories group
    return (group, it)
  let ids ← mergeMatchIterators categories (mergeBound categories groups) iterators
  let _ ← ids.mapM (matchStatus categories)
  let started := withStatus categories ids isStarted
  let finished := withStatus categories ids isFinished
  return { g with
    matchIds := ids
    status := groupStatus ids started finished
    expectedDuration := (groups.map (·.expectedDuration)).sum
    startedMatches := started
    finishedMatches := finished
    disjoint := disjoint_withStatus categories ids }

/-- `ConcurrentBlockGroup::updateStatus`, for a match with the id and the status.  The set that the
match leaves is changed only if the match is new in the other one. -/
def updateStatus (g : ConcurrentBlockGroup) (id : CombinedId) (status : MatchStatus) :
    ConcurrentBlockGroup :=
  let sets : { p : Finset CombinedId × Finset CombinedId // Disjoint p.1 p.2 } :=
    if isFinished status then
      if h : id ∈ g.finishedMatches then ⟨(g.startedMatches, g.finishedMatches), g.disjoint⟩
      else ⟨(g.startedMatches.erase id, insert id g.finishedMatches), by
        rw [Finset.disjoint_insert_right]
        exact ⟨Finset.notMem_erase id _, g.disjoint.mono_left (Finset.erase_subset id _)⟩⟩
    else if isStarted status then
      if h : id ∈ g.startedMatches then ⟨(g.startedMatches, g.finishedMatches), g.disjoint⟩
      else ⟨(insert id g.startedMatches, g.finishedMatches.erase id), by
        rw [Finset.disjoint_insert_left]
        exact ⟨Finset.notMem_erase id _, g.disjoint.mono_right (Finset.erase_subset id _)⟩⟩
    else ⟨(g.startedMatches.erase id, g.finishedMatches.erase id),
      g.disjoint.mono (Finset.erase_subset id _) (Finset.erase_subset id _)⟩
  { g with
    startedMatches := sets.1.1
    finishedMatches := sets.1.2
    disjoint := sets.2
    status := groupStatus g.matchIds sets.1.1 sets.1.2 }

end ConcurrentBlockGroup

/-- `TatamiStore` -/
structure TatamiStore where
  groups : PositionManager ConcurrentBlockGroup := {}

/-- `TatamiList` -/
structure TatamiList where
  tatamis : PositionManager TatamiStore := {}

namespace TatamiList

/-- Change a concurrent group through the reference that `at` returns. -/
def editConcurrent (t : TatamiList) (l : ConcurrentGroupLocation)
    (f : ConcurrentBlockGroup → Except Failure ConcurrentBlockGroup) : Except Failure TatamiList := do
  let tatami ← t.tatamis.at' l.tatami.handle
  let group ← tatami.groups.at' l.handle
  let group ← f group
  return ⟨t.tatamis.set l.tatami.handle ⟨tatami.groups.set l.handle group⟩⟩

/-- Change a sequential group through the reference that `at` returns. -/
def editSequential (t : TatamiList) (l : SequentialGroupLocation)
    (f : SequentialBlockGroup → Except Failure SequentialBlockGroup) : Except Failure TatamiList :=
  t.editConcurrent l.concurrentGroup fun g => do
    let group ← g.groups.at' l.handle
    let group ← f group
    return { g with groups := g.groups.set l.handle group }

/-- `updateStatus` on the concurrent group of a location. -/
def updateStatus (t : TatamiList) (l : BlockLocation) (id : CombinedId) (status : MatchStatus) :
    Except Failure TatamiList :=
  t.editConcurrent l.sequentialGroup.concurrentGroup fun g => .ok (g.updateStatus id status)

/-- `operator[]` along a location: the groups that do not exist are created. -/
def create (t : TatamiList) (l : SequentialGroupLocation) : Except Failure TatamiList := do
  let tatamis := t.tatamis.insert l.concurrentGroup.tatami.handle {}
  let tatami ← tatamis.at' l.concurrentGroup.tatami.handle
  let groups := tatami.groups.insert l.concurrentGroup.handle {}
  let group ← groups.at' l.concurrentGroup.handle
  let group := { group with groups := group.groups.insert l.handle {} }
  return ⟨tatamis.set l.concurrentGroup.tatami.handle ⟨groups.set l.concurrentGroup.handle group⟩⟩

/-- Erase a sequential group that has become empty, and recompute one that has not. -/
def cleanSequential (categories : Categories) (t : TatamiList) (l : SequentialGroupLocation) :
    Except Failure TatamiList :=
  t.editConcurrent l.concurrentGroup fun g => do
    let group ← g.groups.at' l.handle
    if group.blocks = [] then return { g with groups := g.groups.erase l.handle }
    else do
      let group ← group.recompute categories
      return { g with groups := g.groups.set l.handle group }

/-- Erase a concurrent group that has become empty, and recompute one that has not. -/
def cleanConcurrent (categories : Categories) (t : TatamiList) (l : ConcurrentGroupLocation) :
    Except Failure TatamiList := do
  let tatami ← t.tatamis.at' l.tatami.handle
  let group ← tatami.groups.at' l.handle
  if group.groups.size = 0 then
    return ⟨t.tatamis.set l.tatami.handle ⟨tatami.groups.erase l.handle⟩⟩
  else do
    let group ← group.recompute categories
    return ⟨t.tatamis.set l.tatami.handle ⟨tatami.groups.set l.handle group⟩⟩

/-- The erasure of a block from the group of its old location. -/
def takeBlock (block : Block) (location : Option BlockLocation) (t : TatamiList) :
    Except Failure TatamiList :=
  match location with
  | none => .ok t
  | some l => t.editSequential l.sequentialGroup (·.eraseBlock block)

/-- The insertion of a block into the group of its new location. -/
def putBlock (block : Block) (location : Option BlockLocation) (t : TatamiList) :
    Except Failure TatamiList :=
  match location with
  | none => .ok t
  | some l => do
    let t ← t.create l.sequentialGroup
    t.editSequential l.sequentialGroup fun g => g.addBlock (min l.pos g.blocks.length) block

/-- `TatamiList::moveBlock` -/
def moveBlock (categories : Categories) (block : Block) (source target : Option BlockLocation)
    (t : TatamiList) : Except Failure TatamiList := do
  let t ← t.takeBlock block source
  let t ← t.putBlock block target
  let t ← match source with
    | none => pure t
    | some l => t.cleanSequential categories l.sequentialGroup
  let t ← match target with
    | none => pure t
    | some l =>
      if (source.map fun k => k.sequentialGroup.same l.sequentialGroup).getD false then pure t
      else t.editSequential l.sequentialGroup (·.recompute categories)
  let t ← match source with
    | none => pure t
    | some l => t.cleanConcurrent categories l.sequentialGroup.concurrentGroup
  match target with
  | none => pure t
  | some l =>
    if (source.map fun k =>
        k.sequentialGroup.concurrentGroup.same l.sequentialGroup.concurrentGroup).getD false then
      pure t
    else t.editConcurrent l.sequentialGroup.concurrentGroup (·.recompute categories)

/-- `TatamiList::recomputeBlocks`: the sequential groups of the locations, then the concurrent ones.
A group is recomputed again where several locations name it. -/
def recomputeBlocks (categories : Categories) (locations : List BlockLocation) (t : TatamiList) :
    Except Failure TatamiList := do
  let t ← locations.foldlM (fun t l => t.editSequential l.sequentialGroup (·.recompute categories)) t
  locations.foldlM (fun t l =>
    t.editConcurrent l.sequentialGroup.concurrentGroup (·.recompute categories)) t

/-- `TatamiList::refreshLocation` -/
def refreshLocation (t : TatamiList) (l : BlockLocation) (block : Block) :
    Except Failure BlockLocation := do
  let tatamiIndex ← t.tatamis.getIndex l.getTatamiHandle
  let tatami ← t.tatamis.at' l.getTatamiHandle
  let concurrentIndex ← tatami.groups.getIndex l.getConcurrentGroupHandle
  let concurrent ← tatami.groups.at' l.getConcurrentGroupHandle
  let sequentialIndex ← concurrent.groups.getIndex l.getSequentialGroupHandle
  let sequential ← concurrent.groups.at' l.getSequentialGroupHandle
  check .tatamis (block ∈ sequential.blocks)
  return ⟨⟨⟨⟨⟨l.getTatamiHandle.id, tatamiIndex⟩⟩,
    ⟨l.getConcurrentGroupHandle.id, concurrentIndex⟩⟩,
    ⟨l.getSequentialGroupHandle.id, sequentialIndex⟩⟩, sequential.blocks.idxOf block⟩

end TatamiList

end JudoAssistant
