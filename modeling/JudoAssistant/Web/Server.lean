import JudoAssistant.Lib.Run
import JudoAssistant.Web.LoadedTournament

/-!
# The web server

`WebServer` (`src/web/web_server.cpp`) registers the tournaments by their web names.  A master acquires
a tournament (`TCPParticipant`) and sends it; a viewer gets a tournament (`WebParticipant`) and then
subscribes.  The tournaments, the participants and the server have strands of their own: every step here
is one handler of one strand, with the callbacks that it dispatches and that run at once, and the strand
of a tournament runs its handlers in the order in which they were posted.  A call that is dispatched on
the strand of the server waits as long as another thread runs a handler of it.
-/

namespace JudoAssistant

open LoadedTournament

/-- Who is told how a handler ended. -/
inductive Requester where
  | nobody
  | tcpParticipant (participant : ℕ)
  /-- `getTournament`, for a web participant and a web name. -/
  | getTournament (participant : ℕ) (webName : String)

/-- A tournament with the handlers that are posted on its strand. -/
structure Strand where
  loaded : LoadedTournament := {}
  queue : List (Handler × Requester) := []

/-- The states of a `TCPParticipant` from the first `SYNC` message on: it waits for `acquireTournament`,
for the answer of a tournament or for a message, or a close was posted. -/
inductive TCPParticipant where
  | clockSynced
  | acquiring
  | waiting (reference : ℕ)
  | listening (reference : ℕ)
  | closed

/-- A call of `acquireTournament`, with the decoded `SYNC` message that its callback sends. -/
structure Acquisition where
  participant : ℕ
  webName : String
  tournament : TournamentStore
  actionList : SharedActionList
  diff : ℤ

/-- A `WebParticipant`: its tournament and the results of `getTournament` that it was not told yet. -/
structure WebParticipant where
  tournament : Option ℕ := none
  pending : List (Option ℕ) := []
  closePosted : Bool := false

/-- The messages that a listening participant acts on. -/
inductive TCPMessage where
  | action (actionId : ClientActionId) (action : ActionObject)
  | undo (actionId : ClientActionId)
  | sync (tournament : TournamentStore) (actionList : SharedActionList) (diff : ℤ)

def TCPMessage.handler : TCPMessage → Handler
  | .action actionId a => .dispatch actionId a
  | .undo actionId => .undo actionId
  | .sync tournament actionList diff => .sync tournament actionList diff

/-- The web server.  A reference is the number of a tournament, in the order of their construction. -/
structure WebServer where
  loadedTournaments : String → Option ℕ := fun _ => none
  strands : ℕ → Strand := fun _ => {}
  nextReference : ℕ := 0
  participants : ℕ → TCPParticipant := fun _ => .clockSynced
  webParticipants : ℕ → WebParticipant := fun _ => {}
  /-- The calls of `acquireTournament` that wait for the strand of the server. -/
  acquisitions : List Acquisition := []
  /-- The calls of `getTournament` that wait for the strand of the server. -/
  calls : List (ℕ × String) := []
  /-- The calls of `getTournament` that wait for the save status. -/
  lookups : List (ℕ × String) := []

namespace WebServer

variable (s : WebServer)

/-- Post a handler on the strand of a tournament. -/
def post (reference : ℕ) (handler : Handler) (requester : Requester) : WebServer :=
  let strand := s.strands reference
  { s with
    strands := Function.update s.strands reference
      { strand with queue := strand.queue ++ [(handler, requester)] } }

def setParticipant (participant : ℕ) (state : TCPParticipant) : WebServer :=
  { s with participants := Function.update s.participants participant state }

def setWebParticipant (participant : ℕ) (state : WebParticipant) : WebServer :=
  { s with webParticipants := Function.update s.webParticipants participant state }

/-- Hand the result of `getTournament` to the strand of the participant. -/
def hand (participant : ℕ) (result : Option ℕ) : WebServer :=
  s.setWebParticipant participant { s.webParticipants participant with
    pending := (s.webParticipants participant).pending ++ [result] }

/-- The constructor of `LoadedTournament`, with the handlers that are posted at once. -/
def construct (file : Option SaveFile) (queue : List (Handler × Requester)) : WebServer :=
  { s with
    strands := Function.update s.strands s.nextReference ⟨{ file := file }, queue⟩
    nextReference := s.nextReference + 1 }

def register (webName : String) (reference : ℕ) : WebServer :=
  { s with loadedTournaments := Function.update s.loadedTournaments webName (some reference) }

/-- `TCPParticipant::asyncTournamentSync`, when the `SYNC` message is decoded. -/
def readSync (participant : ℕ) (webName : String) (tournament : TournamentStore)
    (actionList : SharedActionList) (diff : ℤ) : Option WebServer :=
  match s.participants participant with
  | .clockSynced =>
    let s := s.setParticipant participant .acquiring
    some { s with
      acquisitions := s.acquisitions ++ [⟨participant, webName, tournament, actionList, diff⟩] }
  | _ => none

/-- The tournament with a web name, which is constructed and registered if there is none. -/
def findOrRegister (webName : String) : WebServer × ℕ :=
  match s.loadedTournaments webName with
  | some reference => (s, reference)
  | none => ((s.construct none []).register webName s.nextReference, s.nextReference)

/-- The callback of `acquireTournament`, which returns at once if a close was posted. -/
def startSync (a : Acquisition) (reference : ℕ) : WebServer :=
  match s.participants a.participant with
  | .acquiring =>
    (s.post reference (.sync a.tournament a.actionList a.diff) (.tcpParticipant a.participant)).setParticipant
      a.participant (.waiting reference)
  | _ => s

/-- `WebServer::acquireTournament`, with its callback. -/
def acquireTournament (index : ℕ) : Option WebServer :=
  match s.acquisitions[index]? with
  | none => none
  | some a =>
    let (s, reference) :=
      { s with acquisitions := s.acquisitions.eraseIdx index }.findOrRegister a.webName
    some (s.startSync a reference)

/-- `TCPParticipant::asyncTournamentListen` -/
def receive (participant : ℕ) (message : TCPMessage) : Option WebServer :=
  match s.participants participant with
  | .listening reference =>
    some ((s.post reference message.handler (.tcpParticipant participant)).setParticipant participant
      (.waiting reference))
  | _ => none

/-- A call of `WebServer::getTournament`. -/
def getTournament (participant : ℕ) (webName : String) : WebServer :=
  { s with calls := s.calls ++ [(participant, webName)] }

/-- `WebServer::getTournament`, on the strand of the server. -/
def findTournament (index : ℕ) : Option WebServer :=
  match s.calls[index]? with
  | none => none
  | some (participant, webName) =>
    let s := { s with calls := s.calls.eraseIdx index }
    some (match s.loadedTournaments webName with
      | some reference => s.hand participant (some reference)
      | none => { s with lookups := s.lookups ++ [(participant, webName)] })

/-- The callback of `asyncGetSaveStatus` in `getTournament`. -/
def saveStatus (index : ℕ) (isSaved : Bool) (file : Option SaveFile) (outcome : LoadOutcome) :
    Option WebServer :=
  match s.lookups[index]? with
  | none => none
  | some (participant, webName) =>
    let s := { s with lookups := s.lookups.eraseIdx index }
    some (if isSaved then s.construct file [(.load outcome, .getTournament participant webName)]
      else s.hand participant none)

/-- The callback of `load` in `getTournament`. -/
def finishLoad (participant : ℕ) (webName : String) (reference : ℕ) (success : Bool) : WebServer :=
  match s.loadedTournaments webName with
  | some registered => s.hand participant (some registered)
  | none =>
    if success then (s.register webName reference).hand participant (some reference)
    else s.hand participant none

/-- The callback of `getTournament` in `WebParticipant::subscribeTournament`. -/
def join (participant : ℕ) (index : ℕ) : Option WebServer :=
  let web := s.webParticipants participant
  match web.pending[index]? with
  | none => none
  | some result =>
    let web := { web with pending := web.pending.eraseIdx index }
    some (match web.closePosted, result with
      | false, some reference =>
        (s.post reference (.addParticipant participant) .nobody).setWebParticipant participant
          { web with tournament := some reference }
      | _, _ => s.setWebParticipant participant web)

/-- The subscriptions of a web participant to a part of its tournament.  A participant without a
tournament is refused. -/
def subscribe (participant : ℕ) (handler : Handler) : WebServer :=
  match (s.webParticipants participant).tournament with
  | some reference => s.post reference handler .nobody
  | none => s

/-- `WebParticipant::asyncClose`, and `forceClose`, after which the results of `getTournament` are still
taken. -/
def closeWeb (participant : ℕ) (forced : Bool) : WebServer :=
  let s' := match (s.webParticipants participant).tournament with
    | some reference => s.post reference (.eraseParticipant participant) .nobody
    | none => s
  s'.setWebParticipant participant { s.webParticipants participant with
    tournament := none
    closePosted := (s.webParticipants participant).closePosted || !forced }

/-- The callback of a handler: of `sync`, `dispatch` and `undo` in a `TCPParticipant`, or of `load`. -/
def answer (reference : ℕ) (success : Bool) : Requester → WebServer
  | .nobody => s
  | .tcpParticipant participant => match s.participants participant with
    | .waiting own => s.setParticipant participant (if success then .listening own else .closed)
    | _ => s
  | .getTournament participant webName => s.finishLoad participant webName reference success

/-- The strand of a tournament runs the first handler. -/
def runHandler (reference : ℕ) (now : ℕ) : Option WebServer :=
  match (s.strands reference).queue with
  | [] => none
  | (handler, requester) :: queue =>
    ((s.strands reference).loaded.handle now handler).map fun r =>
      { s with strands := Function.update s.strands reference ⟨r.1, queue⟩ }.answer reference r.2 requester

/-- What can happen on the strands of the server, the participants and the tournaments. -/
inductive Event where
  | readSync (participant : ℕ) (webName : String) (tournament : TournamentStore)
    (actionList : SharedActionList) (diff : ℤ)
  | acquireTournament (index : ℕ)
  | receive (participant : ℕ) (message : TCPMessage)
  | closeTCP (participant : ℕ)
  | getTournament (participant : ℕ) (webName : String)
  | findTournament (index : ℕ)
  | saveStatus (index : ℕ) (isSaved : Bool) (file : Option SaveFile) (outcome : LoadOutcome)
  | join (participant : ℕ) (index : ℕ)
  | subscribeCategory (participant : ℕ) (category : CategoryId)
  | subscribePlayer (participant : ℕ) (player : PlayerId)
  | subscribeTatami (participant : ℕ) (index : ℕ)
  | closeWeb (participant : ℕ) (forced : Bool)
  | runHandler (reference : ℕ) (now : ℕ)

/-- One step.  There is none for an event that cannot happen or that crashes the server. -/
def step : Event → Option WebServer
  | .readSync participant webName tournament actionList diff =>
    s.readSync participant webName tournament actionList diff
  | .acquireTournament index => s.acquireTournament index
  | .receive participant message => s.receive participant message
  | .closeTCP participant => some (s.setParticipant participant .closed)
  | .getTournament participant webName => some (s.getTournament participant webName)
  | .findTournament index => s.findTournament index
  | .saveStatus index isSaved file outcome => s.saveStatus index isSaved file outcome
  | .join participant index => s.join participant index
  | .subscribeCategory participant category =>
    some (s.subscribe participant (.subscribeCategory participant category))
  | .subscribePlayer participant player =>
    some (s.subscribe participant (.subscribePlayer participant player))
  -- without the check that the other two subscriptions make
  | .subscribeTatami participant index =>
    if (s.webParticipants participant).tournament.isSome then
      some (s.subscribe participant (.subscribeTatami participant index))
    else none
  | .closeWeb participant forced => some (s.closeWeb participant forced)
  | .runHandler reference now => s.runHandler reference now

end WebServer

/-! ### No handler without a tournament -/

/-- The handlers that dereference the tournament. -/
def LoadedTournament.Handler.needsTournament : Handler → Bool
  | .dispatch _ _ | .undo _ | .addParticipant _ | .subscribeCategory _ _ | .subscribePlayer _ _
  | .subscribeTatami _ _ => true
  | _ => false

def LoadedTournament.Handler.isSync : Handler → Bool
  | .sync _ _ _ => true
  | _ => false

def LoadedTournament.Handler.isLoad : Handler → Bool
  | .load _ => true
  | _ => false

namespace Strand

def present (a : Strand) : Bool := a.loaded.tournament.isSome

def syncPosted (a : Strand) : Bool := a.queue.any fun x => x.1.isSync

/-- There is a tournament, or one will be there before any handler that is posted from now on runs. -/
def ready (a : Strand) : Bool := a.present || a.syncPosted

/-- Every handler that needs the tournament finds it, or runs after a `sync`. -/
def Queued : Bool → List (Handler × Requester) → Prop
  | _, [] => True
  | there, x :: queue => (x.1.needsTournament = true → there = true) ∧ Queued (there || x.1.isSync) queue

theorem Queued.mono {queue : List (Handler × Requester)} {a b : Bool} (h : Queued a queue)
    (hab : a = true → b = true) : Queued b queue := by
  induction queue generalizing a b with
  | nil => trivial
  | cons x queue ih =>
    refine ⟨fun hx => hab (h.1 hx), ih h.2 ?_⟩
    simp only [Bool.or_eq_true]
    exact Or.imp_left hab

theorem Queued.concat {queue : List (Handler × Requester)} {a : Bool} (h : Queued a queue)
    {x : Handler × Requester}
    (hx : x.1.needsTournament = true → (a || queue.any fun y => y.1.isSync) = true) :
    Queued a (queue ++ [x]) := by
  induction queue generalizing a with
  | nil => exact ⟨fun hneeds => by simpa using hx hneeds, trivial⟩
  | cons y queue ih =>
    refine ⟨h.1, ih h.2 ?_⟩
    intro hneeds
    simpa [Bool.or_assoc] using hx hneeds

/-- What has happened to a strand keeps it ready. -/
def Later (a b : Strand) : Prop :=
  (a.present = true → b.present = true) ∧ (a.ready = true → b.ready = true)

theorem later_post (a : Strand) (x : Handler × Requester) :
    a.Later { a with queue := a.queue ++ [x] } := by
  refine ⟨id, ?_⟩
  simp only [ready, syncPosted, present, List.any_append, Bool.or_eq_true]
  tauto

/-- A handler that runs leaves the strand ready. -/
theorem later_run {a : Strand} {now : ℕ} {x : Handler × Requester} {queue : List (Handler × Requester)}
    {s' : LoadedTournament} {ok : Bool} (hqueue : a.queue = x :: queue)
    (hrun : a.loaded.handle now x.1 = some (s', ok)) :
    a.Later ⟨s', queue⟩ ∧ (x.1.isSync = true → s'.tournament.isSome = true) := by
  have hkeep : a.present = true → s'.tournament.isSome = true := isSome_of_handle hrun
  have hsync : x.1.isSync = true → s'.tournament.isSome = true := by
    intro h
    cases hx : x.1 with
    | sync t l diff =>
      rw [hx] at hrun
      cases hrun
      rfl
    | _ => simp [hx, Handler.isSync] at h
  refine ⟨⟨hkeep, ?_⟩, hsync⟩
  simp only [ready, syncPosted, present, hqueue, List.any_cons, Bool.or_eq_true]
  rintro (h | h | h)
  · exact .inl (hkeep h)
  · exact .inl (hsync h)
  · exact .inr h

/-- The handlers that wait after one has run. -/
theorem queued_run {a : Strand} {now : ℕ} {x : Handler × Requester} {queue : List (Handler × Requester)}
    {s' : LoadedTournament} {ok : Bool} (hqueue : a.queue = x :: queue)
    (hrun : a.loaded.handle now x.1 = some (s', ok)) (h : Queued a.present a.queue) :
    Queued s'.tournament.isSome queue := by
  rw [hqueue] at h
  refine h.2.mono ?_
  obtain ⟨⟨hkeep, -⟩, hsync⟩ := later_run hqueue hrun
  simp only [Bool.or_eq_true]
  rintro (h | h)
  · exact hkeep h
  · exact hsync h

end Strand

namespace WebServer

variable {s s' : WebServer}

/-- The tournament exists and is ready for its viewers. -/
def Ready (s : WebServer) (reference : ℕ) : Prop :=
  reference < s.nextReference ∧ (s.strands reference).ready = true

/-- What holds of the tournament of a `TCPParticipant`. -/
def Holds (s : WebServer) : TCPParticipant → Prop
  | .waiting reference | .listening reference => s.Ready reference
  | .clockSynced | .acquiring | .closed => True

/-- What holds of the tournaments of a `WebParticipant`. -/
def HoldsWeb (s : WebServer) (web : WebParticipant) : Prop :=
  ∀ reference, web.tournament = some reference ∨ some reference ∈ web.pending → s.Ready reference

/-- The handlers find their tournaments, and whoever may post one has a tournament that is ready. -/
structure Supplied (s : WebServer) : Prop where
  queued : ∀ r, Strand.Queued (s.strands r).present (s.strands r).queue
  loading : ∀ r, ∀ x ∈ (s.strands r).queue, ∀ p n, x.2 = .getTournament p n → x.1.isLoad = true
  constructed : ∀ r, ∀ x ∈ (s.strands r).queue, r < s.nextReference
  registered : ∀ n r, s.loadedTournaments n = some r → r < s.nextReference
  participants : ∀ p, s.Holds (s.participants p)
  webParticipants : ∀ w, s.HoldsWeb (s.webParticipants w)

/-- Tournaments are constructed and those that exist stay ready. -/
structure Forward (s s' : WebServer) : Prop where
  nextReference : s.nextReference ≤ s'.nextReference
  later : ∀ r < s.nextReference, (s.strands r).Later (s'.strands r)

theorem Ready.forward {r : ℕ} (h : s.Ready r) (hf : s.Forward s') : s'.Ready r :=
  ⟨h.1.trans_le hf.nextReference, (hf.later r h.1).2 h.2⟩

theorem Holds.forward {p : TCPParticipant} (h : s.Holds p) (hf : s.Forward s') : s'.Holds p := by
  cases p with
  | waiting r => exact Ready.forward h hf
  | listening r => exact Ready.forward h hf
  | clockSynced => trivial
  | acquiring => trivial
  | closed => trivial

theorem HoldsWeb.forward {web : WebParticipant} (h : s.HoldsWeb web) (hf : s.Forward s') :
    s'.HoldsWeb web := fun r hr => (h r hr).forward hf

theorem forward_post (s : WebServer) (r : ℕ) (handler : Handler) (requester : Requester) :
    s.Forward (s.post r handler requester) := by
  refine ⟨le_rfl, fun r' _ => ?_⟩
  by_cases hr : r' = r
  · subst hr
    simp only [post, Function.update_self]
    exact Strand.later_post _ _
  · simp only [post, Function.update_of_ne hr]
    exact ⟨id, id⟩

/-- A handler that needs the tournament may be posted on a strand that is ready. -/
theorem supplied_post (h : s.Supplied) {r : ℕ} {handler : Handler} {requester : Requester}
    (hr : r < s.nextReference) (hneeds : handler.needsTournament = true → s.Ready r)
    (hloading : ∀ p n, requester = .getTournament p n → handler.isLoad = true) :
    (s.post r handler requester).Supplied := by
  have hf := forward_post s r handler requester
  refine ⟨fun r' => ?_, fun r' x hx => ?_, fun r' x hx => ?_, h.registered,
    fun p => (h.participants p).forward hf, fun w => (h.webParticipants w).forward hf⟩
  · by_cases hr' : r' = r
    · subst hr'
      simp only [post, Function.update_self]
      exact (h.queued r').concat fun hn => (hneeds hn).2
    · simp only [post, Function.update_of_ne hr']
      exact h.queued r'
  · by_cases hr' : r' = r
    · subst hr'
      simp only [post, Function.update_self, List.mem_append, List.mem_singleton] at hx
      rcases hx with hx | rfl
      · exact h.loading r' x hx
      · exact hloading
    · simp only [post, Function.update_of_ne hr'] at hx
      exact h.loading r' x hx
  · by_cases hr' : r' = r
    · subst hr'
      exact hr
    · simp only [post, Function.update_of_ne hr'] at hx
      exact h.constructed r' x hx

theorem supplied_setParticipant (h : s.Supplied) {p : ℕ} {state : TCPParticipant} (hstate : s.Holds state) :
    (s.setParticipant p state).Supplied where
  queued := h.queued
  loading := h.loading
  constructed := h.constructed
  registered := h.registered
  participants p' := by
    by_cases hp : p' = p
    · subst hp
      simp only [setParticipant, Function.update_self]
      cases state <;> exact hstate
    · simp only [setParticipant, Function.update_of_ne hp]
      have := h.participants p'
      cases hs : s.participants p' <;> rw [hs] at this <;> exact this
  webParticipants := h.webParticipants

theorem supplied_setWebParticipant (h : s.Supplied) {w : ℕ} {state : WebParticipant}
    (hstate : s.HoldsWeb state) : (s.setWebParticipant w state).Supplied where
  queued := h.queued
  loading := h.loading
  constructed := h.constructed
  registered := h.registered
  participants := h.participants
  webParticipants w' := by
    by_cases hw : w' = w
    · subst hw
      simp only [setWebParticipant, Function.update_self]
      exact hstate
    · simp only [setWebParticipant, Function.update_of_ne hw]
      exact h.webParticipants w'

/-- A result of `getTournament` is handed out for a tournament that is ready. -/
theorem supplied_hand (h : s.Supplied) {w : ℕ} {result : Option ℕ}
    (hresult : ∀ r, result = some r → s.Ready r) : (s.hand w result).Supplied := by
  refine supplied_setWebParticipant h ?_
  rintro r (hr | hr)
  · exact h.webParticipants w r (.inl hr)
  · rcases List.mem_append.1 hr with hr | hr
    · exact h.webParticipants w r (.inr hr)
    · exact hresult r (List.mem_singleton.1 hr).symm

theorem supplied_register (h : s.Supplied) {n : String} {r : ℕ} (hr : r < s.nextReference) :
    (s.register n r).Supplied where
  queued := h.queued
  loading := h.loading
  constructed := h.constructed
  registered n' r' hr' := by
    by_cases hn : n' = n
    · subst hn
      simp only [register, Function.update_self, Option.some.injEq] at hr'
      exact hr' ▸ hr
    · simp only [register, Function.update_of_ne hn] at hr'
      exact h.registered n' r' hr'
  participants := h.participants
  webParticipants := h.webParticipants

theorem forward_construct (s : WebServer) (file : Option SaveFile) (queue : List (Handler × Requester)) :
    s.Forward (s.construct file queue) := by
  refine ⟨Nat.le_succ _, fun r hr => ?_⟩
  simp only [construct, Function.update_of_ne hr.ne]
  exact ⟨id, id⟩

/-- A new tournament waits for a `load` or for nothing. -/
theorem supplied_construct (h : s.Supplied) (file : Option SaveFile) {queue : List (Handler × Requester)}
    (hqueue : Strand.Queued false queue) (hloading : ∀ x ∈ queue, x.1.isLoad = true) :
    (s.construct file queue).Supplied := by
  have hf := forward_construct s file queue
  refine ⟨fun r => ?_, fun r x hx => ?_, fun r x hx => ?_,
    fun n r hr => (h.registered n r hr).trans (Nat.lt_succ_self _),
    fun p => (h.participants p).forward hf, fun w => (h.webParticipants w).forward hf⟩
  · by_cases hr : r = s.nextReference
    · subst hr
      simp only [construct, Function.update_self]
      exact hqueue
    · simp only [construct, Function.update_of_ne hr]
      exact h.queued r
  · by_cases hr : r = s.nextReference
    · subst hr
      simp only [construct, Function.update_self] at hx
      exact fun _ _ _ => hloading x hx
    · simp only [construct, Function.update_of_ne hr] at hx
      exact h.loading r x hx
  · by_cases hr : r = s.nextReference
    · subst hr
      exact Nat.lt_succ_self _
    · simp only [construct, Function.update_of_ne hr] at hx
      exact (h.constructed r x hx).trans (Nat.lt_succ_self _)

/-- The strands after a handler has run. -/
def ran (s : WebServer) (r : ℕ) (loaded : LoadedTournament) (queue : List (Handler × Requester)) : WebServer :=
  { s with strands := Function.update s.strands r ⟨loaded, queue⟩ }

theorem forward_ran {r now : ℕ} {x : Handler × Requester} {queue : List (Handler × Requester)}
    {loaded : LoadedTournament} {ok : Bool} (hqueue : (s.strands r).queue = x :: queue)
    (hrun : (s.strands r).loaded.handle now x.1 = some (loaded, ok)) :
    s.Forward (s.ran r loaded queue) := by
  refine ⟨le_rfl, fun r' _ => ?_⟩
  by_cases hr : r' = r
  · subst hr
    simp only [ran, Function.update_self]
    exact (Strand.later_run hqueue hrun).1
  · simp only [ran, Function.update_of_ne hr]
    exact ⟨id, id⟩

theorem supplied_ran (h : s.Supplied) {r now : ℕ} {x : Handler × Requester}
    {queue : List (Handler × Requester)} {loaded : LoadedTournament} {ok : Bool}
    (hqueue : (s.strands r).queue = x :: queue)
    (hrun : (s.strands r).loaded.handle now x.1 = some (loaded, ok)) : (s.ran r loaded queue).Supplied := by
  have hf := forward_ran hqueue hrun
  refine ⟨fun r' => ?_, fun r' y hy => ?_, fun r' y hy => ?_, h.registered,
    fun p => (h.participants p).forward hf, fun w => (h.webParticipants w).forward hf⟩
  · by_cases hr : r' = r
    · subst hr
      simp only [ran, Function.update_self]
      exact Strand.queued_run hqueue hrun (h.queued r')
    · simp only [ran, Function.update_of_ne hr]
      exact h.queued r'
  · by_cases hr : r' = r
    · subst hr
      simp only [ran, Function.update_self] at hy
      exact h.loading r' y (by rw [hqueue]; exact List.mem_cons_of_mem _ hy)
    · simp only [ran, Function.update_of_ne hr] at hy
      exact h.loading r' y hy
  · by_cases hr : r' = r
    · subst hr
      exact h.constructed r' x (by rw [hqueue]; exact List.mem_cons_self)
    · simp only [ran, Function.update_of_ne hr] at hy
      exact h.constructed r' y hy

/-- A `load` has ended; a tournament that it finds registered is ready. -/
theorem supplied_finishLoad (h : s.Supplied) {w : ℕ} {n : String} {r : ℕ} {success : Bool}
    (hr : r < s.nextReference) (hloaded : success = true → (s.strands r).present = true)
    (hready : ∀ r', s.loadedTournaments n = some r' → (s.strands r').ready = true) :
    (s.finishLoad w n r success).Supplied := by
  unfold finishLoad
  split
  · next r' hr' =>
    refine supplied_hand h ?_
    rintro r'' h''
    cases h''
    exact ⟨h.registered n r' hr', hready r' hr'⟩
  · cases success with
    | true =>
      refine supplied_hand (supplied_register h hr) ?_
      rintro r'' h''
      cases h''
      exact ⟨hr, by simp [register, Strand.ready, hloaded rfl]⟩
    | false => exact supplied_hand h (by simp)

theorem supplied_runHandler (h : s.Supplied) {r now : ℕ}
    (hready : ∀ x p n queue, (s.strands r).queue = (x, .getTournament p n) :: queue →
      ∀ r', s.loadedTournaments n = some r' → (s.strands r').ready = true)
    (hstep : s.runHandler r now = some s') : s'.Supplied := by
  unfold runHandler at hstep
  cases hqueue : (s.strands r).queue with
  | nil => simp [hqueue] at hstep
  | cons x queue =>
    simp only [hqueue] at hstep
    obtain ⟨⟨loaded, ok⟩, hrun, rfl⟩ := Option.map_eq_some_iff.1 hstep
    have hmem : x ∈ (s.strands r).queue := by rw [hqueue]; exact List.mem_cons_self
    have hran := supplied_ran h hqueue hrun
    cases hx : x.2 with
    | nobody => exact hran
    | tcpParticipant p =>
      simp only [answer]
      split
      · next own hp =>
        have hholds := hran.participants p
        rw [show (s.ran r loaded queue).participants p = .waiting own from hp] at hholds
        refine supplied_setParticipant hran ?_
        cases ok with
        | true => exact hholds
        | false => trivial
      · exact hran
    | getTournament p n =>
      have hf := forward_ran hqueue hrun
      refine supplied_finishLoad hran (h.constructed r x hmem) (fun hok => ?_) fun r' hr' => ?_
      · -- The handler was a `load`, which leaves a tournament if it succeeds.
        have hload := h.loading r x hmem p n hx
        cases hhandler : x.1 with
        | load outcome =>
          rw [hhandler] at hrun
          obtain rfl : ok = true := hok
          simp only [ran, Function.update_self]
          exact isSome_of_load (Option.some.inj hrun)
        | _ => simp [hhandler, Handler.isLoad] at hload
      · have hold := hready x.1 p n queue (by rw [hqueue, ← hx]) r' hr'
        exact (hf.later r' (h.registered n r' hr')).2 hold

theorem forward_subscribe (s : WebServer) (w : ℕ) (handler : Handler) :
    s.Forward (s.subscribe w handler) := by
  unfold subscribe
  split
  · exact forward_post _ _ _ _
  · exact ⟨le_rfl, fun _ _ => ⟨id, id⟩⟩

/-- A web participant posts on a tournament that is ready. -/
theorem supplied_subscribe (h : s.Supplied) (w : ℕ) (handler : Handler) :
    (s.subscribe w handler).Supplied := by
  unfold subscribe
  split
  · next r hr =>
    have hready := h.webParticipants w r (.inl hr)
    exact supplied_post h hready.1 (fun _ => hready) (by simp)
  · exact h

/-- A tournament is handed out only if it is ready: there is a tournament, or its `sync` is posted
already. -/
def HandsOutReady (s : WebServer) : Event → Prop
  | .findTournament index => ∀ p n, s.calls[index]? = some (p, n) →
    ∀ r, s.loadedTournaments n = some r → (s.strands r).ready = true
  | .runHandler reference _ => ∀ x p n queue,
    (s.strands reference).queue = (x, .getTournament p n) :: queue →
    ∀ r, s.loadedTournaments n = some r → (s.strands r).ready = true
  | _ => True

/-- The tournament that a master acquires. -/
theorem supplied_findOrRegister (h : s.Supplied) (n : String) :
    (s.findOrRegister n).1.Supplied ∧ (s.findOrRegister n).2 < (s.findOrRegister n).1.nextReference := by
  unfold findOrRegister
  split
  · next r hr => exact ⟨h, h.registered n r hr⟩
  · refine ⟨supplied_register (@supplied_construct s h none [] trivial (by simp)) ?_, ?_⟩
    · exact Nat.lt_succ_self _
    · exact Nat.lt_succ_self _

theorem supplied_startSync (h : s.Supplied) (a : Acquisition) {r : ℕ} (hr : r < s.nextReference) :
    (s.startSync a r).Supplied := by
  unfold startSync
  split
  · refine supplied_setParticipant (supplied_post h hr (by simp [Handler.needsTournament]) (by simp)) ?_
    refine ⟨hr, ?_⟩
    simp [post, Strand.ready, Strand.syncPosted, Handler.isSync]
  · exact h

theorem supplied_step (h : s.Supplied) {e : Event} (hready : s.HandsOutReady e)
    (hstep : s.step e = some s') : s'.Supplied := by
  cases e with
  | readSync p n t l diff =>
    simp only [step, readSync] at hstep
    split at hstep
    · cases hstep
      have h' : (s.setParticipant p .acquiring).Supplied := supplied_setParticipant h trivial
      exact ⟨h'.queued, h'.loading, h'.constructed, h'.registered, h'.participants, h'.webParticipants⟩
    · cases hstep
  | acquireTournament index =>
    simp only [step, acquireTournament] at hstep
    split at hstep
    · cases hstep
    · next a ha =>
      cases hstep
      have h' : ({ s with acquisitions := s.acquisitions.eraseIdx index } : WebServer).Supplied :=
        ⟨h.queued, h.loading, h.constructed, h.registered, h.participants, h.webParticipants⟩
      obtain ⟨hfound, hr⟩ := supplied_findOrRegister h' a.webName
      exact supplied_startSync hfound a hr
  | receive p message =>
    simp only [step, receive] at hstep
    split at hstep
    · next r hp =>
      cases hstep
      have hholds : s.Ready r := by
        have hholds := h.participants p
        rwa [hp] at hholds
      refine supplied_setParticipant (supplied_post h hholds.1 (fun _ => hholds) (by simp)) ?_
      exact Ready.forward hholds (forward_post _ _ _ _)
    · cases hstep
  | closeTCP p =>
    cases hstep
    exact supplied_setParticipant h trivial
  | getTournament w n =>
    cases hstep
    exact ⟨h.queued, h.loading, h.constructed, h.registered, h.participants, h.webParticipants⟩
  | findTournament index =>
    simp only [step, findTournament] at hstep
    split at hstep
    · cases hstep
    · next w n hcall =>
      cases hstep
      split
      · next r hr =>
        have h' : ({ s with calls := s.calls.eraseIdx index } : WebServer).Supplied :=
          ⟨h.queued, h.loading, h.constructed, h.registered, h.participants, h.webParticipants⟩
        refine supplied_hand h' ?_
        rintro r' heq
        cases heq
        exact ⟨h.registered n r hr, hready w n hcall r hr⟩
      · exact ⟨h.queued, h.loading, h.constructed, h.registered, h.participants, h.webParticipants⟩
  | saveStatus index isSaved file outcome =>
    simp only [step, saveStatus] at hstep
    split at hstep
    · cases hstep
    · next w n hw =>
      cases hstep
      have h' : ({ s with lookups := s.lookups.eraseIdx index } : WebServer).Supplied :=
        ⟨h.queued, h.loading, h.constructed, h.registered, h.participants, h.webParticipants⟩
      cases isSaved with
      | true =>
        exact supplied_construct h' file ⟨by simp [Handler.needsTournament], trivial⟩
          (by simp [Handler.isLoad])
      | false => exact supplied_hand h' (by simp)
  | join w index =>
    simp only [step, join] at hstep
    split at hstep
    · cases hstep
    · next result hresult =>
      cases hstep
      have hmem := List.mem_of_getElem? hresult
      have hweb : s.HoldsWeb { s.webParticipants w with
          pending := (s.webParticipants w).pending.eraseIdx index } := by
        rintro r (hr | hr)
        · exact h.webParticipants w r (.inl hr)
        · exact h.webParticipants w r (.inr (List.mem_of_mem_eraseIdx hr))
      cases (s.webParticipants w).closePosted with
      | true => exact supplied_setWebParticipant h hweb
      | false =>
        cases result with
        | none => exact supplied_setWebParticipant h hweb
        | some r =>
          have hr := h.webParticipants w r (.inr hmem)
          have hf := forward_post s r (.addParticipant w) .nobody
          refine supplied_setWebParticipant (supplied_post h hr.1 (fun _ => hr) (by simp)) ?_
          rintro r' (hr' | hr')
          · cases hr'
            exact hr.forward hf
          · exact (hweb r' (.inr hr')).forward hf
  | subscribeCategory w c =>
    cases hstep
    exact supplied_subscribe h w _
  | subscribePlayer w p =>
    cases hstep
    exact supplied_subscribe h w _
  | subscribeTatami w i =>
    simp only [step] at hstep
    split at hstep
    · cases hstep
      exact supplied_subscribe h w _
    · cases hstep
  | closeWeb w forced =>
    cases hstep
    refine supplied_setWebParticipant ?_ ?_
    · exact supplied_subscribe h w (.eraseParticipant w)
    · rintro r (hr | hr)
      · cases hr
      · exact (h.webParticipants w r (.inr hr)).forward (forward_subscribe s w _)
  | runHandler r now => exact supplied_runHandler h hready hstep

/-- In every run in which a tournament is handed out only if it is ready, no handler runs that needs the
tournament while there is none. -/
theorem run_present (es : List Event) (s : WebServer) (hes : Runs.Guarded step HandsOutReady es {})
    (hrun : Runs.run step es {} = some s) (r : ℕ) (handler : Handler) (requester : Requester)
    (queue : List (Handler × Requester)) (hqueue : (s.strands r).queue = (handler, requester) :: queue)
    (hneeds : handler.needsTournament = true) : (s.strands r).loaded.tournament.isSome = true := by
  have hinit : Supplied {} :=
    ⟨fun _ => trivial, by simp, by simp, by simp, fun _ => trivial, by rintro w r (h | h) <;> simp at h⟩
  have h : s.Supplied := by
    refine Runs.run_inv ?_ hinit hes hrun
    intro s e s' h hready hstep
    exact supplied_step h hready hstep
  have hfirst := h.queued r
  rw [hqueue] at hfirst
  exact hfirst.1 hneeds

/-- A master sends a tournament, and a viewer gets it. -/
def sentFirst : List Event :=
  [.readSync 0 "open" {} [] 0, .acquireTournament 0, .getTournament 0 "open", .findTournament 0, .join 0 0,
    .runHandler 0 1]

theorem run_present_sentFirst : ∃ s, Runs.run step sentFirst {} = some s ∧
    (s.strands 0).queue = [(.addParticipant 0, .nobody)] ∧
    (s.strands 0).loaded.tournament.isSome = true := by
  refine ⟨_, rfl, rfl, run_present sentFirst _ ?_ rfl 0 _ _ _ rfl rfl⟩
  refine ⟨trivial, trivial, trivial, ?_, trivial, ?_, trivial⟩
  · rintro p n hcall r hr
    cases hcall
    cases hr
    rfl
  · rintro x p n queue hqueue
    cases hqueue

/-- The close of a master is posted before the callback of `acquireTournament` runs, and a viewer gets the
tournament. -/
def closedFirst : List Event :=
  [.readSync 0 "open" {} [] 0, .closeTCP 0, .acquireTournament 0, .getTournament 0 "open", .findTournament 0,
    .join 0 0]

/-- The tournament is registered and never sent: the viewer is added while there is none. -/
theorem run_present_closedFirst : ∃ s, Runs.run step closedFirst {} = some s ∧
    (s.strands 0).queue = [(.addParticipant 0, .nobody)] ∧
    (s.strands 0).loaded.tournament = none ∧ s.step (.runHandler 0 1) = none :=
  ⟨_, rfl, rfl, rfl, rfl⟩

end WebServer

end JudoAssistant
