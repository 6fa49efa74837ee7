import JudoAssistant.Lib.Effect
import JudoAssistant.Web.Server

/-!
# The messages of a viewer

`WebParticipant` (`src/web/web_participant.cpp`) reads messages from its client and subscribes to a
tournament, or to a category, a player or a tatami of the tournament that it has.  It has none until the
callback of `getTournament` runs, and loses it when it is closed.  A message is the list of its bytes, as
characters.
-/

namespace JudoAssistant

open LoadedTournament Effect

/-- The pointers that are null where a handler uses them. -/
inductive NullPointer where
  | tournament
  deriving DecidableEq, Repr

/-- `std::isspace` -/
def isspace (c : Char) : Bool := c == ' ' || decide (9 ≤ c.toNat ∧ c.toNat ≤ 13)

/-- `std::stoul`, or none where it throws. -/
def stoul (str : List Char) : Option ℕ :=
  let str := str.dropWhile isspace
  let negative := str.head? = some '-'
  let digits := (if negative ∨ str.head? = some '+' then str.tail else str).takeWhile Char.isDigit
  let value := digits.foldl (fun n c => 10 * n + (c.toNat - '0'.toNat)) 0
  if digits = [] ∨ 2 ^ 64 ≤ value then none
  else some (if negative then (2 ^ 64 - value) % 2 ^ 64 else value)

/-- The value of an unsigned integer with 32 bits. -/
def stoul32 (str : List Char) : Option ℕ := (stoul str).map fun n => n % 2 ^ 32

/-- `WebParticipant::validateMessage` -/
def WebParticipant.validateMessage (message : List Char) : Bool :=
  !message.isEmpty && decide (message.length ≤ 200) &&
    message.all fun c => ('a' ≤ c && c ≤ 'z') || ('A' ≤ c && c ≤ 'Z') || ('0' ≤ c && c ≤ '9') ||
      c == '-' || c == ' '

namespace WebServer

variable (s : WebServer) (participant : ℕ)

/-- `WebParticipant::subscribeTournament` -/
def subscribeTournament (webName : List Char) : WebServer × Bool :=
  (s.getTournament participant (String.ofList webName), true)

/-- `WebParticipant::subscribeCategory` -/
def subscribeCategory (str : List Char) : WebServer × Bool :=
  match (s.webParticipants participant).tournament, stoul32 str with
  | none, _ => (s, false)
  | some _, none => (s, false)
  | some _, some id => (s.subscribe participant (.subscribeCategory participant ⟨id⟩), true)

/-- `WebParticipant::subscribePlayer` -/
def subscribePlayer (str : List Char) : WebServer × Bool :=
  match (s.webParticipants participant).tournament, stoul32 str with
  | none, _ => (s, false)
  | some _, none => (s, false)
  | some _, some id => (s.subscribe participant (.subscribePlayer participant ⟨id⟩), true)

/-- `WebParticipant::subscribeTatami`, which uses the tournament without a check. -/
def subscribeTatami (str : List Char) : Except NullPointer (WebServer × Bool) :=
  match stoul32 str, (s.webParticipants participant).tournament with
  | none, _ => .ok (s, false)
  | some _, none => .error .tournament
  | some index, some _ => .ok (s.subscribe participant (.subscribeTatami participant index), true)

/-- `WebParticipant::parseMessage`.  The answers to `listTournaments` and `clock` need no tournament. -/
def parseMessage (message : List Char) : Except NullPointer (WebServer × Bool) :=
  if WebParticipant.validateMessage message = false then .ok (s, false)
  else match message.splitOn ' ' with
    | [] => .ok (s, false)
    | command :: arguments =>
      if command = "subscribeTournament".toList then match arguments with
        | [webName] => .ok (s.subscribeTournament participant webName)
        | _ => .ok (s, false)
      else if command = "subscribeCategory".toList then match arguments with
        | [id] => .ok (s.subscribeCategory participant id)
        | _ => .ok (s, false)
      else if command = "subscribePlayer".toList then match arguments with
        | [id] => .ok (s.subscribePlayer participant id)
        | _ => .ok (s, false)
      else if command = "subscribeTatami".toList then match arguments with
        | [index] => s.subscribeTatami participant index
        | _ => .ok (s, false)
      else .ok (s, decide (arguments = [] ∧ (command = "listTournaments".toList ∨ command = "clock".toList)))

/-- The handler of `listen`. -/
def listen (message : List Char) : Except NullPointer WebServer :=
  if (s.webParticipants participant).closePosted then .ok s
  else do
    let (s, _) ← s.parseMessage participant message
    return s

end WebServer

/-- A message that a web participant reads, or anything else that happens. -/
inductive WebEvent where
  | read (participant : ℕ) (message : List Char)
  | other (event : WebServer.Event)

namespace WebServer

/-- What a participant does that reads a message. -/
def Event.isRequest : Event → Bool
  | .getTournament _ _ | .subscribeCategory _ _ | .subscribePlayer _ _ | .subscribeTatami _ _ => true
  | _ => false

/-- The step for the runs.  The participants make their requests by reading messages. -/
def next (s : WebServer) : WebEvent → Option WebServer
  | .read participant message => (s.listen participant message).toOption
  | .other event => if event.isRequest then none else s.step event

/-- No null tournament is used. -/
def Handles (s : WebServer) (e : WebEvent) : Prop :=
  ∀ participant message, e = .read participant message → ∃ s', s.listen participant message = .ok s'

/-- The message asks for a tatami. -/
def AsksForTatami (message : List Char) : Prop :=
  ∃ index, message = "subscribeTatami".toList ++ ' ' :: index ∧ ' ' ∉ index ∧ (stoul index).isSome ∧
    WebParticipant.validateMessage message = true

/-- A message that asks for a tatami is read when the participant has a tournament. -/
def Sound (s : WebServer) (e : WebEvent) : Prop :=
  ∀ participant message, e = .read participant message → AsksForTatami message →
    (s.webParticipants participant).closePosted = false → (s.webParticipants participant).tournament.isSome

variable {s s' : WebServer} {participant : ℕ} {message : List Char}

/-! ### One message -/

theorem subscribeTatami_eq_error {str : List Char} {e : NullPointer} :
    s.subscribeTatami participant str = .error e ↔
      (stoul str).isSome ∧ (s.webParticipants participant).tournament = none := by
  unfold subscribeTatami stoul32
  cases e
  cases stoul str with
  | none => simp
  | some n => cases (s.webParticipants participant).tournament <;> simp

/-- The two parts of a message with one blank. -/
theorem splitOn_eq_pair {command argument : List Char} (hcommand : ' ' ∉ command) :
    message.splitOn ' ' = [command, argument] ↔ message = command ++ ' ' :: argument ∧ ' ' ∉ argument := by
  constructor
  · intro hparts
    have hmessage : message = command ++ ' ' :: argument := by
      have hjoin : [' '].intercalate (message.splitOn ' ') = message := List.intercalate_splitOn ' '
      rw [hparts] at hjoin
      simpa using hjoin.symm
    refine ⟨hmessage, fun hmem => ?_⟩
    rw [hmessage, List.splitOn_append_cons_self_of_not_mem hcommand, List.cons.injEq] at hparts
    obtain ⟨before, after, hargument⟩ := List.append_of_mem hmem
    have hsplit := hparts.2
    rw [hargument, List.splitOn_append_cons_self] at hsplit
    have hlength := congrArg List.length hsplit
    rw [List.length_append, List.length_singleton] at hlength
    have hbefore := List.length_pos_iff.2 (List.splitOn_ne_nil ' ' before)
    have hafter := List.length_pos_iff.2 (List.splitOn_ne_nil ' ' after)
    omega
  · rintro ⟨rfl, hargument⟩
    rw [List.splitOn_append_cons_self_of_not_mem hcommand, List.splitOn_eq_singleton hargument]

theorem asksForTatami_iff : AsksForTatami message ↔ WebParticipant.validateMessage message = true ∧
    ∃ index, message.splitOn ' ' = ["subscribeTatami".toList, index] ∧ (stoul index).isSome := by
  have hcommand : ' ' ∉ "subscribeTatami".toList := by decide
  constructor
  · rintro ⟨index, hmessage, hblank, hnumber, hvalid⟩
    exact ⟨hvalid, index, (splitOn_eq_pair hcommand).2 ⟨hmessage, hblank⟩, hnumber⟩
  · rintro ⟨hvalid, index, hparts, hnumber⟩
    obtain ⟨hmessage, hblank⟩ := (splitOn_eq_pair hcommand).1 hparts
    exact ⟨index, hmessage, hblank, hnumber, hvalid⟩

/-- Only the subscription to a tatami uses a tournament that is not there. -/
theorem parseMessage_eq_error {e : NullPointer} :
    s.parseMessage participant message = .error e ↔
      AsksForTatami message ∧ (s.webParticipants participant).tournament = none := by
  rw [asksForTatami_iff]
  unfold parseMessage
  split
  · next hvalid => simp [hvalid]
  · next hvalid =>
    rw [Bool.not_eq_false] at hvalid
    cases hparts : message.splitOn ' ' with
    | nil => simp
    | cons command arguments =>
      by_cases hcommand : command = "subscribeTatami".toList
      · subst hcommand
        simp only
        rw [if_neg (by decide), if_neg (by decide), if_neg (by decide), if_pos trivial]
        match arguments with
        | [] => simp
        | [index] => simp [subscribeTatami_eq_error, hvalid]
        | _ :: _ :: _ => simp
      · refine iff_of_false (fun herror => ?_) fun h => ?_
        · simp only [if_neg hcommand] at herror
          split_ifs at herror <;> split at herror <;> cases herror
        · obtain ⟨⟨-, index, hcons, -⟩, -⟩ := h
          exact hcommand (List.cons.inj hcons).1

theorem handles_iff {e : WebEvent} : Handles s e ↔ Sound s e := by
  unfold Handles Sound
  refine forall_congr' fun participant => forall_congr' fun message => imp_congr_right fun _ => ?_
  unfold listen
  cases (s.webParticipants participant).closePosted with
  | true => simp
  | false =>
    simp only [Bool.false_eq_true, if_false, forall_const]
    cases hparse : s.parseMessage participant message with
    | error e =>
      obtain ⟨hasks, hnone⟩ := parseMessage_eq_error.1 hparse
      refine iff_of_false ?_ fun h => ?_
      · rintro ⟨s', hs'⟩
        cases hs'
      · simpa [hnone] using h hasks
    | ok r =>
      refine iff_of_true ⟨r.1, rfl⟩ fun hasks => ?_
      by_contra hnone
      rw [Option.not_isSome_iff_eq_none] at hnone
      have herror := (parseMessage_eq_error (e := .tournament)).2 ⟨hasks, hnone⟩
      rw [hparse] at herror
      cases herror

/-! ### When a participant has a tournament -/

/-- A participant is told a tournament. -/
def Told (s : WebServer) (participant : ℕ) : Event → Prop
  | .join p index => p = participant ∧ (s.webParticipants p).closePosted = false ∧
    ∃ reference, (s.webParticipants p).pending[index]? = some (some reference)
  | _ => False

/-- A participant is closed. -/
def Closed (participant : ℕ) : Event → Prop
  | .closeWeb p _ => p = participant
  | _ => False

theorem tournament_setWebParticipant (p : ℕ) (web : WebParticipant) :
    ((s.setWebParticipant p web).webParticipants participant).tournament =
      if participant = p then web.tournament else (s.webParticipants participant).tournament := by
  unfold setWebParticipant
  by_cases hp : participant = p
  · rw [if_pos hp, hp]
    simp
  · rw [if_neg hp]
    simp [Function.update_of_ne hp]

theorem tournament_hand (p : ℕ) (result : Option ℕ) :
    ((s.hand p result).webParticipants participant).tournament = (s.webParticipants participant).tournament := by
  unfold hand
  rw [tournament_setWebParticipant]
  split
  · next hp => rw [hp]
  · rfl

theorem webParticipants_subscribe (p : ℕ) (handler : Handler) :
    (s.subscribe p handler).webParticipants = s.webParticipants := by
  unfold subscribe
  split <;> rfl

theorem tournament_finishLoad (p : ℕ) (webName : String) (reference : ℕ) (success : Bool) :
    ((s.finishLoad p webName reference success).webParticipants participant).tournament =
      (s.webParticipants participant).tournament := by
  unfold finishLoad
  split
  · exact tournament_hand p _
  · split
    · exact tournament_hand p _
    · exact tournament_hand p none

theorem tournament_answer (reference : ℕ) (success : Bool) (requester : Requester) :
    ((s.answer reference success requester).webParticipants participant).tournament =
      (s.webParticipants participant).tournament := by
  cases requester with
  | nobody => rfl
  | tcpParticipant p =>
    simp only [answer]
    split <;> rfl
  | getTournament p webName => exact tournament_finishLoad p webName reference success

theorem webParticipants_acquireTournament {index : ℕ} (hstep : s.acquireTournament index = some s') :
    s'.webParticipants = s.webParticipants := by
  unfold acquireTournament at hstep
  split at hstep
  · cases hstep
  · cases hstep
    simp only [startSync]
    split <;> split <;> rfl

/-- A participant keeps its tournament, unless it is told one or closed. -/
theorem tournament_step {e : Event} (htold : ¬Told s participant e) (hclosed : ¬Closed participant e)
    (hstep : s.step e = some s') :
    (s'.webParticipants participant).tournament = (s.webParticipants participant).tournament := by
  cases e with
  | readSync p n t l diff =>
    simp only [step, readSync] at hstep
    split at hstep <;> cases hstep
    rfl
  | acquireTournament index => rw [webParticipants_acquireTournament hstep]
  | receive p message =>
    simp only [step, receive] at hstep
    split at hstep <;> cases hstep
    rfl
  | closeTCP p =>
    cases hstep
    rfl
  | getTournament p n =>
    cases hstep
    rfl
  | findTournament index =>
    simp only [step, findTournament] at hstep
    split at hstep <;> cases hstep
    split
    · exact tournament_hand _ _
    · rfl
  | saveStatus index isSaved file outcome =>
    simp only [step, saveStatus] at hstep
    split at hstep <;> cases hstep
    split
    · rfl
    · exact tournament_hand _ none
  | join p index =>
    simp only [step, join] at hstep
    split at hstep
    · cases hstep
    · next result hresult =>
      cases hstep
      split
      · next reference hopen =>
        rw [tournament_setWebParticipant, if_neg]
        · rfl
        · rintro rfl
          exact htold ⟨rfl, hopen, reference, hresult⟩
      · rw [tournament_setWebParticipant]
        split
        · next hp => rw [hp]
        · rfl
  | subscribeCategory p id =>
    cases hstep
    rw [webParticipants_subscribe]
  | subscribePlayer p id =>
    cases hstep
    rw [webParticipants_subscribe]
  | subscribeTatami p index =>
    simp only [step] at hstep
    split at hstep <;> cases hstep
    rw [webParticipants_subscribe]
  | closeWeb p forced =>
    cases hstep
    have hne : participant ≠ p := fun h => hclosed h.symm
    show ((((s.subscribe p (.eraseParticipant p)).setWebParticipant p _).webParticipants participant).tournament) = _
    rw [tournament_setWebParticipant, if_neg hne, webParticipants_subscribe]
  | runHandler reference now =>
    simp only [step, runHandler] at hstep
    split at hstep
    · cases hstep
    · obtain ⟨r, -, rfl⟩ := Option.map_eq_some_iff.1 hstep
      exact tournament_answer _ _ _

theorem tournament_told {e : Event} (htold : Told s participant e) (hstep : s.step e = some s') :
    (s'.webParticipants participant).tournament.isSome := by
  cases e with
  | join p index =>
    obtain ⟨rfl, hopen, reference, hpending⟩ := htold
    simp only [step, join, hpending, hopen] at hstep
    cases hstep
    rw [tournament_setWebParticipant, if_pos rfl]
    rfl
  | _ => exact htold.elim

theorem tournament_closed {e : Event} (hclosed : Closed participant e) (hstep : s.step e = some s') :
    (s'.webParticipants participant).tournament = none := by
  cases e with
  | closeWeb p forced =>
    cases hclosed
    cases hstep
    unfold closeWeb
    rw [tournament_setWebParticipant, if_pos rfl]
  | _ => exact hclosed.elim

theorem tournament_getTournament (p : ℕ) (webName : String) :
    ((s.getTournament p webName).webParticipants participant).tournament = (s.webParticipants participant).tournament :=
  tournament_step (e := .getTournament p webName) id id rfl

/-- Reading a message leaves the tournaments of the participants alone. -/
theorem tournament_parseMessage {p : ℕ} {r : WebServer × Bool} (h : s.parseMessage p message = .ok r) :
    (r.1.webParticipants participant).tournament = (s.webParticipants participant).tournament := by
  have hcategory (str : List Char) : (s.subscribeCategory p str).1.webParticipants = s.webParticipants := by
    unfold subscribeCategory
    split
    · rfl
    · rfl
    · exact webParticipants_subscribe p _
  have hplayer (str : List Char) : (s.subscribePlayer p str).1.webParticipants = s.webParticipants := by
    unfold subscribePlayer
    split
    · rfl
    · rfl
    · exact webParticipants_subscribe p _
  have htatami (str : List Char) (h : s.subscribeTatami p str = .ok r) : r.1.webParticipants = s.webParticipants := by
    unfold subscribeTatami at h
    split at h <;> cases h
    · rfl
    · exact webParticipants_subscribe p _
  unfold parseMessage at h
  split at h
  · cases h
    rfl
  · split at h
    · cases h
      rfl
    · split_ifs at h
      · split at h <;> cases h
        · exact tournament_getTournament p _
        · rfl
      · split at h <;> cases h
        · rw [hcategory]
        · rfl
      · split at h <;> cases h
        · rw [hplayer]
        · rfl
      · split at h
        · rw [htatami _ h]
        · cases h
          rfl
      · cases h
        rfl

theorem tournament_listen {p : ℕ} (h : s.listen p message = .ok s') :
    (s'.webParticipants participant).tournament = (s.webParticipants participant).tournament := by
  unfold listen at h
  split at h
  · cases h
    rfl
  · obtain ⟨r, hr, hs'⟩ := except_bind_ok.1 h
    cases hs'
    exact tournament_parseMessage hr

/-- A participant was told a tournament and has not been closed since. -/
def Subscribed (participant : ℕ) (es : List WebEvent) : Prop :=
  ∃ es₁ event es₂ s, es = es₁ ++ .other event :: es₂ ∧ Runs.run next es₁ {} = some s ∧
    Told s participant event ∧ ∀ e, .other e ∈ es₂ → ¬Closed participant e

theorem subscribed_concat {es : List WebEvent} {e : WebEvent} (hrun : Runs.run next es {} = some s) :
    Subscribed participant (es ++ [e]) ↔
      (∃ event, e = .other event ∧ Told s participant event) ∨
        Subscribed participant es ∧ ∀ event, e = .other event → ¬Closed participant event := by
  constructor
  · rintro ⟨es₁, event, es₂, s₁, hes, hrun₁, htold, hopen⟩
    obtain rfl | ⟨es₃, e', rfl⟩ := List.eq_nil_or_concat' es₂
    · obtain ⟨rfl, he⟩ := List.append_inj' hes rfl
      cases hrun.symm.trans hrun₁
      exact .inl ⟨event, List.head_eq_of_cons_eq he, htold⟩
    · rw [← List.cons_append, ← List.append_assoc] at hes
      obtain ⟨rfl, he⟩ := List.append_inj' hes rfl
      obtain rfl := List.head_eq_of_cons_eq he
      refine .inr
        ⟨⟨es₁, event, es₃, s₁, rfl, hrun₁, htold, fun e he => hopen e (List.mem_append_left _ he)⟩, ?_⟩
      rintro event' rfl
      exact hopen event' (List.mem_append_right es₃ List.mem_cons_self)
  · rintro (⟨event, rfl, htold⟩ | ⟨⟨es₁, event, es₂, s₁, rfl, hrun₁, htold, hopen⟩, hlast⟩)
    · exact ⟨es, event, [], s, rfl, hrun, htold, fun e he => absurd he List.not_mem_nil⟩
    · refine ⟨es₁, event, es₂ ++ [e], s₁, by simp, hrun₁, htold, fun e' he' => ?_⟩
      obtain he' | he' := List.mem_append.1 he'
      · exact hopen e' he'
      · exact hlast e' (List.mem_singleton.1 he').symm

/-- A participant has a tournament if and only if it was told one and has not been closed since. -/
theorem isSome_tournament_run {es : List WebEvent} (hrun : Runs.run next es {} = some s) :
    (s.webParticipants participant).tournament.isSome ↔ Subscribed participant es := by
  induction es using List.reverseRecOn generalizing s with
  | nil =>
    cases hrun
    refine iff_of_false Bool.false_ne_true ?_
    rintro ⟨es₁, event, es₂, s₁, hes, -⟩
    exact absurd hes.symm (List.append_ne_nil_of_right_ne_nil es₁ (List.cons_ne_nil _ es₂))
  | append_singleton es e ih =>
    rw [Runs.run_append] at hrun
    obtain ⟨s₁, hrun, hlast⟩ := Option.bind_eq_some_iff.1 hrun
    have hstep : s₁.next e = some s := by
      obtain ⟨s', hs', hnil⟩ := Runs.run_cons hlast
      cases hnil
      exact hs'
    rw [subscribed_concat hrun, ← ih hrun]
    cases e with
    | read p m =>
      obtain ⟨s', hs', heq⟩ : ∃ s', s₁.listen p m = .ok s' ∧ s' = s := by
        cases hlisten : s₁.listen p m with
        | error e => simp [next, hlisten, Except.toOption] at hstep
        | ok s' =>
          simp only [next, hlisten, Except.toOption, Option.some.injEq] at hstep
          exact ⟨s', rfl, hstep⟩
      subst heq
      rw [tournament_listen hs']
      simp
    | other event =>
      have hstep : s₁.step event = some s := by
        simp only [next] at hstep
        split at hstep
        · cases hstep
        · exact hstep
      simp only [WebEvent.other.injEq, exists_eq_left', forall_eq']
      by_cases htold : Told s₁ participant event
      · exact iff_of_true (tournament_told htold hstep) (.inl htold)
      · by_cases hclosed : Closed participant event
        · simp [tournament_closed hclosed hstep, htold, hclosed]
        · simp [tournament_step htold hclosed hstep, htold, hclosed]

/-- No null tournament is used in a run, if and only if every message that asks for a tatami is read after the callback
of `getTournament` has told the participant a tournament, and before it is closed. -/
theorem run_listen_iff (es : List WebEvent) :
    Runs.Guarded next Handles es {} ↔ ∀ es₁ participant message es₂ s,
      es = es₁ ++ .read participant message :: es₂ →
      Runs.run next es₁ {} = some s → (s.webParticipants participant).closePosted = false →
        AsksForTatami message → Subscribed participant es₁ := by
  rw [Runs.guarded_iff_forall]
  constructor
  · intro hall es₁ p m es₂ s hes hrun hopen hasks
    have hsound := handles_iff.1 (hall es₁ _ es₂ s hes hrun)
    exact (isSome_tournament_run hrun).1 (hsound p m rfl hasks hopen)
  · intro hall es₁ e es₂ s hes hrun
    refine handles_iff.2 ?_
    rintro p m rfl hasks hopen
    exact (isSome_tournament_run hrun).2 (hall es₁ p m es₂ s hes hrun hopen hasks)

/-- A client asks for a tatami before it has a tournament. -/
def earlyTatami : List WebEvent := [.read 0 "subscribeTatami 0".toList]

theorem not_handles_earlyTatami :
    ({} : WebServer).listen 0 "subscribeTatami 0".toList = .error .tournament ∧
    ¬Runs.Guarded next Handles earlyTatami {} := by
  refine ⟨rfl, fun h => ?_⟩
  obtain ⟨s', hs'⟩ := h.1 0 _ rfl
  cases hs'

end WebServer

end JudoAssistant
