import JudoAssistant.Web.Participant

/-!
# The tournament of a viewer

The callback of `getTournament` adds a web participant to the tournament that was found and makes it the
tournament of the participant.  It does not erase the participant from the tournament that it had before,
and it does not ask whether the participant has been closed by an error
(`src/web/web_participant.cpp`).
-/

namespace JudoAssistant

open LoadedTournament Runs

variable {p : ℕ}

/-! ### The list of a tournament -/

/-- Whether a participant is in the list of a tournament after a handler, if it was there before or not. -/
def LoadedTournament.Handler.lists (p : ℕ) : Handler → Bool → Bool
  | .addParticipant q, before => decide (q = p) || before
  | .eraseParticipant q, before => decide (q ≠ p) && before
  | _, before => before

/-- The handlers that leave the list of participants alone. -/
def LoadedTournament.Handler.keepsParticipants : Handler → Bool
  | .addParticipant _ | .eraseParticipant _ => false
  | _ => true

namespace LoadedTournament

variable {s s' : LoadedTournament} {now : ℕ} {ok : Bool}

theorem webParticipants_dispatch {actionId : ClientActionId} {action : ActionObject}
    (h : s.dispatch now actionId action = some (s', ok)) : s'.webParticipants = s.webParticipants := by
  unfold dispatch at h
  split at h
  · cases h
  · next t ht =>
    simp only at h
    split at h
    · cases h
      obtain ⟨actionList, actionIds, heq⟩ := push_eq s now actionId (action.redo t)
      rw [heq]
    · split at h <;> cases h
      rfl

theorem webParticipants_undo {actionId : ClientActionId} (h : s.undo now actionId = some (s', ok)) :
    s'.webParticipants = s.webParticipants := by
  unfold undo at h
  split at h
  · split at h
    · cases h
    · obtain ⟨u, -, h⟩ := Option.bind_eq_some_iff.1 h
      split at h
      · cases h
        rfl
      · cases h
        rfl
      · split at h <;> cases h
        rfl
  · cases h
    rfl

theorem webParticipants_load (outcome : LoadOutcome) : (s.load now outcome).1.webParticipants = s.webParticipants := by
  unfold load
  split
  · rfl
  · split <;> rfl

theorem webParticipants_save {outcome : SaveOutcome} (h : s.save now outcome = some (s', ok)) :
    s'.webParticipants = s.webParticipants := by
  unfold save at h
  split at h
  · cases h
    rfl
  · split at h
    · cases h
    · cases outcome <;> cases h <;> rfl

theorem withTournament_ok {t : LoadedTournament} (h : s.withTournament t = some (s', ok)) : s' = t := by
  unfold withTournament at h
  split at h <;> cases h
  rfl

theorem webParticipants_handle {x : Handler} (hx : x.keepsParticipants = true) (h : s.handle now x = some (s', ok)) :
    s'.webParticipants = s.webParticipants := by
  cases x with
  | sync t l diff =>
    cases h
    rfl
  | dispatch actionId action => exact webParticipants_dispatch h
  | undo actionId => exact webParticipants_undo h
  | load outcome =>
    have hload := @webParticipants_load s now outcome
    rw [Option.some.inj h] at hload
    exact hload
  | save outcome => exact webParticipants_save h
  | addParticipant q => cases hx
  | eraseParticipant q => cases hx
  | subscribeCategory q id => rw [withTournament_ok h]
  | subscribePlayer q id => rw [withTournament_ok h]
  | subscribeTatami q index => rw [withTournament_ok h]

theorem lists_of_keepsParticipants {x : Handler} (hx : x.keepsParticipants = true) (before : Bool) :
    x.lists p before = before := by
  cases x <;> first | rfl | cases hx

/-- What a handler does to the list. -/
theorem mem_handle {x : Handler} (h : s.handle now x = some (s', ok)) :
    decide (p ∈ s'.webParticipants) = x.lists p (decide (p ∈ s.webParticipants)) := by
  cases hx : x.keepsParticipants with
  | true => rw [webParticipants_handle hx h, lists_of_keepsParticipants hx]
  | false =>
    cases x with
    | addParticipant q =>
      rw [withTournament_ok h]
      simp [Handler.lists, eq_comm]
    | eraseParticipant q =>
      cases h
      simp [Handler.lists, eraseParticipant, eq_comm]
    | _ => cases hx

end LoadedTournament

/-- Whether a participant is in the list of a tournament once the handlers that are posted have run. -/
def Strand.listed (p : ℕ) (a : Strand) : Bool :=
  a.queue.foldl (fun before x => x.1.lists p before) (decide (p ∈ a.loaded.webParticipants))

/-- No handler that is posted adds or erases the participant. -/
def Strand.Settled (p : ℕ) (a : Strand) : Prop :=
  ∀ x ∈ a.queue, x.1 ≠ .addParticipant p ∧ x.1 ≠ .eraseParticipant p

namespace Strand

variable {a : Strand}

theorem lists_of_ne {x : Handler} (hadd : x ≠ .addParticipant p) (herase : x ≠ .eraseParticipant p)
    (before : Bool) : x.lists p before = before := by
  cases x with
  | addParticipant q =>
    have hq : q ≠ p := fun h => hadd (by rw [h])
    simp [Handler.lists, hq]
  | eraseParticipant q =>
    have hq : q ≠ p := fun h => herase (by rw [h])
    simp [Handler.lists, hq]
  | _ => rfl

/-- Nothing is to come for a participant of a settled tournament. -/
theorem Settled.listed_iff (h : a.Settled p) : a.listed p = true ↔ p ∈ a.loaded.webParticipants := by
  have hfold : ∀ (queue : List (Handler × Requester)) (before : Bool),
      (∀ x ∈ queue, x.1 ≠ .addParticipant p ∧ x.1 ≠ .eraseParticipant p) →
      queue.foldl (fun before x => x.1.lists p before) before = before := by
    intro queue
    induction queue with
    | nil => exact fun _ _ => rfl
    | cons x queue ih =>
      intro before hqueue
      obtain ⟨hadd, herase⟩ := hqueue x List.mem_cons_self
      rw [List.foldl_cons, lists_of_ne hadd herase]
      exact ih before fun y hy => hqueue y (List.mem_cons_of_mem _ hy)
  rw [listed, hfold a.queue _ h, decide_eq_true_eq]

theorem listed_concat (x : Handler × Requester) :
    Strand.listed p { a with queue := a.queue ++ [x] } = x.1.lists p (a.listed p) := by
  unfold listed
  rw [List.foldl_append]
  rfl

theorem listed_run {now : ℕ} {x : Handler × Requester} {queue : List (Handler × Requester)}
    {s' : LoadedTournament} {ok : Bool}
    (hqueue : a.queue = x :: queue) (hrun : a.loaded.handle now x.1 = some (s', ok)) :
    Strand.listed p ⟨s', queue⟩ = a.listed p := by
  unfold listed
  rw [hqueue, List.foldl_cons, mem_handle hrun]

end Strand

namespace WebServer

variable {s s' : WebServer} {e : Event}

/-- Whether the participant is in the list of a tournament once the handlers that are posted have run. -/
def listed (s : WebServer) (r : ℕ) (p : ℕ) : Bool := (s.strands r).listed p

theorem listed_post (r : ℕ) (handler : Handler) (requester : Requester) (r' : ℕ) :
    (s.post r handler requester).listed r' p = if r' = r then handler.lists p (s.listed r p) else s.listed r' p := by
  unfold listed post
  by_cases hr : r' = r
  · rw [if_pos hr, hr]
    simp only [Function.update_self]
    exact Strand.listed_concat (handler, requester)
  · rw [if_neg hr]
    simp only [Function.update_of_ne hr]

/-- A handler for somebody else. -/
theorem listed_post_of_ne {r : ℕ} {handler : Handler} {requester : Requester} (hadd : handler ≠ .addParticipant p)
    (herase : handler ≠ .eraseParticipant p) (r' : ℕ) :
    (s.post r handler requester).listed r' p = s.listed r' p := by
  rw [listed_post, Strand.lists_of_ne hadd herase]
  split
  · next h => rw [h]
  · rfl

theorem listed_post_keeps {r : ℕ} {handler : Handler} {requester : Requester}
    (hkeeps : handler.keepsParticipants = true)
    (r' : ℕ) : (s.post r handler requester).listed r' p = s.listed r' p := by
  rw [listed_post, lists_of_keepsParticipants hkeeps]
  split
  · next h => rw [h]
  · rfl

theorem listed_subscribe_keeps {q : ℕ} {handler : Handler} (hkeeps : handler.keepsParticipants = true) (r : ℕ) :
    (s.subscribe q handler).listed r p = s.listed r p := by
  unfold subscribe
  split
  · exact listed_post_keeps hkeeps r
  · rfl

theorem listed_subscribe_of_ne {q : ℕ} {handler : Handler} (hadd : handler ≠ .addParticipant p)
    (herase : handler ≠ .eraseParticipant p) (r : ℕ) : (s.subscribe q handler).listed r p = s.listed r p := by
  unfold subscribe
  split
  · exact listed_post_of_ne hadd herase r
  · rfl

theorem strands_answer (r : ℕ) (success : Bool) (requester : Requester) :
    (s.answer r success requester).strands = s.strands := by
  cases requester with
  | nobody => rfl
  | tcpParticipant q =>
    simp only [answer]
    split <;> rfl
  | getTournament q webName =>
    simp only [answer, finishLoad]
    split
    · rfl
    · split <;> rfl

/-- A new tournament has no participants. -/
theorem listed_construct {file : Option SaveFile} {queue : List (Handler × Requester)}
    (hqueue : ∀ x ∈ queue, x.1.isLoad = true) (hnew : s.listed s.nextReference p = false) (r : ℕ) :
    (s.construct file queue).listed r p = s.listed r p := by
  unfold listed construct
  by_cases hr : r = s.nextReference
  · subst hr
    simp only [Function.update_self]
    have hsettled : Strand.Settled p ⟨{ file := file }, queue⟩ := by
      intro x hx
      have hload := hqueue x hx
      constructor <;> rintro heq <;> rw [heq] at hload <;> cases hload
    refine Eq.trans ?_ hnew.symm
    rw [Bool.eq_false_iff, ne_eq, hsettled.listed_iff]
    exact Finset.notMem_empty p
  · simp only [Function.update_of_ne hr]

theorem listed_runHandler {r now : ℕ} (hstep : s.runHandler r now = some s') (r' : ℕ) :
    s'.listed r' p = s.listed r' p := by
  unfold runHandler at hstep
  cases hqueue : (s.strands r).queue with
  | nil => simp [hqueue] at hstep
  | cons x queue =>
    simp only [hqueue] at hstep
    obtain ⟨⟨loaded, ok⟩, hrun, rfl⟩ := Option.map_eq_some_iff.1 hstep
    unfold listed
    rw [strands_answer]
    by_cases hr : r' = r
    · subst hr
      simp only [Function.update_self]
      exact Strand.listed_run hqueue hrun
    · simp only [Function.update_of_ne hr]

theorem listed_acquireTournament {index : ℕ} (hnew : s.listed s.nextReference p = false)
    (hstep : s.acquireTournament index = some s') (r : ℕ) : s'.listed r p = s.listed r p := by
  unfold acquireTournament at hstep
  split at hstep
  · cases hstep
  · next a ha =>
    cases hstep
    let s₁ : WebServer := { s with acquisitions := s.acquisitions.eraseIdx index }
    have hfound : (s₁.findOrRegister a.webName).1.listed r p = s.listed r p := by
      unfold findOrRegister
      split
      · rfl
      · exact @listed_construct p s₁ none [] (fun x hx => absurd hx List.not_mem_nil) hnew r
    refine Eq.trans ?_ hfound
    simp only [startSync]
    split
    · exact listed_post_keeps rfl r
    · rfl

/-- A participant stays where it is listed, unless it is told a tournament or closed. -/
theorem listed_step (hnew : s.listed s.nextReference p = false) (htold : ¬Told s p e) (hclosed : ¬Closed p e)
    (hstep : s.step e = some s') (r : ℕ) : s'.listed r p = s.listed r p := by
  cases e with
  | readSync q n t l diff =>
    simp only [step, readSync] at hstep
    split at hstep <;> cases hstep
    rfl
  | acquireTournament index => exact listed_acquireTournament hnew hstep r
  | receive q message =>
    simp only [step, receive] at hstep
    split at hstep <;> cases hstep
    refine listed_post_keeps ?_ r
    cases message <;> rfl
  | closeTCP q =>
    cases hstep
    rfl
  | getTournament q n =>
    cases hstep
    rfl
  | findTournament index =>
    simp only [step, findTournament] at hstep
    split at hstep <;> cases hstep
    split <;> rfl
  | saveStatus index isSaved file outcome =>
    simp only [step, saveStatus] at hstep
    split at hstep <;> cases hstep
    split
    · refine listed_construct (fun x hx => ?_) hnew r
      rw [List.mem_singleton.1 hx]
      rfl
    · rfl
  | join q index =>
    simp only [step, join] at hstep
    split at hstep
    · cases hstep
    · next result hresult =>
      cases hstep
      split
      · next reference hopen =>
        have hadd : Handler.addParticipant q ≠ .addParticipant p := by
          rintro ⟨⟩
          exact htold ⟨rfl, hopen, reference, hresult⟩
        have herase : Handler.addParticipant q ≠ .eraseParticipant p := Handler.noConfusion
        exact listed_post_of_ne hadd herase r
      · rfl
  | subscribeCategory q id =>
    cases hstep
    exact listed_subscribe_keeps rfl r
  | subscribePlayer q id =>
    cases hstep
    exact listed_subscribe_keeps rfl r
  | subscribeTatami q index =>
    simp only [step] at hstep
    split at hstep <;> cases hstep
    exact listed_subscribe_keeps rfl r
  | closeWeb q forced =>
    cases hstep
    have hadd : Handler.eraseParticipant q ≠ .addParticipant p := Handler.noConfusion
    have herase : Handler.eraseParticipant q ≠ .eraseParticipant p := by
      rintro ⟨⟩
      exact hclosed rfl
    exact listed_subscribe_of_ne hadd herase r
  | runHandler r' now => exact listed_runHandler hstep r

/-! ### The tournaments that are known -/

/-- Whoever knows a tournament knows one that was constructed. -/
structure Constructed (s : WebServer) : Prop where
  loading : ∀ r, ∀ x ∈ (s.strands r).queue, ∀ w n, x.2 = .getTournament w n → r < s.nextReference
  registered : ∀ n r, s.loadedTournaments n = some r → r < s.nextReference
  web : ∀ w r, (s.webParticipants w).tournament = some r ∨ some r ∈ (s.webParticipants w).pending →
    r < s.nextReference

namespace Constructed

theorem setParticipant (h : s.Constructed) (q : ℕ) (state : TCPParticipant) :
    (s.setParticipant q state).Constructed :=
  ⟨h.loading, h.registered, h.web⟩

theorem post (h : s.Constructed) (r : ℕ) (handler : Handler) {requester : Requester}
    (hrequester : ∀ w n, requester ≠ .getTournament w n) : (s.post r handler requester).Constructed := by
  refine ⟨fun r' x hx => ?_, h.registered, h.web⟩
  by_cases hr : r' = r
  · subst hr
    simp only [WebServer.post, Function.update_self, List.mem_append, List.mem_singleton] at hx
    obtain hx | rfl := hx
    · exact h.loading r' x hx
    · exact fun w n heq => absurd heq (hrequester w n)
  · simp only [WebServer.post, Function.update_of_ne hr] at hx
    exact h.loading r' x hx

theorem subscribe (h : s.Constructed) (q : ℕ) (handler : Handler) : (s.subscribe q handler).Constructed := by
  unfold WebServer.subscribe
  split
  · exact h.post _ handler fun _ _ h => nomatch h
  · exact h

theorem setWebParticipant (h : s.Constructed) {w : ℕ} {state : WebParticipant}
    (hstate : ∀ r, state.tournament = some r ∨ some r ∈ state.pending → r < s.nextReference) :
    (s.setWebParticipant w state).Constructed := by
  refine ⟨h.loading, h.registered, fun w' r => ?_⟩
  by_cases hw : w' = w
  · subst hw
    simp only [WebServer.setWebParticipant, Function.update_self]
    exact hstate r
  · simp only [WebServer.setWebParticipant, Function.update_of_ne hw]
    exact h.web w' r

theorem hand (h : s.Constructed) {w : ℕ} {result : Option ℕ}
    (hresult : ∀ r, result = some r → r < s.nextReference) :
    (s.hand w result).Constructed := by
  refine h.setWebParticipant fun r hr => ?_
  obtain hr | hr := hr
  · exact h.web w r (.inl hr)
  · obtain hr | hr := List.mem_append.1 hr
    · exact h.web w r (.inr hr)
    · exact hresult r (List.mem_singleton.1 hr).symm

theorem register (h : s.Constructed) {n : String} {r : ℕ} (hr : r < s.nextReference) :
    (s.register n r).Constructed := by
  refine ⟨h.loading, fun n' r' hr' => ?_, h.web⟩
  by_cases hn : n' = n
  · subst hn
    simp only [WebServer.register, Function.update_self, Option.some.injEq] at hr'
    exact hr' ▸ hr
  · simp only [WebServer.register, Function.update_of_ne hn] at hr'
    exact h.registered n' r' hr'

theorem construct (h : s.Constructed) (file : Option SaveFile) (queue : List (Handler × Requester)) :
    (s.construct file queue).Constructed := by
  have hlt : ∀ {r : ℕ}, r < s.nextReference → r < s.nextReference + 1 := fun h => h.trans (Nat.lt_succ_self _)
  refine ⟨fun r x hx w n heq => ?_, fun n r hr => hlt (h.registered n r hr), fun w r hr => hlt (h.web w r hr)⟩
  by_cases hr : r = s.nextReference
  · exact hr ▸ Nat.lt_succ_self _
  · simp only [WebServer.construct, Function.update_of_ne hr] at hx
    exact hlt (h.loading r x hx w n heq)

theorem finishLoad (h : s.Constructed) {w : ℕ} {n : String} {r : ℕ} {success : Bool} (hr : r < s.nextReference) :
    (s.finishLoad w n r success).Constructed := by
  unfold WebServer.finishLoad
  split
  · next r' hr' => exact h.hand fun r'' heq => Option.some.inj heq ▸ h.registered n r' hr'
  · split
    · exact (h.register hr).hand fun r'' heq => Option.some.inj heq ▸ hr
    · exact h.hand (by rintro r ⟨⟩)

theorem acquireTournament (h : s.Constructed) {index : ℕ} (hstep : s.acquireTournament index = some s') :
    s'.Constructed := by
  unfold WebServer.acquireTournament at hstep
  split at hstep
  · cases hstep
  · next a ha =>
    cases hstep
    have h' : ({ s with acquisitions := s.acquisitions.eraseIdx index } : WebServer).Constructed :=
      ⟨h.loading, h.registered, h.web⟩
    have hfound : (WebServer.findOrRegister { s with acquisitions := s.acquisitions.eraseIdx index }
        a.webName).1.Constructed := by
      unfold findOrRegister
      split
      · exact h'
      · exact (h'.construct none []).register (Nat.lt_succ_self _)
    simp only [startSync]
    split
    · exact (hfound.post _ _ (by rintro _ _ ⟨⟩)).setParticipant _ _
    · exact hfound

theorem runHandler (h : s.Constructed) {r now : ℕ} (hstep : s.runHandler r now = some s') : s'.Constructed := by
  unfold WebServer.runHandler at hstep
  cases hqueue : (s.strands r).queue with
  | nil => simp [hqueue] at hstep
  | cons x queue =>
    simp only [hqueue] at hstep
    obtain ⟨⟨loaded, ok⟩, -, rfl⟩ := Option.map_eq_some_iff.1 hstep
    have hmem : ∀ y ∈ queue, y ∈ (s.strands r).queue := fun y hy => hqueue ▸ List.mem_cons_of_mem x hy
    have hran : (s.ran r loaded queue).Constructed := by
      refine ⟨fun r' y hy => ?_, h.registered, h.web⟩
      by_cases hr : r' = r
      · subst hr
        simp only [ran, Function.update_self] at hy
        exact h.loading r' y (hmem y hy)
      · simp only [ran, Function.update_of_ne hr] at hy
        exact h.loading r' y hy
    cases hx : x.2 with
    | nobody => exact hran
    | tcpParticipant q =>
      simp only [answer]
      split
      · exact hran.setParticipant q _
      · exact hran
    | getTournament w n => exact hran.finishLoad (h.loading r x (hqueue ▸ List.mem_cons_self) w n hx)

theorem step (h : s.Constructed) (hstep : s.step e = some s') : s'.Constructed := by
  cases e with
  | readSync q n t l diff =>
    simp only [WebServer.step, readSync] at hstep
    split at hstep <;> cases hstep
    exact ⟨h.loading, h.registered, h.web⟩
  | acquireTournament index => exact h.acquireTournament hstep
  | receive q message =>
    simp only [WebServer.step, receive] at hstep
    split at hstep <;> cases hstep
    exact (@post s h _ _ (.tcpParticipant q) (by rintro _ _ ⟨⟩)).setParticipant q _
  | closeTCP q =>
    cases hstep
    exact h.setParticipant q _
  | getTournament q n =>
    cases hstep
    exact ⟨h.loading, h.registered, h.web⟩
  | findTournament index =>
    simp only [WebServer.step, findTournament] at hstep
    split at hstep
    · cases hstep
    · next w n hcall =>
      cases hstep
      have h' : ({ s with calls := s.calls.eraseIdx index } : WebServer).Constructed :=
        ⟨h.loading, h.registered, h.web⟩
      split
      · next r hr => exact h'.hand fun r' heq => Option.some.inj heq ▸ h.registered n r hr
      · exact ⟨h.loading, h.registered, h.web⟩
  | saveStatus index isSaved file outcome =>
    simp only [WebServer.step, saveStatus] at hstep
    split at hstep <;> cases hstep
    have h' : ({ s with lookups := s.lookups.eraseIdx index } : WebServer).Constructed :=
      ⟨h.loading, h.registered, h.web⟩
    split
    · exact h'.construct file _
    · exact h'.hand (by rintro r ⟨⟩)
  | join q index =>
    simp only [WebServer.step, join] at hstep
    split at hstep
    · cases hstep
    · next result hresult =>
      cases hstep
      have hpending : ∀ r, some r ∈ (s.webParticipants q).pending.eraseIdx index → r < s.nextReference :=
        fun r hr => h.web q r (.inr (List.mem_of_mem_eraseIdx hr))
      split
      · next reference hopen =>
        refine (@post s h _ _ .nobody (by rintro _ _ ⟨⟩)).setWebParticipant fun r hr => ?_
        obtain hr | hr := hr
        · exact Option.some.inj hr ▸ h.web q reference (.inr (List.mem_of_getElem? hresult))
        · exact hpending r hr
      · refine h.setWebParticipant fun r hr => ?_
        exact hr.elim (fun hr => h.web q r (.inl hr)) (hpending r)
  | subscribeCategory q id =>
    cases hstep
    exact h.subscribe q _
  | subscribePlayer q id =>
    cases hstep
    exact h.subscribe q _
  | subscribeTatami q index =>
    simp only [WebServer.step] at hstep
    split at hstep <;> cases hstep
    exact h.subscribe q _
  | closeWeb q forced =>
    cases hstep
    refine (h.subscribe q (.eraseParticipant q)).setWebParticipant fun r hr => ?_
    obtain hr | hr := hr
    · cases hr
    · exact (h.subscribe q (.eraseParticipant q)).web q r (.inr (by rw [webParticipants_subscribe]; exact hr))
  | runHandler r now => exact h.runHandler hstep

end Constructed

/-! ### One tournament at a time -/

/-- The event closes the participant. -/
def closes (p : ℕ) : Event → Bool
  | .closeWeb q _ => decide (q = p)
  | _ => false

/-- The step, with a note of whether the participant has been closed. -/
def watch (p : ℕ) (x : WebServer × Bool) (e : Event) : Option (WebServer × Bool) :=
  (x.1.step e).map fun s' => (s', x.2 || closes p e)

/-- Once the handlers that are posted have run, the participant is in the list of no tournament but its own, and in none
if it has been closed. -/
def Single (p : ℕ) (x : WebServer × Bool) : Prop :=
  ∀ r, x.1.listed r p = true → x.2 = false ∧ (x.1.webParticipants p).tournament = some r

/-- A participant that is told a tournament has not been closed and has no other one. -/
def ToldFirst (p : ℕ) (x : WebServer × Bool) (e : Event) : Prop :=
  ∀ index r, e = .join p index → (x.1.webParticipants p).closePosted = false →
    (x.1.webParticipants p).pending[index]? = some (some r) →
    x.2 = false ∧ ∀ r', (x.1.webParticipants p).tournament = some r' → r' = r

/-- The participant is listed where its tournament is. -/
structure ListedOnce (p : ℕ) (x : WebServer × Bool) : Prop where
  constructed : x.1.Constructed
  listed : ∀ r, x.1.listed r p = true ↔ (x.1.webParticipants p).tournament = some r
  closed : x.2 = true → (x.1.webParticipants p).tournament = none

variable {x x' : WebServer × Bool}

theorem ListedOnce.single (h : ListedOnce p x) : Single p x := by
  intro r hr
  have htournament := (h.listed r).1 hr
  refine ⟨Bool.eq_false_iff.2 fun hclosed => ?_, htournament⟩
  rw [h.closed hclosed] at htournament
  cases htournament

/-- A participant that is told a tournament is added to its list, and stays in the others. -/
theorem step_told {index r : ℕ} (hopen : (s.webParticipants p).closePosted = false)
    (hpending : (s.webParticipants p).pending[index]? = some (some r)) :
    ∃ s', s.step (.join p index) = some s' ∧ (s'.webParticipants p).tournament = some r ∧
      ∀ r', s'.listed r' p = if r' = r then true else s.listed r' p := by
  refine ⟨_, by simp only [step, join, hpending, hopen]; rfl, ?_, fun r' => ?_⟩
  · rw [tournament_setWebParticipant, if_pos rfl]
  · refine (listed_post r (.addParticipant p) .nobody r').trans ?_
    simp [Handler.lists]

/-- A participant that is closed is erased from the list of its tournament. -/
theorem listed_closed {forced : Bool} (hstep : s.step (.closeWeb p forced) = some s')
    (hlisted : ∀ r, s.listed r p = true ↔ (s.webParticipants p).tournament = some r) (r : ℕ) :
    s'.listed r p = false := by
  cases hstep
  show (s.subscribe p (.eraseParticipant p)).listed r p = false
  unfold subscribe
  cases htournament : (s.webParticipants p).tournament with
  | none =>
    rw [Bool.eq_false_iff, ne_eq, hlisted, htournament]
    exact fun h => nomatch h
  | some r' =>
    rw [listed_post]
    split
    · simp [Handler.lists]
    · next hr =>
      rw [Bool.eq_false_iff, ne_eq, hlisted, htournament]
      exact fun heq => hr (Option.some.inj heq).symm

theorem closes_eq_false (hclosed : ¬Closed p e) : closes p e = false := by
  cases e with
  | closeWeb q forced => exact decide_eq_false hclosed
  | _ => rfl

theorem ListedOnce.watch (h : ListedOnce p x) (hfirst : ToldFirst p x e) (hstep : watch p x e = some x') :
    ListedOnce p x' := by
  obtain ⟨s', hs', rfl⟩ := Option.map_eq_some_iff.1 hstep
  have hconstructed := h.constructed.step hs'
  by_cases hclosed : Closed p e
  · cases e with
    | closeWeb q forced =>
      cases hclosed
      have hnone : (s'.webParticipants p).tournament = none :=
        @tournament_closed _ _ p (.closeWeb p forced) rfl hs'
      refine ⟨hconstructed, fun r => ?_, fun _ => hnone⟩
      rw [listed_closed hs' h.listed r, hnone]
      exact iff_of_false Bool.false_ne_true fun h => nomatch h
    | _ => exact hclosed.elim
  by_cases htold : Told x.1 p e
  · cases e with
    | join q index =>
      obtain ⟨rfl, hopen, r, hpending⟩ := htold
      obtain ⟨hclosed', honly⟩ := hfirst index r rfl hopen hpending
      obtain ⟨s₁, hs₁, htournament, hlisted⟩ := step_told hopen hpending
      cases hs₁.symm.trans hs'
      refine ⟨hconstructed, fun r' => ?_, fun hset => ?_⟩
      · rw [hlisted, htournament]
        split
        · next heq => exact iff_of_true rfl (by rw [heq])
        · next hne =>
          refine iff_of_false (fun hr' => hne (honly r' ((h.listed r').1 hr'))) fun heq => ?_
          exact hne (Option.some.inj heq).symm
      · rw [hclosed'] at hset
        cases hset
    | _ => exact htold.elim
  have hnew : x.1.listed x.1.nextReference p = false := by
    rw [Bool.eq_false_iff, ne_eq, h.listed]
    exact fun heq => Nat.lt_irrefl _ (h.constructed.web p _ (.inl heq))
  have htournament := tournament_step htold hclosed hs'
  refine ⟨hconstructed, fun r => ?_, fun hset => ?_⟩
  · rw [listed_step hnew htold hclosed hs', htournament]
    exact h.listed r
  · rw [closes_eq_false hclosed, Bool.or_false] at hset
    rw [htournament]
    exact h.closed hset

/-- A participant that is told a second tournament, or is told one after it was closed, is listed wrongly. -/
theorem ListedOnce.break (h : ListedOnce p x) (hfirst : ¬ToldFirst p x e) :
    ∃ x', WebServer.watch p x e = some x' ∧ ¬Single p x' := by
  unfold ToldFirst at hfirst
  push Not at hfirst
  obtain ⟨index, r, rfl, hopen, hpending, hother⟩ := hfirst
  obtain ⟨s', hs', htournament, hlisted⟩ := step_told hopen hpending
  refine ⟨(s', x.2 || false), by rw [WebServer.watch, hs']; rfl, fun hsingle => ?_⟩
  have hclosed : x.2 = false := by
    have hr := (hsingle r (by rw [hlisted, if_pos rfl])).1
    rwa [Bool.or_false] at hr
  obtain ⟨r', hr', hne⟩ := hother hclosed
  have hold := (hsingle r' (by rw [hlisted, if_neg hne]; exact (h.listed r').2 hr')).2
  exact hne (Option.some.inj (hold.symm.trans htournament))

theorem listedOnce_init (p : ℕ) : ListedOnce p ({}, false) where
  constructed := ⟨by simp, by simp, by simp⟩
  listed r := iff_of_false Bool.false_ne_true fun h => nomatch h
  closed h := nomatch h

/-- In a run a participant is only ever listed by the tournament that it has, and by none after it was closed, if
and only if it is told a tournament only when it has no other one and has not been closed.  Where no handler is posted
that adds or erases the participant, it is listed by the tournaments in whose lists it is. -/
theorem run_single_iff (p : ℕ) (es : List Event) :
    ((∀ es₁ x, es₁ <+: es → run (watch p) es₁ ({}, false) = some x → Single p x) ↔
      Guarded (watch p) (ToldFirst p) es ({}, false)) ∧
    ∀ (s : WebServer) r, (s.strands r).Settled p →
      (s.listed r p = true ↔ p ∈ (s.strands r).loaded.webParticipants) := by
  refine ⟨Iff.symm ?_, fun s r hsettled => hsettled.listed_iff⟩
  exact guarded_iff_forall_prefix (fun _ => ListedOnce.single) (fun _ _ _ _ h => h.watch) (fun _ _ _ h => h.break)
    (listedOnce_init p)

/-- A viewer subscribes to a tournament and then to another one. -/
def switches : List Event :=
  [.readSync 0 "first" {} [] 0, .acquireTournament 0, .readSync 1 "second" {} [] 0, .acquireTournament 0,
    .getTournament 0 "first", .findTournament 0, .join 0 0, .getTournament 0 "second", .findTournament 0,
    .join 0 0, .runHandler 0 1, .runHandler 0 1, .runHandler 1 1, .runHandler 1 1]

/-- Nothing is pending, and the viewer is in the lists of both tournaments. -/
theorem not_single_switches : ∃ s, run (watch 0) switches ({}, false) = some (s, false) ∧
    s.calls = [] ∧ s.lookups = [] ∧ (s.webParticipants 0).pending = [] ∧
    (s.strands 0).queue = [] ∧ (s.strands 1).queue = [] ∧
    0 ∈ (s.strands 0).loaded.webParticipants ∧ 0 ∈ (s.strands 1).loaded.webParticipants ∧
    (s.webParticipants 0).tournament = some 1 ∧ ¬Single 0 (s, false) := by
  refine ⟨_, rfl, rfl, rfl, rfl, rfl, rfl, by decide, by decide, rfl, fun h => ?_⟩
  cases (h 0 rfl).2

end WebServer

end JudoAssistant
