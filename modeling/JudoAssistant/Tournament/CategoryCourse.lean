import JudoAssistant.Tournament.Clock
import JudoAssistant.Tournament.IndexRuns

/-!
# Match events and resets, seen from one category

An event or a reset writes a match, moves it between the counters of its category and lets the draw system
follow.  On another category nothing of this can be seen.  In the category itself undoing writes the match
and the counters back.
-/

namespace JudoAssistant

open Effect Exec TournamentStore

/-! ### Other categories -/

/-- The action and those on its stack are on matches of the category. -/
inductive DrawAction.On (k : CategoryId) : DrawAction → Prop
  | setMatchPlayer {a : SetMatchPlayerAction} (h : a.combinedId.categoryId = k) : On k (.setMatchPlayer a)
  | setMatchBye {id : CombinedId} {bye : Bool} {saved : Saved} {stack : List DrawAction}
      (h : id.categoryId = k) (hstack : ∀ a ∈ stack, On k a) : On k (.setMatchBye id bye saved stack)

theorem DrawAction.Among.on {k : CategoryId} {players : PlayerId → Prop} {a : DrawAction} (h : a.Among k players) :
    a.On k := by
  cases a with
  | setMatchPlayer a => exact .setMatchPlayer h.1
  | setMatchBye id bye saved stack =>
    obtain ⟨hid, -, rfl⟩ := h
    exact .setMatchBye hid (by simp)

/-- The ids are in order, and one category is given. -/
def TournamentStore.Shows (id : CategoryId) (v : Option CategoryStore) (t : TournamentStore) : Prop :=
  t.Indexed ∧ t.categories id = v

section

variable {α : Type} {id k : CategoryId} {v : Option CategoryStore} {Q : DrawAction → Prop}

theorem keeps_shows {x : Exec α} (hindexed : Keeps Indexed x fun _ => True) (hframe : Frame (·.categories id) x) :
    Keeps (Shows id v) x fun _ => True :=
  fun _ _ _ ht hx => ⟨⟨(hindexed ht.1 hx).1, (hframe hx).trans ht.2⟩, trivial⟩

theorem frame_editCategory_other (hne : k ≠ id) {f : CategoryStore → Except Failure CategoryStore} :
    Frame (·.categories id) (editCategory k f) :=
  frame_editCategory fun _ _ _ _ _ => Function.update_of_ne hne.symm _ _

theorem frame_editMatch_other {x : CombinedId} (hne : x.categoryId ≠ id)
    {f : MatchStore → Except Failure MatchStore} :
    Frame (·.categories id) (editMatch x f) := frame_editCategory_other hne

theorem frame_moveCounter_other (hne : k ≠ id) {m : MatchStore} {source target : MatchStatus} :
    Frame (·.categories id) (moveCounter k m source target) := by
  refine (frame_editCategory_other hne).bind fun _ => frame_getCategory.bind fun c => ?_
  split
  · exact .pure
  · exact frame_editTatamis fun _ _ _ => rfl

theorem SetMatchPlayerAction.frame_redo_other {a : SetMatchPlayerAction} (hne : a.combinedId.categoryId ≠ id) :
    Frame (·.categories id) a.redoImpl := by
  refine Frame.get.bind fun t => ?_
  split
  · exact frame_getMatch.bind fun m => (frame_editMatch_other hne).bind fun _ =>
      (frame_addTo fun _ _ _ => rfl).bind fun _ => (frame_eraseFrom fun _ _ _ => rfl).bind fun _ => .pure
  · exact .pure

theorem SetMatchPlayerAction.frame_undo_other {a : SetMatchPlayerAction} (hne : a.combinedId.categoryId ≠ id) :
    Frame (·.categories id) a.undoImpl := by
  refine Frame.get.bind fun t => ?_
  split
  · exact (frame_editMatch_other hne).bind fun _ => (frame_addTo fun _ _ _ => rfl).bind fun _ =>
      frame_eraseFrom fun _ _ _ => rfl
  · exact .pure

theorem keeps_getMatch_id (x : CombinedId) :
    Keeps (Shows id v) (getMatch x) fun m => m.combinedId.categoryId = x.categoryId := by
  intro t m t' ht hm
  obtain ⟨c, t₁, hget, hlift⟩ := bind_ok.1 hm
  obtain ⟨hc, rfl⟩ := getCategory_ok.1 hget
  obtain ⟨hmem, rfl⟩ := lift_ok.1 hlift
  exact ⟨ht, ((ht.1.index _ c hc).ids m (CategoryStore.getMatch_mem hmem)).trans (ht.1.category _ c hc)⟩

theorem keeps_runAll {run : DrawAction → Exec DrawAction} {as stack : List DrawAction} {R : DrawAction → Prop}
    (hrun : ∀ a, R a → Keeps (Shows id v) (run a) Q) (has : ∀ a ∈ as, R a) (hstack : ∀ a ∈ stack, Q a) :
    Keeps (Shows id v) (runAll run as stack) fun stack => ∀ a ∈ stack, Q a := by
  induction as generalizing stack with
  | nil => exact .pure hstack
  | cons a as ih =>
    refine (hrun a (has a List.mem_cons_self)).bind fun b hb => ?_
    refine ih (fun c hc => has c (List.mem_cons_of_mem _ hc)) fun c hc => ?_
    rcases List.mem_cons.1 hc with rfl | hc
    · exact hb
    · exact hstack c hc

theorem keeps_updateDraw_other {run : DrawAction → Exec DrawAction} {stack : List DrawAction}
    (hrun : ∀ a, a.On k → Keeps (Shows id v) (run a) Q) (hstack : ∀ a ∈ stack, Q a) :
    Keeps (Shows id v) (updateDraw run k stack) fun stack => ∀ a ∈ stack, Q a := by
  intro t s t' ht hs
  simp only [updateDraw, bind_ok, getCategory_ok, read_ok] at hs
  obtain ⟨c, _, ⟨hc, rfl⟩, actions, _, ⟨hactions, rfl⟩, hs⟩ := hs
  have hamong : ∀ a ∈ actions, a.Among c.id fun _ => True :=
    DrawSystem.among_updateCategory (ht.1.index k c hc).ids (fun _ _ => trivial) (fun _ _ _ _ _ => trivial) hactions
  rw [ht.1.category k c hc] at hamong
  exact keeps_runAll hrun (fun a ha => (hamong a ha).on) hstack ht hs

theorem keeps_redoWith_other (hne : k ≠ id) {run : DrawAction → Exec DrawAction} {stack : List DrawAction}
    (hrun : ∀ a, a.On k → Keeps (Shows id v) (run a) Q) (hstack : ∀ a ∈ stack, Q a) (kind : MatchEventKind)
    {x : CombinedId} (hx : x.categoryId = k) (saved : Saved) :
    Keeps (Shows id v) (MatchEventAction.redoWith run kind.rules x saved stack) fun p => ∀ a ∈ p.2, Q a := by
  subst hx
  refine Keeps.get.bind fun t _ => ?_
  split
  · exact .pure hstack
  · refine Keeps.bind (.lift fun _ _ => trivial) fun m _ => ?_
    split
    · refine Keeps.bind (keeps_shows (course_indexed.event x kind _) (frame_editMatch_other hne)) fun _ _ =>
        Keeps.bind (P := fun stack => ∀ a ∈ stack, Q a) ?_ fun _ hs => .pure hs
      refine (keeps_getMatch_id x).bind fun m' hm' => Keeps.bind (P := fun _ => True) ?_ fun _ _ => ?_
      · rw [hm']
        exact keeps_doIf (keeps_shows (keeps_moveCounter_indexed _ _ _ _) (frame_moveCounter_other hne))
      · rw [hm']
        split
        · exact keeps_updateDraw_other hrun hstack
        · exact .pure hstack
    · exact .pure hstack

theorem DrawAction.keeps_redo_other (hne : k ≠ id) (n : ℕ) {a : DrawAction} (ha : a.On k) :
    Keeps (Shows id v) (a.redo n) (On k) := by
  have hplayer : ∀ n (a : SetMatchPlayerAction), a.combinedId.categoryId = k →
      Keeps (Shows id v) ((setMatchPlayer a).redo n) (On k) := by
    intro n a ha t b t' ht hb
    have hredo : (do
        let a ← a.redoImpl
        return setMatchPlayer a : Exec DrawAction) t = .ok b t' := by
      cases n <;> exact hb
    obtain ⟨a', t₁, ha', hb⟩ := bind_ok.1 hredo
    obtain ⟨rfl, rfl⟩ := pure_ok.1 hb
    have hkeeps := keeps_shows (a.keeps_redo_indexed) (SetMatchPlayerAction.frame_redo_other (ha ▸ hne)) ht ha'
    refine ⟨hkeeps.1, .setMatchPlayer ?_⟩
    simp only [SetMatchPlayerAction.redoImpl, bind_ok, get_ok] at ha'
    obtain ⟨_, _, ⟨rfl, rfl⟩, ha'⟩ := ha'
    split at ha'
    · simp only [bind_ok, pure_ok] at ha'
      obtain ⟨_, _, _, _, _, _, _, _, _, _, _, _, rfl, -⟩ := ha'
      exact ha
    · obtain ⟨rfl, -⟩ := pure_ok.1 ha'
      exact ha
  induction n generalizing a with
  | zero =>
    cases ha with
    | setMatchPlayer ha => exact hplayer 0 _ ha
    | setMatchBye => exact .throw
  | succ n ih =>
    cases ha with
    | setMatchPlayer ha => exact hplayer (n + 1) _ ha
    | setMatchBye ha hstack =>
      exact (keeps_redoWith_other hne (fun _ => ih) hstack (.setMatchBye _) ha _).bind fun _ hs =>
        .pure (.setMatchBye ha hs)

theorem MatchEventAction.keeps_restore_other {x : CombinedId} (hne : x.categoryId ≠ id)
    (state : MatchState) (n : ℕ) : Keeps (Shows id v) (restore x state n) fun _ => True := by
  refine keeps_shows (courseBack_indexed.restore x state n) (frame_getMatch.bind fun m => ?_)
  exact (frame_editMatch_other hne).bind fun _ => frame_getMatch.bind fun _ =>
    frame_doIf (frame_moveCounter_other hne)

mutual

theorem DrawAction.keeps_undo_other (hne : k ≠ id) : ∀ a : DrawAction, a.On k →
    Keeps (Shows id v) a.undo fun _ => True
  | setMatchPlayer a, ha => by
    cases ha with
    | setMatchPlayer ha =>
      rw [undo]
      exact keeps_shows a.keeps_undo_indexed (SetMatchPlayerAction.frame_undo_other (ha ▸ hne))
  | setMatchBye x bye saved stack, ha => by
    cases ha with
    | setMatchBye hx hstack =>
      cases saved with
      | unwritten =>
        rw [undo]
        exact .throw
      | clear =>
        rw [undo]
        exact .pure trivial
      | state prevState prevEventSize =>
        rw [undo]
        exact (DrawAction.keeps_undoAll_other hne stack hstack).bind fun _ _ =>
          MatchEventAction.keeps_restore_other (hx ▸ hne) _ _

theorem DrawAction.keeps_undoAll_other (hne : k ≠ id) : ∀ stack : List DrawAction, (∀ a ∈ stack, a.On k) →
    Keeps (Shows id v) (undoAll stack) fun _ => True
  | [], _ => by
    rw [undoAll]
    exact .pure trivial
  | a :: stack, h => by
    rw [undoAll]
    exact (DrawAction.keeps_undo_other hne a (h a List.mem_cons_self)).bind fun _ _ =>
      DrawAction.keeps_undoAll_other hne stack fun b hb => h b (List.mem_cons_of_mem _ hb)

end

end

/-! ### The category itself -/

namespace CategoryStatus

variable {s s' : CategoryStatus} {status : MatchStatus}

theorem decrement_ok : s.decrement status = .ok s' ↔ s'.increment status = s := by
  cases s
  cases s'
  cases status <;>
    simp only [decrement, increment, except_bind_ok, check_ok, decide_eq_true_eq, except_pure_ok,
      mk.injEq, exists_const]
    <;> omega

theorem increment_injective (h : s.increment status = s'.increment status) : s = s' := by
  have hs : (s'.increment status).decrement status = .ok s := decrement_ok.2 h
  rw [decrement_ok.2 rfl] at hs
  cases hs
  rfl

theorem increment_comm (s : CategoryStatus) (a b : MatchStatus) :
    (s.increment a).increment b = (s.increment b).increment a := by
  cases a <;> cases b <;> rfl

end CategoryStatus

namespace CategoryStore

variable {c c' c'' : CategoryStore} {x : MatchId} {m m' n n' : MatchStore}

theorem getMatch_setMatch (h : c.getMatch x = .ok m) (m' : MatchStore) : (c.setMatch x m').getMatch x = .ok m' := by
  unfold getMatch at h
  cases hx : c.matchMap x with
  | none =>
    rw [hx] at h
    cases h
  | some i =>
    simp only [hx] at h
    cases hi : c.matchList[i]? with
    | none =>
      rw [hi] at h
      cases h
    | some n =>
      obtain ⟨hlt, -⟩ := List.getElem?_eq_some_iff.1 hi
      simp only [getMatch, setMatch, hx, List.getElem?_set_self hlt]

theorem setMatch_setMatch (h : c.getMatch x = .ok m) (m' : MatchStore) : (c.setMatch x m').setMatch x m = c := by
  unfold getMatch at h
  cases hx : c.matchMap x with
  | none =>
    rw [hx] at h
    cases h
  | some i =>
    simp only [hx] at h
    cases hi : c.matchList[i]? with
    | none =>
      rw [hi] at h
      cases h
    | some n =>
      rw [hi] at h
      cases h
      obtain ⟨hlt, hget⟩ := List.getElem?_eq_some_iff.1 hi
      simp only [setMatch, hx, List.set_set]
      rw [← hget, List.set_getElem_self]

/-- Move a match from the counter of one status to that of another. -/
def recount (c : CategoryStore) (type : MatchType) (source target : MatchStatus) : Except Failure CategoryStore := do
  let status ← (c.getStatus type).decrement source
  return c.setStatus type (status.increment target)

theorem recount_ok {type : MatchType} {source target : MatchStatus} : c.recount type source target = .ok c' ↔
    ∃ s : CategoryStatus, s.increment source = c.getStatus type ∧ c' = c.setStatus type (s.increment target) := by
  simp only [recount, except_bind_ok, CategoryStatus.decrement_ok, except_pure_ok, eq_comm (a := c')]

/-- A match of a category is written and, if so, moved from the counter of one status to that of another. -/
structure Rewrites (c : CategoryStore) (x : MatchId) (m m' : MatchStore) (move : Option (MatchStatus × MatchStatus))
    (c' : CategoryStore) : Prop where
  old : c.getMatch x = .ok m
  new : match move with
    | none => c' = c.setMatch x m'
    | some (source, target) => (c.setMatch x m').recount m'.type source target = .ok c'

theorem Rewrites.frame {move : Option (MatchStatus × MatchStatus)} (h : c.Rewrites x m m' move c') :
    c'.ruleset = c.ruleset ∧ c'.drawSystem = c.drawSystem ∧ c'.id = c.id ∧
      c'.matchList = (c.setMatch x m').matchList := by
  have hset : (c.setMatch x m').ruleset = c.ruleset ∧ (c.setMatch x m').drawSystem = c.drawSystem ∧
      (c.setMatch x m').id = c.id := by
    unfold setMatch
    split <;> exact ⟨rfl, rfl, rfl⟩
  cases move with
  | none =>
    obtain rfl : c' = c.setMatch x m' := h.new
    exact ⟨hset.1, hset.2.1, hset.2.2, rfl⟩
  | some move =>
    obtain ⟨s, -, rfl⟩ := recount_ok.1 h.new
    exact ⟨hset.1, hset.2.1, hset.2.2, rfl⟩

/-- The match of the written category. -/
theorem Rewrites.getMatch {move : Option (MatchStatus × MatchStatus)} (h : c.Rewrites x m m' move c') :
    c'.getMatch x = .ok m' := by
  have hset := getMatch_setMatch h.old m'
  cases move with
  | none =>
    obtain rfl : c' = c.setMatch x m' := h.new
    exact hset
  | some move =>
    obtain ⟨s, -, rfl⟩ := recount_ok.1 h.new
    exact hset

/-- The counters follow the status of the match. -/
def Counted (m m' : MatchStore) : Option (MatchStatus × MatchStatus) → Prop
  | none => ∀ s : CategoryStatus, s.increment m.getStatus = s.increment m'.getStatus
  | some (source, target) => source = m.getStatus ∧ target = m'.getStatus

theorem Rewrites.status {move : Option (MatchStatus × MatchStatus)} (h : c.Rewrites x m m' move c')
    (hcounted : Counted m m' move) {s : CategoryStatus} (hs : c.getStatus m'.type = s.increment m.getStatus) :
    c'.getStatus m'.type = s.increment m'.getStatus := by
  have hset : (c.setMatch x m').getStatus m'.type = c.getStatus m'.type := by
    unfold setMatch
    split <;> rfl
  cases move with
  | none =>
    obtain rfl : c' = c.setMatch x m' := h.new
    rw [hset, hs]
    exact hcounted s
  | some move =>
    obtain ⟨source, target⟩ := move
    obtain ⟨rfl, rfl⟩ := hcounted
    obtain ⟨s', hs', rfl⟩ := recount_ok.1 h.new
    rw [hset, hs] at hs'
    obtain rfl := CategoryStatus.increment_injective hs'
    exact ByType.get_set_self _ _ _

/-- Writing the match back restores the category. -/
theorem Rewrites.back {move : Option (MatchStatus × MatchStatus)} (h : c.Rewrites x m m' move c')
    (htype : m'.type = m.type) (h' : c'.Rewrites x n n' (move.map Prod.swap) c'') :
    n = m' ∧ (n' = m → c'' = c) := by
  obtain ⟨hold, hnew⟩ := h
  obtain ⟨hold', hnew'⟩ := h'
  cases move with
  | none =>
    obtain rfl : c' = c.setMatch x m' := hnew
    rw [getMatch_setMatch hold] at hold'
    cases hold'
    refine ⟨rfl, fun hn => ?_⟩
    subst hn
    have heq : c'' = (c.setMatch x m').setMatch x n' := hnew'
    rw [heq, setMatch_setMatch hold]
  | some move =>
    obtain ⟨source, target⟩ := move
    obtain ⟨s, hs, rfl⟩ := recount_ok.1 hnew
    have hget : (c.setMatch x m').getMatch x = .ok n := hold'
    rw [getMatch_setMatch hold] at hget
    cases hget
    refine ⟨rfl, fun hn => ?_⟩
    subst hn
    obtain ⟨s', hs', rfl⟩ := recount_ok.1 hnew'
    have hback : ((c.setMatch x m').setStatus m'.type (s.increment target)).setMatch x n' =
        c.setStatus m'.type (s.increment target) := by
      have hcomm : ((c.setMatch x m').setStatus m'.type (s.increment target)).setMatch x n' =
          ((c.setMatch x m').setMatch x n').setStatus m'.type (s.increment target) := by
        cases hx : c.matchMap x <;> simp only [setMatch, setStatus, hx]
      rw [hcomm, setMatch_setMatch hold]
    have hstatus : s' = s := by
      rw [hback, htype] at hs'
      have hget : (c.setStatus n'.type (s.increment target)).getStatus n'.type = s.increment target :=
        ByType.get_set_self _ _ _
      exact CategoryStatus.increment_injective (hs'.trans hget)
    have hsource : s.increment source = c.getStatus n'.type := by
      rw [hs, htype]
      cases hx : c.matchMap x <;> simp only [setMatch, getStatus, hx]
    rw [hback, hstatus, htype, hsource]
    unfold setStatus getStatus
    rw [ByType.set_set, ByType.set_get]

end CategoryStore

section

variable {t t₁ t₂ t₃ t' : TournamentStore} {c : CategoryStore} {x : CombinedId} {m' : MatchStore}

theorem categories_setCategory_self (t : TournamentStore) (id : CategoryId) (c : CategoryStore) :
    (t.setCategory id c).categories id = some c := Function.update_self _ _ _

theorem getMatch_own (hc : t.categories x.categoryId = some c) {m : MatchStore} :
    getMatch x t = .ok m t' ↔ c.getMatch x.matchId = .ok m ∧ t' = t := by
  unfold getMatch
  constructor
  · intro h
    obtain ⟨c₀, t₀, hget, hlift⟩ := bind_ok.1 h
    obtain ⟨hc₀, rfl⟩ := getCategory_ok.1 hget
    obtain ⟨hm, rfl⟩ := lift_ok.1 hlift
    rw [hc] at hc₀
    cases hc₀
    exact ⟨hm, rfl⟩
  · rintro ⟨hm, rfl⟩
    exact bind_ok.2 ⟨c, t', getCategory_ok.2 ⟨hc, rfl⟩, lift_ok.2 ⟨hm, rfl⟩⟩

theorem moveCounter_own {id : CategoryId} (hc : t.categories id = some c) {m : MatchStore} {source target : MatchStatus}
    {u : Unit} (h : moveCounter id m source target t = .ok u t') :
    ∃ c', c.recount m.type source target = .ok c' ∧ t'.categories id = some c' := by
  obtain ⟨_, t₁, hedit, h⟩ := bind_ok.1 h
  obtain ⟨c₀, c', hc₀, hcount, rfl⟩ := editCategory_ok.1 hedit
  rw [hc] at hc₀
  cases hc₀
  refine ⟨c', hcount, ?_⟩
  obtain ⟨c₁, t₂, hget, htatamis⟩ := bind_ok.1 h
  obtain ⟨-, rfl⟩ := getCategory_ok.1 hget
  cases hlocation : c₁.getLocation m.type with
  | none =>
    rw [hlocation] at htatamis
    obtain ⟨-, rfl⟩ := pure_ok.1 htatamis
    exact categories_setCategory_self _ _ _
  | some l =>
    rw [hlocation] at htatamis
    obtain ⟨tatamis, -, rfl⟩ := editTatamis_ok.1 htatamis
    exact categories_setCategory_self _ _ _

/-- A match is written, read again and, if so, counted anew. -/
theorem rewrites_own {f : MatchStore → Except Failure MatchStore} {b : Bool}
    {source target : MatchStatus} {u u' : Unit}
    (hc : t.categories x.categoryId = some c) (hedit : editMatch x f t = .ok u t₁)
    (hget : getMatch x t₁ = .ok m' t₂)
    (hcount : doIf b (moveCounter x.categoryId m' source target) t₂ = .ok u' t₃) : ∃ m c', f m = .ok m' ∧
      c.Rewrites x.matchId m m' (if b then some (source, target) else none) c' ∧
      t₃.categories x.categoryId = some c' := by
  obtain ⟨c₀, c₁, hc₀, hwrite, rfl⟩ := editCategory_ok.1 hedit
  rw [hc] at hc₀
  cases hc₀
  simp only [except_bind_ok, except_pure_ok] at hwrite
  obtain ⟨m, hm, m₁, hf, rfl⟩ := hwrite
  have hc₁ := categories_setCategory_self t x.categoryId (c.setMatch x.matchId m₁)
  obtain ⟨hm', rfl⟩ := (getMatch_own hc₁).1 hget
  rw [CategoryStore.getMatch_setMatch hm] at hm'
  cases hm'
  cases b with
  | false =>
    obtain ⟨-, rfl⟩ := pure_ok.1 hcount
    exact ⟨m, _, hf, ⟨hm, rfl⟩, hc₁⟩
  | true =>
    obtain ⟨c', hrecount, hc'⟩ := moveCounter_own hc₁ hcount
    exact ⟨m, c', hf, ⟨hm, hrecount⟩, hc'⟩

/-- How the counters follow an event. -/
def counterMove (source target : MatchStatus) : Option (MatchStatus × MatchStatus) :=
  if changesCounters source target then some (source, target) else none

theorem counted_counterMove (m m' : MatchStore) :
    CategoryStore.Counted m m' (counterMove m.getStatus m'.getStatus) := by
  unfold counterMove
  split
  · exact ⟨rfl, rfl⟩
  · next hsame =>
    intro s
    revert hsame
    cases m.getStatus <;> cases m'.getStatus <;> intro hsame <;> first | rfl | exact absurd rfl hsame

theorem counterMove_swap (source target : MatchStatus) :
    (counterMove source target).map Prod.swap = counterMove target source := by
  cases source <;> cases target <;> rfl

/-- An event that is written and counted rewrites its match. -/
theorem MatchEventAction.notify_own {kind : MatchEventKind} {r : RulesetIdentifier} {m : MatchStore} {u u' : Unit}
    (ht : t.Indexed) (hc : t.categories x.categoryId = some c) (hm : c.getMatch x.matchId = .ok m)
    (hedit : editMatch x (kind.rules.effect r) t = .ok u t₁) (hget : getMatch x t₁ = .ok m' t₂)
    (hcount : doIf (changesCounters m.getStatus m'.getStatus)
      (moveCounter m'.combinedId.categoryId m' m.getStatus m'.getStatus) t₂ = .ok u' t₃) :
    m'.combinedId.categoryId = x.categoryId ∧ ∃ c', kind.rules.effect r m = .ok m' ∧
      c.Rewrites x.matchId m m' (counterMove m.getStatus m'.getStatus) c' ∧ t₃.Shows x.categoryId (some c') := by
  have ht₁ := (course_indexed.event x kind r ht hedit).1
  obtain ⟨c₁, hc₁⟩ : ∃ c₁, t₁.categories x.categoryId = some c₁ := by
    obtain ⟨c₀, c₁, -, -, rfl⟩ := editCategory_ok.1 hedit
    exact ⟨c₁, categories_setCategory_self _ _ _⟩
  obtain ⟨⟨ht₂, -⟩, hid⟩ := keeps_getMatch_id x ⟨ht₁, hc₁⟩ hget
  rw [hid] at hcount
  have ht₃ := (keeps_doIf (keeps_moveCounter_indexed _ _ _ _) ht₂ hcount).1
  obtain ⟨m₀, c', heffect, hrewrites, hc'⟩ := rewrites_own hc hedit hget hcount
  obtain rfl := Except.ok.inj (hm.symm.trans hrewrites.old)
  exact ⟨hid, c', heffect, hrewrites, ht₃, hc'⟩

/-- An event leaves its match alone, or it rewrites it and, where a result is concerned, the draw system
follows. -/
theorem MatchEventAction.redoWith_own {run : DrawAction → Exec DrawAction} {kind : MatchEventKind} {saved : Saved}
    {stack : List DrawAction} {p : Saved × List DrawAction} (ht : t.Indexed) (hc : t.categories x.categoryId = some c)
    (h : redoWith run kind.rules x saved stack t = .ok p t') :
    (p = (saved, stack) ∧ t' = t ∧ ∀ m, c.getMatch x.matchId = .ok m → kind.rules.guard c.ruleset m = false) ∨
      ∃ m m' c' t₁, kind.rules.guard c.ruleset m = true ∧ kind.rules.effect c.ruleset m = .ok m' ∧
        c.Rewrites x.matchId m m' (counterMove m.getStatus m'.getStatus) c' ∧ t₁.Shows x.categoryId (some c') ∧
        p.1 = .state m.state m.events.length ∧
        if m.getStatus = .finished ∨ m'.getStatus = .finished then
          updateDraw run x.categoryId stack t₁ = .ok p.2 t'
        else p.2 = stack ∧ t' = t₁ := by
  have hfind : t.findMatch x = if c.containsMatch x.matchId then some c else none := by
    rw [TournamentStore.findMatch, hc]
  obtain ⟨_, _, hread, hrest⟩ := bind_ok.1 h
  obtain ⟨rfl, rfl⟩ := get_ok.1 hread
  rw [hfind] at hrest
  cases hcontains : c.containsMatch x.matchId with
  | false =>
    rw [hcontains, if_neg (by decide)] at hrest
    obtain ⟨rfl, rfl⟩ := pure_ok.1 hrest
    refine .inl ⟨rfl, rfl, fun m hm => ?_⟩
    have hmem := ((ht.index _ c hc).getMatch_ok.1 hm)
    rw [(ht.index _ c hc).containsMatch_iff.2 ⟨m, hmem.1, hmem.2⟩] at hcontains
    cases hcontains
  | true =>
    rw [hcontains, if_pos rfl] at hrest
    obtain ⟨m, t₀, hget, hrest⟩ := bind_ok.1 hrest
    obtain ⟨hm, rfl⟩ := lift_ok.1 hget
    split at hrest
    · next hguard =>
      obtain ⟨_, t₁, hedit, hrest⟩ := bind_ok.1 hrest
      obtain ⟨stack', t₄, hnotify, hrest⟩ := bind_ok.1 hrest
      obtain ⟨rfl, rfl⟩ := pure_ok.1 hrest
      obtain ⟨m', t₂, hget', hnotify⟩ := bind_ok.1 hnotify
      obtain ⟨_, t₃, hcount, hdraw⟩ := bind_ok.1 hnotify
      obtain ⟨hid, c', heffect, hrewrites, hshows⟩ := notify_own ht hc hm hedit hget' hcount
      rw [hid] at hdraw
      refine .inr ⟨m, m', c', t₃, hguard, heffect, hrewrites, hshows, rfl, ?_⟩
      split at hdraw
      · next hfinished =>
        rw [if_pos hfinished]
        exact hdraw
      · next hopen =>
        rw [if_neg hopen]
        obtain ⟨rfl, rfl⟩ := pure_ok.1 hdraw
        exact ⟨rfl, rfl⟩
    · next hguard =>
      obtain ⟨rfl, rfl⟩ := pure_ok.1 hrest
      refine .inl ⟨rfl, rfl, fun n hn => ?_⟩
      rw [hm] at hn
      cases hn
      exact Bool.eq_false_iff.2 hguard

/-- Recovering a match restores its category. -/
theorem MatchEventAction.restore_own {m : MatchStore} {move : Option (MatchStatus × MatchStatus)} {c' : CategoryStore}
    {u : Unit} (hmove : move = counterMove m.getStatus m'.getStatus) (hrewrites : c.Rewrites x.matchId m m' move c')
    (hchange : ∃ state events, m' = (m.setState state).setEvents (m.events ++ events))
    (hc : t.categories x.categoryId = some c') (h : restore x m.state m.events.length t = .ok u t') :
    t'.categories x.categoryId = some c := by
  obtain ⟨n, t₁, hget, hrest⟩ := bind_ok.1 h
  obtain ⟨hn, rfl⟩ := (getMatch_own hc).1 hget
  obtain ⟨_, t₂, hedit, hrest⟩ := bind_ok.1 hrest
  obtain ⟨n', t₃, hget', hcount⟩ := bind_ok.1 hrest
  obtain ⟨n₀, c'', hwrite, hback, hc''⟩ := rewrites_own hc hedit hget' hcount
  have hold := hback.old
  rw [hn] at hold
  cases hold
  simp only [except_bind_ok, except_pure_ok] at hwrite
  obtain ⟨_, -, rfl⟩ := hwrite
  obtain ⟨state, events, rfl⟩ := hchange
  rw [hrewrites.getMatch] at hn
  cases hn
  have hswap : (if changesCounters ((m.setState state).setEvents (m.events ++ events)).getStatus m.state.status then
      some (((m.setState state).setEvents (m.events ++ events)).getStatus, m.state.status) else none) =
      move.map Prod.swap := by
    rw [hmove, counterMove_swap]
    rfl
  rw [hswap] at hback
  have hsame : (((m.setState state).setEvents (m.events ++ events)).setState m.state).setEvents
      (((m.setState state).setEvents (m.events ++ events)).events.take m.events.length) = m := by
    have htake : (m.events ++ events).take m.events.length = m.events := List.take_left
    show { m with state := m.state, events := (m.events ++ events).take m.events.length } = m
    rw [htake]
  rw [hc'', (hrewrites.back rfl hback).2 hsame]

/-- Resetting a match writes it and, where its status changes, counts it as not started; recovering it writes
it back. -/
theorem ResetMatchesAction.resetMatch_own {p : ResetMatch × Bool} (hc : t.categories x.categoryId = some c)
    (h : resetMatch x t = .ok p t') : ∃ m m' c', m' = m.clearState.setEvents [] ∧
      c.Rewrites x.matchId m m'
        (if m'.getStatus ≠ m.getStatus then some (m.getStatus, .notStarted) else none) c' ∧
      t'.categories x.categoryId = some c' ∧ p.1 = ⟨x, m.state, m.events⟩ ∧
      p.2 = decide (m'.getStatus ≠ m.getStatus ∧ m.getStatus = .finished) := by
  obtain ⟨m, t₁, hget, hrest⟩ := bind_ok.1 h
  obtain ⟨hm, rfl⟩ := (getMatch_own hc).1 hget
  obtain ⟨_, t₂, hedit, hrest⟩ := bind_ok.1 hrest
  obtain ⟨m', t₃, hget', hrest⟩ := bind_ok.1 hrest
  obtain ⟨_, t₄, hcount, hrest⟩ := bind_ok.1 hrest
  obtain ⟨rfl, rfl⟩ := pure_ok.1 hrest
  obtain ⟨m₀, c', hclear, hrewrites, hc'⟩ := rewrites_own hc hedit hget' hcount
  have hold := hrewrites.old
  rw [hm] at hold
  cases hold
  cases hclear
  refine ⟨m, _, c', rfl, ?_, hc', rfl, rfl⟩
  by_cases hstatus : (m.clearState.setEvents []).getStatus = m.getStatus
  · rw [if_neg (not_not.2 hstatus)]
    rw [if_neg (by simp [hstatus])] at hrewrites
    exact hrewrites
  · rw [if_pos hstatus]
    rw [if_pos (by simp [hstatus])] at hrewrites
    exact hrewrites

theorem ResetMatchesAction.recoverMatch_own {m : MatchStore} {c' : CategoryStore} {u : Unit}
    (hclear : m' = m.clearState.setEvents []) (hrewrites : c.Rewrites x.matchId m m'
      (if m'.getStatus ≠ m.getStatus then some (m.getStatus, .notStarted) else none) c')
    (hc : t.categories x.categoryId = some c') (h : recoverMatch ⟨x, m.state, m.events⟩ t = .ok u t') :
    t'.categories x.categoryId = some c := by
  obtain ⟨n, t₁, hget, hrest⟩ := bind_ok.1 h
  obtain ⟨hn, rfl⟩ := (getMatch_own hc).1 hget
  rw [hrewrites.getMatch] at hn
  cases hn
  obtain ⟨_, t₂, hedit, hrest⟩ := bind_ok.1 hrest
  obtain ⟨n', t₃, hget', hcount⟩ := bind_ok.1 hrest
  obtain ⟨n₀, c'', hwrite, hback, hc''⟩ := rewrites_own hc hedit hget' hcount
  have hold := hback.old
  rw [hrewrites.getMatch] at hold
  cases hold
  cases hwrite
  have hsame : (m'.setState m.state).setEvents m.events = m := by
    rw [hclear]
    rfl
  have hswap : (if (decide (m'.getStatus ≠ m.state.status)) = true then
      some (MatchStatus.notStarted, m.state.status) else none) =
      (if m'.getStatus ≠ m.getStatus then some (m.getStatus, MatchStatus.notStarted) else none).map Prod.swap := by
    simp only [decide_eq_true_eq]
    show (if m'.getStatus ≠ m.getStatus then _ else _) = _
    split <;> rfl
  have htype : m'.type = m.type := by
    rw [hclear]
    rfl
  rw [hswap] at hback
  rw [hc'', (hrewrites.back htype hback).2 hsame]

end

/-! ### Resets -/

section

variable {id : CategoryId} {v : Option CategoryStore}

theorem ResetMatchesAction.keeps_resetMatch_indexed (x : CombinedId) :
    Keeps Indexed (resetMatch x) fun p => p.1.combinedId = x := by
  refine keeps_getMatch.bind fun m _ => (course_indexed.clear x).bind fun _ _ => keeps_getMatch.bind fun m' _ =>
    (keeps_doIf (keeps_moveCounter_indexed _ _ _ _)).bind fun _ _ => .pure rfl

theorem ResetMatchesAction.frame_resetMatch_other {x : CombinedId} (hne : x.categoryId ≠ id) :
    Frame (·.categories id) (resetMatch x) :=
  frame_getMatch.bind fun _ => (frame_editMatch_other hne).bind fun _ => frame_getMatch.bind fun _ =>
    (frame_doIf (frame_moveCounter_other hne)).bind fun _ => .pure

theorem ResetMatchesAction.frame_recoverMatch_other {r : ResetMatch} (hne : r.combinedId.categoryId ≠ id) :
    Frame (·.categories id) (recoverMatch r) :=
  frame_getMatch.bind fun _ => (frame_editMatch_other hne).bind fun _ => frame_getMatch.bind fun _ =>
    frame_doIf (frame_moveCounter_other hne)

/-- A reset can be taken back. -/
theorem ResetMatchesAction.revocable_resetMatch (x : CombinedId) :
    Revocable Indexed Indexed (·.categories id) (resetMatch x) (fun p => recoverMatch p.1) fun _ => True := by
  intro t p t' ht h
  obtain ⟨ht', hp⟩ := keeps_resetMatch_indexed x ht h
  refine ⟨ht', fun u b u' hu hview hb => ⟨(courseBack_indexed.recoverMatch p.1 hu hb).1, ?_, trivial⟩⟩
  by_cases hx : x.categoryId = id
  · subst hx
    obtain ⟨c, hc⟩ : ∃ c, t.categories x.categoryId = some c := by
      obtain ⟨m, t₁, hget, -⟩ := bind_ok.1 h
      obtain ⟨c, t₂, hc, -⟩ := bind_ok.1 hget
      exact ⟨c, (getCategory_ok.1 hc).1⟩
    obtain ⟨m, m', c', hclear, hrewrites, hc', hreset, -⟩ := resetMatch_own hc h
    have hrecover : recoverMatch ⟨x, m.state, m.events⟩ u = .ok b u' := hreset ▸ hb
    have hback := recoverMatch_own hclear hrewrites (hview.trans hc') hrecover
    exact hback.trans hc.symm
  · exact ((frame_recoverMatch_other (hp ▸ hx) hb).trans hview).trans (frame_resetMatch_other hx h)

/-! ### Following actions that cannot be seen -/

/-- The action has set or lifted the bye of a match of the category. -/
def DrawAction.setsBye (id : CategoryId) : DrawAction → Bool
  | setMatchBye x _ (.state _ _) _ => x.categoryId = id
  | _ => false

/-- Undoing the action cannot be seen in the category. -/
inductive DrawAction.Calm (id : CategoryId) : DrawAction → Prop
  | other {k : CategoryId} {a : DrawAction} (hne : k ≠ id) (h : a.On k) : Calm id a
  | idle (x : CombinedId) (bye : Bool) (stack : List DrawAction) : Calm id (.setMatchBye x bye .unwritten stack)

theorem suffix_runAll {run : DrawAction → Exec DrawAction} {as stack stack' : List DrawAction}
    {t t' : TournamentStore} (h : runAll run as stack t = .ok stack' t') : stack <:+ stack' := by
  induction as generalizing stack t with
  | nil =>
    obtain ⟨rfl, -⟩ := pure_ok.1 h
    exact List.suffix_rfl
  | cons a as ih =>
    obtain ⟨b, t₁, -, hrest⟩ := bind_ok.1 h
    exact (List.suffix_cons b stack).trans (ih hrest)

theorem suffix_updateDraw {run : DrawAction → Exec DrawAction} {k : CategoryId} {stack stack' : List DrawAction}
    {t t' : TournamentStore} (h : updateDraw run k stack t = .ok stack' t') : stack <:+ stack' := by
  simp only [updateDraw, bind_ok] at h
  obtain ⟨c, t₁, -, actions, t₂, -, hrest⟩ := h
  exact suffix_runAll hrest

theorem ResetMatchesAction.mem_drawUpdates {ps : List (ResetMatch × Bool)} :
    id ∈ drawUpdates ps ↔ ∃ p ∈ ps, p.2 = true ∧ p.1.combinedId.categoryId = id := by
  simp only [drawUpdates, List.mem_dedup, List.mem_map, List.mem_filter, and_assoc]

theorem forEach_map {α β γ : Type} {f : β → Exec γ} {g : α → β} {as : List α} :
    forEach f (as.map g) = forEach (fun a => f (g a)) as := by
  induction as with
  | nil => rfl
  | cons a as ih => rw [List.map_cons, forEach, forEach, ih]

theorem DrawAction.keeps_undo_calm {a : DrawAction} (h : a.Calm id) : Keeps (Shows id v) a.undo fun _ => True := by
  cases h with
  | other hne h => exact DrawAction.keeps_undo_other hne a h
  | idle x bye stack =>
    rw [undo]
    exact .throw

theorem DrawAction.keeps_undoAll_calm {stack : List DrawAction} (h : ∀ a ∈ stack, a.Calm id) :
    Keeps (Shows id v) (undoAll stack) fun _ => True := by
  induction stack with
  | nil =>
    rw [undoAll]
    exact .pure trivial
  | cons a stack ih =>
    rw [undoAll]
    exact (DrawAction.keeps_undo_calm (h a List.mem_cons_self)).bind fun _ _ =>
      ih fun b hb => h b (List.mem_cons_of_mem _ hb)

end

end JudoAssistant
