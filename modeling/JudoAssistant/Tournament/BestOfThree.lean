import JudoAssistant.Tournament.CategoryCourse
import JudoAssistant.Tournament.Linked

/-!
# Best of three

`BestOfThreeDrawSystem::updateCategory` makes the third match a bye when the same player has won the first two,
and lifts the bye when this is no longer so.  Match events, resets and undo keep the bye right, unless the bye
itself is undone, an event that no longer applies is redone, or a third match that has begun is reset.
-/

namespace JudoAssistant

open Effect Exec TournamentStore RulesetIdentifier

/-! ### The matches -/

/-- The winner of a match, if there is one. -/
def MatchStore.winner? (m : MatchStore) : Option PlayerIndex := (getWinner m).toOption.join

namespace BestOfThreeDrawSystem

/-- Both matches are finished, and the same player has won them. -/
def Agreed (first second : MatchStore) : Prop :=
  first.getStatus = .finished ∧ second.getStatus = .finished ∧ first.winner?.isSome = true ∧
    first.winner? = second.winner?

instance (first second : MatchStore) : Decidable (Agreed first second) :=
  inferInstanceAs (Decidable (_ ∧ _ ∧ _ ∧ _))

/-- The counters of matches of one type. -/
def tally : List MatchStore → CategoryStatus
  | [] => {}
  | m :: ms => (tally ms).increment m.getStatus

theorem tally_second (a m b : MatchStore) : tally [a, m, b] = (tally [a, b]).increment m.getStatus :=
  CategoryStatus.increment_comm _ _ _

theorem tally_third (a b m : MatchStore) : tally [a, b, m] = (tally [a, b]).increment m.getStatus := by
  show (((tally []).increment m.getStatus).increment b.getStatus).increment a.getStatus = _
  rw [CategoryStatus.increment_comm _ m.getStatus b.getStatus, CategoryStatus.increment_comm _ m.getStatus a.getStatus]
  rfl

/-- A drawn category with its three matches. -/
structure Based (c : CategoryStore) (first second third : MatchStore) : Prop where
  list : c.matchList = [first, second, third]
  draw : ∃ d : BestOfThreeDrawSystem, c.drawSystem = .bestOfThree d ∧ d.players.length = 2 ∧
    d.matchIds = [first.id, second.id, third.id]
  type : ∀ m ∈ [first, second, third], m.type = .elimination
  players : ∀ m ∈ [first, second, third], m.players = first.players
  firstWinner : c.ruleset.WinnerSound first
  secondWinner : c.ruleset.WinnerSound second
  thirdWinner : third.bye = false → c.ruleset.WinnerSound third
  bye : third.bye = true → third.getStatus = .finished
  count : c.getStatus .elimination = tally [first, second, third]

/-- The bye of the third match is right. -/
structure Settled (first second third : MatchStore) : Prop where
  bye : third.bye = true → Agreed first second
  fresh : Agreed first second → third.getStatus ≠ .notStarted

variable {c c' : CategoryStore} {first second third m m' : MatchStore} {x : MatchId}
  {move : Option (MatchStatus × MatchStatus)}

theorem getWinner_of_winnerSound {r : RulesetIdentifier} (h : r.WinnerSound m) (hfinished : m.getStatus = .finished) :
    ∃ i, getWinner m = .ok (some i) := by
  obtain ⟨i, hi⟩ := Option.isSome_iff_exists.1 (h.winner hfinished)
  exact ⟨i, (getWinner_of_finished h.contested hfinished (h.winner hfinished)).trans (congrArg _ hi)⟩

theorem winner?_of_ok {i : PlayerIndex} (h : getWinner m = .ok (some i)) : m.winner? = some i := by
  rw [MatchStore.winner?, h]
  rfl

/-- The bye that the draw system wants is the one that the first two matches call for. -/
theorem wantsBye_eq {r : RulesetIdentifier} (hfirst : r.WinnerSound first) (hsecond : r.WinnerSound second) :
    wantsBye first second = .ok (decide (Agreed first second)) := by
  unfold wantsBye
  split
  · next hfinished =>
    obtain ⟨i, hi⟩ := getWinner_of_winnerSound hfirst hfinished.1
    obtain ⟨j, hj⟩ := getWinner_of_winnerSound hsecond hfinished.2
    have hagreed : Agreed first second ↔ i = j := by
      unfold Agreed
      rw [winner?_of_ok hi, winner?_of_ok hj]
      simp [hfinished.1, hfinished.2]
    rw [hi, hj]
    refine except_bind_ok.2 ⟨some i, rfl, except_bind_ok.2 ⟨some j, rfl, ?_⟩⟩
    have hbool : (some i == some j) = decide (Agreed first second) := by
      rw [decide_eq_decide.2 hagreed]
      cases i <;> cases j <;> rfl
    exact congrArg Except.ok hbool
  · next hopen =>
    have hnot : ¬Agreed first second := fun hagreed => hopen ⟨hagreed.1, hagreed.2.1⟩
    rw [decide_eq_false hnot]

namespace Based

theorem distinct (h : Based c first second third) (hc : c.Indexed) :
    first.id ≠ second.id ∧ first.id ≠ third.id ∧ second.id ≠ third.id := by
  have hnodup : (c.matchList.map (·.id)).Nodup := hc.nodup_ids
  rw [h.list] at hnodup
  simpa [and_assoc] using hnodup

theorem getMatch_first (h : Based c first second third) (hc : c.Indexed) : c.getMatch first.id = .ok first :=
  hc.getMatch_ok.2 ⟨by simp [h.list], rfl⟩

theorem getMatch_second (h : Based c first second third) (hc : c.Indexed) : c.getMatch second.id = .ok second :=
  hc.getMatch_ok.2 ⟨by simp [h.list], rfl⟩

theorem getMatch_third (h : Based c first second third) (hc : c.Indexed) : c.getMatch third.id = .ok third :=
  hc.getMatch_ok.2 ⟨by simp [h.list], rfl⟩

theorem updateCategory_eq (h : Based c first second third) (hc : c.Indexed) (t : TournamentStore) :
    c.drawSystem.updateCategory t c = .ok (if third.bye = decide (Agreed first second) then []
      else [.setMatchBye ⟨c.id, third.id⟩ (decide (Agreed first second)) .unwritten []]) := by
  obtain ⟨d, hdraw, hplayers, hids⟩ := h.draw
  rw [hdraw]
  show updateCategory c d = _
  rw [updateCategory, if_neg (not_not.2 hplayers), hids]
  exact except_bind_ok.2 ⟨first, h.getMatch_first hc, except_bind_ok.2 ⟨second, h.getMatch_second hc,
    except_bind_ok.2 ⟨_, wantsBye_eq h.firstWinner h.secondWinner,
      except_bind_ok.2 ⟨third, h.getMatch_third hc, rfl⟩⟩⟩⟩

/-- The match that is written is one of the three, and the counters follow. -/
theorem rewrites_cases (h : Based c first second third) (hc : c.Indexed) (hrewrites : c.Rewrites x m m' move c')
    (htype : m'.type = m.type) (hcounted : CategoryStore.Counted m m' move) :
    (m = first ∧ c'.matchList = [m', second, third] ∧ c'.getStatus .elimination = tally [m', second, third]) ∨
      (m = second ∧ c'.matchList = [first, m', third] ∧ c'.getStatus .elimination = tally [first, m', third]) ∨
      (m = third ∧ c'.matchList = [first, second, m'] ∧ c'.getStatus .elimination = tally [first, second, m']) := by
  obtain ⟨hmem, rfl⟩ := hc.getMatch_ok.1 hrewrites.old
  obtain ⟨hdistinct₁, hdistinct₂, hdistinct₃⟩ := h.distinct hc
  have hlist := hrewrites.frame.2.2.2
  rw [hc.matchList_setMatch, h.list] at hlist
  have hcount : ∀ {s : CategoryStatus}, m.type = .elimination →
      c.getStatus .elimination = s.increment m.getStatus → c'.getStatus .elimination = s.increment m'.getStatus := by
    intro s hm hs
    have helimination : m'.type = .elimination := htype.trans hm
    have hstatus := hrewrites.status hcounted (s := s) (by rw [helimination, hs])
    rwa [helimination] at hstatus
  have hcurrent := h.count
  have htypes := h.type
  rw [h.list] at hmem
  simp only [List.mem_cons, List.not_mem_nil, or_false] at hmem htypes
  rcases hmem with rfl | rfl | rfl
  · refine .inl ⟨rfl, ?_, hcount (htypes _ (.inl rfl)) hcurrent⟩
    simpa [hdistinct₁.symm, hdistinct₂.symm] using hlist
  · refine .inr (.inl ⟨rfl, ?_, ?_⟩)
    · simpa [hdistinct₁, hdistinct₃.symm] using hlist
    · rw [tally_second] at hcurrent ⊢
      exact hcount (htypes _ (.inr (.inl rfl))) hcurrent
  · refine .inr (.inr ⟨rfl, ?_, ?_⟩)
    · simpa [hdistinct₂, hdistinct₃] using hlist
    · rw [tally_third] at hcurrent ⊢
      exact hcount (htypes _ (.inr (.inr rfl))) hcurrent

theorem replace (h : Based c first second third) (hrewrites : c.Rewrites x m m' move c')
    {first' second' third' : MatchStore} (hlist : c'.matchList = [first', second', third'])
    (hcount : c'.getStatus .elimination = tally [first', second', third']) (hfirst : first.SameFight first')
    (hsecond : second.SameFight second') (hthird : third.SameFight third')
    (hwinner₁ : c.ruleset.WinnerSound first') (hwinner₂ : c.ruleset.WinnerSound second')
    (hwinner₃ : third'.bye = false → c.ruleset.WinnerSound third')
    (hbye : third'.bye = true → third'.getStatus = .finished) : Based c' first' second' third' := by
  obtain ⟨hruleset, hdraw, -, -⟩ := hrewrites.frame
  obtain ⟨d, hd, hplayers, hids⟩ := h.draw
  have htypes := h.type
  have hplayers' := h.players
  simp only [List.forall_mem_cons] at htypes hplayers'
  refine ⟨hlist, ⟨d, hdraw.trans hd, hplayers, ?_⟩, ?_, ?_, ?_, ?_, ?_, hbye, hcount⟩
  · rw [hids, MatchStore.id, MatchStore.id, MatchStore.id, ← hfirst.combinedId, ← hsecond.combinedId,
      ← hthird.combinedId]
    rfl
  · simp only [List.forall_mem_cons, hfirst.type, hsecond.type, hthird.type]
    exact htypes
  · simp only [List.forall_mem_cons, hfirst.players, hsecond.players, hthird.players]
    exact hplayers'
  · rwa [hruleset]
  · rwa [hruleset]
  · rwa [hruleset]

/-- A written match leaves a drawn category. -/
theorem rewrites (h : Based c first second third) (hc : c.Indexed) (hrewrites : c.Rewrites x m m' move c')
    (hsame : m.SameFight m') (hcounted : CategoryStore.Counted m m' move)
    (hwinner : m ≠ third → c.ruleset.WinnerSound m → c.ruleset.WinnerSound m')
    (hthird : m = third → (m'.bye = false → c.ruleset.WinnerSound m') ∧
      (m'.bye = true → m'.getStatus = .finished)) :
    (m = first ∧ Based c' m' second third) ∨ (m = second ∧ Based c' first m' third) ∨
      (m = third ∧ Based c' first second m') := by
  obtain ⟨hdistinct₁, hdistinct₂, hdistinct₃⟩ := h.distinct hc
  have hne : ∀ {a b : MatchStore}, a.id ≠ b.id → a ≠ b := fun hid heq => hid (congrArg _ heq)
  obtain ⟨rfl, hlist, hcount⟩ | ⟨rfl, hlist, hcount⟩ | ⟨rfl, hlist, hcount⟩ :=
    h.rewrites_cases hc hrewrites hsame.type hcounted
  · exact .inl ⟨rfl, h.replace hrewrites hlist hcount hsame (.refl _) (.refl _)
      (hwinner (hne hdistinct₂) h.firstWinner)
      h.secondWinner h.thirdWinner h.bye⟩
  · exact .inr (.inl ⟨rfl, h.replace hrewrites hlist hcount (.refl _) hsame (.refl _) h.firstWinner
      (hwinner (hne hdistinct₃) h.secondWinner) h.thirdWinner h.bye⟩)
  · exact .inr (.inr ⟨rfl, h.replace hrewrites hlist hcount (.refl _) (.refl _) hsame h.firstWinner h.secondWinner
      (hthird rfl).1 (hthird rfl).2⟩)

end Based

/-! ### The update -/

section

variable {t t' : TournamentStore} {id : CategoryId} {run : DrawAction → Exec DrawAction}
    {stack stack' : List DrawAction}

theorem Based.updateDraw_eq (h : Based c first second third) (ht : t.Shows id (some c))
    (hrun : updateDraw run id stack t = .ok stack' t') :
    runAll run (if third.bye = decide (Agreed first second) then []
      else [.setMatchBye ⟨c.id, third.id⟩ (decide (Agreed first second)) .unwritten []]) stack t =
        .ok stack' t' := by
  obtain ⟨c₀, t₁, hget, hrest⟩ := bind_ok.1 hrun
  obtain ⟨hc₀, rfl⟩ := getCategory_ok.1 hget
  rw [ht.2] at hc₀
  cases hc₀
  obtain ⟨actions, t₂, hread, hall⟩ := bind_ok.1 hrest
  obtain ⟨hactions, rfl⟩ := read_ok.1 hread
  rw [h.updateCategory_eq (ht.1.index id c ht.2)] at hactions
  cases hactions
  exact hall

/-- Where the third match has the bye that is wanted, nothing follows. -/
theorem Based.updateDraw_settled (h : Based c first second third) (ht : t.Shows id (some c))
    (hbye : third.bye = decide (Agreed first second)) (hrun : updateDraw run id stack t = .ok stack' t') :
    stack' = stack ∧ t' = t := by
  have hall := h.updateDraw_eq ht hrun
  rw [if_pos hbye] at hall
  obtain ⟨rfl, rfl⟩ := pure_ok.1 hall
  exact ⟨rfl, rfl⟩

theorem Based.settled_of_bye (h : Based c first second third) (hbye : third.bye = decide (Agreed first second)) :
    Settled first second third := by
  refine ⟨fun htrue => ?_, fun hagreed => ?_⟩
  · rw [htrue] at hbye
    exact of_decide_eq_true hbye.symm
  · rw [decide_eq_true hagreed] at hbye
    rw [h.bye hbye]
    decide

/-- After the update the bye is right.  Either no action is run, or one that does nothing, or one that sets or
lifts the bye. -/
theorem Based.updateDraw_cases (h : Based c first second third) (ht : t.Shows id (some c)) {n : ℕ}
    (hrun : updateDraw (DrawAction.redo (n + 1)) id stack t = .ok stack' t') :
    (stack' = stack ∧ t' = t ∧ Settled first second third) ∨
      ∃ x bye saved actions, stack' = .setMatchBye x bye saved actions :: stack ∧ x.categoryId = id ∧
        (saved = .unwritten ∧ t' = t ∧ Settled first second third ∨
          ∃ state k c' third', saved = .state state k ∧ t'.Shows id (some c') ∧ Based c' first second third' ∧
            Settled first second third') := by
  have hc := ht.1.index id c ht.2
  have hid := ht.1.category id c ht.2
  by_cases hbye : third.bye = decide (Agreed first second)
  · obtain ⟨rfl, rfl⟩ := h.updateDraw_settled ht hbye hrun
    exact .inl ⟨rfl, rfl, h.settled_of_bye hbye⟩
  have hall := h.updateDraw_eq ht hrun
  rw [if_neg hbye, hid] at hall
  obtain ⟨a, t₁, hredo, hrest⟩ := bind_ok.1 hall
  obtain ⟨rfl, heq⟩ := pure_ok.1 hrest
  obtain ⟨p, t₂, hwith, hrest⟩ := bind_ok.1 hredo
  obtain ⟨rfl, heq'⟩ := pure_ok.1 hrest
  rw [heq'.trans heq] at hwith
  refine .inr ⟨⟨id, third.id⟩, decide (Agreed first second), p.1, p.2, rfl, rfl, ?_⟩
  have hthird := h.getMatch_third hc
  obtain ⟨rfl, rfl, hguard⟩ | ⟨m, m', c', t₁, hguard, heffect, hrewrites, ht₁, hsaved, hfollow⟩ :=
    @MatchEventAction.redoWith_own _ _ _ _ _ (.setMatchBye (decide (Agreed first second))) _ _ _ ht.1 ht.2 hwith
  · -- The guard fails only because the third match has begun.
    have hguard : (third.bye != decide (Agreed first second) &&
        (!decide (Agreed first second) || third.getStatus == .notStarted)) = false := hguard third hthird
    have hne : (third.bye != decide (Agreed first second)) = true := bne_iff_ne.2 hbye
    rw [hne, Bool.true_and, Bool.or_eq_false_iff, Bool.not_eq_false', beq_eq_false_iff_ne] at hguard
    exact .inl ⟨rfl, rfl, fun htrue => absurd (htrue.trans hguard.1.symm) hbye, fun _ => hguard.2⟩
  · have hold := hrewrites.old
    rw [hthird] at hold
    cases hold
    have hsame := MatchStore.SameFight.effect c.ruleset heffect
    simp only [MatchEventKind.rules, EventRules.setMatchBye, MatchStore.setBye, except_bind_ok,
      except_pure_ok] at heffect
    obtain ⟨_, -, hm'⟩ := heffect
    have hbye' : m'.bye = decide (Agreed first second) := by rw [← hm']
    have hstatus' : m'.getStatus = if decide (Agreed first second) = true then .finished else .notStarted := by
      rw [← hm']
      rfl
    have hbased : Based c' first second m' := by
      have hcontested : m'.bye = false → m'.Contested := fun hfalse => by
        refine h.firstWinner.contested.congr (hfalse.trans h.firstWinner.contested.bye.symm) ?_
        rw [hsame.players, h.players third (by simp)]
      have hfinished : m'.bye = true → m'.getStatus = .finished := fun htrue => by
        rw [hstatus', ← hbye', if_pos htrue]
      have hwinner : m'.bye = false → c.ruleset.WinnerSound m' := fun hfalse => by
        refine ⟨hcontested hfalse, fun hfinished => ?_⟩
        rw [hstatus', ← hbye', hfalse] at hfinished
        cases hfinished
      obtain ⟨-, hdistinct₂, hdistinct₃⟩ := h.distinct hc
      obtain ⟨heq, -⟩ | ⟨heq, -⟩ | ⟨-, hbased⟩ := h.rewrites hc hrewrites hsame (counted_counterMove _ _)
        (fun hne => absurd rfl hne) fun _ => ⟨hwinner, hfinished⟩
      · exact absurd (congrArg MatchStore.id heq).symm hdistinct₂
      · exact absurd (congrArg MatchStore.id heq).symm hdistinct₃
      · exact hbased
    have ht' : t' = t₁ := by
      split at hfollow
      · exact (hbased.updateDraw_settled ht₁ hbye' hfollow).2
      · exact hfollow.2
    subst ht'
    exact .inr ⟨_, _, c', m', hsaved, ht₁, hbased, hbased.settled_of_bye hbye'⟩

end

/-! ### Events -/

/-- The bye of the third match is right, whatever has happened to the matches. -/
def Sound (c : CategoryStore) : Prop :=
  ∃ first second third, Based c first second third ∧ Settled first second third

/-- An event that neither ends nor opens a match leaves the bye right. -/
theorem Settled.event (h : Settled first second third) (hbase : Based c first second third)
    (hfollows : RulesetIdentifier.Follows m m')
    (hm : m.getStatus ≠ .finished) (hm' : m'.getStatus ≠ .finished) (hbye : m'.bye = m.bye) :
    (m = first → Settled m' second third) ∧ (m = second → Settled first m' third) ∧
      (m = third → Settled first second m') := by
  refine ⟨?_, ?_, ?_⟩
  · rintro rfl
    exact ⟨fun htrue => absurd (h.bye htrue).1 hm, fun hagreed => absurd hagreed.1 hm'⟩
  · rintro rfl
    exact ⟨fun htrue => absurd (h.bye htrue).2.1 hm, fun hagreed => absurd hagreed.2.1 hm'⟩
  · rintro rfl
    refine ⟨fun htrue => absurd (hbase.bye (hbye.symm.trans htrue)) hm, fun hagreed hfresh => ?_⟩
    exact h.fresh hagreed (hfollows.notStarted hfresh)

section

variable {t t' : TournamentStore} {id : CategoryId} {time : ℤ}

/-- Undoing the action takes the category back. -/
def TakesBack {α : Type} (id : CategoryId) (undo : Exec α) (c' c : CategoryStore) (P : α → Prop) : Prop :=
  LeadsBack Indexed (·.categories id) undo P (some c') (some c)

/-- What follows an event settles the bye, and can only be seen in the category if it sets or lifts the bye. -/
theorem Based.follow (h : Based c first second third) (ht : t.Shows id (some c)) {p q : Prop}
    [Decidable p] [Decidable q] {n : ℕ} {stack : List DrawAction}
    (hopen : ¬p → ¬q → Settled first second third)
    (hfollow : if p ∨ q then updateDraw (DrawAction.redo (n + 1)) id [] t = .ok stack t' else stack = [] ∧ t' = t) :
    ∃ c', t'.Shows id (some c') ∧ Sound c' ∧
      ((∀ b ∈ stack, b.setsBye id = false) → c' = c ∧ ∀ b ∈ stack, b.Calm id) := by
  split at hfollow
  · obtain ⟨rfl, rfl, hsettled⟩ | ⟨x, bye, saved, actions, rfl, hx, hcase⟩ := h.updateDraw_cases ht hfollow
    · exact ⟨c, ht, ⟨first, second, third, h, hsettled⟩,
        fun _ => ⟨rfl, fun b hb => (List.not_mem_nil hb).elim⟩⟩
    · obtain ⟨rfl, rfl, hsettled⟩ | ⟨state, k, c', third', rfl, ht', hbased, hsettled⟩ := hcase
      · refine ⟨c, ht, ⟨first, second, third, h, hsettled⟩, fun _ => ⟨rfl, fun b hb => ?_⟩⟩
        obtain rfl := List.mem_singleton.1 hb
        exact .idle x bye actions
      · refine ⟨c', ht', ⟨first, second, third', hbased, hsettled⟩, fun hquiet => ?_⟩
        have hfalse := hquiet _ (List.mem_singleton.2 rfl)
        rw [DrawAction.setsBye, decide_eq_false_iff_not] at hfalse
        exact absurd hx hfalse
  · next hneither =>
    rw [not_or] at hneither
    obtain ⟨rfl, rfl⟩ := hfollow
    exact ⟨c, ht, ⟨first, second, third, h, hopen hneither.1 hneither.2⟩,
      fun _ => ⟨rfl, fun b hb => (List.not_mem_nil hb).elim⟩⟩

theorem event_cases {a a' : MatchEventAction} (hid : a.combinedId.categoryId = id)
    (htime : a.kind.masterTime = some time)
    (ht : t.Shows id (some c)) (hc : Sound c) (hidle : a.drawActions = []) (hredo : a.redoImpl t = .ok a' t') :
    ∃ c', t'.Shows id (some c') ∧ Sound c' ∧
      (a' = a ∧ c' = c ∧ (∀ m, c.getMatch a.combinedId.matchId = .ok m →
        a.kind.rules.guard c.ruleset m = false) ∨
        ((∀ b ∈ a'.drawActions, b.setsBye id = false) →
          TakesBack id a'.undoImpl c' c fun b => b.drawActions = [])) := by
  subst hid
  obtain ⟨first, second, third, hbase, hsettled⟩ := hc
  have hindexed := ht.1.index _ c ht.2
  obtain ⟨p, t₀, hwith, hrest⟩ := bind_ok.1 hredo
  obtain ⟨rfl, heq⟩ := pure_ok.1 hrest
  rw [heq, hidle] at hwith
  obtain ⟨rfl, rfl, hguard⟩ | ⟨m, m', c₁, t₁, hguard, heffect, hrewrites, ht₁, hsaved, hfollow⟩ :=
    MatchEventAction.redoWith_own ht.1 ht.2 hwith
  · refine ⟨c, ht, ⟨first, second, third, hbase, hsettled⟩, .inl ⟨?_, rfl, hguard⟩⟩
    rw [← hidle]
  · have hfollows := follows_effect htime hguard heffect
    have hsame := MatchStore.SameFight.effect c.ruleset heffect
    have hbye : m'.bye = m.bye := by
      obtain ⟨state, events, rfl⟩ := hfollows.advances
      rfl
    have hwinner : c.ruleset.WinnerSound m → c.ruleset.WinnerSound m' := fun hm => by
      refine hm.next (k := a.kind) (fun hk => ?_) ?_
      · rw [hk] at htime
        cases htime
      · rw [MatchEventKind.next, if_pos hguard, heffect]
        rfl
    have hthird : m = third → (m'.bye = false → c.ruleset.WinnerSound m') ∧
        (m'.bye = true → m'.getStatus = .finished) := by
      rintro rfl
      exact ⟨fun hfalse => hwinner (hbase.thirdWinner (hbye.symm.trans hfalse)),
        fun htrue => hfollows.bye (hbye.symm.trans htrue) (hbase.bye (hbye.symm.trans htrue))⟩
    have hbased : ∃ first' second' third', Based c₁ first' second' third' ∧
        (m.getStatus ≠ .finished → m'.getStatus ≠ .finished → Settled first' second' third') := by
      have hopen := fun hm hm' => hsettled.event hbase hfollows hm hm' hbye
      obtain ⟨heq, hbased⟩ | ⟨heq, hbased⟩ | ⟨heq, hbased⟩ :=
        hbase.rewrites hindexed hrewrites hsame (counted_counterMove _ _) (fun _ => hwinner) hthird
      · exact ⟨_, _, _, hbased, fun hm hm' => (hopen hm hm').1 heq⟩
      · exact ⟨_, _, _, hbased, fun hm hm' => (hopen hm hm').2.1 heq⟩
      · exact ⟨_, _, _, hbased, fun hm hm' => (hopen hm hm').2.2 heq⟩
    obtain ⟨first', second', third', hbased, hopen⟩ := hbased
    obtain ⟨c', ht', hsound, hcalm⟩ := hbased.follow ht₁ hopen hfollow
    refine ⟨c', ht', hsound, .inr fun hquiet u b u' hu hview hundo => ?_⟩
    obtain ⟨rfl, hstack⟩ := hcalm hquiet
    simp only [MatchEventAction.undoImpl, hsaved] at hundo
    obtain ⟨_, u₁, hall, hrest⟩ := bind_ok.1 hundo
    obtain ⟨_, u₂, hrestore, hrest⟩ := bind_ok.1 hrest
    obtain ⟨rfl, rfl⟩ := pure_ok.1 hrest
    obtain ⟨⟨hu₁, hview₁⟩, -⟩ := DrawAction.keeps_undoAll_calm hstack ⟨hu, hview⟩ hall
    have hback := MatchEventAction.restore_own rfl hrewrites hfollows.advances hview₁ hrestore
    exact ⟨(courseBack_indexed.restore _ _ _ hu₁ hrestore).1, hback, rfl⟩

/-! ### Resets -/

/-- What resets leave of the matches as long as no result is lost. -/
structure Cleared (id : CategoryId) (ids : List CombinedId) (first second third first' second' third' : MatchStore) :
    Prop where
  first : first' = first ∧ ⟨id, first.id⟩ ∉ ids ∨
    first'.getStatus ≠ .finished ∧ first.getStatus ≠ .finished
  second : second' = second ∧ ⟨id, second.id⟩ ∉ ids ∨
    second'.getStatus ≠ .finished ∧ second.getStatus ≠ .finished
  bye : third'.bye = third.bye
  third : third' = third ∨ third.bye = true ∨ third.getStatus ≠ .finished ∧ ⟨id, third.id⟩ ∈ ids

theorem Cleared.of_notMem {ids : List CombinedId} (hfirst : ⟨id, first.id⟩ ∉ ids)
    (hsecond : ⟨id, second.id⟩ ∉ ids) :
    Cleared id ids first second third first second third :=
  ⟨.inl ⟨rfl, hfirst⟩, .inl ⟨rfl, hsecond⟩, rfl, .inl rfl⟩

theorem Cleared.trans {x : CombinedId} {ids : List CombinedId}
    {first₁ second₁ third₁ first₂ second₂ third₂ : MatchStore}
    (h : Cleared id [x] first second third first₁ second₁ third₁)
    (h' : Cleared id ids first₁ second₁ third₁ first₂ second₂ third₂) :
    Cleared id (x :: ids) first second third first₂ second₂ third₂ := by
  have hmem : ∀ {y : CombinedId}, y ∉ [x] → y ∉ ids → y ∉ x :: ids := fun hx hids hy =>
    (List.mem_cons.1 hy).elim (fun heq => hx (List.mem_singleton.2 heq)) hids
  have hmatch : ∀ {m m₁ m₂ : MatchStore},
      (m₁ = m ∧ ⟨id, m.id⟩ ∉ [x] ∨ m₁.getStatus ≠ .finished ∧ m.getStatus ≠ .finished) →
      (m₂ = m₁ ∧ ⟨id, m₁.id⟩ ∉ ids ∨ m₂.getStatus ≠ .finished ∧ m₁.getStatus ≠ .finished) →
      (m₂ = m ∧ ⟨id, m.id⟩ ∉ x :: ids ∨ m₂.getStatus ≠ .finished ∧ m.getStatus ≠ .finished) := by
    intro m m₁ m₂ h₁ h₂
    obtain ⟨rfl, hx⟩ | ⟨hm₁, hm⟩ := h₁
    · exact h₂.imp_left fun h₂ => ⟨h₂.1, hmem hx h₂.2⟩
    · obtain ⟨rfl, -⟩ | ⟨hm₂, -⟩ := h₂
      · exact .inr ⟨hm₁, hm⟩
      · exact .inr ⟨hm₂, hm⟩
  refine ⟨hmatch h.first h'.first, hmatch h.second h'.second, h'.bye.trans h.bye, ?_⟩
  obtain rfl | hbye | ⟨hopen, hx⟩ := h.third
  · exact h'.third.imp_right fun h₂ => h₂.imp_right fun h₂ => ⟨h₂.1, List.mem_cons_of_mem _ h₂.2⟩
  · exact .inr (.inl hbye)
  · exact .inr (.inr ⟨hopen, List.mem_cons.2 (.inl (List.mem_singleton.1 hx))⟩)

/-- One reset leaves a drawn category. -/
theorem Based.reset {x : CombinedId} {p : ResetMatch × Bool} (h : Based c first second third)
    (ht : t.Shows id (some c))
    (hreset : ResetMatchesAction.resetMatch x t = .ok p t') : ∃ c' first' second' third', t'.Shows id (some c') ∧
      Based c' first' second' third' ∧ p.1.combinedId = x ∧
      ((x.categoryId = id → p.2 = false) → Cleared id [x] first second third first' second' third') := by
  obtain ⟨ht', hp⟩ := ResetMatchesAction.keeps_resetMatch_indexed x ht.1 hreset
  by_cases hx : x.categoryId = id
  · subst hx
    have hc := ht.1.index _ c ht.2
    obtain ⟨hdistinct₁, hdistinct₂, hdistinct₃⟩ := h.distinct hc
    obtain ⟨m, m', c', rfl, hrewrites, hc', -, hlost⟩ := ResetMatchesAction.resetMatch_own ht.2 hreset
    obtain ⟨hmem, hid⟩ := hc.getMatch_ok.1 hrewrites.old
    obtain ⟨k, y⟩ := x
    obtain rfl : m.id = y := hid
    have hstatus : (m.clearState.setEvents []).getStatus = if m.bye then .finished else .notStarted := rfl
    have hfinished : m.bye = true → m.getStatus = .finished := fun htrue => by
      rw [h.list] at hmem
      simp only [List.mem_cons, List.not_mem_nil, or_false] at hmem
      obtain rfl | rfl | rfl := hmem
      · exact absurd (h.firstWinner.contested.bye.symm.trans htrue) (by decide)
      · exact absurd (h.secondWinner.contested.bye.symm.trans htrue) (by decide)
      · exact h.bye htrue
    have hcounted : CategoryStore.Counted m (m.clearState.setEvents [])
        (if (m.clearState.setEvents []).getStatus ≠ m.getStatus then some (m.getStatus, .notStarted) else none) := by
      split
      · next hchanged =>
        refine ⟨rfl, ?_⟩
        cases hbye : m.bye with
        | true =>
          rw [hstatus, hbye, if_pos rfl, hfinished hbye] at hchanged
          exact absurd rfl hchanged
        | false =>
          rw [hstatus, hbye]
          rfl
      · next hsame =>
        intro s
        rw [not_not.1 hsame]
    have hwinner : c.ruleset.WinnerSound m → c.ruleset.WinnerSound (m.clearState.setEvents []) := fun hm => by
      refine ⟨hm.contested.congr rfl rfl, fun hover => ?_⟩
      rw [hstatus, hm.contested.bye] at hover
      cases hover
    have hthird : m = third → ((m.clearState.setEvents []).bye = false →
        c.ruleset.WinnerSound (m.clearState.setEvents [])) ∧ ((m.clearState.setEvents []).bye = true →
        (m.clearState.setEvents []).getStatus = .finished) := by
      rintro rfl
      exact ⟨fun hfalse => hwinner (h.thirdWinner hfalse), fun htrue => hstatus.trans (if_pos htrue)⟩
    have hlosing : m.bye = false → p.2 = false → (m.clearState.setEvents []).getStatus ≠ .finished ∧
        m.getStatus ≠ .finished := by
      intro hbye hp₂
      rw [hlost, decide_eq_false_iff_not, hstatus, hbye] at hp₂
      rw [hstatus, hbye]
      refine ⟨by decide, fun hover => hp₂ ⟨?_, hover⟩⟩
      rw [hover]
      decide
    have hother : ∀ {n : MatchStore}, n.id ≠ m.id →
      (⟨k, n.id⟩ : CombinedId) ∉ [(⟨k, m.id⟩ : CombinedId)] :=
      fun hne hmem => hne (CombinedId.mk.inj (List.mem_singleton.1 hmem)).2
    have hsame : m.SameFight (m.clearState.setEvents []) := ⟨rfl, rfl, rfl, rfl⟩
    obtain ⟨rfl, hbased⟩ | ⟨rfl, hbased⟩ | ⟨rfl, hbased⟩ :=
      h.rewrites hc hrewrites hsame hcounted (fun _ => hwinner) hthird
    · exact ⟨c', _, _, _, ⟨ht', hc'⟩, hbased, hp,
        fun hkept => ⟨.inr (hlosing h.firstWinner.contested.bye (hkept rfl)),
        .inl ⟨rfl, hother hdistinct₁.symm⟩, rfl, .inl rfl⟩⟩
    · exact ⟨c', _, _, _, ⟨ht', hc'⟩, hbased, hp, fun hkept => ⟨.inl ⟨rfl, hother hdistinct₁⟩,
        .inr (hlosing h.secondWinner.contested.bye (hkept rfl)), rfl, .inl rfl⟩⟩
    · refine ⟨c', _, _, _, ⟨ht', hc'⟩, hbased, hp,
        fun hkept => ⟨.inl ⟨rfl, hother hdistinct₂⟩, .inl ⟨rfl, hother hdistinct₃⟩,
        rfl, .inr ?_⟩⟩
      cases hbye : m.bye with
      | true => exact .inl rfl
      | false => exact .inr ⟨(hlosing hbye (hkept rfl)).2, List.mem_singleton.2 rfl⟩
  · refine ⟨c, first, second, third,
      ⟨ht', (ResetMatchesAction.frame_resetMatch_other hx hreset).trans ht.2⟩, h, hp,
      fun _ => .of_notMem ?_ ?_⟩
    · exact fun hmem => hx (congrArg CombinedId.categoryId (List.mem_singleton.1 hmem)).symm
    · exact fun hmem => hx (congrArg CombinedId.categoryId (List.mem_singleton.1 hmem)).symm

/-- Resets leave a drawn category. -/
theorem Based.resets {ids : List CombinedId} {ps : List (ResetMatch × Bool)} (h : Based c first second third)
    (ht : t.Shows id (some c)) (hresets : forEach ResetMatchesAction.resetMatch ids t = .ok ps t') :
    ∃ c' first' second' third', t'.Shows id (some c') ∧ Based c' first' second' third' ∧
      ((∀ p ∈ ps, p.1.combinedId.categoryId = id → p.2 = false) →
        Cleared id ids first second third first' second' third') := by
  induction ids generalizing t ps c first second third with
  | nil =>
    obtain ⟨rfl, rfl⟩ := forEach_nil_ok.1 hresets
    exact ⟨c, first, second, third, ht, h, fun _ => .of_notMem List.not_mem_nil List.not_mem_nil⟩
  | cons x ids ih =>
    obtain ⟨p, t₁, ps', hreset, hrest, rfl⟩ := forEach_cons_ok.1 hresets
    obtain ⟨c₁, first₁, second₁, third₁, ht₁, h₁, hx, hcleared₁⟩ := h.reset ht hreset
    obtain ⟨c', first', second', third', ht', h', hcleared'⟩ := ih h₁ ht₁ hrest
    refine ⟨c', first', second', third', ht', h', fun hkept => ?_⟩
    rw [List.forall_mem_cons, hx] at hkept
    exact (hcleared₁ hkept.1).trans (hcleared' hkept.2)

/-- The updates of several draw systems. -/
theorem Based.updateDraws {ks : List CategoryId} {stack stack' : List DrawAction} (h : Based c first second third)
    (ht : t.Shows id (some c)) (hstack : ∀ b ∈ stack, b.Calm id ∨ b.setsBye id = true)
    (hrun : ResetMatchesAction.updateDraws ks stack t = .ok stack' t') :
    ∃ c' third', t'.Shows id (some c') ∧ Based c' first second third' ∧
      (id ∈ ks ∨ Settled first second third → Settled first second third') ∧ stack <:+ stack' ∧
      (∀ b ∈ stack', b.Calm id ∨ b.setsBye id = true) ∧
        ((∀ b ∈ stack', b.setsBye id = false) → c' = c) := by
  induction ks generalizing t stack c third with
  | nil =>
    obtain ⟨rfl, rfl⟩ := pure_ok.1 hrun
    exact ⟨c, third, ht, h, fun hcase => hcase.resolve_left List.not_mem_nil, List.suffix_rfl, hstack, fun _ => rfl⟩
  | cons k ks ih =>
    obtain ⟨stack₁, t₁, hupdate, hrest⟩ := bind_ok.1 hrun
    have hstep : ∃ c₁ third₁, t₁.Shows id (some c₁) ∧ Based c₁ first second third₁ ∧
        (id = k ∨ Settled first second third → Settled first second third₁) ∧
        (∀ b ∈ stack₁, b.Calm id ∨ b.setsBye id = true) ∧
          ((∀ b ∈ stack₁, b.setsBye id = false) → c₁ = c) := by
      by_cases hk : k = id
      · subst hk
        obtain ⟨rfl, rfl, hsettled⟩ | ⟨x, bye, saved, actions, rfl, hx, hcase⟩ := h.updateDraw_cases ht hupdate
        · exact ⟨c, third, ht, h, fun _ => hsettled, hstack, fun _ => rfl⟩
        · obtain ⟨rfl, rfl, hsettled⟩ | ⟨state, n, c', third', rfl, ht', hbased, hsettled⟩ := hcase
          · exact ⟨c, third, ht, h, fun _ => hsettled,
              List.forall_mem_cons.2 ⟨.inl (.idle x bye actions), hstack⟩, fun _ => rfl⟩
          · have hsets : DrawAction.setsBye k (.setMatchBye x bye (.state state n) actions) = true := decide_eq_true hx
            refine ⟨c', third', ht', hbased, fun _ => hsettled, List.forall_mem_cons.2 ⟨.inr hsets, hstack⟩,
              fun hquiet => ?_⟩
            rw [hquiet _ List.mem_cons_self] at hsets
            cases hsets
      · obtain ⟨ht₁, hstack₁⟩ := keeps_updateDraw_other
          (fun a ha => (DrawAction.keeps_redo_other hk _ ha).mono fun b hb => Or.inl (.other hk hb)) hstack ht hupdate
        exact ⟨c, third, ht₁, h, fun hcase => hcase.resolve_left fun heq => hk heq.symm, hstack₁, fun _ => rfl⟩
    obtain ⟨c₁, third₁, ht₁, h₁, hsettled₁, hstack₁, hsame₁⟩ := hstep
    obtain ⟨c', third', ht', h', hsettled', hsuffix, hstack', hsame'⟩ := ih h₁ ht₁ hstack₁ hrest
    refine ⟨c', third', ht', h', fun hcase => ?_, (suffix_updateDraw hupdate).trans hsuffix, hstack',
      fun hquiet => ?_⟩
    · rw [List.mem_cons, or_assoc] at hcase
      obtain hk | hks | hsettled := hcase
      · exact hsettled' (.inr (hsettled₁ (.inl hk)))
      · exact hsettled' (.inl hks)
      · exact hsettled' (.inr (hsettled₁ (.inr hsettled)))
    · exact (hsame' hquiet).trans (hsame₁ fun b hb => hquiet b (hsuffix.mem hb))

/-- Where the third match is to be reset and the first one is not, the third match is reset alone. -/
theorem targets_third {a : ResetMatchesAction} {ids : List CombinedId} (h : Based c first second third)
    (ht : t.Shows id (some c)) (hids : a.targets t = .ok ids) (hthird : ⟨id, third.id⟩ ∈ ids)
    (hfirst : first.getStatus = .finished) :
    ⟨id, first.id⟩ ∈ ids ∨ a.categoryIds = [id] ∧ a.matchId = some third.id ∧
      third.getStatus ≠ .notStarted := by
  have hc := ht.1.index id c ht.2
  have hid := ht.1.category id c ht.2
  unfold ResetMatchesAction.targets at hids
  split at hids
  · cases hids
    left
    obtain ⟨k, hk, hmem⟩ := List.mem_flatMap.1 hthird
    unfold ResetMatchesAction.startedMatches at hmem
    split at hmem
    · cases hmem
    · next ck hck =>
      obtain ⟨m, hm, heq⟩ := List.mem_map.1 hmem
      have hkid : k = id := by
        have hmid := (ht.1.index k ck hck).ids m (List.mem_filter.1 hm).1
        rw [heq, ht.1.category k ck hck] at hmid
        exact hmid.symm
      subst hkid
      refine List.mem_flatMap.2 ⟨k, hk, ?_⟩
      rw [ResetMatchesAction.startedMatches, ht.2]
      refine List.mem_map.2 ⟨first, List.mem_filter.2 ⟨by simp [h.list], by rw [hfirst]; decide⟩, ?_⟩
      have hcid := hc.ids first (by simp [h.list])
      rw [hid] at hcid
      rw [← hcid]
      rfl
  · next y hy =>
    right
    split at hids
    · next k hk =>
      split at hids
      · cases hids
        exact absurd hthird List.not_mem_nil
      · next ck hck =>
        obtain ⟨m, hm, heq⟩ := except_bind_ok.1 hids
        split at heq
        · cases heq
          exact absurd hthird List.not_mem_nil
        · next hstarted =>
          cases heq
          have hmid : m.combinedId = ⟨id, third.id⟩ := (List.mem_singleton.1 hthird).symm
          have hck' : t.categories k = some ck := by
            unfold TournamentStore.findMatch at hck
            split at hck
            · cases hck
            · next c₀ hc₀ =>
              split at hck
              · cases hck
                exact hc₀
              · cases hck
          obtain ⟨hmem, rfl⟩ := (ht.1.index k ck hck').getMatch_ok.1 hm
          have hkid : k = id := by
            have hcategory := (ht.1.index k ck hck').ids m hmem
            rw [hmid, ht.1.category k ck hck'] at hcategory
            exact hcategory.symm
          subst hkid
          rw [ht.2] at hck'
          cases hck'
          have hthirdId : m.id = third.id := by rw [MatchStore.id, hmid]
          obtain rfl := hc.eq_of_id hmem (by simp [h.list]) hthirdId
          exact ⟨hk, hy, hstarted⟩
    · cases hids

theorem Settled.reset {ids : List CombinedId} {first' second' third' : MatchStore} (h : Settled first second third)
    (hcleared : Cleared id ids first second third first' second' third') (hbased : Based c' first' second' third')
    (hthird : Agreed first second → third.getStatus ≠ .finished → ⟨id, third.id⟩ ∈ ids →
      ⟨id, first.id⟩ ∈ ids) :
    Settled first' second' third' := by
  refine ⟨fun htrue => ?_, fun hagreed => ?_⟩
  · have hagreed := h.bye (hcleared.bye.symm.trans htrue)
    obtain ⟨hfirst, -⟩ := hcleared.first.resolve_right fun hopen => hopen.2 hagreed.1
    obtain ⟨hsecond, -⟩ := hcleared.second.resolve_right fun hopen => hopen.2 hagreed.2.1
    rwa [hfirst, hsecond]
  · obtain ⟨rfl, hnot⟩ := hcleared.first.resolve_right fun hopen => hopen.1 hagreed.1
    obtain ⟨rfl, -⟩ := hcleared.second.resolve_right fun hopen => hopen.1 hagreed.2.1
    obtain rfl | hbye | ⟨hopen, hmem⟩ := hcleared.third
    · exact h.fresh hagreed
    · rw [hbased.bye (hcleared.bye.trans hbye)]
      decide
    · exact absurd (hthird hagreed hopen hmem) hnot

/-- A reset leaves the bye right, unless it resets only a third match that has begun. -/
theorem reset_cases {a a' : ResetMatchesAction} (ht : t.Shows id (some c)) (hc : Sound c)
    (hidle : a.changedMatches = [] ∧ a.drawActions = [])
    (hallowed : ∀ first second third, c.matchList = [first, second, third] → a.categoryIds = [id] →
      a.matchId = some third.id → Agreed first second → third.getStatus = .notStarted ∨
        third.getStatus = .finished)
    (hredo : a.redoImpl t = .ok a' t') : ∃ c', t'.Shows id (some c') ∧ Sound c' ∧
      ((∀ b ∈ a'.drawActions, b.setsBye id = false) →
        TakesBack id a'.undoImpl c' c fun b => b.changedMatches = [] ∧ b.drawActions = []) := by
  obtain ⟨first, second, third, hbase, hsettled⟩ := hc
  obtain ⟨ids, t₀, hread, hrest⟩ := bind_ok.1 hredo
  obtain ⟨hids, rfl⟩ := read_ok.1 hread
  obtain ⟨ps, t₁, hresets, hrest⟩ := bind_ok.1 hrest
  obtain ⟨stack, t₂, hupdates, hrest⟩ := bind_ok.1 hrest
  obtain ⟨rfl, heq⟩ := pure_ok.1 hrest
  rw [heq, hidle.2] at hupdates
  obtain ⟨c₁, first₁, second₁, third₁, ht₁, hbase₁, hcleared⟩ := hbase.resets ht hresets
  obtain ⟨-, hback⟩ := revocable_forEach (fun x _ => @ResetMatchesAction.revocable_resetMatch id x) ht.1 hresets
  obtain ⟨c', third', ht', hbase', hsettled', -, hcalm, hsame⟩ :=
    hbase₁.updateDraws ht₁ (fun b hb => (List.not_mem_nil hb).elim) hupdates
  have hsound : Settled first₁ second₁ third' := by
    apply hsettled'
    by_cases hlost : id ∈ ResetMatchesAction.drawUpdates ps
    · exact .inl hlost
    · right
      refine hsettled.reset (hcleared fun p hp hpid => ?_) hbase₁ fun hagreed hopen hmem => ?_
      · by_contra hp₂
        exact hlost (ResetMatchesAction.mem_drawUpdates.2 ⟨p, hp, Bool.eq_true_of_not_eq_false hp₂, hpid⟩)
      · obtain hfirst | ⟨hone, hmatch, hstarted⟩ := targets_third hbase ht hids hmem hagreed.1
        · exact hfirst
        · obtain hfresh | hfinished := hallowed first second third hbase.list hone hmatch hagreed
          · exact absurd hfresh hstarted
          · exact absurd hfinished hopen
  refine ⟨c', ht', ⟨first₁, second₁, third', hbase', hsound⟩, fun hquiet u b u' hu hview hundo => ?_⟩
  obtain rfl := hsame hquiet
  have hstack : ∀ b ∈ stack, b.Calm id := fun b hb => (hcalm b hb).resolve_right fun hsets => by
    rw [hquiet b hb] at hsets
    cases hsets
  have hrecover : ∀ {u₁ u₂ : TournamentStore} {rs : List Unit}, u₁.Shows id (some c') →
      forEach ResetMatchesAction.recoverMatch ((ps.map (·.1)).reverse ++ a.changedMatches) u₁ = .ok rs u₂ →
      u₂.Indexed ∧ u₂.categories id = some c := by
    intro u₁ u₂ rs hu₁ hloop
    rw [hidle.1, List.append_nil, ← List.map_reverse, forEach_map] at hloop
    obtain ⟨hu₂, hview₂, -⟩ := hback hu₁.1 (hu₁.2.trans ht₁.2.symm) hloop
    exact ⟨hu₂, hview₂.trans ht.2⟩
  unfold ResetMatchesAction.undoImpl at hundo
  split at hundo
  · next hnone =>
    obtain ⟨rfl, rfl⟩ := pure_ok.1 hundo
    have hps : ps = [] := by
      rw [hidle.1, List.append_nil, List.reverse_eq_nil_iff, List.map_eq_nil_iff] at hnone
      exact hnone
    subst hps
    obtain ⟨rfl, -⟩ := pure_ok.1 hupdates
    obtain ⟨hu', hview'⟩ := hrecover ⟨hu, hview⟩ (show forEach _ _ u = .ok [] u by rw [hidle.1]; rfl)
    exact ⟨hu', hview', hnone, rfl⟩
  · obtain ⟨_, u₁, hall, hrest⟩ := bind_ok.1 hundo
    obtain ⟨rs, u₂, hloop, hrest⟩ := bind_ok.1 hrest
    obtain ⟨rfl, rfl⟩ := pure_ok.1 hrest
    obtain ⟨hu₁, -⟩ := DrawAction.keeps_undoAll_calm hstack ⟨hu, hview⟩ hall
    obtain ⟨hu', hview'⟩ := hrecover hu₁ hloop
    exact ⟨hu', hview', rfl, rfl⟩

end

/-! ### Results -/

/-- The player has fought the match and won it. -/
def Won (p : PlayerId) (m : MatchStore) : Prop :=
  m.bye = false ∧ m.getStatus = .finished ∧ m.winner?.bind m.getPlayer = some p

instance (p : PlayerId) (m : MatchStore) : Decidable (Won p m) := inferInstanceAs (Decidable (_ ∧ _ ∧ _))

/-- The number of matches of a category that a player has fought and won. -/
def wins (c : CategoryStore) (p : PlayerId) : ℕ := c.matchList.countP fun m => decide (Won p m)

/-- The bye of the third match and the results are as the first two matches call for. -/
def Right (c : CategoryStore) : Prop :=
  ∃ (d : BestOfThreeDrawSystem) (first second third : MatchStore), c.drawSystem = .bestOfThree d ∧
    matchAt c d 0 = .ok first ∧ matchAt c d 1 = .ok second ∧ matchAt c d 2 = .ok third ∧
    (Agreed first second → third.getStatus = .notStarted ∨ third.bye = true →
      third.bye = true ∧ third.getStatus = .finished) ∧
    (¬Agreed first second → third.bye = false) ∧
    ∀ rows, getResults c d = .ok rows → rows ≠ [] → ∃ p, rows.head? = some (p, some 1) ∧ 2 ≤ wins c p

theorem isFinished_increment {s : CategoryStatus} {status : MatchStatus} (h : (s.increment status).isFinished = true) :
    status = .finished ∧ s.isFinished = true := by
  cases status with
  | finished => exact ⟨rfl, h⟩
  | notStarted => simp [CategoryStatus.increment, CategoryStatus.isFinished] at h
  | paused => simp [CategoryStatus.increment, CategoryStatus.isFinished] at h
  | unpaused => simp [CategoryStatus.increment, CategoryStatus.isFinished] at h

/-- A finished match with a winner. -/
theorem won_of_winner {r : RulesetIdentifier} {i : PlayerIndex} {p : PlayerId} (hm : r.WinnerSound m)
    (hfinished : m.getStatus = .finished) (hwinner : getWinner m = .ok (some i)) (hplayer : m.getPlayer i = some p) :
    Won p m :=
  ⟨hm.contested.bye, hfinished, by rw [winner?_of_ok hwinner]; exact hplayer⟩

theorem Based.getPlayer_eq (h : Based c first second third) (hm : m ∈ [first, second, third]) (i : PlayerIndex) :
    m.getPlayer i = first.getPlayer i := by
  rw [MatchStore.getPlayer, h.players m hm]
  rfl

theorem Based.two_le_wins (h : Based c first second third) {p : PlayerId}
    (hwon : Won p first ∧ Won p second ∨ Won p first ∧ Won p third ∨ Won p second ∧ Won p third) :
    2 ≤ wins c p := by
  unfold wins
  rw [h.list]
  simp only [List.countP_cons, List.countP_nil]
  obtain ⟨h₁, h₂⟩ | ⟨h₁, h₂⟩ | ⟨h₁, h₂⟩ := hwon
  · rw [if_pos (decide_eq_true h₁), if_pos (decide_eq_true h₂)]
    omega
  · rw [if_pos (decide_eq_true h₁), if_pos (decide_eq_true h₂)]
    omega
  · rw [if_pos (decide_eq_true h₁), if_pos (decide_eq_true h₂)]
    omega

theorem whiteWinCount_eq {i : PlayerIndex} (h : getWinner m = .ok (some i)) :
    whiteWinCount m = .ok (if i = .white then 1 else 0) := by
  rw [whiteWinCount, h]
  cases i <;> rfl

/-- In a drawn category with the right bye the player who is ranked first has won two matches. -/
theorem Based.results (h : Based c first second third) (hsettled : Settled first second third) (hc : c.Indexed)
    {d : BestOfThreeDrawSystem} (hids : d.matchIds = [first.id, second.id, third.id]) {rows : ResultList}
    (hrows : getResults c d = .ok rows) (hne : rows ≠ []) :
    ∃ p, rows.head? = some (p, some 1) ∧ 2 ≤ wins c p := by
  unfold getResults at hrows
  split at hrows
  · cases hrows
    exact absurd rfl hne
  · split at hrows
    · cases hrows
      exact absurd rfl hne
    · next hstatus =>
      rw [Bool.not_eq_true, Bool.not_eq_false', h.count] at hstatus
      obtain ⟨hfirst, hrest⟩ := isFinished_increment hstatus
      obtain ⟨hsecond, hrest⟩ := isFinished_increment hrest
      obtain ⟨hthird, -⟩ := isFinished_increment hrest
      have hmatch : ∀ {i : ℕ} {n n' : MatchStore}, [first.id, second.id, third.id][i]? = some n.id →
          c.getMatch n.id = .ok n → matchAt c d i = .ok n' → n' = n := by
        intro i n n' hi hn hn'
        simp only [matchAt, hids, hi, hn] at hn'
        cases hn'
        rfl
      simp only [except_bind_ok, except_pure_ok] at hrows
      obtain ⟨first', hfirst', -, -, firstCount, hcount₁, second', hsecond', secondCount, hcount₂,
        thirdCount, hcount₃, white, hwhite, blue, hblue, rfl⟩ := hrows
      obtain rfl := hmatch rfl (h.getMatch_first hc) hfirst'
      obtain rfl := hmatch rfl (h.getMatch_second hc) hsecond'
      obtain ⟨i, hi⟩ := getWinner_of_winnerSound h.firstWinner hfirst
      obtain ⟨j, hj⟩ := getWinner_of_winnerSound h.secondWinner hsecond
      rw [whiteWinCount_eq hi] at hcount₁
      rw [whiteWinCount_eq hj] at hcount₂
      cases hcount₁
      cases hcount₂
      have hvalue : ∀ {o : Option PlayerId} {p : PlayerId}, optionalValue o = .ok p → o = some p := by
        intro o p ho
        cases o <;> cases ho
        rfl
      have hplayer : ∀ {n : MatchStore}, n ∈ [first', second', third] →
          n.getPlayer .white = some white ∧ n.getPlayer .blue = some blue := fun hn =>
        ⟨(h.getPlayer_eq hn _).trans (hvalue hwhite), (h.getPlayer_eq hn _).trans (hvalue hblue)⟩
      have hfirstPlayers := hplayer (n := first') (by simp)
      have hsecondPlayers := hplayer (n := second') (by simp)
      have hthirdPlayers := hplayer (n := third) (by simp)
      have hwon₁ := fun p => won_of_winner (p := p) h.firstWinner hfirst hi
      have hwon₂ := fun p => won_of_winner (p := p) h.secondWinner hsecond hj
      by_cases hij : i = j
      · -- The first two matches decide.
        subst hij
        cases i with
        | white =>
          rw [thirdWinCount, if_neg (by decide)] at hcount₃
          cases hcount₃
          exact ⟨white, rfl,
            h.two_le_wins (.inl ⟨hwon₁ white hfirstPlayers.1, hwon₂ white hsecondPlayers.1⟩)⟩
        | blue =>
          rw [thirdWinCount, if_neg (by decide)] at hcount₃
          cases hcount₃
          exact ⟨blue, rfl, h.two_le_wins (.inl ⟨hwon₁ blue hfirstPlayers.2, hwon₂ blue hsecondPlayers.2⟩)⟩
      · -- The third match is no bye, and it decides.
        have hnot : ¬Agreed first' second' := fun hagreed => hij (by
          have heq := hagreed.2.2.2
          rw [winner?_of_ok hi, winner?_of_ok hj] at heq
          exact Option.some.inj heq)
        have hbye : third.bye = false := Bool.eq_false_iff.2 fun htrue => hnot (hsettled.bye htrue)
        have hthirdWinner := h.thirdWinner hbye
        obtain ⟨k, hk⟩ := getWinner_of_winnerSound hthirdWinner hthird
        have hwon₃ := fun p => won_of_winner (p := p) hthirdWinner hthird hk
        have hsum : (if i = .white then 1 else 0) + (if j = .white then 1 else 0) = 1 := by
          cases i <;> cases j <;> first | rfl | exact absurd rfl hij
        rw [hsum, thirdWinCount, if_pos rfl] at hcount₃
        obtain ⟨third', hthird', hcount₃⟩ := except_bind_ok.1 hcount₃
        obtain rfl := hmatch rfl (h.getMatch_third hc) hthird'
        rw [whiteWinCount_eq hk] at hcount₃
        cases hcount₃
        rw [hsum]
        cases k with
        | white =>
          refine ⟨white, rfl, h.two_le_wins (.inr ?_)⟩
          cases i with
          | white => exact .inl ⟨hwon₁ white hfirstPlayers.1, hwon₃ white hthirdPlayers.1⟩
          | blue =>
            cases j with
            | white => exact .inr ⟨hwon₂ white hsecondPlayers.1, hwon₃ white hthirdPlayers.1⟩
            | blue => exact absurd rfl hij
        | blue =>
          refine ⟨blue, rfl, h.two_le_wins (.inr ?_)⟩
          cases i with
          | blue => exact .inl ⟨hwon₁ blue hfirstPlayers.2, hwon₃ blue hthirdPlayers.2⟩
          | white =>
            cases j with
            | blue => exact .inr ⟨hwon₂ blue hsecondPlayers.2, hwon₃ blue hthirdPlayers.2⟩
            | white => exact absurd rfl hij

theorem Sound.right (h : Sound c) (hc : c.Indexed) : Right c := by
  obtain ⟨first, second, third, hbase, hsettled⟩ := h
  obtain ⟨d, hdraw, hplayers, hids⟩ := hbase.draw
  refine ⟨d, first, second, third, hdraw, ?_, ?_, ?_, fun hagreed hopen => ?_, fun hnot => ?_, fun rows hrows hne =>
    hbase.results hsettled hc hids hrows hne⟩
  · simp only [matchAt, hids]
    exact hbase.getMatch_first hc
  · simp only [matchAt, hids]
    exact hbase.getMatch_second hc
  · simp only [matchAt, hids]
    exact hbase.getMatch_third hc
  · have hbye : third.bye = true := hopen.resolve_left (hsettled.fresh hagreed)
    exact ⟨hbye, hbase.bye hbye⟩
  · exact Bool.eq_false_iff.2 fun htrue => hnot (hsettled.bye htrue)

end BestOfThreeDrawSystem

end JudoAssistant
