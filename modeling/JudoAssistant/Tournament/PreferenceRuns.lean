import JudoAssistant.Tournament.Preferences

/-!
# Runs of the preference actions

The rows of the preferred draw systems are sorted by their limits and the first limit is one, so that
`getPreferredDrawSystem` finds the last row whose limit is at most the number of players.  This holds
after every run of the four preference actions in which no limit is set to zero, no limit action is
redone with limits that an earlier redo has saved, and no row after the last one is erased.
-/

namespace JudoAssistant

open Effect Rows

/-! ### Sorted limits -/

/-- The limits are sorted and start with one. -/
structure SoundLimits (ls : List ℕ) : Prop where
  sorted : ls.Pairwise (· ≤ ·)
  first : ls.head? = some 1

theorem limits_insertIdx (rows : Rows) (i : ℕ) (r : DrawSystemPreference) :
    limits (rows.insertIdx i r) = (limits rows).insertIdx i r.playerLowerLimit :=
  List.map_insertIdx _ rows i r

theorem limits_eraseIdx (rows : Rows) (i : ℕ) : limits (rows.eraseIdx i) = (limits rows).eraseIdx i :=
  (List.eraseIdx_map _ rows i).symm

theorem getElem?_limits (rows : Rows) (i : ℕ) :
    (limits rows)[i]? = (rows[i]?).map (·.playerLowerLimit) := List.getElem?_map

theorem limits_take (rows : Rows) (i : ℕ) : limits (rows.take i) = (limits rows).take i := List.map_take

theorem limits_drop (rows : Rows) (i : ℕ) : limits (rows.drop i) = (limits rows).drop i := List.map_drop

theorem limits_reverse (rows : Rows) : limits rows.reverse = (limits rows).reverse := List.map_reverse

theorem limits_append (rows rows' : Rows) : limits (rows ++ rows') = limits rows ++ limits rows' :=
  List.map_append

/-- On rows whose limits satisfy `p` only at the front, capping them is a map. -/
theorem limits_capWhile {p : ℕ → Bool} {limit : ℕ} {f : ℕ → ℕ} (hcap : ∀ l, p l = true → f l = limit)
    (hkeep : ∀ l, ¬ p l = true → f l = l) {rows : Rows}
    (h : (limits rows).Pairwise fun a b => p b = true → p a = true) :
    limits (capWhile p limit rows) = (limits rows).map f := by
  induction rows with
  | nil => rfl
  | cons row rows ih =>
    rw [limits_cons, List.pairwise_cons] at h
    unfold capWhile
    split
    · next hp =>
      rw [limits_cons, limits_cons, List.map_cons, ih h.2, hcap _ hp]
      rfl
    · next hp =>
      have hrest : (limits rows).map f = limits rows := by
        refine (List.map_congr_left fun l hl => ?_).trans (List.map_id _)
        exact hkeep l fun hl' => hp (h.1 l hl hl')
      rw [limits_cons, List.map_cons, hrest, hkeep _ hp]

theorem limits_overwrite {ls : List ℕ} {rows : Rows} (h : ls.length ≤ rows.length) :
    limits (overwrite ls rows) = ls ++ (limits rows).drop ls.length := by
  induction ls generalizing rows with
  | nil => rfl
  | cons l ls ih =>
    cases rows with
    | nil => simp at h
    | cons row rows =>
      rw [overwrite, limits_cons, ih (by simpa using h)]
      rfl

/-- The limits that are not capped stay. -/
theorem drop_capWhile (p : ℕ → Bool) (limit : ℕ) (rows : Rows) :
    (limits (capWhile p limit rows)).drop ((limits rows).takeWhile p).length =
      (limits rows).drop ((limits rows).takeWhile p).length := by
  induction rows with
  | nil => rfl
  | cons row rows ih =>
    unfold capWhile
    split
    · next hp => simpa [hp] using ih
    · rfl

theorem takeWhile_append_drop (p : ℕ → Bool) (ls : List ℕ) :
    ls.takeWhile p ++ ls.drop (ls.takeWhile p).length = ls := by
  induction ls with
  | nil => rfl
  | cons l ls ih =>
    by_cases hp : p l = true
    · simp [hp, ih]
    · simp [hp]

/-! ### What the redos do to the limits -/

namespace ChangeDrawSystemPreferenceLimitAction

theorem limits_capped {row limit : ℕ} {rows : Rows} (hrow : row < rows.length)
    (h : (limits rows).Pairwise (· ≤ ·)) :
    limits (capped row limit rows) = ((limits rows).take row).map (min limit) ++
      limit :: ((limits rows).drop (row + 1)).map (max limit) := by
  obtain ⟨r, hr⟩ : ∃ r, rows[row]? = some r := ⟨_, List.getElem?_eq_getElem hrow⟩
  have hdrop := (split_at hr).2
  unfold capped
  rw [limits_append, limits_reverse, hdrop, cappedBelow, limits_cons,
    limits_capWhile (f := min limit) (by simp; omega) (by simp) ?_,
    limits_capWhile (f := max limit) (by simp; omega) (by simp) ?_]
  · rw [limits_reverse, List.map_reverse, List.reverse_reverse, limits_take, limits_drop]
    rfl
  · rw [limits_drop]
    exact (h.sublist (List.drop_sublist _ _)).imp (by simp; omega)
  · rw [limits_reverse, limits_take, List.pairwise_reverse]
    exact (h.sublist (List.take_sublist _ _)).imp (by simp; omega)

theorem soundLimits_capped {row limit : ℕ} {rows : Rows} (hrow : InRange row rows) (hlimit : 0 < limit)
    (h : SoundLimits (limits rows)) : SoundLimits (limits (capped row limit rows)) := by
  obtain ⟨h0, hlt⟩ := hrow
  rw [limits_capped hlt h.sorted]
  constructor
  · rw [List.pairwise_append, List.pairwise_cons]
    refine ⟨?_, ⟨?_, ?_⟩, ?_⟩
    · exact ((h.sorted.sublist (List.take_sublist _ _)).map _ (by simp; omega))
    · intro l hl
      obtain ⟨_, -, rfl⟩ := List.mem_map.1 hl
      exact le_max_left _ _
    · exact ((h.sorted.sublist (List.drop_sublist _ _)).map _ (by simp; omega))
    · intro l hl l' hl'
      obtain ⟨_, -, rfl⟩ := List.mem_map.1 hl
      rcases List.mem_cons.1 hl' with rfl | hl'
      · exact min_le_left _ _
      · obtain ⟨_, -, rfl⟩ := List.mem_map.1 hl'
        exact (min_le_left _ _).trans (le_max_left _ _)
  · obtain ⟨ls, hls⟩ : ∃ ls, limits rows = 1 :: ls := by
      have := h.first
      cases hl : limits rows with
      | nil => rw [hl] at this; cases this
      | cons l ls => rw [hl] at this; cases this; exact ⟨ls, rfl⟩
    obtain ⟨row, rfl⟩ := Nat.exists_eq_succ_of_ne_zero h0
    rw [hls]
    simp
    omega

/-- The limits that a redo has saved are enough to restore the limits, whatever the draw systems
are. -/
theorem limits_undo {row limit : ℕ} {rows rows' : Rows} (hrow : row < rows.length)
    (h : limits rows' = limits (capped row limit rows)) :
    limits ((overwrite (savedAbove row limit rows) (rows'.take row).reverse).reverse ++
      overwrite (savedBelow row limit rows) (rows'.drop row)) = limits rows := by
  obtain ⟨r, hr⟩ : ∃ r, rows[row]? = some r := ⟨_, List.getElem?_eq_getElem hrow⟩
  have hlen : rows'.length = rows.length := by
    rw [← length_limits, h, length_limits, length_capped]
  have hupper : (limits (capWhile (limit < ·) limit (rows.take row).reverse)).reverse.length = row := by
    simp only [List.length_reverse, length_limits, length_capWhile, List.length_take]
    omega
  have hcapped : limits (capped row limit rows) =
      (limits (capWhile (limit < ·) limit (rows.take row).reverse)).reverse ++
        limits (cappedBelow limit (rows.drop row)) := by
    rw [capped, limits_append, limits_reverse]
  have habove : limits (rows'.take row).reverse =
      limits (capWhile (limit < ·) limit (rows.take row).reverse) := by
    rw [limits_reverse, limits_take, h, hcapped, List.take_left' hupper, List.reverse_reverse]
  have hbelow : limits (rows'.drop row) = limits (cappedBelow limit (rows.drop row)) := by
    rw [limits_drop, h, hcapped, List.drop_left' hupper]
  have hsaved := savedBelow_eq limit hr
  rw [limits_append, limits_reverse, limits_overwrite, limits_overwrite, habove, hbelow]
  · have hA : savedAbove row limit rows ++
        (limits (capWhile (limit < ·) limit (rows.take row).reverse)).drop
          (savedAbove row limit rows).length = limits (rows.take row).reverse := by
      unfold savedAbove
      rw [drop_capWhile, takeWhile_append_drop]
    have hB : savedBelow row limit rows ++
        (limits (cappedBelow limit (rows.drop row))).drop (savedBelow row limit rows).length =
          limits (rows.drop row) := by
      rw [hsaved, (split_at hr).2, cappedBelow, limits_cons, limits_cons, List.length_cons,
        List.drop_succ_cons, drop_capWhile, List.cons_append, takeWhile_append_drop]
    rw [hA, hB, limits_reverse, List.reverse_reverse, ← limits_append, List.take_append_drop]
  · rw [hsaved]
    have := (List.takeWhile_prefix (· < limit) (l := limits (rows.drop (row + 1)))).length_le
    simp only [List.length_cons, List.length_drop, length_limits] at this ⊢
    omega
  · unfold savedAbove
    refine (List.takeWhile_prefix _).length_le.trans ?_
    simp only [length_limits, List.length_reverse, List.length_take]
    omega

end ChangeDrawSystemPreferenceLimitAction

theorem soundLimits_insertIdx {ls : List ℕ} {i l : ℕ} (h0 : i ≠ 0) (hi : i ≤ ls.length)
    (hl : ls[if i = ls.length then i - 1 else i]? = some l) (h : SoundLimits ls) :
    SoundLimits (ls.insertIdx i l) := by
  have hlen := List.length_insertIdx_of_le_length hi l
  constructor
  · have hmono : ∀ a b (hb : b < ls.length) (hab : a ≤ b), ls[a] ≤ ls[b] := by
      intro a b hb hab
      rcases hab.eq_or_lt with rfl | hab
      · exact le_refl _
      · exact List.pairwise_iff_getElem.1 h.sorted a b (by omega) hb hab
    obtain ⟨k, hk, hki, hik, rfl⟩ : ∃ k, ∃ hk : k < ls.length, k ≤ i ∧ i ≤ k + 1 ∧ ls[k] = l := by
      obtain ⟨hk, hl⟩ := List.getElem?_eq_some_iff.1 hl
      refine ⟨_, hk, ?_, ?_, hl⟩ <;> split <;> omega
    rw [List.pairwise_iff_getElem]
    intro a b ha hb hab
    rw [hlen] at ha hb
    rw [List.getElem_insertIdx, List.getElem_insertIdx]
    -- `a < b` are both before, at or after the inserted element.
    split <;> split <;> (try split) <;> (try split) <;> first | omega | exact hmono _ _ _ (by omega)
  · cases ls with
    | nil => cases h.first
    | cons l ls =>
      obtain ⟨i, rfl⟩ := Nat.exists_eq_succ_of_ne_zero h0
      exact h.first

theorem soundLimits_eraseIdx {ls : List ℕ} {i : ℕ} (h0 : i ≠ 0) (h : SoundLimits ls) :
    SoundLimits (ls.eraseIdx i) := by
  constructor
  · exact h.sorted.sublist (List.eraseIdx_sublist _ _)
  · cases ls with
    | nil => cases h.first
    | cons l ls =>
      obtain ⟨i, rfl⟩ := Nat.exists_eq_succ_of_ne_zero h0
      exact h.first

/-! ### Steps -/

/-- The undo of the action takes the second limits to the first ones. -/
def UndoesTo (a : Action) (before after : List ℕ) : Prop :=
  ∀ t a' t', limits t.rows = after → a.undoImpl t = .ok a' t' → limits t'.rows = before

/-- A redo keeps the limits sound, and its undo takes them back. -/
def RedoesSoundly (a : Action) (t : TournamentStore) : Prop :=
  ∀ a' t', SoundLimits (limits t.rows) → a.redoImpl t = .ok a' t' →
    SoundLimits (limits t'.rows) ∧ UndoesTo a' (limits t.rows) (limits t'.rows)

theorem AddDrawSystemPreferenceRow.limits_undoImpl {a a' : AddDrawSystemPreferenceRow}
    {t t' : TournamentStore} (h : a.undoImpl t = .ok a' t') :
    limits t'.rows = if a.row = 0 ∨ t.rows.length < a.row then limits t.rows
      else (limits t.rows).eraseIdx a.row := by
  unfold undoImpl at h
  simp only [bind_ok, editPreferences_ok, pure_ok] at h
  obtain ⟨_, _, ⟨r, hr, rfl⟩, rfl, rfl⟩ := h
  rw [TournamentStore.rows_withRows]
  split at hr
  · next hrow => cases hr; rw [if_pos hrow]
  · next hrow =>
    split at hr
    · cases hr
    · cases hr; rw [if_neg hrow, limits_eraseIdx]

theorem AddDrawSystemPreferenceRow.redoesSoundly (a : AddDrawSystemPreferenceRow)
    (t : TournamentStore) : RedoesSoundly (.addDrawSystemPreferenceRow a) t := by
  intro _ t' h hredo
  obtain ⟨_, ha, rfl⟩ := map_ok.1 hredo
  unfold redoImpl at ha
  simp only [bind_ok, editPreferences_ok, pure_ok] at ha
  obtain ⟨_, _, ⟨r, hr, rfl⟩, rfl, rfl⟩ := ha
  rw [TournamentStore.rows_withRows]
  split at hr
  · next hrow =>
    cases hr
    refine ⟨h, fun u _ u' hu hundo => ?_⟩
    obtain ⟨_, hundo', rfl⟩ := map_ok.1 hundo
    rw [limits_undoImpl hundo', if_pos, hu]
    rw [← length_limits u.rows, hu, length_limits]
    exact hrow
  · next hrow =>
    split at hr
    · next row hrow' =>
      cases hr
      rw [limits_insertIdx]
      refine ⟨soundLimits_insertIdx (by omega) (by rw [length_limits]; omega) ?_ h,
        fun u _ u' hu hundo => ?_⟩
      · rw [length_limits, getElem?_limits, hrow']
        rfl
      · obtain ⟨_, hundo', rfl⟩ := map_ok.1 hundo
        have hlen := congrArg List.length hu
        rw [length_limits, List.length_insertIdx_of_le_length (by rw [length_limits]; omega),
          length_limits] at hlen
        rw [limits_undoImpl hundo', if_neg (by omega), hu, List.eraseIdx_insertIdx_self]
    · cases hr

theorem EraseDrawSystemPreferenceRow.redoesSoundly {a : EraseDrawSystemPreferenceRow}
    {t : TournamentStore} (hrow : a.row = 0 ∨ a.row ≠ t.rows.length) :
    RedoesSoundly (.eraseDrawSystemPreferenceRow a) t := by
  intro _ t' h hredo
  obtain ⟨a', ha, rfl⟩ := map_ok.1 hredo
  by_cases hlt : a.row = 0 ∨ t.rows.length ≤ a.row
  · rw [redoImpl_of_not_lt hlt] at ha
    cases ha
    refine ⟨h, fun u _ u' hu hundo => ?_⟩
    obtain ⟨_, hundo', rfl⟩ := map_ok.1 hundo
    obtain ⟨-, hu'⟩ := undoImpl_ok.1 hundo'
    have hlen := congrArg List.length hu
    rw [length_limits, length_limits] at hlen
    rw [if_pos (by omega)] at hu'
    rw [hu', hu]
  · have hi : a.row < t.rows.length := by omega
    rw [redoImpl_of_lt (by omega) hi] at ha
    cases ha
    rw [TournamentStore.rows_withRows, limits_eraseIdx]
    refine ⟨soundLimits_eraseIdx (by omega) h, fun u _ u' hu hundo => ?_⟩
    obtain ⟨_, hundo', rfl⟩ := map_ok.1 hundo
    obtain ⟨-, hu'⟩ := undoImpl_ok.1 hundo'
    have hlen := congrArg List.length hu
    rw [length_limits, List.length_eraseIdx_of_lt (by rw [length_limits]; omega),
      length_limits] at hlen
    rw [if_neg (by simp only; omega)] at hu'
    obtain ⟨row, hrow', rfl⟩ := hu'
    rw [TournamentStore.rows_withRows, limits_insertIdx, hu]
    simp only [List.getElem?_eq_getElem hi, Option.some.injEq] at hrow'
    have hi' : a.row < (limits t.rows).length := by rwa [length_limits]
    have hget : row.playerLowerLimit = (limits t.rows)[a.row] := by
      rw [← hrow']
      exact (List.getElem_map _).symm
    rw [hget, List.insertIdx_eraseIdx_getElem hi']

theorem ChangeDrawSystemPreferenceIdentifierAction.limits_redoImpl
    {a a' : ChangeDrawSystemPreferenceIdentifierAction} {t t' : TournamentStore}
    (h : a.redoImpl t = .ok a' t') : limits t'.rows = limits t.rows := by
  obtain ⟨-, rfl⟩ := redoImpl_ok.1 h
  rw [TournamentStore.rows_withRows]
  unfold written
  split
  · rfl
  · next row hrow =>
    obtain ⟨hlt, rfl⟩ := List.getElem?_eq_some_iff.1 hrow
    refine List.ext_getElem? fun i => ?_
    rw [getElem?_limits, getElem?_limits, List.getElem?_set]
    split
    · next hi => subst hi; simp [hlt]
    · rfl

theorem ChangeDrawSystemPreferenceIdentifierAction.redoesSoundly
    (a : ChangeDrawSystemPreferenceIdentifierAction) (t : TournamentStore) :
    RedoesSoundly (.changeDrawSystemPreferenceIdentifier a) t := by
  intro _ t' h hredo
  obtain ⟨_, ha, rfl⟩ := map_ok.1 hredo
  rw [limits_redoImpl ha]
  refine ⟨h, fun u _ u' hu hundo => ?_⟩
  obtain ⟨_, hundo', rfl⟩ := map_ok.1 hundo
  rw [limits_redoImpl hundo', hu]

theorem ChangeDrawSystemPreferenceLimitAction.redoesSoundly {a : ChangeDrawSystemPreferenceLimitAction}
    {t : TournamentStore} (hnew : InRange a.row t.rows →
      0 < a.limit ∧ a.prevAboveLimits = [] ∧ a.prevBelowLimits = []) :
    RedoesSoundly (.changeDrawSystemPreferenceLimit a) t := by
  intro _ t' h hredo
  obtain ⟨_, ha, rfl⟩ := map_ok.1 hredo
  by_cases hrow : InRange a.row t.rows
  · obtain ⟨hlimit, habove, hbelow⟩ := hnew hrow
    rw [redoImpl_of_inRange hrow, habove, hbelow, List.nil_append, List.nil_append] at ha
    cases ha
    rw [TournamentStore.rows_withRows]
    refine ⟨soundLimits_capped hrow hlimit h, fun u _ u' hu hundo => ?_⟩
    obtain ⟨_, hundo', rfl⟩ := map_ok.1 hundo
    have hlen := congrArg List.length hu
    rw [length_limits, length_limits, length_capped] at hlen
    have hrow' : InRange a.row u.rows := ⟨hrow.1, by rw [hlen]; exact hrow.2⟩
    have hundo'' := (undoImpl_of_inRange (a := { a with
      prevAboveLimits := savedAbove a.row a.limit t.rows
      prevBelowLimits := savedBelow a.row a.limit t.rows }) hrow').1 hundo'
    obtain ⟨-, -, -, rfl⟩ := hundo''
    exact limits_undo hrow.2 hu
  · rw [redoImpl_of_not_inRange hrow] at ha
    cases ha
    refine ⟨h, fun u _ u' hu hundo => ?_⟩
    obtain ⟨_, hundo', rfl⟩ := map_ok.1 hundo
    have hlen := congrArg List.length hu
    rw [length_limits, length_limits] at hlen
    rw [undoImpl_of_not_inRange (by unfold InRange; rw [hlen]; exact hrow)] at hundo'
    cases hundo'
    exact hu

/-! ### Runs -/

/-- The steps of a run of the preference actions in which the undo fields are right and no limit is
zero. -/
def SoundStep (s : Session) (e : Session.Event) : Prop :=
  match s.redone e with
  | none => True
  | some a => match a with
    | .addDrawSystemPreferenceRow _ => True
    | .changeDrawSystemPreferenceIdentifier _ => True
    | .eraseDrawSystemPreferenceRow a => a.row = 0 ∨ a.row ≠ s.tournament.rows.length
    | .changeDrawSystemPreferenceLimit a =>
      ChangeDrawSystemPreferenceLimitAction.InRange a.row s.tournament.rows →
        0 < a.limit ∧ a.prevAboveLimits = [] ∧ a.prevBelowLimits = []
    | _ => False

theorem redoesSoundly_of_soundStep {s : Session} {e : Session.Event} {a : Action}
    (ha : s.redone e = some a) (h : SoundStep s e) : RedoesSoundly a s.tournament := by
  unfold SoundStep at h
  rw [ha] at h
  cases a with
  | addDrawSystemPreferenceRow a => exact a.redoesSoundly _
  | changeDrawSystemPreferenceIdentifier a => exact a.redoesSoundly _
  | eraseDrawSystemPreferenceRow a => exact a.redoesSoundly h
  | changeDrawSystemPreferenceLimit a => exact a.redoesSoundly h
  | _ => exact h.elim

/-- The done actions take the limits back, one after the other, to sound limits. -/
def UndoChain : List Action → List ℕ → Prop
  | [], _ => True
  | a :: done, after => ∃ before, SoundLimits before ∧ UndoesTo a before after ∧ UndoChain done before

/-- The limits of a session are sound, and so are the limits that undoing gives. -/
def SoundSession (s : Session) : Prop :=
  SoundLimits (limits s.tournament.rows) ∧ UndoChain s.done (limits s.tournament.rows)

theorem soundSession_next {s s' : Session} {e : Session.Event} (h : SoundSession s)
    (hok : SoundStep s e) (hnext : s.next e = some s') : SoundSession s' := by
  obtain ⟨hsound, hchain⟩ := h
  obtain rfl | ⟨a, a', t', undone, ha, -, -, hredo, rfl⟩ | ⟨a, done, a', t', -, hdone, hundo, rfl⟩ :=
    Session.step_cases (Session.next_eq_some.1 hnext)
  · exact ⟨hsound, hchain⟩
  · obtain ⟨hsound', hback⟩ := redoesSoundly_of_soundStep ha hok a' t' hsound hredo
    exact ⟨hsound', _, hsound, hback, hchain⟩
  · rw [hdone] at hchain
    obtain ⟨before, hbefore, hback, hchain⟩ := hchain
    have hlimits := hback _ a' t' rfl hundo
    exact ⟨by rw [hlimits]; exact hbefore, by rw [hlimits]; exact hchain⟩

/-! ### The lookup -/

/-- The rows are sorted by their limits, the first limit is one, and the lookup for a number of players
finds the last row whose limit is at most that number. -/
structure PreferencesSound (p : PreferencesStore) : Prop where
  nonempty : p.preferredDrawSystems ≠ []
  sorted : p.preferredDrawSystems.Pairwise fun a b => a.playerLowerLimit ≤ b.playerLowerLimit
  first : p.preferredDrawSystems.head?.map (·.playerLowerLimit) = some 1
  lookup : ∀ n : ℕ, 1 ≤ n → ∃ i : ℕ, ∃ row : DrawSystemPreference,
    p.preferredDrawSystems[i]? = some row ∧ row.playerLowerLimit ≤ n ∧
    (∀ j : ℕ, ∀ row' : DrawSystemPreference, i < j → p.preferredDrawSystems[j]? = some row' →
      n < row'.playerLowerLimit) ∧
    p.getPreferredDrawSystem n = .ok row.drawSystem

/-- The loop stops at the last row from `i` down that has a small limit, or at the first one. -/
theorem searchRow_spec (rows : Rows) (n i : ℕ) (hi : i < rows.length) :
    PreferencesStore.searchRow rows n i ≤ i ∧
      (∀ j row, PreferencesStore.searchRow rows n i < j → j ≤ i → rows[j]? = some row →
        n < row.playerLowerLimit) ∧
      (PreferencesStore.searchRow rows n i = 0 ∨
        ∀ row, rows[PreferencesStore.searchRow rows n i]? = some row → row.playerLowerLimit ≤ n) := by
  induction i with
  | zero =>
    refine ⟨le_refl _, ?_, .inl rfl⟩
    intro j _ hj hj'
    have : 0 < j := hj
    omega
  | succ i ih =>
    obtain ⟨row, hrow⟩ : ∃ row, rows[i + 1]? = some row := ⟨_, List.getElem?_eq_getElem hi⟩
    obtain ⟨hle, hafter, hat⟩ := ih (by omega)
    rw [PreferencesStore.searchRow, hrow]
    by_cases hlt : n < row.playerLowerLimit
    · simp only [hlt, if_true]
      refine ⟨by omega, ?_, hat⟩
      intro j row' hj hj' hrow'
      rcases Nat.lt_or_ge i j with hij | hij
      · obtain rfl : j = i + 1 := by omega
        rw [hrow] at hrow'
        cases hrow'
        exact hlt
      · exact hafter j row' hj hij hrow'
    · simp only [hlt, if_false]
      refine ⟨le_refl _, ?_, .inr ?_⟩
      · intro j _ hj hj'
        omega
      · intro row' hrow'
        rw [hrow] at hrow'
        cases hrow'
        omega

theorem preferencesSound_of_soundLimits {p : PreferencesStore}
    (h : SoundLimits (limits p.preferredDrawSystems)) : PreferencesSound p := by
  have hne : p.preferredDrawSystems ≠ [] := by
    intro hnil
    rw [hnil] at h
    cases h.first
  have hfirst : p.preferredDrawSystems.head?.map (·.playerLowerLimit) = some 1 := by
    rw [← List.head?_map]
    exact h.first
  refine ⟨hne, List.pairwise_map.1 h.sorted, hfirst, ?_⟩
  intro n hn
  have hlen : 0 < p.preferredDrawSystems.length := List.length_pos_iff.2 hne
  obtain ⟨hle, hafter, hat⟩ :=
    searchRow_spec p.preferredDrawSystems n (p.preferredDrawSystems.length - 1) (by omega)
  obtain ⟨row, hrow⟩ : ∃ row, p.preferredDrawSystems[PreferencesStore.searchRow p.preferredDrawSystems n
      (p.preferredDrawSystems.length - 1)]? = some row := ⟨_, List.getElem?_eq_getElem (by omega)⟩
  refine ⟨_, row, hrow, ?_, ?_, ?_⟩
  · rcases hat with h0 | hat
    · rw [h0, ← List.head?_eq_getElem?] at hrow
      rw [hrow, Option.map_some, Option.some.injEq] at hfirst
      omega
    · exact hat row hrow
  · intro j row' hj hrow'
    obtain ⟨hj', -⟩ := List.getElem?_eq_some_iff.1 hrow'
    exact hafter j row' hj (by omega) hrow'
  · simp only [PreferencesStore.getPreferredDrawSystem, hrow]

theorem soundSession_init : SoundSession {} :=
  ⟨⟨by decide, by decide⟩, trivial⟩

/-- In every run of the preference actions whose steps are sound, the preferred draw systems are. -/
theorem preferences_sound_of_reachable (s : Session) (h : Session.ReachableBy SoundStep s) :
    PreferencesSound s.tournament.preferences := by
  obtain ⟨es, hguarded, hrun⟩ := h
  have hs : SoundSession s :=
    Runs.run_inv (fun _ _ _ hs hok hnext => soundSession_next hs hok hnext) soundSession_init hguarded
      hrun
  exact preferencesSound_of_soundLimits hs.1

theorem preferences_sound_of_reachable_capped :
    PreferencesSound { preferredDrawSystems :=
      [⟨1, .bestOfThree⟩, ⟨7, .pool⟩, ⟨7, .doublePool⟩] } := by
  refine preferences_sound_of_reachable (s := ⟨_, _, _⟩)
    ⟨[.redo (PreferenceAction.changeLimit 1 7).create], ⟨?_, trivial⟩, rfl⟩
  intro _
  exact ⟨by decide, rfl, rfl⟩

/-- The action is one of the four on the preferred draw systems. -/
def Action.IsPreference : Action → Prop
  | .addDrawSystemPreferenceRow _ | .changeDrawSystemPreferenceIdentifier _
  | .eraseDrawSystemPreferenceRow _ | .changeDrawSystemPreferenceLimit _ => True
  | _ => False

/-- Setting the second limit to zero caps the first one, too. -/
theorem preferences_not_sound_of_zero :
    ∃ s, Session.ReachableBy (fun s e => ∀ a, s.redone e = some a → a.IsPreference) s ∧
      ¬ PreferencesSound s.tournament.preferences := by
  refine ⟨⟨_, _, _⟩, ⟨[.redo (PreferenceAction.changeLimit 1 0).create], ⟨?_, trivial⟩, rfl⟩, ?_⟩
  · intro a ha
    cases ha
    trivial
  · intro h
    have hfirst := h.first
    revert hfirst
    decide

end JudoAssistant
