import JudoAssistant.Tournament.Session

/-!
# The preferred draw systems

The rows of the preferred draw systems are changed by four actions.  `AddDrawSystemPreferenceRow`
always restores the rows; the other three keep undo fields that are wrong in some cycles of redo and
undo of one action object.  `Harmless` says in which ones they are right.
-/

namespace JudoAssistant

open Effect

namespace DrawSystemPreference

/-- The row with another limit. -/
def withLimit (row : DrawSystemPreference) (limit : ℕ) : DrawSystemPreference :=
  { row with playerLowerLimit := limit }

@[simp] theorem withLimit_withLimit (row : DrawSystemPreference) (a b : ℕ) :
    (row.withLimit a).withLimit b = row.withLimit b := rfl

@[simp] theorem withLimit_self (row : DrawSystemPreference) :
    row.withLimit row.playerLowerLimit = row := rfl

@[simp] theorem playerLowerLimit_withLimit (row : DrawSystemPreference) (a : ℕ) :
    (row.withLimit a).playerLowerLimit = a := rfl

end DrawSystemPreference

/-! ### Capping and overwriting limits -/

abbrev Rows := List DrawSystemPreference

namespace Rows

def limits (rows : Rows) : List ℕ := rows.map (·.playerLowerLimit)

/-- Set the limits of the first rows, as long as their limits satisfy `p`. -/
def capWhile (p : ℕ → Bool) (limit : ℕ) : Rows → Rows
  | [] => []
  | row :: rows =>
    if p row.playerLowerLimit then row.withLimit limit :: capWhile p limit rows else row :: rows

/-- Write limits into the first rows. -/
def overwrite : List ℕ → Rows → Rows
  | [], rows => rows
  | _ :: _, [] => []
  | limit :: limits, row :: rows => row.withLimit limit :: overwrite limits rows

@[simp] theorem limits_nil : limits [] = [] := rfl

@[simp] theorem limits_cons (row : DrawSystemPreference) (rows : Rows) :
    limits (row :: rows) = row.playerLowerLimit :: limits rows := rfl

@[simp] theorem length_limits (rows : Rows) : (limits rows).length = rows.length := List.length_map _

@[simp] theorem length_capWhile (p : ℕ → Bool) (limit : ℕ) (rows : Rows) :
    (capWhile p limit rows).length = rows.length := by
  induction rows with
  | nil => rfl
  | cons row rows ih =>
    unfold capWhile
    split
    · exact congrArg (· + 1) ih
    · rfl

theorem length_overwrite {ls : List ℕ} {rows : Rows} (h : ls.length ≤ rows.length) :
    (overwrite ls rows).length = rows.length := by
  induction ls generalizing rows with
  | nil => rfl
  | cons l ls ih =>
    cases rows with
    | nil => simp at h
    | cons row rows => exact congrArg (· + 1) (ih (by simpa using h))

theorem withLimit_eq_self {row : DrawSystemPreference} {l : ℕ} :
    row.withLimit l = row ↔ l = row.playerLowerLimit := by
  constructor
  · intro h
    exact congrArg DrawSystemPreference.playerLowerLimit h
  · rintro rfl
    rfl

theorem overwrite_eq_self {ls : List ℕ} {rows : Rows} (hlen : ls.length ≤ rows.length) :
    overwrite ls rows = rows ↔ ls <+: limits rows := by
  induction ls generalizing rows with
  | nil => simp [overwrite]
  | cons l ls ih =>
    cases rows with
    | nil => simp at hlen
    | cons row rows =>
      rw [overwrite, List.cons.injEq, limits_cons, List.cons_prefix_cons, withLimit_eq_self,
        ih (by simpa using hlen)]

/-- Writing limits over rows that were capped restores them exactly when the limits are those of the
rows, as long as at least the limits that were capped are written. -/
theorem overwrite_capWhile {p : ℕ → Bool} {limit : ℕ} {ls : List ℕ} {rows : Rows}
    (hls : ((limits rows).takeWhile p).length ≤ ls.length) (hlen : ls.length ≤ rows.length) :
    overwrite ls (capWhile p limit rows) = rows ↔ ls <+: limits rows := by
  induction rows generalizing ls with
  | nil => exact overwrite_eq_self hlen
  | cons row rows ih =>
    unfold capWhile
    split
    · next hp =>
      cases ls with
      | nil => simp [hp] at hls
      | cons l ls =>
        rw [overwrite, List.cons.injEq, limits_cons, List.cons_prefix_cons,
          DrawSystemPreference.withLimit_withLimit, withLimit_eq_self,
          ih (by simpa [hp] using hls) (by simpa using hlen)]
    · exact overwrite_eq_self hlen

end Rows

namespace ChangeDrawSystemPreferenceLimitAction

open Rows

theorem split_at {rows : Rows} {i : ℕ} {row : DrawSystemPreference} (h : rows[i]? = some row) :
    rows.take (i + 1) = rows.take i ++ [row] ∧ rows.drop i = row :: rows.drop (i + 1) := by
  obtain ⟨hi, rfl⟩ := List.getElem?_eq_some_iff.1 h
  exact ⟨List.take_succ_eq_append_getElem hi, List.drop_eq_getElem_cons hi⟩

theorem split_set {rows : Rows} {i : ℕ} {row row' : DrawSystemPreference} (h : rows[i]? = some row) :
    (rows.set i row').take i = rows.take i ∧ (rows.set i row').drop i = row' :: rows.drop (i + 1) := by
  obtain ⟨hi, rfl⟩ := List.getElem?_eq_some_iff.1 h
  have hset : (rows.set i row')[i]? = some row' := by rw [List.getElem?_set_self hi]
  refine ⟨List.take_set_of_le (le_refl i), ?_⟩
  rw [(split_at hset).2, List.drop_set_of_lt (Nat.lt_succ_self i)]

theorem capAbove_eq (limit i : ℕ) (rows : Rows) (hi : i ≤ rows.length) :
    capAbove limit i rows =
      ((capWhile (limit < ·) limit (rows.take i).reverse).reverse ++ rows.drop i,
        (limits (rows.take i).reverse).takeWhile (limit < ·)) := by
  induction i generalizing rows with
  | zero => simp [capAbove, capWhile]
  | succ i ih =>
    obtain ⟨row, hrow⟩ : ∃ row, rows[i]? = some row := ⟨rows[i], List.getElem?_eq_getElem hi⟩
    have hrev : (rows.take (i + 1)).reverse = row :: (rows.take i).reverse := by
      rw [(split_at hrow).1, List.reverse_append]
      rfl
    simp only [capAbove, hrow]
    rw [hrev, limits_cons, capWhile]
    by_cases hle : row.playerLowerLimit ≤ limit
    · have hlt : ¬ limit < row.playerLowerLimit := by omega
      simp only [hle, hlt, if_true, decide_false, Bool.false_eq_true, if_false, List.takeWhile_cons]
      rw [← hrev, List.reverse_reverse, List.take_append_drop]
    · have hlt : limit < row.playerLowerLimit := by omega
      have hrec := ih (rows.set i (row.withLimit limit)) (by simpa using Nat.le_of_succ_le hi)
      rw [(split_set hrow).1, (split_set hrow).2] at hrec
      simp only [hle, hlt, if_false, decide_true, if_true, List.takeWhile_cons]
      unfold DrawSystemPreference.withLimit at hrec
      rw [hrec]
      simp [DrawSystemPreference.withLimit]

theorem capBelow_eq (limit n i : ℕ) (rows : Rows) (hn : i + n = rows.length) :
    capBelow limit n i rows =
      (rows.take i ++ capWhile (· < limit) limit (rows.drop i),
        (limits (rows.drop i)).takeWhile (· < limit)) := by
  induction n generalizing i rows with
  | zero =>
    have hi : rows.length ≤ i := by omega
    simp [capBelow, List.take_of_length_le hi, List.drop_of_length_le hi, capWhile]
  | succ n ih =>
    have hi : i < rows.length := by omega
    obtain ⟨row, hrow⟩ : ∃ row, rows[i]? = some row := ⟨rows[i], List.getElem?_eq_getElem hi⟩
    simp only [capBelow, hrow]
    rw [(split_at hrow).2, limits_cons, capWhile]
    by_cases hle : limit ≤ row.playerLowerLimit
    · have hlt : ¬ row.playerLowerLimit < limit := by omega
      simp only [hle, hlt, if_true, decide_false, Bool.false_eq_true, if_false, List.takeWhile_cons]
      rw [← (split_at hrow).2, List.take_append_drop]
    · have hlt : row.playerLowerLimit < limit := by omega
      have hset : (rows.set i (row.withLimit limit))[i]? = some (row.withLimit limit) := by
        rw [List.getElem?_set_self hi]
      have hrec := ih (i + 1) (rows.set i (row.withLimit limit)) (by simp; omega)
      rw [(split_at hset).1, (split_set hrow).1, List.drop_set_of_lt (Nat.lt_succ_self i)] at hrec
      simp only [hle, hlt, if_false, decide_true, if_true, List.takeWhile_cons]
      unfold DrawSystemPreference.withLimit at hrec
      rw [hrec]
      simp [DrawSystemPreference.withLimit]

theorem setLimit_ok {limit i : ℕ} {rows r : Rows} :
    setLimit limit i rows = .ok r ↔
      ∃ row, rows[i]? = some row ∧ r = rows.set i (row.withLimit limit) := by
  unfold setLimit
  cases rows[i]? with
  | none => simp
  | some row => simp [DrawSystemPreference.withLimit, eq_comm]

theorem restoreAbove_ok {i : ℕ} {ls : List ℕ} {rows r : Rows} (hi : i ≤ rows.length) :
    restoreAbove i ls rows = .ok r ↔
      ls.length ≤ i ∧ r = (overwrite ls (rows.take i).reverse).reverse ++ rows.drop i := by
  induction ls generalizing i rows with
  | nil => simp [restoreAbove, overwrite, eq_comm]
  | cons l ls ih =>
    cases i with
    | zero => simp [restoreAbove]
    | succ i =>
      obtain ⟨row, hrow⟩ : ∃ row, rows[i]? = some row := ⟨rows[i], List.getElem?_eq_getElem hi⟩
      have hrev : (rows.take (i + 1)).reverse = row :: (rows.take i).reverse := by
        rw [(split_at hrow).1, List.reverse_append]
        rfl
      have hle : i ≤ (rows.set i (row.withLimit l)).length := by simpa using Nat.le_of_succ_le hi
      have hrec := ih hle
      rw [(split_set hrow).1, (split_set hrow).2] at hrec
      simp only [restoreAbove, except_bind_ok, setLimit_ok, hrow, Option.some.injEq]
      rw [hrev, overwrite]
      simp [hrec]

theorem restoreBelow_ok {i : ℕ} {ls : List ℕ} {rows r : Rows} (hi : i ≤ rows.length) :
    restoreBelow i ls rows = .ok r ↔
      i + ls.length ≤ rows.length ∧ r = rows.take i ++ overwrite ls (rows.drop i) := by
  induction ls generalizing i rows with
  | nil => simp [restoreBelow, overwrite, hi, eq_comm]
  | cons l ls ih =>
    cases hrow : rows[i]? with
    | none =>
      have : rows.length ≤ i := List.getElem?_eq_none_iff.1 hrow
      simp only [restoreBelow, except_bind_ok, setLimit_ok, hrow]
      simp
      omega
    | some row =>
      obtain ⟨hi', -⟩ := List.getElem?_eq_some_iff.1 hrow
      have hset : (rows.set i (row.withLimit l))[i]? = some (row.withLimit l) := by
        rw [List.getElem?_set_self hi']
      have hle : i + 1 ≤ (rows.set i (row.withLimit l)).length := by
        rw [List.length_set]
        omega
      have hrec := ih hle
      rw [(split_at hset).1, (split_set hrow).1, List.drop_set_of_lt (Nat.lt_succ_self i),
        List.length_set] at hrec
      simp only [restoreBelow, except_bind_ok, setLimit_ok, hrow, Option.some.injEq]
      rw [(split_at hrow).2, overwrite]
      have hlen : i + (l :: ls).length = i + 1 + ls.length := by simp; omega
      rw [hlen]
      simp [hrec]

/-- The limits that a redo saves of the rows above the changed one. -/
def savedAbove (row limit : ℕ) (rows : Rows) : List ℕ :=
  (limits (rows.take row).reverse).takeWhile (limit < ·)

/-- The limits that a redo saves of the changed row and the rows below. -/
def savedBelow (row limit : ℕ) (rows : Rows) : List ℕ :=
  match limits (rows.drop row) with
  | [] => []
  | l :: ls => l :: ls.takeWhile (· < limit)

/-- The changed row and the rows below, after a redo. -/
def cappedBelow (limit : ℕ) : Rows → Rows
  | [] => []
  | row :: rows => row.withLimit limit :: capWhile (· < limit) limit rows

/-- The rows after a redo. -/
def capped (row limit : ℕ) (rows : Rows) : Rows :=
  (capWhile (limit < ·) limit (rows.take row).reverse).reverse ++ cappedBelow limit (rows.drop row)

@[simp] theorem length_cappedBelow (limit : ℕ) (rows : Rows) :
    (cappedBelow limit rows).length = rows.length := by
  cases rows with
  | nil => rfl
  | cons row rows => simp [cappedBelow]

theorem length_capped (row limit : ℕ) (rows : Rows) : (capped row limit rows).length = rows.length := by
  simp [capped]
  omega

theorem overwrite_cappedBelow {row limit : ℕ} {ls : List ℕ} {rows : Rows}
    (hls : (savedBelow row limit rows).length ≤ ls.length)
    (hlen : ls.length ≤ (rows.drop row).length) :
    overwrite ls (cappedBelow limit (rows.drop row)) = rows.drop row ↔ ls <+: limits (rows.drop row) := by
  unfold savedBelow at hls
  cases hd : rows.drop row with
  | nil => rw [hd] at hlen; exact overwrite_eq_self hlen
  | cons x xs =>
    rw [hd] at hls hlen
    cases ls with
    | nil => simp at hls
    | cons l ls =>
      rw [cappedBelow, overwrite, List.cons.injEq, limits_cons, List.cons_prefix_cons,
        DrawSystemPreference.withLimit_withLimit, withLimit_eq_self,
        overwrite_capWhile (by simpa using hls) (by simpa using hlen)]

end ChangeDrawSystemPreferenceLimitAction

/-! ### The rows of a tournament -/

namespace TournamentStore

abbrev rows (t : TournamentStore) : Rows := t.preferences.preferredDrawSystems

def withRows (t : TournamentStore) (rows : Rows) : TournamentStore :=
  { t with preferences := { t.preferences with preferredDrawSystems := rows } }

@[simp] theorem rows_withRows (t : TournamentStore) (r : Rows) : (t.withRows r).rows = r := rfl

@[simp] theorem withRows_withRows (t : TournamentStore) (r r' : Rows) :
    (t.withRows r).withRows r' = t.withRows r' := rfl

@[simp] theorem withRows_rows (t : TournamentStore) : t.withRows t.rows = t := rfl

theorem withRows_eq_self {t : TournamentStore} {r : Rows} : t.withRows r = t ↔ r = t.rows := by
  constructor
  · intro h
    exact congrArg rows h
  · rintro rfl
    rfl

end TournamentStore

theorem editPreferences_ok {f : Rows → Except Failure Rows} {t t' : TournamentStore} {u : Unit} :
    editPreferences f t = .ok u t' ↔ ∃ r, f t.rows = .ok r ∧ t' = t.withRows r := by
  unfold editPreferences
  simp only [bind_ok, get_ok, lift_ok, set_ok]
  constructor
  · rintro ⟨_, _, ⟨rfl, rfl⟩, r, _, ⟨hf, rfl⟩, rfl⟩
    exact ⟨r, hf, rfl⟩
  · rintro ⟨r, hf, rfl⟩
    exact ⟨t, t, ⟨rfl, rfl⟩, r, t, ⟨hf, rfl⟩, rfl⟩

/-- Redo and undo of one action object, again and again, each time on some tournament: every cycle
returns and leaves its tournament as it was. -/
def Restores : Action → List TournamentStore → Prop
  | _, [] => True
  | a, t :: ts => ∃ a' t' a'', a.redoImpl t = .ok a' t' ∧ a'.undoImpl t' = .ok a'' t ∧ Restores a'' ts

/-! ### Adding a row -/

theorem restores_addRow (row : ℕ) (ts : List TournamentStore) :
    Restores (.addDrawSystemPreferenceRow ⟨row⟩) ts := by
  induction ts with
  | nil => trivial
  | cons t ts ih =>
    have hcycle : ∃ t', AddDrawSystemPreferenceRow.redoImpl ⟨row⟩ t = .ok ⟨row⟩ t' ∧
        AddDrawSystemPreferenceRow.undoImpl ⟨row⟩ t' = .ok ⟨row⟩ t := by
      unfold AddDrawSystemPreferenceRow.redoImpl AddDrawSystemPreferenceRow.undoImpl
      simp only [bind_ok, editPreferences_ok, pure_ok, true_and]
      by_cases hrow : row = 0 ∨ t.rows.length < row
      · refine ⟨t, ⟨(), t, ⟨t.rows, if_pos hrow, rfl⟩, rfl⟩, (), t, ⟨t.rows, if_pos hrow, rfl⟩, rfl⟩
      · obtain ⟨copied, hcopied⟩ : ∃ copied,
            t.rows[if row = t.rows.length then row - 1 else row]? = some copied := by
          refine ⟨_, List.getElem?_eq_getElem ?_⟩
          split <;> omega
        have hlen : (t.rows.insertIdx row copied).length = t.rows.length + 1 :=
          List.length_insertIdx_of_le_length (by omega) _
        refine ⟨t.withRows (t.rows.insertIdx row copied),
          ⟨(), _, ⟨_, by rw [if_neg hrow, hcopied], rfl⟩, rfl⟩,
          (), t, ⟨t.rows, ?_, rfl⟩, rfl⟩
        rw [TournamentStore.rows_withRows, if_neg (by omega), if_neg (by omega),
          List.eraseIdx_insertIdx_self]
    obtain ⟨t', hredo, hundo⟩ := hcycle
    exact ⟨_, t', _, map_ok.2 ⟨_, hredo, rfl⟩, map_ok.2 ⟨_, hundo, rfl⟩, ih⟩

/-! ### Erasing a row -/

namespace EraseDrawSystemPreferenceRow

theorem redoImpl_of_lt {a : EraseDrawSystemPreferenceRow} {t : TournamentStore} (h0 : a.row ≠ 0)
    (hlt : a.row < t.rows.length) :
    a.redoImpl t = .ok { a with prevValue := t.rows[a.row]? } (t.withRows (t.rows.eraseIdx a.row)) := by
  have hrow : ¬ (a.row = 0 ∨ t.rows.length ≤ a.row) := by omega
  unfold redoImpl
  simp only [bind_ok, get_ok]
  refine ⟨t, t, ⟨rfl, rfl⟩, ?_⟩
  rw [if_neg hrow]
  simp only [bind_ok, editPreferences_ok, pure_ok, true_and]
  exact ⟨(), _, ⟨_, rfl, rfl⟩, rfl⟩

theorem redoImpl_of_not_lt {a : EraseDrawSystemPreferenceRow} {t : TournamentStore}
    (h : a.row = 0 ∨ t.rows.length ≤ a.row) : a.redoImpl t = .ok a t := by
  unfold redoImpl
  simp only [bind_ok, get_ok]
  refine ⟨t, t, ⟨rfl, rfl⟩, ?_⟩
  rw [if_pos h]
  rfl

theorem row_redoImpl {a a' : EraseDrawSystemPreferenceRow} {t t' : TournamentStore}
    (h : a.redoImpl t = .ok a' t') : a'.row = a.row := by
  by_cases hlt : a.row = 0 ∨ t.rows.length ≤ a.row
  · rw [redoImpl_of_not_lt hlt] at h
    cases h
    rfl
  · rw [redoImpl_of_lt (by omega) (by omega)] at h
    cases h
    rfl

theorem undoImpl_ok {a a' : EraseDrawSystemPreferenceRow} {t t' : TournamentStore} :
    a.undoImpl t = .ok a' t' ↔ a' = a ∧
      (if a.row = 0 ∨ t.rows.length < a.row then t' = t
        else ∃ row, a.prevValue = some row ∧ t' = t.withRows (t.rows.insertIdx a.row row)) := by
  unfold undoImpl
  simp only [bind_ok, editPreferences_ok, pure_ok]
  split
  · constructor
    · rintro ⟨-, _, ⟨r, hr, rfl⟩, rfl, rfl⟩
      cases hr
      exact ⟨rfl, rfl⟩
    · rintro ⟨rfl, rfl⟩
      exact ⟨(), _, ⟨_, rfl, rfl⟩, rfl, rfl⟩
  · cases a.prevValue with
    | none => simp
    | some row =>
      constructor
      · rintro ⟨-, _, ⟨r, hr, rfl⟩, rfl, rfl⟩
        cases hr
        exact ⟨rfl, row, rfl, rfl⟩
      · rintro ⟨rfl, _, h, rfl⟩
        cases h
        exact ⟨(), _, ⟨_, rfl, rfl⟩, rfl, rfl⟩

/-- One cycle restores the rows unless the row is the one after the last. -/
theorem cycle_iff (a : EraseDrawSystemPreferenceRow) (t : TournamentStore) :
    (∃ a' t' a'', a.redoImpl t = .ok a' t' ∧ a'.undoImpl t' = .ok a'' t) ↔
      (a.row = 0 ∨ a.row ≠ t.rows.length) := by
  by_cases hlt : a.row = 0 ∨ t.rows.length ≤ a.row
  · rw [redoImpl_of_not_lt hlt]
    by_cases hout : a.row = 0 ∨ t.rows.length < a.row
    · refine iff_of_true ⟨a, t, a, rfl, undoImpl_ok.2 ⟨rfl, ?_⟩⟩ (by omega)
      rw [if_pos hout]
    · refine iff_of_false ?_ (by omega)
      rintro ⟨_, _, a'', hr, hundo⟩
      cases hr
      -- The row that was erased in an earlier cycle is inserted at the end.
      obtain ⟨-, h⟩ := undoImpl_ok.1 hundo
      rw [if_neg hout] at h
      obtain ⟨row, -, h⟩ := h
      have hlen := congrArg List.length (TournamentStore.withRows_eq_self.1 h.symm)
      rw [List.length_insertIdx_of_le_length (by omega)] at hlen
      omega
  · refine iff_of_true ?_ (by omega)
    rw [redoImpl_of_lt (by omega) (by omega)]
    have hlen : (t.rows.eraseIdx a.row).length = t.rows.length - 1 :=
      List.length_eraseIdx_of_lt (by omega)
    refine ⟨_, _, _, rfl, undoImpl_ok.2 ⟨rfl, ?_⟩⟩
    rw [TournamentStore.rows_withRows, if_neg (by simp only; omega)]
    have hi : a.row < t.rows.length := by omega
    refine ⟨t.rows[a.row], List.getElem?_eq_getElem hi, ?_⟩
    rw [TournamentStore.withRows_withRows, eq_comm, TournamentStore.withRows_eq_self,
      List.insertIdx_eraseIdx_getElem]

end EraseDrawSystemPreferenceRow

theorem restores_eraseRow (a : EraseDrawSystemPreferenceRow) (ts : List TournamentStore) :
    Restores (.eraseDrawSystemPreferenceRow a) ts ↔
      (a.row = 0 ∨ ∀ rows ∈ ts.map TournamentStore.rows, a.row ≠ rows.length) := by
  induction ts generalizing a with
  | nil => simp [Restores]
  | cons t ts ih =>
    have hcycle := a.cycle_iff t
    constructor
    · rintro ⟨_, t', _, h₁, h₂, hrest⟩
      obtain ⟨a', hredo, rfl⟩ := map_ok.1 h₁
      obtain ⟨a'', hundo, rfl⟩ := map_ok.1 h₂
      have hrow : a''.row = a.row := by
        rw [(EraseDrawSystemPreferenceRow.undoImpl_ok.1 hundo).1]
        exact EraseDrawSystemPreferenceRow.row_redoImpl hredo
      have h := hcycle.1 ⟨a', t', a'', hredo, hundo⟩
      have hrest := (ih a'').1 hrest
      rw [hrow] at hrest
      simp only [List.map_cons, List.mem_cons, forall_eq_or_imp]
      tauto
    · intro h
      simp only [List.map_cons, List.mem_cons, forall_eq_or_imp] at h
      obtain ⟨a', t', a'', hredo, hundo⟩ := hcycle.2 (by tauto)
      have hrow : a''.row = a.row := by
        rw [(EraseDrawSystemPreferenceRow.undoImpl_ok.1 hundo).1]
        exact EraseDrawSystemPreferenceRow.row_redoImpl hredo
      refine ⟨_, t', _, map_ok.2 ⟨a', hredo, rfl⟩, map_ok.2 ⟨a'', hundo, rfl⟩, (ih a'').2 ?_⟩
      rw [hrow]
      tauto

/-! ### Changing a draw system -/

namespace ChangeDrawSystemPreferenceIdentifierAction

/-- The rows after the write. -/
def written (a : ChangeDrawSystemPreferenceIdentifierAction) (rows : Rows) : Rows :=
  match rows[a.row]? with
  | none => rows
  | some row => rows.set a.row { row with drawSystem := a.identifier }

theorem write_ok {a : ChangeDrawSystemPreferenceIdentifierAction} {t t' : TournamentStore} {u : Unit} :
    a.write t = .ok u t' ↔ t' = t.withRows (a.written t.rows) := by
  unfold write written
  rw [editPreferences_ok]
  cases t.rows[a.row]? <;> simp [eq_comm]

theorem redoImpl_ok {a a' : ChangeDrawSystemPreferenceIdentifierAction} {t t' : TournamentStore} :
    a.redoImpl t = .ok a' t' ↔ a' = a ∧ t' = t.withRows (a.written t.rows) := by
  unfold redoImpl
  simp only [bind_ok, write_ok, pure_ok]
  constructor
  · rintro ⟨_, _, rfl, rfl, rfl⟩
    exact ⟨rfl, rfl⟩
  · rintro ⟨rfl, rfl⟩
    exact ⟨(), _, rfl, rfl, rfl⟩

theorem written_written (a : ChangeDrawSystemPreferenceIdentifierAction) (rows : Rows) :
    a.written (a.written rows) = a.written rows := by
  unfold written
  cases hrow : rows[a.row]? with
  | none => simp only [hrow]
  | some row =>
    obtain ⟨hlt, -⟩ := List.getElem?_eq_some_iff.1 hrow
    simp only [List.getElem?_set_self hlt, List.set_set]

theorem written_eq_self {a : ChangeDrawSystemPreferenceIdentifierAction} {rows : Rows} :
    a.written rows = rows ↔ ∀ row, rows[a.row]? = some row → row.drawSystem = a.identifier := by
  unfold written
  cases hrow : rows[a.row]? with
  | none => simp
  | some row =>
    obtain ⟨hlt, -⟩ := List.getElem?_eq_some_iff.1 hrow
    simp only [Option.some.injEq, forall_eq']
    constructor
    · intro h
      have hget := congrArg (·[a.row]?) h
      simp only [List.getElem?_set_self hlt, hrow, Option.some.injEq] at hget
      rw [← hget]
    · intro h
      rw [← h]
      obtain ⟨-, rfl⟩ := List.getElem?_eq_some_iff.1 hrow
      exact List.set_getElem_self hlt

end ChangeDrawSystemPreferenceIdentifierAction

theorem restores_changeIdentifier (a : ChangeDrawSystemPreferenceIdentifierAction)
    (ts : List TournamentStore) :
    Restores (.changeDrawSystemPreferenceIdentifier a) ts ↔
      ∀ rows ∈ ts.map TournamentStore.rows, ∀ row, rows[a.row]? = some row →
        row.drawSystem = a.identifier := by
  induction ts with
  | nil => simp [Restores]
  | cons t ts ih =>
    rw [List.map_cons, List.forall_mem_cons, ← ih,
      ← ChangeDrawSystemPreferenceIdentifierAction.written_eq_self]
    constructor
    · rintro ⟨_, t', _, h₁, h₂, hrest⟩
      obtain ⟨a', hredo, rfl⟩ := map_ok.1 h₁
      obtain ⟨a'', hundo, rfl⟩ := map_ok.1 h₂
      obtain ⟨rfl, rfl⟩ := ChangeDrawSystemPreferenceIdentifierAction.redoImpl_ok.1 hredo
      obtain ⟨rfl, h⟩ := ChangeDrawSystemPreferenceIdentifierAction.redoImpl_ok.1 hundo
      -- The undo writes what the redo has written.
      rw [TournamentStore.rows_withRows, TournamentStore.withRows_withRows,
        ChangeDrawSystemPreferenceIdentifierAction.written_written, eq_comm,
        TournamentStore.withRows_eq_self] at h
      exact ⟨h, hrest⟩
    · rintro ⟨h, hrest⟩
      have hredo : a.redoImpl t = .ok a t :=
        ChangeDrawSystemPreferenceIdentifierAction.redoImpl_ok.2 ⟨rfl, by rw [h, t.withRows_rows]⟩
      exact ⟨_, t, _, map_ok.2 ⟨a, hredo, rfl⟩, map_ok.2 ⟨a, hredo, rfl⟩, hrest⟩

/-! ### Changing a limit -/

namespace ChangeDrawSystemPreferenceLimitAction

open Rows

/-- The row is one of the rows, and not the first. -/
def InRange (row : ℕ) (rows : Rows) : Prop := row ≠ 0 ∧ row < rows.length

theorem redoImpl_of_not_inRange {a : ChangeDrawSystemPreferenceLimitAction} {t : TournamentStore}
    (h : ¬ InRange a.row t.rows) : a.redoImpl t = .ok a t := by
  unfold redoImpl
  simp only [bind_ok, get_ok]
  refine ⟨t, t, ⟨rfl, rfl⟩, ?_⟩
  cases hrow : t.preferences.preferredDrawSystems[a.row]? with
  | none => rfl
  | some row =>
    obtain ⟨hlt, -⟩ := List.getElem?_eq_some_iff.1 hrow
    have h0 : a.row = 0 := by
      by_contra h0
      exact h ⟨h0, hlt⟩
    simp only [h0, if_true]
    rfl

/-- The two loops of the redo, after the limit of the row has been written. -/
theorem caps_eq {row : ℕ} (limit : ℕ) {rows : Rows} {r : DrawSystemPreference}
    (hrow : rows[row]? = some r) :
    capAbove limit row (rows.set row (r.withLimit limit)) =
      ((capWhile (limit < ·) limit (rows.take row).reverse).reverse ++
        r.withLimit limit :: rows.drop (row + 1), savedAbove row limit rows) ∧
    capBelow limit (rows.length - (row + 1)) (row + 1)
      ((capWhile (limit < ·) limit (rows.take row).reverse).reverse ++
        r.withLimit limit :: rows.drop (row + 1)) =
      (capped row limit rows, (limits (rows.drop (row + 1))).takeWhile (· < limit)) := by
  obtain ⟨hlt, -⟩ := List.getElem?_eq_some_iff.1 hrow
  have hupper : (capWhile (limit < ·) limit (rows.take row).reverse).reverse.length = row := by
    simp only [List.length_reverse, length_capWhile, List.length_take]
    omega
  constructor
  · rw [capAbove_eq limit row _ (by rw [List.length_set]; omega), (split_set hrow).1,
      (split_set hrow).2]
    rfl
  · rw [capBelow_eq limit _ _ _
      (by simp only [List.length_append, hupper, List.length_cons, List.length_drop]; omega),
      List.append_cons, List.take_left' (by simp [hupper]), List.drop_left' (by simp [hupper])]
    unfold capped cappedBelow
    rw [(split_at hrow).2, List.append_assoc]
    rfl

theorem savedBelow_eq {row : ℕ} (limit : ℕ) {rows : Rows} {r : DrawSystemPreference}
    (hrow : rows[row]? = some r) :
    savedBelow row limit rows =
      r.playerLowerLimit :: (limits (rows.drop (row + 1))).takeWhile (· < limit) := by
  unfold savedBelow
  rw [(split_at hrow).2]
  rfl

theorem redoImpl_of_inRange {a : ChangeDrawSystemPreferenceLimitAction} {t : TournamentStore}
    (h : InRange a.row t.rows) :
    a.redoImpl t = .ok { a with
      prevAboveLimits := a.prevAboveLimits ++ savedAbove a.row a.limit t.rows
      prevBelowLimits := a.prevBelowLimits ++ savedBelow a.row a.limit t.rows }
      (t.withRows (capped a.row a.limit t.rows)) := by
  obtain ⟨h0, hlt⟩ := h
  obtain ⟨r, hrow⟩ : ∃ r, t.rows[a.row]? = some r := ⟨_, List.getElem?_eq_getElem hlt⟩
  obtain ⟨habove, hbelow⟩ := caps_eq a.limit hrow
  unfold redoImpl
  simp only [bind_ok, get_ok]
  refine ⟨t, t, ⟨rfl, rfl⟩, ?_⟩
  simp only [hrow, h0, if_false]
  unfold DrawSystemPreference.withLimit at habove hbelow
  simp only [habove, hbelow, bind_ok, editPreferences_ok, pure_ok, savedBelow_eq _ hrow, true_and]
  exact ⟨(), _, ⟨_, rfl, rfl⟩, rfl⟩

theorem undoImpl_of_not_inRange {a : ChangeDrawSystemPreferenceLimitAction} {t : TournamentStore}
    (h : ¬ InRange a.row t.rows) : a.undoImpl t = .ok a t := by
  have hrow : t.rows.length ≤ a.row ∨ a.row = 0 := by
    unfold InRange at h
    omega
  unfold undoImpl
  simp only [bind_ok, editPreferences_ok, pure_ok, true_and]
  exact ⟨(), t, ⟨t.rows, if_pos hrow, rfl⟩, rfl⟩

theorem undoImpl_of_inRange {a a' : ChangeDrawSystemPreferenceLimitAction} {t t' : TournamentStore}
    (h : InRange a.row t.rows) :
    a.undoImpl t = .ok a' t' ↔ a' = a ∧ a.prevAboveLimits.length ≤ a.row ∧
      a.row + a.prevBelowLimits.length ≤ t.rows.length ∧
      t' = t.withRows ((overwrite a.prevAboveLimits (t.rows.take a.row).reverse).reverse ++
        overwrite a.prevBelowLimits (t.rows.drop a.row)) := by
  have hrow : ¬ (t.rows.length ≤ a.row ∨ a.row = 0) := by
    unfold InRange at h
    omega
  have hupper (hle : a.prevAboveLimits.length ≤ a.row) :
      (overwrite a.prevAboveLimits (t.rows.take a.row).reverse).reverse.length = a.row := by
    rw [List.length_reverse, length_overwrite (by simp; omega)]
    simp
    omega
  unfold undoImpl
  simp only [bind_ok, editPreferences_ok, pure_ok, if_neg hrow, except_bind_ok,
    restoreAbove_ok (show a.row ≤ t.rows.length by omega)]
  constructor
  · rintro ⟨_, _, ⟨r, ⟨_, ⟨hle, rfl⟩, hr⟩, rfl⟩, rfl, rfl⟩
    rw [restoreBelow_ok (by simp [hupper hle]), List.take_left' (hupper hle),
      List.drop_left' (hupper hle)] at hr
    obtain ⟨hlen, rfl⟩ := hr
    refine ⟨rfl, hle, ?_, rfl⟩
    simp only [List.length_append, hupper hle, List.length_drop] at hlen
    omega
  · rintro ⟨rfl, hle, hlen, rfl⟩
    refine ⟨(), _, ⟨_, ⟨_, ⟨hle, rfl⟩, ?_⟩, rfl⟩, rfl, rfl⟩
    rw [restoreBelow_ok (by simp [hupper hle]), List.take_left' (hupper hle),
      List.drop_left' (hupper hle)]
    refine ⟨?_, rfl⟩
    simp only [List.length_append, hupper hle, List.length_drop]
    omega

/-- The undo restores the rows that the redo has capped exactly when all limits that it writes, those
that were saved in earlier cycles included, are the limits of the rows. -/
theorem undoImpl_capped {a a' : ChangeDrawSystemPreferenceLimitAction} {t : TournamentStore}
    (h : InRange a.row t.rows)
    (habove : (savedAbove a.row a.limit t.rows).length ≤ a.prevAboveLimits.length)
    (hbelow : (savedBelow a.row a.limit t.rows).length ≤ a.prevBelowLimits.length) :
    a.undoImpl (t.withRows (capped a.row a.limit t.rows)) = .ok a' t ↔ a' = a ∧
      a.prevAboveLimits <+: limits (t.rows.take a.row).reverse ∧
      a.prevBelowLimits <+: limits (t.rows.drop a.row) := by
  have hcapped : InRange a.row (t.withRows (capped a.row a.limit t.rows)).rows := by
    unfold InRange
    rw [TournamentStore.rows_withRows, length_capped]
    exact h
  have htake : (t.rows.take a.row).length = a.row := by
    rw [List.length_take]
    have := h.2
    omega
  have hupper : (capWhile (a.limit < ·) a.limit (t.rows.take a.row).reverse).reverse.length = a.row := by
    simp only [List.length_reverse, length_capWhile, htake]
  have hsplit : (capped a.row a.limit t.rows).take a.row =
        (capWhile (a.limit < ·) a.limit (t.rows.take a.row).reverse).reverse ∧
      (capped a.row a.limit t.rows).drop a.row = cappedBelow a.limit (t.rows.drop a.row) :=
    ⟨List.take_left' hupper, List.drop_left' hupper⟩
  rw [undoImpl_of_inRange hcapped, TournamentStore.withRows_withRows, TournamentStore.rows_withRows,
    length_capped, hsplit.1, hsplit.2, List.reverse_reverse, @eq_comm _ t,
    TournamentStore.withRows_eq_self]
  refine and_congr_right fun _ => ?_
  constructor
  · rintro ⟨hle, hlen, hrows⟩
    have hA : a.prevAboveLimits.length ≤ (t.rows.take a.row).reverse.length := by
      rw [List.length_reverse]
      omega
    have hB : a.prevBelowLimits.length ≤ (t.rows.drop a.row).length := by
      rw [List.length_drop]
      omega
    have hlenA : (overwrite a.prevAboveLimits
        (capWhile (a.limit < ·) a.limit (t.rows.take a.row).reverse)).reverse.length = a.row := by
      rw [List.length_reverse, length_overwrite (by rwa [length_capWhile]), length_capWhile,
        List.length_reverse, htake]
    have hA' := congrArg (fun r => (r.take a.row).reverse) hrows
    have hB' := congrArg (List.drop a.row) hrows
    rw [List.take_left' hlenA, List.reverse_reverse] at hA'
    rw [List.drop_left' hlenA] at hB'
    exact ⟨(overwrite_capWhile habove hA).1 hA', (overwrite_cappedBelow hbelow hB).1 hB'⟩
  · rintro ⟨hA, hB⟩
    have hlenA := hA.length_le
    have hlenB := hB.length_le
    simp only [length_limits, List.length_reverse, htake, List.length_drop] at hlenA hlenB
    have hlt := h.2
    refine ⟨hlenA, by omega, ?_⟩
    rw [(overwrite_capWhile habove (by simp only [List.length_reverse]; omega)).2 hA,
      (overwrite_cappedBelow hbelow (by simp only [List.length_drop]; omega)).2 hB,
      List.reverse_reverse, List.take_append_drop]

/-- In every cycle that changes the rows, the limits that were saved in the cycles before, followed by
the ones that are saved now, are the limits of the rows above and below. -/
def Fits (row limit : ℕ) : List ℕ → List ℕ → List Rows → Prop
  | _, _, [] => True
  | above, below, rows :: cycles =>
    if row < rows.length then
      above ++ savedAbove row limit rows <+: limits (rows.take row).reverse ∧
      below ++ savedBelow row limit rows <+: limits (rows.drop row) ∧
      Fits row limit (above ++ savedAbove row limit rows) (below ++ savedBelow row limit rows) cycles
    else Fits row limit above below cycles

end ChangeDrawSystemPreferenceLimitAction

open ChangeDrawSystemPreferenceLimitAction in
theorem restores_changeLimit (a : ChangeDrawSystemPreferenceLimitAction) (ts : List TournamentStore) :
    Restores (.changeDrawSystemPreferenceLimit a) ts ↔
      (a.row = 0 ∨ Fits a.row a.limit a.prevAboveLimits a.prevBelowLimits
        (ts.map TournamentStore.rows)) := by
  induction ts generalizing a with
  | nil => simp [Restores, Fits]
  | cons t ts ih =>
    rw [List.map_cons, Fits]
    by_cases h : InRange a.row t.rows
    · have hredo := redoImpl_of_inRange h
      have hundo (a') := @undoImpl_capped { a with
        prevAboveLimits := a.prevAboveLimits ++ savedAbove a.row a.limit t.rows
        prevBelowLimits := a.prevBelowLimits ++ savedBelow a.row a.limit t.rows } a' t h
        (by simp) (by simp)
      rw [if_pos h.2]
      constructor
      · rintro ⟨_, t', _, h₁, h₂, hrest⟩
        obtain ⟨a', h₁', rfl⟩ := map_ok.1 h₁
        rw [hredo] at h₁'
        cases h₁'
        obtain ⟨a'', h₂', rfl⟩ := map_ok.1 h₂
        obtain ⟨rfl, hA, hB⟩ := (hundo a'').1 h₂'
        exact .inr ⟨hA, hB, ((ih _).1 hrest).resolve_left h.1⟩
      · rintro (h0 | ⟨hA, hB, hrest⟩)
        · exact absurd h0 h.1
        · exact ⟨_, _, _, map_ok.2 ⟨_, hredo, rfl⟩,
            map_ok.2 ⟨_, (hundo _).2 ⟨rfl, hA, hB⟩, rfl⟩, (ih _).2 (.inr hrest)⟩
    · have hredo := redoImpl_of_not_inRange h
      have hundo := undoImpl_of_not_inRange h
      have hcycle : Restores (.changeDrawSystemPreferenceLimit a) (t :: ts) ↔
          Restores (.changeDrawSystemPreferenceLimit a) ts := by
        constructor
        · rintro ⟨_, _, _, h₁, h₂, hrest⟩
          obtain ⟨a', h₁', rfl⟩ := map_ok.1 h₁
          rw [hredo] at h₁'
          cases h₁'
          obtain ⟨a'', h₂', rfl⟩ := map_ok.1 h₂
          rw [hundo] at h₂'
          cases h₂'
          exact hrest
        · intro hrest
          exact ⟨_, t, _, map_ok.2 ⟨_, hredo, rfl⟩, map_ok.2 ⟨_, hundo, rfl⟩, hrest⟩
      rw [hcycle, ih]
      unfold InRange at h
      by_cases h0 : a.row = 0
      · simp [h0]
      · rw [if_neg (by tauto)]

/-! ### Cycles of the four actions -/

/-- The parameters of the actions on the preferred draw systems. -/
inductive PreferenceAction where
  | addRow (row : ℕ)
  | eraseRow (row : ℕ)
  | changeLimit (row limit : ℕ)
  | changeIdentifier (row : ℕ) (identifier : DrawSystemIdentifier)

namespace PreferenceAction

/-- The action object, as the constructor makes it. -/
def create : PreferenceAction → Action
  | addRow row => .addDrawSystemPreferenceRow ⟨row⟩
  | eraseRow row => .eraseDrawSystemPreferenceRow { row := row }
  | changeLimit row limit => .changeDrawSystemPreferenceLimit { row := row, limit := limit }
  | changeIdentifier row identifier => .changeDrawSystemPreferenceIdentifier ⟨row, identifier⟩

/-- The rows of the cycles are such that the undo fields of the action suffice: a row that is erased
is not the one after the last, a draw system is replaced by itself, and the limits that are written
back are all right. -/
def Harmless : PreferenceAction → List Rows → Prop
  | addRow _, _ => True
  | eraseRow row, cycles => row = 0 ∨ ∀ rows ∈ cycles, row ≠ rows.length
  | changeLimit row limit, cycles =>
    row = 0 ∨ ChangeDrawSystemPreferenceLimitAction.Fits row limit [] [] cycles
  | changeIdentifier row identifier, cycles =>
    ∀ rows ∈ cycles, ∀ r, rows[row]? = some r → r.drawSystem = identifier

end PreferenceAction

/-- Cycles of redo and undo of a preference action restore the rows exactly when they are harmless. -/
theorem restores_iff_harmless (p : PreferenceAction) (ts : List TournamentStore) :
    Restores p.create ts ↔ p.Harmless (ts.map TournamentStore.rows) := by
  cases p with
  | addRow row => exact iff_of_true (restores_addRow row ts) trivial
  | eraseRow row => exact restores_eraseRow _ ts
  | changeLimit row limit => exact restores_changeLimit _ ts
  | changeIdentifier row identifier => exact restores_changeIdentifier _ ts

/-- On the rows of a new tournament: undoing a change of the first row leaves the new draw system,
undoing the erasure of a fourth row reads a field that nothing has written, and a limit that one object
changes twice is not restored the second time. -/
theorem preference_cycles_not_restored :
    ¬ Restores (PreferenceAction.changeIdentifier 0 .pool).create [{}] ∧
    ¬ Restores (PreferenceAction.eraseRow 3).create [{}] ∧
    ¬ Restores (PreferenceAction.changeLimit 1 4).create [{}, {}] := by
  refine ⟨?_, ?_, ?_⟩
  · rw [PreferenceAction.create, restores_changeIdentifier]
    decide
  · rw [PreferenceAction.create, restores_eraseRow]
    decide
  · rw [PreferenceAction.create, restores_changeLimit]
    simp [ChangeDrawSystemPreferenceLimitAction.Fits,
      ChangeDrawSystemPreferenceLimitAction.savedAbove, ChangeDrawSystemPreferenceLimitAction.savedBelow,
      TournamentStore.rows, Rows.limits]

end JudoAssistant
