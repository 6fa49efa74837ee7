import Mathlib.Data.List.Nodup
import Mathlib.Data.List.Basic

/-!
# Putting elements back into a list

An element that is erased from a list and inserted again at an index is at its old place only if the
index is right.  A second element that was inserted in between and erased afterwards may shift it.
-/

namespace Reinsert

variable {α : Type} [BEq α] [LawfulBEq α] {l : List α} {x y : α} {i j : ℕ}

/-- Insert at an index, or at the end of a shorter list. -/
def insertAt (x : α) (i : ℕ) (l : List α) : List α := l.insertIdx (min i l.length) x

/-- Insert an element that is not in the list. -/
def insertNew (x : α) (i : ℕ) (l : List α) : List α := if x ∈ l then l else insertAt x i l

/-- The index is that of the element, or both are at the end. -/
def Fits (l : List α) (x : α) (i : ℕ) : Prop := min i (l.length - 1) = l.idxOf x

/-- The index is that of the element, where another one stands at the second index meanwhile. -/
def FitsBeside (l : List α) (x : α) (i j : ℕ) : Prop :=
  min i l.length = l.idxOf x ∧ l.idxOf x ≤ min j l.length ∨
    min i l.length = l.idxOf x + 1 ∧ min j l.length ≤ l.idxOf x + 1

omit [BEq α] [LawfulBEq α] in
@[simp] theorem length_insertAt : (insertAt x i l).length = l.length + 1 :=
  List.length_insertIdx_of_le_length (Nat.min_le_right _ _) x

omit [BEq α] [LawfulBEq α] in
@[simp] theorem mem_insertAt : y ∈ insertAt x i l ↔ y = x ∨ y ∈ l :=
  List.mem_insertIdx (Nat.min_le_right _ _)

omit [BEq α] [LawfulBEq α] in
theorem insertAt_ne_nil : insertAt x i l ≠ [] := List.ne_nil_of_length_pos (by simp)

omit [BEq α] [LawfulBEq α] in
theorem nodup_insertAt (hx : x ∉ l) (hl : l.Nodup) : (insertAt x i l).Nodup := by
  unfold insertAt
  rw [(List.perm_insertIdx _ _ (Nat.min_le_right _ _)).nodup_iff, List.nodup_cons]
  exact ⟨hx, hl⟩

theorem mem_insertNew : y ∈ insertNew x i l ↔ y = x ∨ y ∈ l := by
  unfold insertNew
  split
  · next hx =>
    refine ⟨.inr, ?_⟩
    rintro (rfl | hy)
    · exact hx
    · exact hy
  · exact mem_insertAt

theorem insertNew_ne_nil : insertNew x i l ≠ [] := List.ne_nil_of_mem (mem_insertNew.2 (.inl rfl))

/-! ### One element -/

theorem idxOf_insertIdx (hx : x ∉ l) : ∀ {n : ℕ}, n ≤ l.length → (l.insertIdx n x).idxOf x = n := by
  induction l with
  | nil =>
    intro n hn
    obtain rfl : n = 0 := by simpa using hn
    simp
  | cons y l ih =>
    intro n hn
    rw [List.mem_cons, not_or] at hx
    cases n with
    | zero => simp
    | succ n =>
      rw [List.insertIdx_succ_cons, List.idxOf_cons_ne _ (Ne.symm hx.1), ih hx.2 (by simpa using hn)]

theorem erase_insertIdx (hx : x ∉ l) : ∀ {n : ℕ}, n ≤ l.length → (l.insertIdx n x).erase x = l := by
  induction l with
  | nil =>
    intro n hn
    obtain rfl : n = 0 := by simpa using hn
    simp
  | cons y l ih =>
    intro n hn
    rw [List.mem_cons, not_or] at hx
    cases n with
    | zero => simp
    | succ n =>
      rw [List.insertIdx_succ_cons, List.erase_cons_tail (by simpa using Ne.symm hx.1),
        ih hx.2 (by simpa using hn)]

theorem insertIdx_idxOf_erase (hx : x ∈ l) : (l.erase x).insertIdx (l.idxOf x) x = l := by
  induction l with
  | nil => cases hx
  | cons y l ih =>
    by_cases hy : y = x
    · subst hy
      simp
    · rw [List.erase_cons_tail (by simpa using hy), List.idxOf_cons_ne _ hy, List.insertIdx_succ_cons,
        ih ((List.mem_cons.1 hx).resolve_left (Ne.symm hy))]

/-- An inserted element that is erased again leaves the list. -/
theorem erase_insertAt (hx : x ∉ l) : (insertAt x i l).erase x = l :=
  erase_insertIdx hx (Nat.min_le_right _ _)

/-- An element is back at its place exactly if it is inserted at its index. -/
theorem insertIdx_erase_iff (hx : x ∈ l) (hl : l.Nodup) {n : ℕ} (hn : n ≤ l.length - 1) :
    (l.erase x).insertIdx n x = l ↔ n = l.idxOf x := by
  have hlength : n ≤ (l.erase x).length := by rwa [List.length_erase_of_mem hx]
  constructor
  · intro h
    rw [← idxOf_insertIdx hl.not_mem_erase hlength, h]
  · rintro rfl
    exact insertIdx_idxOf_erase hx

theorem insertAt_erase_iff (hx : x ∈ l) (hl : l.Nodup) : insertAt x i (l.erase x) = l ↔ Fits l x i := by
  unfold insertAt Fits
  rw [List.length_erase_of_mem hx]
  exact insertIdx_erase_iff hx hl (Nat.min_le_right _ _)

theorem erase_eq_nil_iff (hx : x ∈ l) : l.erase x = [] ↔ l = [x] := by
  constructor
  · intro h
    have hperm := List.perm_cons_erase hx
    rw [h] at hperm
    exact List.perm_singleton.1 hperm
  · rintro rfl
    simp

theorem fits_singleton : Fits [x] x i := by simp [Fits]

/-! ### Beside another element -/

/-- The index of an element that is inserted, without another one before it. -/
def without (k n : ℕ) : ℕ := if n ≤ k then n else n - 1

theorem without_le {k n m : ℕ} (hk : k ≤ m) (hn : n ≤ m + 1) : without k n ≤ m := by
  unfold without
  split <;> omega

theorem erase_insertIdx_of_ne (hne : x ≠ y) (hx : x ∈ l) : ∀ {n : ℕ}, n ≤ l.length →
    (l.insertIdx n y).erase x = (l.erase x).insertIdx (without (l.idxOf x) n) y := by
  induction l with
  | nil => cases hx
  | cons z l ih =>
    intro n hn
    cases n with
    | zero =>
      rw [List.insertIdx_zero, List.erase_cons_tail (by simpa using Ne.symm hne)]
      simp [without]
    | succ n =>
      rw [List.insertIdx_succ_cons]
      by_cases hz : z = x
      · subst hz
        simp [without]
      · have hx' := (List.mem_cons.1 hx).resolve_left (Ne.symm hz)
        rw [List.erase_cons_tail (by simpa using hz), List.erase_cons_tail (by simpa using hz),
          List.idxOf_cons_ne _ hz, ih hx' (by simpa using hn)]
        unfold without
        split
        · rw [if_pos (by omega), List.insertIdx_succ_cons]
        · rw [if_neg (by omega), show n + 1 - 1 = n - 1 + 1 by omega, List.insertIdx_succ_cons]

/-- The second element is inserted before the first one is erased, and erased after it is back. -/
theorem insertAt_beside_iff (hx : x ∈ l) (hy : y ∉ l) (hl : l.Nodup) :
    (insertAt x i ((insertAt y j l).erase x)).erase y = l ↔ FitsBeside l x i j := by
  have hne : x ≠ y := fun h => hy (h ▸ hx)
  have hidx := List.idxOf_lt_length_of_mem hx
  have hlength : (l.erase x).length = l.length - 1 := List.length_erase_of_mem hx
  have hbetween : (insertAt y j l).erase x =
      (l.erase x).insertIdx (without (l.idxOf x) (min j l.length)) y :=
    erase_insertIdx_of_ne hne hx (Nat.min_le_right _ _)
  have hp : without (l.idxOf x) (min j l.length) ≤ (l.erase x).length :=
    without_le (by omega) (by omega)
  have hnot : y ∉ l.erase x := fun h => hy (List.mem_of_mem_erase h)
  rw [hbetween]
  unfold insertAt
  have hlength' : ((l.erase x).insertIdx (without (l.idxOf x) (min j l.length)) y).length = l.length := by
    rw [List.length_insertIdx_of_le_length hp]
    omega
  rw [erase_insertIdx_of_ne hne.symm ((List.mem_insertIdx hp).2 (.inl rfl)) (Nat.min_le_right _ _),
    erase_insertIdx hnot hp, idxOf_insertIdx hnot hp, hlength', insertIdx_erase_iff hx hl]
  · unfold FitsBeside without
    split <;> split <;> omega
  · rw [hlength] at hp
    exact without_le hp (by omega)

theorem insertNew_of_mem (hx : x ∈ l) : insertNew x i l = l := if_pos hx

theorem insertNew_of_notMem (hx : x ∉ l) : insertNew x i l = insertAt x i l := if_neg hx

theorem insertNew_erase_iff (hx : x ∈ l) (hl : l.Nodup) :
    insertNew x i (l.erase x) = l ↔ Fits l x i := by
  rw [insertNew_of_notMem hl.not_mem_erase]
  exact insertAt_erase_iff hx hl

/-- The second element may have been in the list before. -/
theorem insertNew_beside_iff (hx : x ∈ l) (hl : l.Nodup) :
    (if y ∈ l then insertNew x i ((insertNew y j l).erase x)
      else (insertNew x i ((insertNew y j l).erase x)).erase y) = l ↔
    if y ∈ l then Fits l x i else FitsBeside l x i j := by
  split
  · next hy =>
    rw [insertNew_of_mem hy]
    exact insertNew_erase_iff hx hl
  · next hy =>
    rw [insertNew_of_notMem hy, insertNew_of_notMem (nodup_insertAt hy hl).not_mem_erase]
    exact insertAt_beside_iff hx hy hl

/-- Inserting a new element and erasing it again leaves the list. -/
theorem erase_insertNew : (if y ∈ l then insertNew y j l else (insertNew y j l).erase y) = l := by
  split
  · next hy => exact insertNew_of_mem hy
  · next hy =>
    rw [insertNew_of_notMem hy]
    exact erase_insertAt hy

/-! ### In increasing order -/

end Reinsert
