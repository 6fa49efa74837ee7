import Mathlib.Algebra.GroupWithZero.Nat
import Mathlib.Data.Finset.Basic
import Mathlib.Data.List.Sort

/-!
# The random engine and the sort of the standard library

`std::mt19937` is the generator that the C++ standard defines: a linear recurrence on 624 words of
32 bits with a tempered output.  `shuffle` (`src/core/shuffle.hpp`) is the shuffle of the core, which
avoids `std::shuffle` for the same result on every platform.  `std::sort` leaves the order of
equivalent elements open; here it is stable.
-/

namespace JudoAssistant

/-- `std::mt19937`: the last 624 words of the recurrence, the oldest one first. -/
structure Mt19937 where
  window : List ℕ

namespace Mt19937

/-- The words that the seed gives, from word `i` on, where `x` is the word before. -/
def seedWords : ℕ → ℕ → ℕ → List ℕ
  | 0, _, _ => []
  | n + 1, i, x =>
    let y := (1812433253 * (x ^^^ (x >>> 30)) + i) % 2 ^ 32
    y :: seedWords n (i + 1) y

/-- The constructor from a seed. -/
def init (seed : ℕ) : Mt19937 where
  window := seed % 2 ^ 32 :: seedWords 623 1 (seed % 2 ^ 32)

/-- The next word of the recurrence. -/
def word (window : List ℕ) : ℕ :=
  let y := (window.getD 0 0 &&& 0x80000000) ||| (window.getD 1 0 &&& 0x7fffffff)
  window.getD 397 0 ^^^ (y >>> 1) ^^^ (if y % 2 = 1 then 0x9908b0df else 0)

/-- The tempering of a word. -/
def temper (x : ℕ) : ℕ :=
  let x := x ^^^ (x >>> 11)
  let x := x ^^^ ((x <<< 7) &&& 0x9d2c5680)
  let x := x ^^^ ((x <<< 15) &&& 0xefc60000)
  x ^^^ (x >>> 18)

/-- `operator()` -/
def next (e : Mt19937) : ℕ × Mt19937 :=
  let x := word e.window
  (temper x, ⟨e.window.tail ++ [x]⟩)

/-- The number of outputs after which the engine repeats itself. -/
def period : ℕ := 2 ^ 19937 - 1

end Mt19937

section

variable {α : Type}

/-- `std::swap` of two elements of a vector. -/
def swapAt (l : List α) (i j : ℕ) : List α :=
  match l[i]?, l[j]? with
  | some x, some y => (l.set i y).set j x
  | _, _ => l

/-- The loop of `shuffle` over `n` positions from `i` on, in a vector of length `d`. -/
def shuffleFrom (d : ℕ) : ℕ → ℕ → List α → Mt19937 → List α × Mt19937
  | 0, _, l, e => (l, e)
  | n + 1, i, l, e =>
    let (x, e) := e.next
    shuffleFrom d n (i + 1) (swapAt l i (x % d)) e

/-- `shuffle` -/
def shuffle (l : List α) (e : Mt19937) : List α × Mt19937 :=
  if l.length ≤ 1 then (l, e) else shuffleFrom l.length l.length 0 l e

variable (lt : α → α → Bool)

def insertSorted (x : α) : List α → List α
  | [] => [x]
  | y :: ys => if lt y x then y :: insertSorted x ys else x :: y :: ys

/-- `std::sort` with a comparison. -/
def stdSort : List α → List α
  | [] => []
  | x :: xs => insertSorted lt x (stdSort xs)

variable {lt}

theorem perm_insertSorted (x : α) (l : List α) : (insertSorted lt x l).Perm (x :: l) := by
  induction l with
  | nil => exact .refl _
  | cons y ys ih =>
    unfold insertSorted
    split
    · exact (ih.cons y).trans (.swap x y ys)
    · exact .refl _

theorem perm_stdSort (l : List α) : (stdSort lt l).Perm l := by
  induction l with
  | nil => exact .refl _
  | cons x xs ih => exact (perm_insertSorted x _).trans (ih.cons x)

theorem pairwise_insertSorted {le : α → α → Prop} (htrans : ∀ x y z, le x y → le y z → le x z)
    (hlt : ∀ x y, lt x y = true → le x y) (hge : ∀ x y, lt x y = false → le y x) (x : α) {l : List α}
    (h : l.Pairwise le) : (insertSorted lt x l).Pairwise le := by
  induction l with
  | nil => exact List.pairwise_singleton _ _
  | cons y ys ih =>
    obtain ⟨hy, hys⟩ := List.pairwise_cons.1 h
    unfold insertSorted
    split
    · next hyx =>
      refine List.pairwise_cons.2 ⟨?_, ih hys⟩
      intro z hz
      rcases List.mem_cons.1 ((perm_insertSorted x ys).mem_iff.1 hz) with rfl | hz
      · exact hlt _ _ hyx
      · exact hy z hz
    · next hyx =>
      have hxy : le x y := hge _ _ (by simpa using hyx)
      refine List.pairwise_cons.2 ⟨?_, h⟩
      intro z hz
      rcases List.mem_cons.1 hz with rfl | hz
      · exact hxy
      · exact htrans _ _ _ hxy (hy z hz)

/-- The result of the sort is sorted. -/
theorem pairwise_stdSort {le : α → α → Prop} (htrans : ∀ x y z, le x y → le y z → le x z)
    (hlt : ∀ x y, lt x y = true → le x y) (hge : ∀ x y, lt x y = false → le y x) (l : List α) :
    (stdSort lt l).Pairwise le := by
  induction l with
  | nil => exact List.Pairwise.nil
  | cons x xs ih => exact pairwise_insertSorted htrans hlt hge x ih

theorem perm_swapAt (l : List α) (i j : ℕ) : (swapAt l i j).Perm l := by
  unfold swapAt
  split
  · next x y hx hy =>
    obtain ⟨hi, rfl⟩ := List.getElem?_eq_some_iff.1 hx
    obtain ⟨hj, rfl⟩ := List.getElem?_eq_some_iff.1 hy
    exact List.set_set_perm hi hj
  · exact .refl _

theorem perm_shuffleFrom (d n i : ℕ) (l : List α) (e : Mt19937) :
    (shuffleFrom d n i l e).1.Perm l := by
  induction n generalizing i l e with
  | zero => exact .refl _
  | succ n ih => exact (ih _ _ _).trans (perm_swapAt l i _)

theorem perm_shuffle (l : List α) (e : Mt19937) : (shuffle l e).1.Perm l := by
  unfold shuffle
  split
  · exact .refl _
  · exact perm_shuffleFrom _ _ _ _ _

end

/-! ### Iterating over an ordered set -/

section

variable {α : Type} [LinearOrder α]

/-- The elements of an `std::set` in the order of its iterators. -/
def inOrder (s : Finset α) : List α :=
  Quot.liftOn s.val (List.insertionSort (· ≤ ·)) fun _ _ h =>
    ((List.perm_insertionSort _ _).trans (h.trans (List.perm_insertionSort _ _).symm)).eq_of_pairwise'
      (List.pairwise_insertionSort _ _) (List.pairwise_insertionSort _ _)

theorem coe_inOrder (s : Finset α) : (inOrder s : Multiset α) = s.val := by
  obtain ⟨m, hm⟩ := s
  induction m using Quot.inductionOn with
  | h l => exact Quot.sound (List.perm_insertionSort _ l)

@[simp] theorem mem_inOrder {s : Finset α} {a : α} : a ∈ inOrder s ↔ a ∈ s := by
  rw [← Multiset.mem_coe, coe_inOrder, Finset.mem_val]

theorem nodup_inOrder (s : Finset α) : (inOrder s).Nodup := by
  rw [← Multiset.coe_nodup, coe_inOrder]
  exact s.nodup

end

end JudoAssistant
