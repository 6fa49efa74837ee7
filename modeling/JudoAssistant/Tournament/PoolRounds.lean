import Mathlib.Data.Nat.ModEq
import JudoAssistant.Lib.Effect
import JudoAssistant.Lib.RoundRobin
import JudoAssistant.Tournament.DrawSystems

/-!
# The match order of a pool

For an even number of players, `createMatchOrderForEvenNumber` keeps the first player in place and turns
the others by one position after every round.  For an odd number, `createMatchOrderForOddNumber` gives
every player a slot in every round; two players share each slot but the first one, and meet.  In both
orders every two players meet exactly once.
-/

namespace JudoAssistant

namespace PoolDrawSystem

open RoundRobin

/-! ### An even number of players -/

theorem carry_eq (x : PlayerId) (l : List PlayerId) : carry x l = (x :: l).dropLast := by
  induction l generalizing x with
  | nil => rfl
  | cons y l ih => rw [carry, ih, List.dropLast_cons_cons]

theorem rotate_cons_concat (x last : PlayerId) (l : List PlayerId) :
    rotate (x :: (l ++ [last])) = x :: last :: l := by
  have hlast : (l ++ [last]).getLast? = some last := by simp
  simp only [rotate, hlast, carry_eq]
  rw [← List.cons_append, List.dropLast_concat]

theorem perm_rotate (ids : List PlayerId) : (rotate ids).Perm ids := by
  match ids with
  | [] => exact .refl _
  | x :: xs =>
    rcases List.eq_nil_or_concat' xs with rfl | ⟨l, last, rfl⟩
    · exact .refl _
    · rw [rotate_cons_concat]
      exact .cons x (List.perm_append_singleton last l).symm

theorem perm_rotations (r : ℕ) (ids : List PlayerId) : (rotate^[r] ids).Perm ids := by
  induction r with
  | zero => exact .refl _
  | succ r ih =>
    rw [Function.iterate_succ_apply']
    exact (perm_rotate _).trans ih

/-- The position of a player after some rounds, for `n + 1` players. -/
def position (n r : ℕ) : ℕ → ℕ
  | 0 => 0
  | x + 1 => (x + r) % n + 1

theorem getElem?_rotate {ids : List PlayerId} {n y : ℕ} (hn : ids.length = n + 1) (hy : y < n) :
    (rotate ids)[(y + 1) % n + 1]? = ids[y + 1]? := by
  match ids with
  | x :: xs =>
    rcases List.eq_nil_or_concat' xs with rfl | ⟨l, last, rfl⟩
    · simp at hn
      omega
    · have hlength : l.length + 1 = n := by simpa using hn
      rw [rotate_cons_concat, List.getElem?_cons_succ, List.getElem?_cons_succ]
      rcases Nat.lt_or_ge (y + 1) n with hlt | hge
      · rw [Nat.mod_eq_of_lt hlt, List.getElem?_cons_succ, List.getElem?_append_left (by omega)]
      · obtain rfl : y = l.length := by omega
        rw [hlength, Nat.mod_self]
        simp

theorem getElem?_zero_rotate (ids : List PlayerId) : (rotate ids)[0]? = ids[0]? := by
  cases ids <;> rfl

/-- The player with an index is at his position. -/
theorem getElem?_position {ids : List PlayerId} {n : ℕ} (hn : ids.length = n + 1) (r : ℕ) {p : ℕ}
    (hp : p ≤ n) : (rotate^[r] ids)[position n r p]? = ids[p]? := by
  cases p with
  | zero =>
    induction r with
    | zero => rfl
    | succ r ih =>
      rw [Function.iterate_succ_apply', position, getElem?_zero_rotate]
      exact ih
  | succ x =>
    induction r with
    | zero =>
      have hx : (x + 0) % n = x := Nat.mod_eq_of_lt hp
      rw [position, hx, Function.iterate_zero_apply]
    | succ r ih =>
      have hlength : (rotate^[r] ids).length = n + 1 := by rw [(perm_rotations r ids).length_eq, hn]
      have hlt : (x + r) % n < n := Nat.mod_lt _ (by omega)
      rw [← ih, position, position, ← getElem?_rotate hlength hlt, Nat.mod_add_mod, Nat.add_assoc,
        Function.iterate_succ_apply']

/-- There is a player at every position. -/
theorem exists_position {n r i : ℕ} (hi : i ≤ n) : ∃ p ≤ n, position n r p = i := by
  cases i with
  | zero => exact ⟨0, Nat.zero_le _, rfl⟩
  | succ y =>
    have hn : 0 < n := by omega
    have hr : r % n < n := Nat.mod_lt _ hn
    refine ⟨(y + (n - r % n)) % n + 1, Nat.mod_lt _ hn, ?_⟩
    have hsum : y + (n - r % n) + r = y + n * (r / n + 1) := by
      have hdiv := Nat.div_add_mod r n
      rw [Nat.mul_succ]
      omega
    rw [position, Nat.mod_add_mod, hsum, Nat.add_mul_mod_self_left, Nat.mod_eq_of_lt hi]

/-- Two players meet in at most one round: the sum of their positions tells the round. -/
theorem position_add_inj {n r r' p q : ℕ} (hodd : n % 2 = 1) (hr : r < n) (hr' : r' < n)
    (h : position n r p + position n r q = n) (h' : position n r' p + position n r' q = n) : r = r' := by
  have hcancel : ∀ x, (x + r) % n = (x + r') % n → r = r' := fun x hx =>
    Nat.ModEq.eq_of_lt_of_lt (Nat.ModEq.add_left_cancel' x hx) hr hr'
  cases p with
  | zero => cases q with
    | zero =>
      simp only [position] at h
      omega
    | succ y =>
      simp only [position] at h h'
      exact hcancel y (by omega)
  | succ x => cases q with
    | zero =>
      simp only [position] at h h'
      exact hcancel x (by omega)
    | succ y =>
      simp only [position] at h h'
      have hsum : (x + r) % n + (y + r) % n = (x + r') % n + (y + r') % n := by omega
      have hmod : x + r + (y + r) ≡ x + r' + (y + r') [MOD n] := by
        show _ % n = _ % n
        rw [Nat.add_mod, hsum, ← Nat.add_mod]
      have htwice : x + y + 2 * r ≡ x + y + 2 * r' [MOD n] := by
        have e₁ : x + y + 2 * r = x + r + (y + r) := by omega
        have e₂ : x + y + 2 * r' = x + r' + (y + r') := by omega
        rw [e₁, e₂]
        exact hmod
      have hcoprime : Nat.gcd n 2 = 1 := by rw [Nat.gcd_comm, Nat.gcd_rec, hodd, Nat.gcd_one_left]
      exact (Nat.ModEq.cancel_left_of_coprime hcoprime
        (Nat.ModEq.add_left_cancel' _ htwice)).eq_of_lt_of_lt hr hr'

theorem length_evenRound (ids : List PlayerId) : (evenRound ids).length = ids.length / 2 := by
  simp only [evenRound, List.length_take, List.length_zip, List.length_reverse, Nat.min_self]
  omega

/-- The players of a round are the players. -/
theorem perm_evenRound {ids : List PlayerId} (heven : ids.length % 2 = 0) :
    (playersOf (evenRound ids)).Perm ids := by
  have hhalf : ids.length - ids.length / 2 = ids.length / 2 := by omega
  have hzip : evenRound ids = (ids.take (ids.length / 2)).zip (ids.drop (ids.length / 2)).reverse := by
    refine List.take_zipWith.trans ?_
    rw [List.take_reverse, hhalf]
    rfl
  rw [hzip]
  refine (perm_playersOf_zip ?_).trans ?_
  · simp only [List.length_take, List.length_reverse, List.length_drop]
    omega
  · refine ((List.reverse_perm _).append_left _).trans ?_
    rw [List.take_append_drop]

/-- The positions of the players of a match sum up to the last position. -/
theorem exists_of_mem_evenRound {ids : List PlayerId} {n r : ℕ} (hn : ids.length = n + 1)
    {m : PlayerId × PlayerId} (hm : m ∈ evenRound (rotate^[r] ids)) :
    ∃ p ≤ n, ∃ q ≤ n, ids[p]? = some m.1 ∧ ids[q]? = some m.2 ∧ position n r p + position n r q = n := by
  have hlength : (rotate^[r] ids).length = n + 1 := by rw [(perm_rotations r ids).length_eq, hn]
  obtain ⟨i, hi⟩ := List.mem_iff_getElem?.1 (List.mem_of_mem_take hm)
  obtain ⟨hfst, hsnd⟩ := List.getElem?_zip_eq_some.1 hi
  have hin : i < n + 1 := by
    rw [← hlength]
    exact (List.getElem?_eq_some_iff.1 hfst).1
  rw [List.getElem?_reverse (by omega), hlength] at hsnd
  obtain ⟨p, hp, hpi⟩ := @exists_position n r i (by omega)
  obtain ⟨q, hq, hqi⟩ := @exists_position n r (n - i) (by omega)
  refine ⟨p, hp, q, hq, ?_, ?_, by omega⟩
  · rw [← getElem?_position hn r hp, hpi, hfst]
  · rw [← getElem?_position hn r hq, hqi, ← hsnd]
    rfl

theorem evenRounds_eq (n : ℕ) (ids : List PlayerId) :
    evenRounds n ids = ((List.range n).map fun r => evenRound (rotate^[r] ids)).flatten := by
  induction n generalizing ids with
  | zero => rfl
  | succ n ih =>
    rw [evenRounds, ih, List.range_succ_eq_map, List.map_cons, List.flatten_cons, List.map_map]
    rfl

/-- The order for an even number of players is a round robin. -/
theorem isRoundRobin_evenRounds {players : List PlayerId} (hnodup : players.Nodup)
    (hpos : 0 < players.length) (heven : players.length % 2 = 0) :
    IsRoundRobin players (evenRounds (players.length - 1) players) := by
  obtain ⟨n, hn⟩ : ∃ n, players.length = n + 1 := ⟨players.length - 1, by omega⟩
  have hperm : ∀ r, (playersOf (evenRound (rotate^[r] players))).Perm players := fun r =>
    (perm_evenRound (by rw [(perm_rotations r players).length_eq, heven])).trans (perm_rotations r players)
  rw [evenRounds_eq]
  refine isRoundRobin_flatten hnodup ?_ ?_ ?_ ?_ ?_
  · intro r _
    rw [length_evenRound, (perm_rotations r players).length_eq]
  · intro r _
    exact (hperm r).nodup_iff.2 hnodup
  · intro r _ m hm
    exact (mem_playersOf hm).imp (hperm r).mem_iff.1 (hperm r).mem_iff.1
  · intro r hr r' hr' m hm m' hm' heq
    rw [hn, Nat.add_sub_cancel] at hr hr'
    obtain ⟨p, hp, q, hq, hpm, hqm, hsum⟩ := exists_of_mem_evenRound hn hm
    obtain ⟨p', hp', q', hq', hpm', hqm', hsum'⟩ := exists_of_mem_evenRound hn hm'
    -- Two indices of one player are equal, as the players are distinct.
    have hinj : ∀ {i j x}, i ≤ n → players[i]? = some x → players[j]? = some x → i = j := by
      intro i j x hi hix hjx
      exact (List.getElem?_inj (by omega) hnodup).1 (hix.trans hjx.symm)
    have hodd : n % 2 = 1 := by omega
    rcases Sym2.eq_iff.1 heq with ⟨h₁, h₂⟩ | ⟨h₁, h₂⟩
    · obtain rfl := hinj hp hpm (h₁ ▸ hpm')
      obtain rfl := hinj hq hqm (h₂ ▸ hqm')
      exact position_add_inj hodd hr hr' hsum hsum'
    · obtain rfl := hinj hp hpm (h₁ ▸ hqm')
      obtain rfl := hinj hq hqm (h₂ ▸ hpm')
      exact position_add_inj hodd hr hr' hsum (by omega)
  · rw [Nat.choose_two_right, Nat.mul_comm]
    obtain ⟨k, hk⟩ : ∃ k, players.length = 2 * k := ⟨players.length / 2, by omega⟩
    rw [hk, Nat.mul_div_cancel_left k (by omega), Nat.mul_assoc, Nat.mul_div_cancel_left _ (by omega)]

/-! ### An odd number of players -/

/-- The remainder of a number below twice the divisor. -/
def wrap (k x : ℕ) : ℕ := if x ≤ k then x else x - (k + 1)

theorem mod_eq_wrap {k x : ℕ} (hx : x < 2 * (k + 1)) : x % (k + 1) = wrap k x := by
  unfold wrap
  split
  · exact Nat.mod_eq_of_lt (by omega)
  · rw [Nat.mod_eq_sub_mod (by omega), Nat.mod_eq_of_lt (by omega)]

/-- The slot of the player with an index, for `2 * k + 1` players. -/
def slotOf (k r i : ℕ) : ℕ :=
  if i = 2 * k then r / 2
  else if i % 2 = 0 then wrap k (if r ≤ i + 2 then i / 2 + 1 else r - (i / 2 + 1))
  else wrap k (i / 2 + min r (2 * k + 2 - i))

theorem slotOf_last (k r : ℕ) : slotOf k r (2 * k) = r / 2 := if_pos rfl

theorem slotOf_two_mul {k r i : ℕ} (hi : i < k) :
    slotOf k r (2 * i) = wrap k (if r ≤ 2 * i + 2 then i + 1 else r - (i + 1)) := by
  have hhalf : 2 * i / 2 = i := by omega
  rw [slotOf, if_neg (by omega), if_pos (by omega), hhalf]

theorem slotOf_two_mul_add_one {k r i : ℕ} (hi : i < k) :
    slotOf k r (2 * i + 1) = wrap k (i + min r (2 * k + 1 - 2 * i)) := by
  have hhalf : (2 * i + 1) / 2 = i := by omega
  have hmax : 2 * k + 2 - (2 * i + 1) = 2 * k + 1 - 2 * i := by omega
  rw [slotOf, if_neg (by omega), if_neg (by omega), hhalf, hmax]

/-- The index of a player is that of the last one, even or odd. -/
theorem index_cases {k i : ℕ} (hi : i ≤ 2 * k) :
    i = 2 * k ∨ (∃ a < k, i = 2 * a) ∨ ∃ a < k, i = 2 * a + 1 := by
  rcases Nat.lt_or_ge i (2 * k) with hlt | hge
  · rcases Nat.mod_two_eq_zero_or_one i with heven | hodd
    · exact .inr (.inl ⟨i / 2, by omega, by omega⟩)
    · exact .inr (.inr ⟨i / 2, by omega, by omega⟩)
  · exact .inl (by omega)

/-- The slots of a round are those of the players. -/
theorem mem_matchSlots {k r i : ℕ} (hr : r ≤ 2 * k + 1) (hi : i ≤ 2 * k) :
    (slotOf k r i, i) ∈ matchSlots k r := by
  unfold matchSlots
  rcases index_cases hi with rfl | ⟨a, ha, rfl⟩ | ⟨a, ha, rfl⟩
  · rw [slotOf_last, Nat.mod_eq_of_lt (by omega)]
    exact List.mem_cons_self
  · refine List.mem_cons_of_mem _ (List.mem_append.2 (.inl (List.mem_map.2 ⟨a, List.mem_range.2 ha, ?_⟩)))
    rw [slotOf_two_mul ha]
    simp only [Prod.mk.injEq]
    refine ⟨?_, by omega⟩
    rw [mod_eq_wrap (by split <;> omega)]
    congr 1
    split_ifs <;> omega
  · refine List.mem_cons_of_mem _ (List.mem_append.2 (.inr (List.mem_map.2 ⟨a, List.mem_range.2 ha, ?_⟩)))
    rw [slotOf_two_mul_add_one ha]
    simp only [Prod.mk.injEq]
    refine ⟨?_, by omega⟩
    rw [mod_eq_wrap (by omega)]
    congr 1
    omega

/-- A player in a slot after the first one, among those whose slots rest. -/
def restingPlayer (k r s : ℕ) : ℕ :=
  if r ≤ 2 * s then 2 * (s - 1) else if r = 2 * s + 1 then 2 * k else 2 * (k - s) + 1

/-- The player in a slot, among those whose slots move on. -/
def movingPlayer (k r s : ℕ) : ℕ :=
  let x := if (r + 1) / 2 ≤ s then s else s + (k + 1)
  if r = 1 ∧ s = 0 ∨ r = 2 * x then 2 * k else if x < r then 2 * (r - x - 1) else 2 * (x - r) + 1

theorem slotOf_restingPlayer {k r s : ℕ} (hs : 1 ≤ s ∧ s ≤ k) :
    restingPlayer k r s ≤ 2 * k ∧ slotOf k r (restingPlayer k r s) = s := by
  unfold restingPlayer
  split
  · next hle =>
    rw [slotOf_two_mul (by omega), if_pos (by omega), wrap, if_pos (by omega)]
    omega
  · split
    · rw [slotOf_last]
      omega
    · rw [slotOf_two_mul_add_one (by omega), wrap]
      split <;> omega

theorem slotOf_movingPlayer {k r s : ℕ} (hr : 1 ≤ r ∧ r ≤ 2 * k + 1) (hs : s ≤ k) :
    movingPlayer k r s ≤ 2 * k ∧ slotOf k r (movingPlayer k r s) = s := by
  unfold movingPlayer
  extract_lets x
  have hx : x = s ∧ (r + 1) / 2 ≤ s ∨ x = s + (k + 1) ∧ s < (r + 1) / 2 := by
    simp only [x]
    split <;> omega
  split
  · rw [slotOf_last]
    omega
  · split
    · rw [slotOf_two_mul (by omega), if_neg (by omega), wrap]
      split <;> omega
    · rw [slotOf_two_mul_add_one (by omega), wrap]
      split <;> omega

theorem restingPlayer_ne {k r s : ℕ} (hr : 1 ≤ r ∧ r ≤ 2 * k + 1) (hs : 1 ≤ s ∧ s ≤ k) :
    restingPlayer k r s ≠ movingPlayer k r s := by
  unfold restingPlayer movingPlayer
  simp only
  split_ifs <;> omega

/-! ### The round in which two players share a slot -/

section

variable {k r a b : ℕ} (hr : 1 ≤ r ∧ r ≤ 2 * k + 1)
include hr

theorem shared_last_even (ha : a < k) (h : slotOf k r (2 * k) = slotOf k r (2 * a)) : r = 2 * a + 2 := by
  rw [slotOf_last, slotOf_two_mul ha, wrap] at h
  split_ifs at h <;> omega

theorem shared_last_odd (ha : a < k) (h : slotOf k r (2 * k) = slotOf k r (2 * a + 1)) :
    r = 2 * k + 1 - 2 * a := by
  rw [slotOf_last, slotOf_two_mul_add_one ha, wrap] at h
  split_ifs at h <;> omega

theorem shared_even (ha : a < k) (hb : b < k) (hab : a ≠ b)
    (h : slotOf k r (2 * a) = slotOf k r (2 * b)) : r = a + b + 2 := by
  rw [slotOf_two_mul ha, slotOf_two_mul hb, wrap, wrap] at h
  split_ifs at h <;> omega

theorem shared_odd (ha : a < k) (hb : b < k) (hab : a ≠ b)
    (h : slotOf k r (2 * a + 1) = slotOf k r (2 * b + 1)) : r = 2 * k + 1 - a - b := by
  rw [slotOf_two_mul_add_one ha, slotOf_two_mul_add_one hb, wrap, wrap] at h
  split_ifs at h <;> omega

theorem shared_even_odd (ha : a < k) (hb : b < k) (h : slotOf k r (2 * a) = slotOf k r (2 * b + 1)) :
    r = if b ≤ a then a - b + 1 else 2 * k + 2 + a - b := by
  rw [slotOf_two_mul ha, slotOf_two_mul_add_one hb, wrap, wrap] at h
  split_ifs at h ⊢ <;> omega

end

/-- Two players share a slot in at most one round. -/
theorem round_eq_of_slotOf_eq {k r r' i j : ℕ} (hr : 1 ≤ r ∧ r ≤ 2 * k + 1)
    (hr' : 1 ≤ r' ∧ r' ≤ 2 * k + 1)
    (hi : i ≤ 2 * k) (hj : j ≤ 2 * k) (hij : i ≠ j) (h : slotOf k r i = slotOf k r j)
    (h' : slotOf k r' i = slotOf k r' j) : r = r' := by
  rcases index_cases hi with rfl | ⟨a, ha, rfl⟩ | ⟨a, ha, rfl⟩ <;>
    rcases index_cases hj with rfl | ⟨b, hb, rfl⟩ | ⟨b, hb, rfl⟩
  · exact absurd rfl hij
  · exact (shared_last_even hr hb h).trans (shared_last_even hr' hb h').symm
  · exact (shared_last_odd hr hb h).trans (shared_last_odd hr' hb h').symm
  · exact (shared_last_even hr ha h.symm).trans (shared_last_even hr' ha h'.symm).symm
  · have hab : a ≠ b := by omega
    exact (shared_even hr ha hb hab h).trans (shared_even hr' ha hb hab h').symm
  · exact (shared_even_odd hr ha hb h).trans (shared_even_odd hr' ha hb h').symm
  · exact (shared_last_odd hr ha h.symm).trans (shared_last_odd hr' ha h'.symm).symm
  · exact (shared_even_odd hr hb ha h.symm).trans (shared_even_odd hr' hb ha h'.symm).symm
  · have hab : a ≠ b := by omega
    exact (shared_odd hr ha hb hab h).trans (shared_odd hr' ha hb hab h').symm

/-! ### The slots of a round -/

/-- The players of a round by slots: one in the first slot, two in every other one. -/
def bySlot (k r : ℕ) : List (ℕ × ℕ) :=
  (0, movingPlayer k r 0) ::
    (List.range k).flatMap fun j => [(j + 1, restingPlayer k r (j + 1)), (j + 1, movingPlayer k r (j + 1))]

theorem map_fst_bySlot (k r : ℕ) :
    (bySlot k r).map Prod.fst = 0 :: ((List.range k).map (· + 1)).flatMap fun j => [j, j] := by
  simp [bySlot, List.map_flatMap, List.flatMap_map]

theorem length_bySlot (k r : ℕ) : (bySlot k r).length = 2 * k + 1 := by
  simp [bySlot, List.length_flatMap, Nat.mul_comm]

theorem length_matchSlots (k r : ℕ) : (matchSlots k r).length = 2 * k + 1 := by
  simp only [matchSlots, List.length_cons, List.length_append, List.length_map, List.length_range]
  omega

theorem mem_bySlot {k r : ℕ} (hr : 1 ≤ r ∧ r ≤ 2 * k + 1) {p : ℕ × ℕ} (hp : p ∈ bySlot k r) :
    p.2 ≤ 2 * k ∧ slotOf k r p.2 = p.1 := by
  rcases List.mem_cons.1 hp with rfl | hp
  · exact slotOf_movingPlayer hr (Nat.zero_le k)
  · obtain ⟨j, hj, hp⟩ := List.mem_flatMap.1 hp
    have hs : 1 ≤ j + 1 ∧ j + 1 ≤ k := ⟨by omega, List.mem_range.1 hj⟩
    rcases List.mem_cons.1 hp with rfl | hp
    · exact slotOf_restingPlayer hs
    · obtain rfl := List.mem_singleton.1 hp
      exact slotOf_movingPlayer hr hs.2

theorem nodup_bySlot {k r : ℕ} (hr : 1 ≤ r ∧ r ≤ 2 * k + 1) : (bySlot k r).Nodup := by
  refine List.nodup_cons.2 ⟨?_, List.nodup_flatMap.2 ⟨?_, ?_⟩⟩
  · intro hmem
    obtain ⟨j, -, hp⟩ := List.mem_flatMap.1 hmem
    simp at hp
  · intro j hj
    have hne := restingPlayer_ne hr ⟨Nat.le_add_left 1 j, List.mem_range.1 hj⟩
    simpa using hne
  · refine List.Pairwise.imp ?_ List.pairwise_lt_range
    intro i j hij p hp hp'
    have hi : p.1 = i + 1 := by
      rcases List.mem_cons.1 hp with rfl | hp
      · rfl
      · rw [List.mem_singleton.1 hp]
    have hj : p.1 = j + 1 := by
      rcases List.mem_cons.1 hp' with rfl | hp'
      · rfl
      · rw [List.mem_singleton.1 hp']
    omega

theorem perm_bySlot {k r : ℕ} (hr : 1 ≤ r ∧ r ≤ 2 * k + 1) : (bySlot k r).Perm (matchSlots k r) := by
  refine (List.subperm_of_subset (nodup_bySlot hr) ?_).perm_of_length_le ?_
  · intro p hp
    obtain ⟨hle, hslot⟩ := mem_bySlot hr hp
    have hmem := mem_matchSlots hr.2 hle
    rwa [hslot] at hmem
  · rw [length_bySlot, length_matchSlots]

/-- The sorted slots of a round. -/
def sortedSlots (k r : ℕ) : List (ℕ × ℕ) := stdSort slotLt (matchSlots k r)

theorem perm_sortedSlots {k r : ℕ} (hr : 1 ≤ r ∧ r ≤ 2 * k + 1) : (sortedSlots k r).Perm (bySlot k r) :=
  (perm_stdSort _).trans (perm_bySlot hr).symm

theorem pairwise_sortedSlots (k r : ℕ) : (sortedSlots k r).Pairwise fun a b => a.1 ≤ b.1 := by
  refine pairwise_stdSort ?_ ?_ ?_ _
  · intro x y z
    exact Nat.le_trans
  · intro x y h
    simp only [slotLt, Bool.or_eq_true, decide_eq_true_eq, Bool.and_eq_true, beq_iff_eq] at h
    omega
  · intro x y h
    simp only [slotLt, Bool.or_eq_false_iff, decide_eq_false_iff_not] at h
    omega

/-- The sort puts the two players of every slot side by side. -/
theorem map_fst_sortedSlots {k r : ℕ} (hr : 1 ≤ r ∧ r ≤ 2 * k + 1) :
    (sortedSlots k r).map Prod.fst = 0 :: ((List.range k).map (· + 1)).flatMap fun j => [j, j] := by
  have hsorted : (0 :: ((List.range k).map (· + 1)).flatMap fun j => [j, j]).Pairwise (· ≤ ·) := by
    refine List.pairwise_cons.2 ⟨fun _ _ => Nat.zero_le _, List.pairwise_flatMap.2 ⟨by simp, ?_⟩⟩
    rw [List.pairwise_map]
    refine List.Pairwise.imp ?_ List.pairwise_lt_range
    intro i j hij x hx y hy
    simp only [List.mem_cons, List.not_mem_nil, or_false, or_self] at hx hy
    omega
  have hperm := (perm_sortedSlots hr).map Prod.fst
  rw [map_fst_bySlot] at hperm
  exact hperm.eq_of_pairwise' (List.pairwise_map.2 (pairwise_sortedSlots k r)) hsorted

/-! ### The rounds of an odd number of players -/

/-- The player with an index. -/
def playerAt (players : List PlayerId) (i : ℕ) : PlayerId := players.getD i ⟨0⟩

theorem getElem?_eq_playerAt {players : List PlayerId} {i : ℕ} (hi : i < players.length) :
    players[i]? = some (playerAt players i) := by
  rw [playerAt, List.getD_eq_getElem?_getD, List.getElem?_eq_getElem hi, Option.getD_some]

theorem pairSlots_eq {players : List PlayerId} {l : List (ℕ × ℕ)} (hl : l.length % 2 = 0)
    (h : ∀ a ∈ l, a.2 < players.length) :
    pairSlots players l =
      .ok (((pairUp l).map (Prod.map Prod.snd Prod.snd)).map (Prod.map (playerAt players) (playerAt players))) := by
  induction l using pairUp.induct with
  | case1 a b l ih =>
    have ha := getElem?_eq_playerAt (h a (by simp))
    have hb := getElem?_eq_playerAt (h b (by simp))
    have hlength : l.length % 2 = 0 := by
      rw [List.length_cons, List.length_cons] at hl
      omega
    have hrest := ih hlength fun c hc => h c (by simp [hc])
    rw [pairSlots, ha, hb]
    simp only [hrest]
    rfl
  | case2 l hl' =>
    match l with
    | [] => rfl
    | [a] => simp at hl
    | a :: b :: l => exact absurd rfl (hl' a b l)

/-- A round of an odd number of players. -/
def oddRound (players : List PlayerId) (r : ℕ) : List (PlayerId × PlayerId) :=
  ((pairUp (sortedSlots (players.length / 2) r).tail).map (Prod.map Prod.snd Prod.snd)).map
    (Prod.map (playerAt players) (playerAt players))

theorem playerAt_inj {players : List PlayerId} (hnodup : players.Nodup) {i j : ℕ} (hi : i < players.length)
    (hj : j < players.length) (h : playerAt players i = playerAt players j) : i = j := by
  refine (List.getElem?_inj hi hnodup).1 ?_
  rw [getElem?_eq_playerAt hi, getElem?_eq_playerAt hj, h]

theorem playerAt_mem {players : List PlayerId} {i : ℕ} (hi : i < players.length) :
    playerAt players i ∈ players := List.mem_of_getElem? (getElem?_eq_playerAt hi)

section

variable {k r : ℕ} (hr : 1 ≤ r ∧ r ≤ 2 * k + 1)
include hr

theorem length_tail_sortedSlots : (sortedSlots k r).tail.length = 2 * k := by
  rw [List.length_tail, (perm_sortedSlots hr).length_eq, length_bySlot, Nat.add_sub_cancel]

theorem mem_tail_sortedSlots {p : ℕ × ℕ} (hp : p ∈ (sortedSlots k r).tail) :
    p.2 ≤ 2 * k ∧ slotOf k r p.2 = p.1 :=
  mem_bySlot hr ((perm_sortedSlots hr).mem_iff.1 (List.mem_of_mem_tail hp))

theorem map_fst_tail_sortedSlots : (sortedSlots k r).tail.map Prod.fst =
    ((List.range k).map (· + 1)).flatMap fun j => [j, j] := by
  rw [List.map_tail, map_fst_sortedSlots hr, List.tail_cons]

theorem nodup_tail_sortedSlots : ((sortedSlots k r).tail.map Prod.snd).Nodup := by
  refine List.Nodup.map_on ?_ ((List.tail_sublist _).nodup ((perm_sortedSlots hr).nodup_iff.2 (nodup_bySlot hr)))
  intro p hp q hq heq
  obtain ⟨-, hslot⟩ := mem_tail_sortedSlots hr hp
  obtain ⟨-, hslot'⟩ := mem_tail_sortedSlots hr hq
  rw [heq, hslot'] at hslot
  exact Prod.ext hslot.symm heq

variable {players : List PlayerId} (hk : players.length = 2 * k + 1)
include hk

omit hr in
theorem oddRound_eq : oddRound players r =
    ((pairUp (sortedSlots k r).tail).map (Prod.map Prod.snd Prod.snd)).map
      (Prod.map (playerAt players) (playerAt players)) := by
  have hhalf : players.length / 2 = k := by omega
  rw [oddRound, hhalf]

theorem playersOf_oddRound : playersOf (oddRound players r) =
    ((sortedSlots k r).tail.map Prod.snd).map (playerAt players) := by
  rw [oddRound_eq hk, playersOf_map, playersOf_map, playersOf_pairUp]
  rw [length_tail_sortedSlots hr]
  omega

theorem length_oddRound : (oddRound players r).length = players.length / 2 := by
  rw [oddRound_eq hk, List.length_map, List.length_map, length_pairUp, length_tail_sortedSlots hr]
  omega

theorem index_lt {i : ℕ} (hi : i ∈ (sortedSlots k r).tail.map Prod.snd) : i < players.length := by
  obtain ⟨p, hp, rfl⟩ := List.mem_map.1 hi
  have hle := (mem_tail_sortedSlots hr hp).1
  omega

theorem matching_oddRound (hnodup : players.Nodup) : Matching (oddRound players r) := by
  unfold Matching
  rw [playersOf_oddRound hr hk]
  refine List.Nodup.map_on ?_ (nodup_tail_sortedSlots hr)
  intro i hi j hj heq
  exact playerAt_inj hnodup (index_lt hr hk hi) (index_lt hr hk hj) heq

theorem mem_players_of_oddRound {m : PlayerId × PlayerId} (hm : m ∈ oddRound players r) :
    m.1 ∈ players ∧ m.2 ∈ players := by
  have hall : ∀ x ∈ playersOf (oddRound players r), x ∈ players := by
    intro x hx
    rw [playersOf_oddRound hr hk] at hx
    obtain ⟨i, hi, rfl⟩ := List.mem_map.1 hx
    exact playerAt_mem (index_lt hr hk hi)
  exact (mem_playersOf hm).imp (hall _) (hall _)

/-- The players of a match share a slot. -/
theorem exists_of_mem_oddRound {m : PlayerId × PlayerId} (hm : m ∈ oddRound players r) :
    ∃ i ≤ 2 * k, ∃ j ≤ 2 * k, m = (playerAt players i, playerAt players j) ∧ slotOf k r i = slotOf k r j := by
  rw [oddRound_eq hk] at hm
  obtain ⟨n, hn, rfl⟩ := List.mem_map.1 hm
  obtain ⟨p, hp, rfl⟩ := List.mem_map.1 hn
  have hmem : p.1 ∈ (sortedSlots k r).tail ∧ p.2 ∈ (sortedSlots k r).tail := by
    have hplayers := mem_playersOf hp
    rwa [playersOf_pairUp (by rw [length_tail_sortedSlots hr]; omega)] at hplayers
  obtain ⟨hi, hslot⟩ := mem_tail_sortedSlots hr hmem.1
  obtain ⟨hj, hslot'⟩ := mem_tail_sortedSlots hr hmem.2
  refine ⟨p.1.2, hi, p.2.2, hj, rfl, ?_⟩
  rw [hslot, hslot']
  exact apply_eq_of_mem_pairUp (map_fst_tail_sortedSlots hr) hp

end

/-- The order for an odd number of players is a round robin. -/
theorem isRoundRobin_oddRounds {players : List PlayerId} (hnodup : players.Nodup)
    (hodd : players.length % 2 = 1) :
    IsRoundRobin players ((List.range players.length).map fun i => oddRound players (i + 1)).flatten := by
  obtain ⟨k, hk⟩ : ∃ k, players.length = 2 * k + 1 := ⟨players.length / 2, by omega⟩
  have hround : ∀ i < players.length, 1 ≤ i + 1 ∧ i + 1 ≤ 2 * k + 1 := fun i hi => ⟨by omega, by omega⟩
  refine isRoundRobin_flatten hnodup ?_ ?_ ?_ ?_ ?_
  · intro i hi
    exact length_oddRound (hround i hi) hk
  · intro i hi
    exact matching_oddRound (hround i hi) hk hnodup
  · intro i hi m hm
    exact mem_players_of_oddRound (hround i hi) hk hm
  · intro i hi i' hi' m hm m' hm' heq
    have hne := (matching_oddRound (hround i hi) hk hnodup).ne hm
    obtain ⟨a, ha, b, hb, rfl, hslot⟩ := exists_of_mem_oddRound (hround i hi) hk hm
    obtain ⟨a', ha', b', hb', rfl, hslot'⟩ := exists_of_mem_oddRound (hround i' hi') hk hm'
    have hab : a ≠ b := fun e => hne (by rw [e])
    have hinj : ∀ {x y}, x ≤ 2 * k → y ≤ 2 * k → playerAt players x = playerAt players y → x = y := by
      intro x y hx hy
      exact playerAt_inj hnodup (by omega) (by omega)
    rcases Sym2.eq_iff.1 heq with ⟨h₁, h₂⟩ | ⟨h₁, h₂⟩
    · obtain rfl := hinj ha ha' h₁
      obtain rfl := hinj hb hb' h₂
      exact Nat.succ.inj (round_eq_of_slotOf_eq (hround i hi) (hround i' hi') ha hb hab hslot hslot')
    · obtain rfl := hinj ha hb' h₁
      obtain rfl := hinj hb ha' h₂
      exact Nat.succ.inj (round_eq_of_slotOf_eq (hround i hi) (hround i' hi') ha hb hab hslot hslot'.symm)
  · rw [Nat.choose_two_right, hk, Nat.add_sub_cancel, Nat.mul_div_assoc _ (Nat.dvd_mul_right 2 k)]
    congr 1
    omega

/-! ### The matches of a pool -/

theorem createMatchOrderForEvenNumber_eq {players : List PlayerId} (heven : players.length % 2 = 0) :
    createMatchOrderForEvenNumber players = .ok (evenRounds (players.length - 1) players) := by
  simp only [createMatchOrderForEvenNumber, check, heven]
  rfl

theorem createMatchOrderForOddNumber_eq {players : List PlayerId} (hodd : players.length % 2 = 1) :
    createMatchOrderForOddNumber players =
      .ok ((List.range players.length).map fun i => oddRound players (i + 1)).flatten := by
  obtain ⟨k, hk⟩ : ∃ k, players.length = 2 * k + 1 := ⟨players.length / 2, by omega⟩
  have hhalf : players.length / 2 = k := by omega
  have hrounds : ∀ i ∈ List.range players.length,
      pairSlots players (stdSort slotLt (matchSlots (players.length / 2) (i + 1))).tail =
        .ok (oddRound players (i + 1)) := by
    intro i hi
    have hr : 1 ≤ i + 1 ∧ i + 1 ≤ 2 * k + 1 := ⟨by omega, by have := List.mem_range.1 hi; omega⟩
    rw [hhalf, oddRound_eq hk]
    refine pairSlots_eq ?_ ?_
    · have hlength := length_tail_sortedSlots hr
      unfold sortedSlots at hlength
      omega
    · intro a ha
      have hle := (mem_tail_sortedSlots hr ha).1
      omega
  simp only [createMatchOrderForOddNumber, check, hodd, Effect.except_mapM_eq hrounds]
  rfl

/-- The match is between two players. -/
def isBetween (p q : PlayerId) (a : AddMatchAction) : Bool :=
  decide (a.whitePlayerId = some p ∧ a.bluePlayerId = some q ∨
    a.whitePlayerId = some q ∧ a.bluePlayerId = some p)

variable {t : TournamentStore} {c : CategoryStore}

/-- The match that is created for two players is between them. -/
theorem isBetween_createMatch {composited : Bool} {first second : PlayerId} {e e' : Mt19937}
    {a : AddMatchAction} (h : createMatch t c composited first second e = .ok (a, e')) (p q : PlayerId) :
    isBetween p q a = true ↔ (first, second) = (p, q) ∨ (first, second) = (q, p) := by
  simp only [createMatch, Effect.except_bind_ok, Effect.except_pure_ok, Prod.mk.injEq] at h
  obtain ⟨⟨matchId, e₁⟩, -, player, -, rfl, -⟩ := h
  simp only [isBetween, decide_eq_true_eq, Prod.mk.injEq]
  cases player.fields.blueJudogiHint with
  | false => simp
  | true =>
    simp only [if_true, Option.some.injEq]
    exact or_comm.trans (or_congr and_comm and_comm)

/-- There are as many matches between two players as the order has. -/
theorem countP_createMatches {composited : Bool} {order : List (PlayerId × PlayerId)} {e : Mt19937}
    {actions : List AddMatchAction} (h : createMatches t c composited order e = .ok actions)
    (p q : PlayerId) : actions.countP (isBetween p q) = meetings order p q := by
  induction order generalizing e actions with
  | nil =>
    cases h
    rfl
  | cons m order ih =>
    obtain ⟨first, second⟩ := m
    obtain ⟨⟨a, e₁⟩, ha, h⟩ := Effect.except_bind_ok.1 h
    obtain ⟨actions', hrest, h⟩ := Effect.except_bind_ok.1 h
    cases h
    unfold meetings at ih ⊢
    rw [List.countP_cons, List.countP_cons, ih hrest]
    simp only [isBetween_createMatch ha p q, decide_eq_true_eq]

theorem exists_of_mem_createMatches {composited : Bool} {order : List (PlayerId × PlayerId)} {e : Mt19937}
    {actions : List AddMatchAction} (h : createMatches t c composited order e = .ok actions)
    {a : AddMatchAction} (ha : a ∈ actions) : ∃ m ∈ order, isBetween m.1 m.2 a = true := by
  induction order generalizing e actions with
  | nil =>
    cases h
    cases ha
  | cons m order ih =>
    obtain ⟨first, second⟩ := m
    obtain ⟨⟨a₁, e₁⟩, ha₁, h⟩ := Effect.except_bind_ok.1 h
    obtain ⟨actions', hrest, h⟩ := Effect.except_bind_ok.1 h
    cases h
    rcases List.mem_cons.1 ha with rfl | ha
    · exact ⟨(first, second), List.mem_cons_self, (isBetween_createMatch ha₁ _ _).2 (.inl rfl)⟩
    · obtain ⟨m, hm, hbetween⟩ := ih hrest ha
      exact ⟨m, List.mem_cons_of_mem _ hm, hbetween⟩

/-- In a category without matches, the first id that is drawn is taken. -/
theorem generateMatchId_total (hc : ∀ id, c.containsMatch id = false) (e : Mt19937) :
    ∃ r, generateMatchId c Mt19937.period e = .ok r := by
  have hperiod : Mt19937.period ≠ 0 := by
    have hexponent : 19937 ≠ 0 := by decide
    unfold Mt19937.period
    generalize 19937 = n at hexponent ⊢
    have hlt := Nat.one_lt_two_pow hexponent
    omega
  obtain ⟨n, hn⟩ := Nat.exists_eq_succ_of_ne_zero hperiod
  rw [hn, generateMatchId]
  exact ⟨_, if_neg (by simp [hc])⟩

theorem createMatches_total (hc : ∀ id, c.containsMatch id = false) (composited : Bool)
    {order : List (PlayerId × PlayerId)} (horder : ∀ m ∈ order, t.containsPlayer m.1 = true) (e : Mt19937) :
    ∃ actions, createMatches t c composited order e = .ok actions := by
  induction order generalizing e with
  | nil => exact ⟨[], rfl⟩
  | cons m order ih =>
    obtain ⟨first, second⟩ := m
    obtain ⟨⟨matchId, e₁⟩, hid⟩ := generateMatchId_total hc e
    obtain ⟨player, hplayer⟩ := Option.isSome_iff_exists.1 (horder _ List.mem_cons_self)
    obtain ⟨actions, hrest⟩ := ih (fun m hm => horder m (List.mem_cons_of_mem _ hm)) e₁
    simp only [createMatches, createMatch, Effect.except_bind_ok, Effect.except_pure_ok]
    refine ⟨_, _, ⟨_, hid, player, ?_, rfl⟩, actions, hrest, rfl⟩
    simp only [TournamentStore.getPlayer, hplayer]

/-- The order that `initCategory` takes for the players is a round robin. -/
theorem exists_matchOrder {players : List PlayerId} (hnodup : players.Nodup) (hpos : 0 < players.length) :
    ∃ order, (if players.length % 2 = 0 then createMatchOrderForEvenNumber players
      else createMatchOrderForOddNumber players) = .ok order ∧ IsRoundRobin players order := by
  split
  · next heven =>
    exact ⟨_, createMatchOrderForEvenNumber_eq heven, isRoundRobin_evenRounds hnodup hpos heven⟩
  · next hodd =>
    have hodd' : players.length % 2 = 1 := by omega
    exact ⟨_, createMatchOrderForOddNumber_eq hodd', isRoundRobin_oddRounds hnodup hodd'⟩

/-- `initCategory` creates the matches of a round robin of the shuffled players. -/
theorem initCategory_eq {players : List PlayerId} (hnodup : players.Nodup) (hlength : 2 ≤ players.length)
    (t : TournamentStore) (c : CategoryStore) (d : PoolDrawSystem) (seed : ℕ) :
    ∃ order, (∀ p ∈ players, ∀ q ∈ players, p ≠ q → meetings order p q = 1) ∧
      (∀ m ∈ order, m.1 ∈ players ∧ m.2 ∈ players ∧ m.1 ≠ m.2) ∧
      d.initCategory t c players seed = do
        let actions ← createMatches t c d.composited order (Mt19937.init seed)
        return ({ d with
          players := (shuffle players (Mt19937.init seed)).1
          matchIds := actions.map (·.combinedId.matchId) }, actions) := by
  have hperm := perm_shuffle players (Mt19937.init seed)
  obtain ⟨order, horder, hround⟩ := exists_matchOrder (hperm.nodup_iff.2 hnodup)
    (by rw [hperm.length_eq]; omega)
  refine ⟨order, ?_, ?_, ?_⟩
  · intro p hp q hq hpq
    exact hround.once p (hperm.mem_iff.2 hp) q (hperm.mem_iff.2 hq) hpq
  · intro m hm
    exact ⟨hperm.mem_iff.1 (hround.mem m hm).1, hperm.mem_iff.1 (hround.mem m hm).2, hround.ne m hm⟩
  · rw [initCategory, if_neg (by omega)]
    by_cases heven : (shuffle players (Mt19937.init seed)).1.length % 2 = 0
    · rw [if_pos heven] at horder
      simp only [if_pos heven, horder]
      rfl
    · rw [if_neg heven] at horder
      simp only [if_neg heven, horder]
      rfl

/-- The orders for an even and for an odd number of players are round robins, and `initCategory` creates
exactly one match for every two players.  It returns if the players exist and the category has no
matches, as it is when a category is drawn. -/
theorem pool_isRoundRobin (players : List PlayerId) (hnodup : players.Nodup) (hlength : 2 ≤ players.length) :
    (players.length % 2 = 0 →
      ∃ order, createMatchOrderForEvenNumber players = .ok order ∧ IsRoundRobin players order) ∧
    (players.length % 2 = 1 →
      ∃ order, createMatchOrderForOddNumber players = .ok order ∧ IsRoundRobin players order) ∧
    ∀ (t : TournamentStore) (c : CategoryStore) (d : PoolDrawSystem) (seed : ℕ),
      (∀ d' actions, d.initCategory t c players seed = .ok (d', actions) →
        (∀ p ∈ players, ∀ q ∈ players, p ≠ q → actions.countP (isBetween p q) = 1) ∧
        ∀ a ∈ actions, ∃ p ∈ players, ∃ q ∈ players, p ≠ q ∧ isBetween p q a = true) ∧
      ((∀ p ∈ players, t.containsPlayer p = true) → (∀ id, c.containsMatch id = false) →
        ∃ d' actions, d.initCategory t c players seed = .ok (d', actions)) := by
  refine ⟨?_, ?_, ?_⟩
  · intro heven
    exact ⟨_, createMatchOrderForEvenNumber_eq heven, isRoundRobin_evenRounds hnodup (by omega) heven⟩
  · intro hodd
    exact ⟨_, createMatchOrderForOddNumber_eq hodd, isRoundRobin_oddRounds hnodup hodd⟩
  · intro t c d seed
    obtain ⟨order, honce, hmem, heq⟩ := initCategory_eq hnodup hlength t c d seed
    rw [heq]
    constructor
    · intro d' actions h
      obtain ⟨actions', hactions, h⟩ := Effect.except_bind_ok.1 h
      obtain ⟨-, rfl⟩ := Prod.mk.inj (Effect.except_pure_ok.1 h)
      constructor
      · intro p hp q hq hpq
        rw [countP_createMatches hactions, honce p hp q hq hpq]
      · intro a ha
        obtain ⟨m, hm, hbetween⟩ := exists_of_mem_createMatches hactions ha
        obtain ⟨h₁, h₂, hne⟩ := hmem m hm
        exact ⟨m.1, h₁, m.2, h₂, hne, hbetween⟩
    · intro hplayers hempty
      obtain ⟨actions, hactions⟩ := createMatches_total hempty d.composited
        (fun m hm => hplayers m.1 (hmem m hm).1) (Mt19937.init seed)
      exact ⟨_, actions, by rw [hactions]; rfl⟩

theorem pool_isRoundRobin_three : ∃ order, createMatchOrderForOddNumber [⟨1⟩, ⟨2⟩, ⟨3⟩] = .ok order ∧
    IsRoundRobin [⟨1⟩, ⟨2⟩, ⟨3⟩] order :=
  (pool_isRoundRobin [⟨1⟩, ⟨2⟩, ⟨3⟩] (by decide) (by decide)).2.1 (by decide)

end PoolDrawSystem

end JudoAssistant
