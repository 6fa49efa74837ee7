import JudoAssistant.Tournament.PoolRounds

/-!
# Rest in the match orders of a pool

A player's place in a round drifts by one position at most from round to round.  So between two matches of
one player there are almost as many other matches as a round has.
-/

namespace JudoAssistant

namespace PoolDrawSystem

open RoundRobin

/-! ### An even number of players -/

/-- The players of a match are at the positions that its index tells. -/
theorem exists_of_getElem?_evenRound {ids : List PlayerId} {n r i : ℕ} (hn : ids.length = n + 1)
    {m : PlayerId × PlayerId} (hm : (evenRound (rotate^[r] ids))[i]? = some m) {p : PlayerId} (hp : Plays p m) :
    2 * i ≤ n ∧ ∃ x ≤ n, ids[x]? = some p ∧ (position n r x = i ∨ position n r x + i = n) := by
  have hlength : (rotate^[r] ids).length = n + 1 := by rw [(perm_rotations r ids).length_eq, hn]
  have hindex : i < (n + 1) / 2 := by
    have hlt := (List.getElem?_eq_some_iff.1 hm).1
    rwa [length_evenRound, hlength] at hlt
  rw [evenRound, hlength, List.getElem?_take_of_lt hindex] at hm
  obtain ⟨hfst, hsnd⟩ := List.getElem?_zip_eq_some.1 hm
  rw [List.getElem?_reverse (by omega), hlength] at hsnd
  refine ⟨by omega, ?_⟩
  rcases hp with rfl | rfl
  · obtain ⟨x, hx, hxi⟩ := @exists_position n r i (by omega)
    exact ⟨x, hx, by rw [← getElem?_position hn r hx, hxi, hfst], .inl hxi⟩
  · obtain ⟨x, hx, hxi⟩ := @exists_position n r (n - i) (by omega)
    refine ⟨x, hx, ?_, .inr (by omega)⟩
    rw [← getElem?_position hn r hx, hxi, ← hsnd]
    rfl

/-- After a round a player moves on by one position, from the last position back behind the first player. -/
theorem position_succ_round (n r x : ℕ) :
    position n (r + 1) x = position n r x ∨ position n (r + 1) x = position n r x + 1 ∨
      position n r x = n ∧ position n (r + 1) x = 1 := by
  cases x with
  | zero => exact .inl rfl
  | succ y =>
    have hstep : position n (r + 1) (y + 1) = ((y + r) % n + 1) % n + 1 := by
      rw [position, Nat.mod_add_mod, Nat.add_assoc]
    rw [hstep, position]
    rcases Nat.eq_zero_or_pos n with rfl | hpos
    · exact .inr (.inl (by simp))
    · have hlt := Nat.mod_lt (y + r) hpos
      rcases Nat.lt_or_ge ((y + r) % n + 1) n with hnext | hlast
      · rw [Nat.mod_eq_of_lt hnext]
        exact .inr (.inl rfl)
      · have heq : (y + r) % n + 1 = n := by omega
        rw [heq, Nat.mod_self]
        exact .inr (.inr ⟨rfl, rfl⟩)

theorem restBetween_evenRounds {players : List PlayerId} (hnodup : players.Nodup) (hlength : 3 ≤ players.length)
    (heven : players.length % 2 = 0) :
    RestBetween (evenRounds (players.length - 1) players) (players.length / 2 - 2) := by
  obtain ⟨n, hn⟩ : ∃ n, players.length = n + 1 := ⟨players.length - 1, by omega⟩
  rw [evenRounds_eq]
  refine restBetween_flatten (k := players.length / 2) ?_ (by omega) (by omega) ?_ ?_
  · intro r _
    rw [length_evenRound, (perm_rotations r players).length_eq]
  · intro r _
    have hround := perm_evenRound (by rw [(perm_rotations r players).length_eq, heven])
    exact (hround.trans (perm_rotations r players)).nodup_iff.2 hnodup
  · intro r _ p i j m m' hm hm' hp hp'
    obtain ⟨hi, x, hx, hxp, hxi⟩ := exists_of_getElem?_evenRound hn hm hp
    obtain ⟨hj, y, hy, hyp, hyj⟩ := exists_of_getElem?_evenRound hn hm' hp'
    obtain rfl : x = y := (List.getElem?_inj (by omega) hnodup).1 (hxp.trans hyp.symm)
    -- The index of a match is the smaller one of the distances to the two ends.
    have hdrift : i ≤ j + 1 := by
      rcases position_succ_round n r x with hmove | hmove | ⟨hlast, hmove⟩ <;> omega
    omega

/-! ### An odd number of players -/

/-- The players of a match are in the slot that its index tells. -/
theorem slotOf_of_getElem?_oddRound {k r i : ℕ} (hr : 1 ≤ r ∧ r ≤ 2 * k + 1) {players : List PlayerId}
    (hk : players.length = 2 * k + 1) {m : PlayerId × PlayerId} (hm : (oddRound players r)[i]? = some m)
    {p : PlayerId} (hp : Plays p m) : ∃ x ≤ 2 * k, p = playerAt players x ∧ slotOf k r x = i + 1 := by
  rw [oddRound_eq hk, List.getElem?_map, List.getElem?_map, Option.map_map] at hm
  obtain ⟨q, hq, rfl⟩ := Option.map_eq_some_iff.1 hm
  have hmem : q.1 ∈ (sortedSlots k r).tail ∧ q.2 ∈ (sortedSlots k r).tail := by
    have hplayers := mem_playersOf (List.mem_of_getElem? hq)
    rwa [playersOf_pairUp (by rw [length_tail_sortedSlots hr]; omega)] at hplayers
  obtain ⟨hle, hslot⟩ := mem_tail_sortedSlots hr hmem.1
  obtain ⟨hle', hslot'⟩ := mem_tail_sortedSlots hr hmem.2
  have hplace : ∀ {s : ℕ}, ((List.range k).map (· + 1))[i]? = some s → s = i + 1 := by
    intro s hs
    rw [List.getElem?_map] at hs
    obtain ⟨j, hj, rfl⟩ := Option.map_eq_some_iff.1 hs
    obtain ⟨hi, rfl⟩ := List.getElem?_eq_some_iff.1 hj
    rw [List.getElem_range]
  obtain ⟨hfst, hsnd⟩ := getElem?_of_pairUp (map_fst_tail_sortedSlots hr) hq
  rcases hp with rfl | rfl
  · exact ⟨q.1.2, hle, rfl, hslot.trans (hplace hfst)⟩
  · exact ⟨q.2.2, hle', rfl, hslot'.trans (hplace hsnd)⟩

/-- From a round to the next one a player's slot does not go back, unless he is in the first slot, in which
nobody plays. -/
theorem slotOf_le_succ_round {k r x : ℕ} (hr : 1 ≤ r ∧ r + 1 ≤ 2 * k + 1) (hx : x ≤ 2 * k)
    (hnext : 1 ≤ slotOf k (r + 1) x) : slotOf k r x ≤ slotOf k (r + 1) x := by
  rcases index_cases hx with rfl | ⟨a, ha, rfl⟩ | ⟨a, ha, rfl⟩
  · rw [slotOf_last, slotOf_last]
    omega
  · rw [slotOf_two_mul ha] at hnext ⊢
    rw [slotOf_two_mul ha]
    unfold wrap at hnext ⊢
    split_ifs at hnext ⊢ <;> omega
  · rw [slotOf_two_mul_add_one ha] at hnext ⊢
    rw [slotOf_two_mul_add_one ha]
    unfold wrap at hnext ⊢
    split_ifs at hnext ⊢ <;> omega

theorem restBetween_oddRounds {players : List PlayerId} (hnodup : players.Nodup) (hlength : 3 ≤ players.length)
    (hodd : players.length % 2 = 1) :
    RestBetween ((List.range players.length).map fun i => oddRound players (i + 1)).flatten
      (players.length / 2 - 1) := by
  obtain ⟨k, hk⟩ : ∃ k, players.length = 2 * k + 1 := ⟨players.length / 2, by omega⟩
  have hround : ∀ i < players.length, 1 ≤ i + 1 ∧ i + 1 ≤ 2 * k + 1 := fun i hi => ⟨by omega, by omega⟩
  refine restBetween_flatten (k := players.length / 2) ?_ (by omega) (by omega) ?_ ?_
  · intro i hi
    exact length_oddRound (hround i hi) hk
  · intro i hi
    exact matching_oddRound (hround i hi) hk hnodup
  · intro r hr p i j m m' hm hm' hp hp'
    obtain ⟨x, hx, hxp, hxi⟩ := slotOf_of_getElem?_oddRound (hround r (by omega)) hk hm hp
    obtain ⟨y, hy, hyp, hyj⟩ := slotOf_of_getElem?_oddRound (hround (r + 1) hr) hk hm' hp'
    obtain rfl : x = y := playerAt_inj hnodup (by omega) (by omega) (hxp.symm.trans hyp)
    have hdrift : slotOf k (r + 1) x ≤ slotOf k (r + 1 + 1) x :=
      slotOf_le_succ_round ⟨by omega, by omega⟩ hx (by omega)
    omega

/-! ### The returned orders -/

/-- Between two matches of a player there are at least `n / 2 - 2` other matches in the order for an even
number `n` of players, and at least `n / 2 - 1` in that for an odd number. -/
theorem pool_restBetween (players : List PlayerId) (hnodup : players.Nodup) (hlength : 3 ≤ players.length) :
    (players.length % 2 = 0 → ∃ order, createMatchOrderForEvenNumber players = .ok order ∧
      RestBetween order (players.length / 2 - 2)) ∧
    (players.length % 2 = 1 → ∃ order, createMatchOrderForOddNumber players = .ok order ∧
      RestBetween order (players.length / 2 - 1)) := by
  constructor
  · intro heven
    exact ⟨_, createMatchOrderForEvenNumber_eq heven, restBetween_evenRounds hnodup hlength heven⟩
  · intro hodd
    exact ⟨_, createMatchOrderForOddNumber_eq hodd, restBetween_oddRounds hnodup hlength hodd⟩

theorem pool_restBetween_five : ∃ order,
    createMatchOrderForOddNumber [⟨1⟩, ⟨2⟩, ⟨3⟩, ⟨4⟩, ⟨5⟩] = .ok order ∧
    RestBetween order 1 :=
  (pool_restBetween [⟨1⟩, ⟨2⟩, ⟨3⟩, ⟨4⟩, ⟨5⟩] (by decide) (by decide)).2 (by decide)

end PoolDrawSystem

end JudoAssistant
