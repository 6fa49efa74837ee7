import Mathlib.Data.Sym.Card

/-!
# Round robins

A round robin of some players is an order of matches in which every two players meet exactly once.  It
is played in rounds in which no player plays twice.  It is enough to know that every round is a
matching, that no two players meet in two rounds, and that there are as many matches as there are pairs
of players.
-/

namespace RoundRobin

variable {α : Type}

/-- The players of a list of matches. -/
def playersOf (ms : List (α × α)) : List α := ms.flatMap fun m => [m.1, m.2]

/-- No player plays twice. -/
def Matching (ms : List (α × α)) : Prop := (playersOf ms).Nodup

/-- The two players of a match. -/
def pair (m : α × α) : Sym2 α := s(m.1, m.2)

@[simp] theorem playersOf_nil : playersOf ([] : List (α × α)) = [] := rfl

@[simp] theorem playersOf_cons (m : α × α) (ms : List (α × α)) :
    playersOf (m :: ms) = m.1 :: m.2 :: playersOf ms := rfl

theorem mem_playersOf {ms : List (α × α)} {m : α × α} (h : m ∈ ms) :
    m.1 ∈ playersOf ms ∧ m.2 ∈ playersOf ms :=
  ⟨List.mem_flatMap.2 ⟨m, h, by simp⟩, List.mem_flatMap.2 ⟨m, h, by simp⟩⟩

theorem Matching.ne {ms : List (α × α)} (h : Matching ms) {m : α × α} (hm : m ∈ ms) : m.1 ≠ m.2 := by
  induction ms with
  | nil => cases hm
  | cons m' ms ih =>
    unfold Matching at h ih
    rw [playersOf_cons, List.nodup_cons, List.nodup_cons] at h
    rcases List.mem_cons.1 hm with rfl | hm
    · intro heq
      exact h.1 (heq ▸ List.mem_cons_self)
    · exact ih h.2.2 hm

/-- No two matches of a matching are between the same players. -/
theorem Matching.nodup_pair {ms : List (α × α)} (h : Matching ms) : (ms.map pair).Nodup := by
  induction ms with
  | nil => exact List.nodup_nil
  | cons m ms ih =>
    unfold Matching at h ih
    rw [playersOf_cons, List.nodup_cons, List.nodup_cons] at h
    refine List.nodup_cons.2 ⟨?_, ih h.2.2⟩
    intro hm
    obtain ⟨m', hm', heq⟩ := List.mem_map.1 hm
    obtain ⟨hfst, hsnd⟩ := mem_playersOf hm'
    rcases Sym2.eq_iff.1 heq with ⟨h₁, -⟩ | ⟨-, h₂⟩
    · exact h.1 (List.mem_cons_of_mem _ (h₁ ▸ hfst))
    · exact h.1 (List.mem_cons_of_mem _ (h₂ ▸ hsnd))

theorem playersOf_map {β : Type} (f : α → β) (ms : List (α × α)) :
    playersOf (ms.map (Prod.map f f)) = (playersOf ms).map f := by
  induction ms with
  | nil => rfl
  | cons m ms ih => rw [List.map_cons, playersOf_cons, ih, playersOf_cons, List.map_cons, List.map_cons]; rfl

/-- The players of two lists that meet one by one. -/
theorem perm_playersOf_zip {l l' : List α} (h : l.length = l'.length) :
    (playersOf (l.zip l')).Perm (l ++ l') := by
  induction l generalizing l' with
  | nil =>
    obtain rfl := List.length_eq_zero_iff.1 h.symm
    exact .refl _
  | cons a l ih =>
    cases l' with
    | nil => cases h
    | cons b l' =>
      rw [List.zip_cons_cons, playersOf_cons, List.cons_append]
      refine .cons a ?_
      exact ((ih (Nat.succ.inj h)).cons b).trans List.perm_middle.symm

/-- The elements of a list, two at a time. -/
def pairUp : List α → List (α × α)
  | a :: b :: l => (a, b) :: pairUp l
  | _ => []

theorem playersOf_pairUp {l : List α} (h : l.length % 2 = 0) : playersOf (pairUp l) = l := by
  fun_induction pairUp l with
  | case1 a b l ih =>
    rw [List.length_cons, List.length_cons] at h
    rw [playersOf_cons, ih (by omega)]
  | case2 l hl =>
    match l with
    | [] => rfl
    | [a] => simp at h
    | a :: b :: l => exact absurd rfl (hl a b l)

theorem length_pairUp (l : List α) : (pairUp l).length = l.length / 2 := by
  fun_induction pairUp l with
  | case1 a b l ih =>
    simp only [List.length_cons, ih]
    omega
  | case2 l hl =>
    match l with
    | [] => simp
    | [a] => simp
    | a :: b :: l => exact absurd rfl (hl a b l)

/-- Two elements that are taken together agree where neighbours agree. -/
theorem apply_eq_of_mem_pairUp {β : Type} {f : α → β} {l : List α} {bs : List β}
    (h : l.map f = bs.flatMap fun b => [b, b]) {m : α × α} (hm : m ∈ pairUp l) : f m.1 = f m.2 := by
  induction bs generalizing l with
  | nil =>
    obtain rfl := List.map_eq_nil_iff.1 h
    cases hm
  | cons b bs ih =>
    match l with
    | [] => cases hm
    | [a] => cases hm
    | a :: a' :: l =>
      simp only [List.map_cons, List.flatMap_cons, List.cons_append, List.nil_append,
        List.cons.injEq] at h
      rcases List.mem_cons.1 hm with rfl | hm
      · exact h.1.trans h.2.1.symm
      · exact ih h.2.2 hm

/-- Two elements that are taken together have the value of their place. -/
theorem getElem?_of_pairUp {β : Type} {f : α → β} {l : List α} {bs : List β}
    (h : l.map f = bs.flatMap fun b => [b, b]) {i : ℕ} {m : α × α} (hm : (pairUp l)[i]? = some m) :
    bs[i]? = some (f m.1) ∧ bs[i]? = some (f m.2) := by
  induction bs generalizing l i with
  | nil =>
    obtain rfl := List.map_eq_nil_iff.1 h
    cases hm
  | cons b bs ih =>
    match l with
    | [] => cases hm
    | [a] => cases hm
    | a :: a' :: l =>
      simp only [List.map_cons, List.flatMap_cons, List.cons_append, List.nil_append,
        List.cons.injEq] at h
      cases i with
      | zero =>
        cases hm
        exact ⟨congrArg some h.1.symm, congrArg some h.2.1.symm⟩
      | succ i => exact ih h.2.2 hm

/-- The blocks of a list of rounds of one length are the rounds. -/
theorem take_drop_flatten {β : Type} {k : ℕ} {rounds : List (List β)} (h : ∀ r ∈ rounds, r.length = k)
    (i : ℕ) : (rounds.flatten.drop (i * k)).take k = rounds.getD i [] := by
  induction rounds generalizing i with
  | nil => simp
  | cons r rounds ih =>
    have hr : r.length = k := h r List.mem_cons_self
    cases i with
    | zero => simp [← hr]
    | succ i =>
      have hdrop : (i + 1) * k = r.length + i * k := by rw [hr, Nat.succ_mul, Nat.add_comm]
      rw [List.flatten_cons, hdrop, List.drop_length_add_append, List.getD_cons_succ]
      exact ih (fun r' hr' => h r' (List.mem_cons_of_mem _ hr')) i

/-- No two matches are between the same players if every round is a matching and no two players meet in
two rounds. -/
theorem nodup_pair_flatten {n : ℕ} {round : ℕ → List (α × α)} (hround : ∀ i < n, Matching (round i))
    (honce : ∀ i < n, ∀ j < n, ∀ m ∈ round i, ∀ m' ∈ round j, pair m = pair m' → i = j) :
    ((((List.range n).map round).flatten).map pair).Nodup := by
  rw [List.map_flatten, List.map_map, List.nodup_flatten]
  constructor
  · intro l hl
    obtain ⟨i, hi, rfl⟩ := List.mem_map.1 hl
    exact (hround i (List.mem_range.1 hi)).nodup_pair
  · rw [List.pairwise_map]
    refine List.Pairwise.imp_of_mem ?_ List.pairwise_lt_range
    intro i j hi hj hij e he he'
    obtain ⟨m, hm, rfl⟩ := List.mem_map.1 he
    obtain ⟨m', hm', heq⟩ := List.mem_map.1 he'
    exact hij.ne (honce i (List.mem_range.1 hi) j (List.mem_range.1 hj) m hm m' hm' heq.symm)

/-! ### Rest between matches -/

/-- A player plays in a match. -/
def Plays (p : α) (m : α × α) : Prop := p = m.1 ∨ p = m.2

/-- Between two matches of one player there are at least so many other matches. -/
def RestBetween (order : List (α × α)) (rest : ℕ) : Prop :=
  ∀ ⦃p : α⦄ ⦃a b : ℕ⦄ ⦃m m' : α × α⦄, a < b → order[a]? = some m → order[b]? = some m' →
    Plays p m → Plays p m' → a + rest < b

theorem Plays.mem_playersOf {p : α} {m : α × α} {ms : List (α × α)} (hp : Plays p m) (hm : m ∈ ms) :
    p ∈ playersOf ms := by
  obtain ⟨hfst, hsnd⟩ := RoundRobin.mem_playersOf hm
  rcases hp with rfl | rfl
  · exact hfst
  · exact hsnd

/-- The head of a matching and a match of the tail have no player in common. -/
theorem Matching.not_plays {m m' : α × α} {ms : List (α × α)} (h : Matching (m :: ms)) (hm' : m' ∈ ms) {p : α}
    (hp : Plays p m) : ¬Plays p m' := by
  intro hp'
  have hmem := hp'.mem_playersOf hm'
  unfold Matching at h
  rw [playersOf_cons, List.nodup_cons, List.nodup_cons] at h
  rcases hp with rfl | rfl
  · exact h.1 (List.mem_cons_of_mem _ hmem)
  · exact h.2.1 hmem

/-- A player has one match in a matching. -/
theorem Matching.index_eq {ms : List (α × α)} (h : Matching ms) {p : α} {i j : ℕ} {m m' : α × α}
    (hi : ms[i]? = some m) (hj : ms[j]? = some m') (hp : Plays p m) (hp' : Plays p m') : i = j := by
  induction ms generalizing i j with
  | nil => cases hi
  | cons m₁ ms ih =>
    cases i with
    | zero =>
      cases hi
      cases j with
      | zero => rfl
      | succ j => exact absurd hp' (h.not_plays (List.mem_of_getElem? hj) hp)
    | succ i =>
      cases j with
      | zero =>
        cases hj
        exact absurd hp (h.not_plays (List.mem_of_getElem? hi) hp')
      | succ j =>
        have htail : Matching ms := by
          unfold Matching at h ⊢
          rw [playersOf_cons] at h
          exact (List.nodup_cons.1 (List.nodup_cons.1 h).2).2
        exact congrArg (· + 1) (ih htail hi hj)

theorem getElem?_flatten {β : Type} {k : ℕ} {rounds : List (List β)} (h : ∀ r ∈ rounds, r.length = k)
    (hk : 0 < k) (a : ℕ) : rounds.flatten[a]? = (rounds.getD (a / k) [])[a % k]? := by
  rw [← take_drop_flatten h (a / k), List.getElem?_take_of_lt (Nat.mod_lt a hk), List.getElem?_drop,
    Nat.div_add_mod']

/-- It is enough that a player rests between neighbouring rounds: in rounds that are further apart he rests
a whole round. -/
theorem restBetween_flatten {n k rest : ℕ} {round : ℕ → List (α × α)}
    (hlength : ∀ i < n, (round i).length = k)
    (hk : 0 < k) (hrest : rest ≤ k) (hround : ∀ i < n, Matching (round i))
    (hadjacent : ∀ r, r + 1 < n → ∀ p i j m m', (round r)[i]? = some m → (round (r + 1))[j]? = some m' →
      Plays p m → Plays p m' → i + rest < k + j) :
    RestBetween ((List.range n).map round).flatten rest := by
  have hblocks : ∀ l ∈ (List.range n).map round, l.length = k := by
    intro l hl
    obtain ⟨i, hi, rfl⟩ := List.mem_map.1 hl
    exact hlength i (List.mem_range.1 hi)
  -- A match of the order is a match of a round.
  have hfind : ∀ {a : ℕ} {m : α × α}, ((List.range n).map round).flatten[a]? = some m →
      a / k < n ∧ (round (a / k))[a % k]? = some m := by
    intro a m ha
    rw [getElem?_flatten hblocks hk, List.getD_eq_getElem?_getD, List.getElem?_map] at ha
    by_cases hlt : a / k < n
    · rw [List.getElem?_range hlt] at ha
      exact ⟨hlt, ha⟩
    · have hnone : (List.range n)[a / k]? = none := List.getElem?_eq_none (by simpa using hlt)
      rw [hnone] at ha
      cases ha
  intro p a b m m' hab ha hb hp hp'
  obtain ⟨hr, ha⟩ := hfind ha
  obtain ⟨hr', hb⟩ := hfind hb
  have hia : a % k < k := Nat.mod_lt a hk
  have hia' := Nat.div_add_mod a k
  have hib' := Nat.div_add_mod b k
  have hle : a / k ≤ b / k := Nat.div_le_div_right hab.le
  obtain heq | hnext | hfar : b / k = a / k ∨ b / k = a / k + 1 ∨ a / k + 2 ≤ b / k := by omega
  · rw [heq] at hb hib'
    have hindex := (hround (a / k) hr).index_eq ha hb hp hp'
    omega
  · rw [hnext] at hb hib' hr'
    have hgap := hadjacent (a / k) hr' p _ _ m m' ha hb hp hp'
    rw [Nat.mul_succ] at hib'
    omega
  · have hmul : k * (a / k + 2) ≤ k * (b / k) := Nat.mul_le_mul_left k hfar
    rw [Nat.mul_add] at hmul
    omega

variable [DecidableEq α]

/-- The number of matches between two players. -/
def meetings (order : List (α × α)) (p q : α) : ℕ :=
  order.countP fun m => decide (m = (p, q) ∨ m = (q, p))

/-- Every two players meet exactly once, nobody meets himself, and every block of half as many matches as
there are players is a matching. -/
structure IsRoundRobin (players : List α) (order : List (α × α)) : Prop where
  once : ∀ p ∈ players, ∀ q ∈ players, p ≠ q → meetings order p q = 1
  mem : ∀ m ∈ order, m.1 ∈ players ∧ m.2 ∈ players
  ne : ∀ m ∈ order, m.1 ≠ m.2
  blocks : ∀ i, Matching ((order.drop (i * (players.length / 2))).take (players.length / 2))

theorem meetings_eq_count (order : List (α × α)) (p q : α) :
    meetings order p q = (order.map pair).count s(p, q) := by
  rw [List.count, List.countP_map]
  unfold meetings
  refine List.countP_congr fun m _ => ?_
  obtain ⟨x, y⟩ := m
  simp [pair]

/-- Distinct matches between distinct players that are as many as the pairs of players. -/
theorem meetings_eq_one {players : List α} {order : List (α × α)} (hplayers : players.Nodup)
    (hmem : ∀ m ∈ order, m.1 ∈ players ∧ m.2 ∈ players) (hne : ∀ m ∈ order, m.1 ≠ m.2)
    (hnodup : (order.map pair).Nodup) (hlength : order.length = players.length.choose 2) {p q : α}
    (hp : p ∈ players) (hq : q ∈ players) (hpq : p ≠ q) : meetings order p q = 1 := by
  have hsub : (order.map pair).toFinset ⊆ players.toFinset.offDiag.image Sym2.mk.uncurry := by
    intro e he
    obtain ⟨m, hm, rfl⟩ := List.mem_map.1 (List.mem_toFinset.1 he)
    refine Finset.mem_image.2 ⟨m, ?_, rfl⟩
    rw [Finset.mem_offDiag, List.mem_toFinset, List.mem_toFinset]
    exact ⟨(hmem m hm).1, (hmem m hm).2, hne m hm⟩
  have hcard : (players.toFinset.offDiag.image Sym2.mk.uncurry).card = (order.map pair).toFinset.card := by
    rw [Sym2.card_image_offDiag, List.toFinset_card_of_nodup hplayers, List.toFinset_card_of_nodup hnodup,
      List.length_map, hlength]
  have heq := Finset.eq_of_subset_of_card_le hsub hcard.le
  rw [meetings_eq_count]
  refine List.count_eq_one_of_mem hnodup ?_
  rw [← List.mem_toFinset, heq]
  refine Finset.mem_image.2 ⟨(p, q), ?_, rfl⟩
  simp [hp, hq, hpq]

/-- Rounds that are matchings of half as many matches as there are players make a round robin, if no two
players meet in two rounds and there are enough rounds. -/
theorem isRoundRobin_flatten {players : List α} {n : ℕ} {round : ℕ → List (α × α)}
    (hplayers : players.Nodup) (hlength : ∀ i < n, (round i).length = players.length / 2)
    (hround : ∀ i < n, Matching (round i))
    (hmem : ∀ i < n, ∀ m ∈ round i, m.1 ∈ players ∧ m.2 ∈ players)
    (honce : ∀ i < n, ∀ j < n, ∀ m ∈ round i, ∀ m' ∈ round j, pair m = pair m' → i = j)
    (hcount : n * (players.length / 2) = players.length.choose 2) :
    IsRoundRobin players ((List.range n).map round).flatten := by
  have hofMem : ∀ m ∈ ((List.range n).map round).flatten, ∃ i < n, m ∈ round i := by
    intro m hm
    obtain ⟨l, hl, hm⟩ := List.mem_flatten.1 hm
    obtain ⟨i, hi, rfl⟩ := List.mem_map.1 hl
    exact ⟨i, List.mem_range.1 hi, hm⟩
  have hmem' : ∀ m ∈ ((List.range n).map round).flatten, m.1 ∈ players ∧ m.2 ∈ players := by
    intro m hm
    obtain ⟨i, hi, hm⟩ := hofMem m hm
    exact hmem i hi m hm
  have hne : ∀ m ∈ ((List.range n).map round).flatten, m.1 ≠ m.2 := by
    intro m hm
    obtain ⟨i, hi, hm⟩ := hofMem m hm
    exact (hround i hi).ne hm
  have hblocks : ∀ r ∈ (List.range n).map round, r.length = players.length / 2 := by
    intro r hr
    obtain ⟨i, hi, rfl⟩ := List.mem_map.1 hr
    exact hlength i (List.mem_range.1 hi)
  have htotal : (((List.range n).map round).flatten).length = players.length.choose 2 := by
    have hall : ((List.range n).map round).map List.length = List.replicate n (players.length / 2) := by
      rw [List.eq_replicate_iff]
      refine ⟨by simp, ?_⟩
      intro l hl
      obtain ⟨r, hr, rfl⟩ := List.mem_map.1 hl
      exact hblocks r hr
    rw [← hcount, List.length_flatten, hall, List.sum_replicate, smul_eq_mul]
  refine ⟨?_, hmem', hne, ?_⟩
  · intro p hp q hq hpq
    exact meetings_eq_one hplayers hmem' hne (nodup_pair_flatten hround honce) htotal hp hq hpq
  · intro i
    rw [take_drop_flatten hblocks, List.getD_eq_getElem?_getD, List.getElem?_map]
    by_cases hi : i < n
    · simpa [hi] using hround i hi
    · simp [hi, Matching]

end RoundRobin
