import Mathlib.Logic.Function.Basic
import JudoAssistant.Lib.NodeIndex

/-!
# Bounded logs of keys

The keys of a log that forgets its front when it grows too long, and the keys that a map beside the
log still names.  A key may occur several times; the map then names at most the last occurrence, and
it forgets a key when any occurrence leaves the log.
-/

namespace Undoable

variable {κ : Type} [DecidableEq κ]

/-- Remove the last occurrence of a key. -/
def eraseLast (k : κ) : List κ → List κ
  | [] => []
  | a :: l => if k ∈ l then a :: eraseLast k l else if a = k then l else a :: l

theorem eraseLast_append_cons (l : List κ) {k : κ} {l' : List κ} (h : k ∉ l') :
    eraseLast k (l ++ k :: l') = l ++ l' := by
  induction l with
  | nil => simp [eraseLast, h]
  | cons a l ih => simp [eraseLast, ih]

theorem eraseLast_sublist (k : κ) (l : List κ) : (eraseLast k l).Sublist l := by
  induction l with
  | nil => exact .refl _
  | cons a l ih =>
    unfold eraseLast
    split
    · exact ih.cons_cons a
    · split
      · exact List.sublist_cons_self a l
      · exact .refl _

/-- The keys of a log, in order, and the ones that a map names. -/
structure Roll (κ : Type) where
  ids : List κ
  mapped : κ → Bool

namespace Roll

/-- A log whose keys are all named. -/
def ofList (l : List κ) : Roll κ := ⟨l, fun k => decide (k ∈ l)⟩

/-- Forget the front if there are more than `bound` keys. -/
def trim (bound : ℕ) (r : Roll κ) : Roll κ :=
  if r.ids.length > bound then
    match r.ids with
    | [] => r
    | k :: l => ⟨l, Function.update r.mapped k false⟩
  else r

/-- Append a key. -/
def push (bound : ℕ) (r : Roll κ) (k : κ) : Roll κ :=
  trim bound ⟨r.ids ++ [k], Function.update r.mapped k true⟩

/-- Remove the last occurrence of a key. -/
def erase (r : Roll κ) (k : κ) : Roll κ := ⟨eraseLast k r.ids, Function.update r.mapped k false⟩

/-- The same log, with a map that names at least as much. -/
def Covers (r s : Roll κ) : Prop := r.ids = s.ids ∧ ∀ k, s.mapped k = true → r.mapped k = true

variable {r s : Roll κ}

theorem mapped_update {m m' : κ → Bool} (h : ∀ k, m' k = true → m k = true) (k : κ) (b : Bool) :
    ∀ k', Function.update m' k b k' = true → Function.update m k b k' = true := by
  intro k'
  by_cases hk : k' = k
  · subst hk
    simp
  · simpa [hk] using h k'

theorem Covers.push (h : r.Covers s) (bound : ℕ) (k : κ) :
    (r.push bound k).Covers (s.push bound k) := by
  obtain ⟨hids, hmap⟩ := h
  have hmap := mapped_update hmap k true
  unfold Roll.push trim
  simp only [hids]
  split
  · split
    · rename_i hl
      simp at hl
    · exact ⟨rfl, mapped_update hmap _ false⟩
  · exact ⟨rfl, hmap⟩

theorem Covers.erase (h : r.Covers s) (k : κ) : (r.erase k).Covers (s.erase k) :=
  ⟨by rw [Roll.erase, Roll.erase, h.1], mapped_update h.2 k false⟩

/-- A push adds at most its own key. -/
theorem ids_push_sublist (bound : ℕ) (r : Roll κ) (k : κ) :
    (r.push bound k).ids.Sublist (r.ids ++ [k]) := by
  unfold push trim
  split
  · split
    · exact .refl _
    · rename_i a l hl
      rw [show r.ids ++ [k] = a :: l from hl]
      exact List.sublist_cons_self a l
  · exact .refl _

end Roll

/-! ## Tables as rolls -/

variable {T : Type} {K : Ops T}

theorem splitLast_keys {k : κ} {l below above : List (Entry κ K)} {e : Entry κ K}
    (h : splitLast k l = some (below, e, above)) :
    eraseLast k (keys l) = keys below ++ keys above := by
  have hk : k ∉ keys above := by
    induction l generalizing below with
    | nil => simp [splitLast] at h
    | cons d l ih =>
      simp only [splitLast] at h
      split at h
      · rename_i below' e' above' hs
        cases h
        exact ih hs
      · rename_i hs
        split at h
        · cases h
          exact splitLast_eq_none.1 hs
        · cases h
  obtain ⟨rfl, rfl⟩ := splitLast_eq_some h
  simp [eraseLast_append_cons _ hk]

theorem isSome_index (l : List (Entry κ K)) (k : κ) : (index l k).isSome = decide (k ∈ keys l) := by
  have key : ∀ (l : List (Entry κ K)) (m : κ → Option ℕ),
      (l.foldl (fun (m : κ → Option ℕ) e => Function.update m e.key (some e.node)) m k).isSome =
        (decide (k ∈ keys l) || (m k).isSome) := by
    intro l
    induction l with
    | nil => simp
    | cons e l ih =>
      intro m
      rw [List.foldl_cons, ih]
      by_cases hk : k = e.key
      · simp [hk]
      · simp [hk]
  simpa [index] using key l fun _ => none

namespace Table

/-- The keys of a table and the ones its map names. -/
def roll (t : Table κ K) : Roll κ := ⟨keys t.entries, fun k => (t.map k).isSome⟩

theorem isSome_update (m : κ → Option ℕ) (k : κ) (v : Option ℕ) :
    (fun k' => (Function.update m k v k').isSome) =
      Function.update (fun k' => (m k').isSome) k v.isSome := by
  funext k'
  by_cases hk : k' = k
  · subst hk
    simp
  · simp [hk]

/-- Nodes grow along the entries, and the map names the last entry of a key. -/
structure LastIndexed (t : Table κ K) : Prop where
  sorted : (nodes t.entries).Pairwise (· < ·)
  nodes_lt : ∀ n ∈ nodes t.entries, n < t.next
  last : ∀ k n, t.map k = some n → ∃ e ∈ t.entries, e.key = k ∧ e.node = n ∧
    ∀ e' ∈ t.entries, e'.key = k → e'.node ≤ n

variable {t : Table κ K}

omit [DecidableEq κ] in
theorem lastIndexed_empty : (empty : Table κ K).LastIndexed := by
  refine ⟨List.Pairwise.nil, ?_, ?_⟩ <;> simp [empty]

omit [DecidableEq κ] in
theorem lastIndexed_clear (t : Table κ K) : t.clear.LastIndexed := by
  refine ⟨List.Pairwise.nil, ?_, ?_⟩ <;> simp [clear]

omit [DecidableEq κ] in
theorem LastIndexed.mem_keys (h : t.LastIndexed) {k : κ} (hk : t.contains k = true) :
    k ∈ keys t.entries := by
  obtain ⟨n, hn⟩ := Option.isSome_iff_exists.1 hk
  obtain ⟨e, he, rfl, -⟩ := h.last k n hn
  exact List.mem_map_of_mem he

theorem LastIndexed.push (h : t.LastIndexed) (k : κ) (o : Obj K) : (t.push k o).LastIndexed where
  sorted := by
    simp only [Table.push, nodes_append, nodes_cons, nodes_nil]
    refine List.pairwise_append.2 ⟨h.sorted, List.pairwise_singleton _ _, ?_⟩
    intro a ha b hb
    rw [List.mem_singleton.1 hb]
    exact h.nodes_lt a ha
  nodes_lt := by
    simp only [Table.push, nodes_append, nodes_cons, nodes_nil]
    intro n hn
    rcases List.mem_append.1 hn with hn | hn
    · exact Nat.lt_succ_of_lt (h.nodes_lt n hn)
    · rw [List.mem_singleton.1 hn]
      exact Nat.lt_succ_self _
  last := by
    intro k' n hn
    by_cases hk : k' = k
    · subst hk
      obtain rfl : t.next = n := by simpa [Table.push] using hn
      refine ⟨⟨t.next, k', o⟩, by simp [Table.push], rfl, rfl, fun e' he' _ => ?_⟩
      rcases List.mem_append.1 he' with he' | he'
      · exact (h.nodes_lt e'.node (List.mem_map_of_mem he')).le
      · rw [List.mem_singleton.1 he']
    · obtain ⟨e, he, hek, hen, hmax⟩ := h.last k' n (by simpa [Table.push, hk] using hn)
      refine ⟨e, List.mem_append_left _ he, hek, hen, fun e' he' hk' => ?_⟩
      rcases List.mem_append.1 he' with he' | he'
      · exact hmax e' he' hk'
      · rw [List.mem_singleton.1 he'] at hk'
        exact absurd hk'.symm hk

/-- Entries leave, among them one with the key that the map forgets. -/
theorem LastIndexed.forget (h : t.LastIndexed) {l : List (Entry κ K)} (hl : l.Sublist t.entries)
    {k : κ} (hk : ∀ e ∈ t.entries, e.key ≠ k → e ∈ l) :
    (⟨l, Function.update t.map k none, t.next⟩ : Table κ K).LastIndexed where
  sorted := h.sorted.sublist (hl.map _)
  nodes_lt := fun n hn => h.nodes_lt n ((hl.map Entry.node).subset hn)
  last := by
    intro k' n hn
    have hne : k' ≠ k := by
      rintro rfl
      simp at hn
    obtain ⟨e, he, hek, hen, hmax⟩ := h.last k' n (by simpa [hne] using hn)
    exact ⟨e, hk e he (hek ▸ hne), hek, hen, fun e' he' => hmax e' (hl.subset he')⟩

theorem LastIndexed.popFront (h : t.LastIndexed) : t.popFront.LastIndexed := by
  unfold Table.popFront
  split
  · exact h
  · rename_i e l hl
    refine h.forget (hl ▸ List.sublist_cons_self e l) fun e' he' hk => ?_
    rw [hl] at he'
    exact (List.mem_cons.1 he').resolve_left fun he => hk (by rw [he])

/-- Unlinking the entry that the map names. -/
theorem LastIndexed.erase_eq (h : t.LastIndexed) {k : κ} (hk : t.contains k = true) :
    ∃ l e l', t.entries = l ++ e :: l' ∧ e.key = k ∧ k ∉ keys l' ∧
      t.erase k = ⟨l ++ l', Function.update t.map k none, t.next⟩ := by
  obtain ⟨n, hn⟩ := Option.isSome_iff_exists.1 hk
  obtain ⟨e, he, rfl, rfl, hmax⟩ := h.last k n hn
  obtain ⟨l, l', hl⟩ := List.append_of_mem he
  have hs := h.sorted
  rw [hl] at hs
  have hs' := hs
  simp only [nodes_append, nodes_cons, List.pairwise_append, List.pairwise_cons] at hs'
  refine ⟨l, e, l', hl, rfl, fun hk' => ?_, ?_⟩
  · obtain ⟨e', he', hk'⟩ := List.mem_map.1 hk'
    have hle := hmax e' (by simp [hl, he']) hk'
    have hlt := hs'.2.1.1 e'.node (List.mem_map_of_mem he')
    omega
  · have hn' : (nodes (l ++ e :: l')).Nodup := hs.imp fun h => Nat.ne_of_lt h
    simp only [Table.erase, hn, hl, eraseNode_append hn']

theorem LastIndexed.erase (h : t.LastIndexed) (k : κ) : (t.erase k).LastIndexed := by
  cases hk : t.contains k with
  | false =>
    have : t.map k = none := by simpa [contains] using hk
    rwa [Table.erase, this]
  | true =>
    obtain ⟨l, e, l', hl, rfl, -, he⟩ := h.erase_eq hk
    rw [he]
    refine h.forget (hl ▸ (List.sublist_cons_self e l').append_left l) fun e' he' hk' => ?_
    rw [hl] at he'
    simp only [List.mem_append, List.mem_cons] at he' ⊢
    rcases he' with he' | rfl | he'
    · exact .inl he'
    · exact absurd rfl hk'
    · exact .inr he'

theorem LastIndexed.roll_erase (h : t.LastIndexed) {k : κ} (hk : t.contains k = true) :
    (t.erase k).roll = t.roll.erase k := by
  obtain ⟨l, e, l', hl, rfl, hk', he⟩ := h.erase_eq hk
  rw [he, roll, roll, Roll.erase, isSome_update, hl]
  simp only [keys_append, keys_cons, eraseLast_append_cons _ hk', Option.isSome_none]

/-- Append an entry and drop the front if there are more than `bound` entries. -/
theorem roll_push (t : Table κ K) (k : κ) (o : Obj K) (bound : ℕ) :
    (if (t.push k o).entries.length > bound then (t.push k o).popFront else t.push k o).roll =
      t.roll.push bound k := by
  have hroll : (t.push k o).roll = ⟨t.roll.ids ++ [k], Function.update t.roll.mapped k true⟩ := by
    rw [roll, push, isSome_update]
    simp [roll]
  rw [Roll.push, ← hroll]
  generalize t.push k o = t'
  have hlen : t'.roll.ids.length = t'.entries.length := by simp [roll, keys]
  unfold Roll.trim popFront
  rw [hlen]
  split
  · cases hl : t'.entries with
    | nil => simp [roll, hl]
    | cons e l => simp [roll, hl, isSome_update]
  · rfl

end Table

end Undoable
