import JudoAssistant.Lib.UndoLog

/-!
# Logs with an index from keys to nodes

A log kept in a linked list together with a map from keys to list nodes.  `Indexed m l` says that
the map `m` names exactly the entries of `l`.  The lemmas follow the ways in which such a pair is
updated: an entry is appended, an entry is unlinked, the map is rebuilt from the list.  `Table` packs
the list, its map and the number of the next node.
-/

namespace Undoable

variable {T κ : Type} {K : Ops T}

/-- The map names exactly the entries of the log. -/
def Indexed (m : κ → Option ℕ) (l : List (Entry κ K)) : Prop :=
  ∀ k n, m k = some n ↔ ∃ e ∈ l, e.key = k ∧ e.node = n

/-- Unlink the entry held by a node. -/
def eraseNode (n : ℕ) (l : List (Entry κ K)) : List (Entry κ K) := l.eraseP fun e => e.node == n

/-- A log whose nodes are numbered from `n` on. -/
def number : ℕ → List (κ × Obj K) → List (Entry κ K)
  | _, [] => []
  | n, (k, o) :: l => ⟨n, k, o⟩ :: number (n + 1) l

theorem indexed_nil : Indexed (fun _ => none) ([] : List (Entry κ K)) := by
  simp [Indexed]

theorem Indexed.of_sigs {m : κ → Option ℕ} {l l' : List (Entry κ K)} (h : Indexed m l)
    (hs : sigs l' = sigs l) : Indexed m l' := by
  have key : ∀ (l : List (Entry κ K)) k n,
      (∃ e ∈ l, e.key = k ∧ e.node = n) ↔ ∃ p, (n, k, p) ∈ sigs l := by
    intro l k n
    simp only [sigs, List.mem_map, Entry.sig, Prod.mk.injEq]
    constructor
    · rintro ⟨e, he, rfl, rfl⟩
      exact ⟨e.obj.param, e, he, rfl, rfl, rfl⟩
    · rintro ⟨p, e, he, rfl, rfl, -⟩
      exact ⟨e, he, rfl, rfl⟩
  intro k n
  rw [h k n, key, key, hs]

theorem Indexed.isSome_iff {m : κ → Option ℕ} {l : List (Entry κ K)} (h : Indexed m l) (k : κ) :
    (m k).isSome = true ↔ k ∈ keys l := by
  rw [Option.isSome_iff_exists, mem_keys]
  constructor
  · rintro ⟨n, hn⟩
    obtain ⟨e, he, hk, -⟩ := (h k n).1 hn
    exact ⟨e, he, hk⟩
  · rintro ⟨e, he, hk⟩
    exact ⟨e.node, (h k e.node).2 ⟨e, he, hk, rfl⟩⟩

theorem Indexed.eq_none {m : κ → Option ℕ} {l : List (Entry κ K)} (h : Indexed m l) {k : κ}
    (hk : k ∉ keys l) : m k = none := by
  rw [← Option.not_isSome_iff_eq_none, h.isSome_iff]
  exact hk

theorem eraseNode_append {l l' : List (Entry κ K)} {e : Entry κ K}
    (hn : (nodes (l ++ e :: l')).Nodup) : eraseNode e.node (l ++ e :: l') = l ++ l' := by
  have hl : ∀ e' ∈ l, ¬ (e'.node == e.node) = true := by
    simp only [nodes_append, nodes_cons, List.nodup_append] at hn
    intro e' he' h
    exact hn.2.2 e'.node (List.mem_map_of_mem he') e.node (by simp) (by simpa using h)
  rw [eraseNode, List.eraseP_append_right _ hl, List.eraseP_cons_of_pos (by simp)]

theorem keys_number (n : ℕ) (l : List (κ × Obj K)) : keys (number n l) = l.map Prod.fst := by
  induction l generalizing n with
  | nil => rfl
  | cons a l ih => simp [number, ih]

theorem nodes_number (n : ℕ) (l : List (κ × Obj K)) :
    nodes (number n l) = List.range' n l.length := by
  induction l generalizing n with
  | nil => rfl
  | cons a l ih => simp [number, ih, List.range'_succ]

theorem number_append (n : ℕ) (l l' : List (κ × Obj K)) :
    number n (l ++ l') = number n l ++ number (n + l.length) l' := by
  induction l generalizing n with
  | nil => simp [number]
  | cons a l ih => simp [number, ih, Nat.add_assoc, Nat.add_comm 1]

variable [DecidableEq κ]

theorem Indexed.push {m : κ → Option ℕ} {l : List (Entry κ K)} (h : Indexed m l) (e : Entry κ K)
    (hk : e.key ∉ keys l) : Indexed (Function.update m e.key (some e.node)) (l ++ [e]) := by
  intro k n
  by_cases hke : k = e.key
  · subst hke
    simp only [Function.update_self, Option.some.injEq, List.mem_append, List.mem_singleton]
    constructor
    · rintro rfl
      exact ⟨e, .inr rfl, rfl, rfl⟩
    · rintro ⟨e', he' | rfl, hk', rfl⟩
      · exact absurd (mem_keys.2 ⟨e', he', hk'⟩) hk
      · rfl
  · rw [Function.update_of_ne hke, h k n]
    constructor
    · rintro ⟨e', he', hk', hn⟩
      exact ⟨e', by simp [he'], hk', hn⟩
    · rintro ⟨e', he', hk', hn⟩
      rcases List.mem_append.1 he' with he' | he'
      · exact ⟨e', he', hk', hn⟩
      · obtain rfl := List.mem_singleton.1 he'
        exact absurd hk'.symm hke

theorem Indexed.unlink {m : κ → Option ℕ} {l l' : List (Entry κ K)} {e : Entry κ K}
    (h : Indexed m (l ++ e :: l')) (hn : (keys (l ++ e :: l')).Nodup) :
    Indexed (Function.update m e.key none) (l ++ l') := by
  have hl : ∀ e' ∈ l ++ l', e'.key ≠ e.key := by
    simp only [keys_append, keys_cons, List.nodup_append, List.nodup_cons] at hn
    intro e' he' hk
    rcases List.mem_append.1 he' with he' | he'
    · exact hn.2.2 e'.key (List.mem_map_of_mem he') e.key (by simp) hk
    · exact hn.2.1.1 (hk ▸ List.mem_map_of_mem he')
  intro k n
  by_cases hke : k = e.key
  · subst hke
    simp only [Function.update_self, reduceCtorEq, false_iff, not_exists, not_and]
    exact fun e' he' hk => absurd hk (hl e' he')
  · rw [Function.update_of_ne hke, h k n]
    constructor
    · rintro ⟨e', he', hk', hn'⟩
      rcases List.mem_append.1 he' with he' | he'
      · exact ⟨e', by simp [he'], hk', hn'⟩
      · rcases List.mem_cons.1 he' with rfl | he'
        · exact absurd hk'.symm hke
        · exact ⟨e', by simp [he'], hk', hn'⟩
    · rintro ⟨e', he', hk', hn'⟩
      rcases List.mem_append.1 he' with he' | he'
      · exact ⟨e', by simp [he'], hk', hn'⟩
      · exact ⟨e', by simp [he'], hk', hn'⟩

theorem Indexed.unlink_head {m : κ → Option ℕ} {l : List (Entry κ K)} {e : Entry κ K}
    (h : Indexed m (e :: l)) (hn : (keys (e :: l)).Nodup) :
    Indexed (Function.update m e.key none) l :=
  Indexed.unlink (l := []) h hn

/-- The map rebuilt from the log. -/
def index (l : List (Entry κ K)) : κ → Option ℕ :=
  l.foldl (fun m e => Function.update m e.key (some e.node)) fun _ => none

theorem indexed_index {l : List (Entry κ K)} (hn : (keys l).Nodup) : Indexed (index l) l := by
  have key : ∀ (l' l : List (Entry κ K)) (m : κ → Option ℕ), (keys (l ++ l')).Nodup →
      Indexed m l →
      Indexed (l'.foldl (fun m e => Function.update m e.key (some e.node)) m) (l ++ l') := by
    intro l'
    induction l' with
    | nil => intro l m _ h; simpa using h
    | cons e l' ih =>
      intro l m hn h
      have he : e.key ∉ keys l := by
        simp only [keys_append, keys_cons, List.nodup_append] at hn
        exact fun hk => hn.2.2 e.key hk e.key (by simp) rfl
      rw [List.append_cons] at hn ⊢
      exact ih _ _ hn (h.push e he)
  simpa [index] using key l [] (fun _ => none) (by simpa using hn) indexed_nil

/-! ## Tables -/

/-- A log with its map and the number of the next node. -/
structure Table (κ : Type) (K : Ops T) where
  entries : List (Entry κ K)
  map : κ → Option ℕ
  next : ℕ

namespace Table

/-- The table without entries. -/
def empty : Table κ K := ⟨[], fun _ => none, 0⟩

/-- Append an entry. -/
def push (t : Table κ K) (k : κ) (o : Obj K) : Table κ K :=
  ⟨t.entries ++ [⟨t.next, k, o⟩], Function.update t.map k (some t.next), t.next + 1⟩

/-- Unlink the entry that the map names. -/
def erase (t : Table κ K) (k : κ) : Table κ K :=
  match t.map k with
  | some n => ⟨eraseNode n t.entries, Function.update t.map k none, t.next⟩
  | none => t

/-- Unlink the first entry. -/
def popFront (t : Table κ K) : Table κ K :=
  match t.entries with
  | [] => t
  | e :: l => ⟨l, Function.update t.map e.key none, t.next⟩

/-- Drop all entries. -/
def clear (t : Table κ K) : Table κ K := ⟨[], fun _ => none, t.next⟩

/-- Append one entry per key and object. -/
def pushAll (t : Table κ K) (l : List (κ × Obj K)) : Table κ K :=
  l.foldl (fun t a => t.push a.1 a.2) t

/-- Does the map name an entry? -/
def contains (t : Table κ K) (k : κ) : Bool := (t.map k).isSome

/-- Keys are unique and the map names exactly the entries. -/
structure WF (t : Table κ K) : Prop where
  indexed : Indexed t.map t.entries
  nodup : (keys t.entries).Nodup
  nodes_nodup : (nodes t.entries).Nodup
  nodes_lt : ∀ n ∈ nodes t.entries, n < t.next

variable {t : Table κ K}

omit [DecidableEq κ] in
theorem wf_empty : (empty : Table κ K).WF where
  indexed := indexed_nil
  nodup := List.nodup_nil
  nodes_nodup := List.nodup_nil
  nodes_lt := by simp [empty]

omit [DecidableEq κ] in
theorem wf_clear (t : Table κ K) : t.clear.WF where
  indexed := indexed_nil
  nodup := List.nodup_nil
  nodes_nodup := List.nodup_nil
  nodes_lt := by simp [clear]

omit [DecidableEq κ] in
theorem WF.contains_iff (h : t.WF) (k : κ) : t.contains k = true ↔ k ∈ keys t.entries :=
  h.indexed.isSome_iff k

theorem WF.push (h : t.WF) {k : κ} (hk : k ∉ keys t.entries) (o : Obj K) : (t.push k o).WF where
  indexed := h.indexed.push ⟨t.next, k, o⟩ hk
  nodup := by
    simp only [Table.push, keys_append, keys_cons, keys_nil]
    exact List.nodup_append.2 ⟨h.nodup, List.nodup_singleton _, by
      rintro a ha b hb rfl
      exact hk (List.mem_singleton.1 hb ▸ ha)⟩
  nodes_nodup := by
    simp only [Table.push, nodes_append, nodes_cons, nodes_nil]
    exact List.nodup_append.2 ⟨h.nodes_nodup, List.nodup_singleton _, by
      rintro a ha b hb rfl
      exact lt_irrefl t.next (h.nodes_lt _ (List.mem_singleton.1 hb ▸ ha))⟩
  nodes_lt := by
    intro n hn
    simp only [Table.push, nodes_append, nodes_cons, nodes_nil, List.mem_append,
      List.mem_singleton] at hn
    rcases hn with hn | rfl
    · exact Nat.lt_succ_of_lt (h.nodes_lt n hn)
    · exact Nat.lt_succ_self _

@[simp] theorem items_push (t : Table κ K) (k : κ) (o : Obj K) :
    items (t.push k o).entries = items t.entries ++ [(k, o.param)] := by
  simp [push]

theorem contains_push (t : Table κ K) (k : κ) (o : Obj K) (k' : κ) :
    (t.push k o).contains k' = (decide (k' = k) || t.contains k') := by
  by_cases h : k' = k <;> simp [contains, push, h]

theorem contains_erase_of_ne (t : Table κ K) {k k' : κ} (h : k' ≠ k) :
    (t.erase k).contains k' = t.contains k' := by
  unfold erase
  split <;> simp [contains, Function.update_of_ne h]

theorem erase_sublist (t : Table κ K) (k : κ) : (t.erase k).entries.Sublist t.entries := by
  unfold erase
  split
  · exact List.eraseP_sublist
  · exact .refl _

/-- Unlinking an entry, in terms of the list. -/
theorem WF.unlink (h : t.WF) {l l' : List (Entry κ K)} {e : Entry κ K}
    (ht : t.entries = l ++ e :: l') :
    (⟨l ++ l', Function.update t.map e.key none, t.next⟩ : Table κ K).WF := by
  obtain ⟨hi, hk, hn, hlt⟩ := h
  rw [ht] at hi hk hn hlt
  have hsub : (l ++ l').Sublist (l ++ e :: l') := (List.sublist_cons_self e l').append_left l
  exact ⟨hi.unlink hk, (hsub.map _).nodup hk, (hsub.map _).nodup hn,
    fun n hn' => hlt n ((hsub.map _).subset hn')⟩

theorem WF.popFront (h : t.WF) : t.popFront.WF := by
  unfold Table.popFront
  split
  · exact h
  · rename_i e l hl
    exact h.unlink (l := []) hl

/-- A table that names a key unlinks the one entry under it. -/
theorem WF.erase_of_mem (h : t.WF) {k : κ} (hk : k ∈ keys t.entries) :
    ∃ l e l', t.entries = l ++ e :: l' ∧ e.key = k ∧
      t.erase k = ⟨l ++ l', Function.update t.map k none, t.next⟩ := by
  obtain ⟨e, he, rfl⟩ := mem_keys.1 hk
  obtain ⟨l, l', hl⟩ := List.append_of_mem he
  have hmap : t.map e.key = some e.node := (h.indexed _ _).2 ⟨e, he, rfl, rfl⟩
  have hn := h.nodes_nodup
  rw [hl] at hn
  exact ⟨l, e, l', hl, rfl, by simp only [erase, hmap, hl, eraseNode_append hn]⟩

theorem WF.erase_of_notMem (h : t.WF) {k : κ} (hk : k ∉ keys t.entries) : t.erase k = t := by
  rw [erase, h.indexed.eq_none hk]

theorem WF.erase (h : t.WF) (k : κ) : (t.erase k).WF := by
  by_cases hk : k ∈ keys t.entries
  · obtain ⟨l, e, l', hl, rfl, he⟩ := h.erase_of_mem hk
    rw [he]
    exact h.unlink hl
  · rwa [h.erase_of_notMem hk]

theorem WF.items_erase (h : t.WF) (k : κ) :
    items (t.erase k).entries = (items t.entries).filter fun a => decide (a.1 ≠ k) := by
  by_cases hk : k ∈ keys t.entries
  · obtain ⟨l, e, l', hl, rfl, he⟩ := h.erase_of_mem hk
    have hn := h.nodup
    rw [hl, keys_append, keys_cons, List.nodup_append, List.nodup_cons] at hn
    have hne : ∀ a ∈ items (l ++ l'), decide (a.1 ≠ e.key) = true := by
      intro a ha
      simp only [items_append, List.mem_append] at ha
      refine decide_eq_true ?_
      rcases ha with ha | ha
      · exact hn.2.2 a.1 (keys_items l ▸ List.mem_map_of_mem ha) e.key (by simp)
      · rintro hae
        exact hn.2.1.1 (hae ▸ keys_items l' ▸ List.mem_map_of_mem ha)
    rw [he, hl]
    simp only [items_append, items_cons, List.filter_append, List.mem_append] at hne ⊢
    rw [List.filter_cons_of_neg (by simp), List.filter_eq_self.2 fun a ha => hne a (.inl ha),
      List.filter_eq_self.2 fun a ha => hne a (.inr ha)]
  · rw [h.erase_of_notMem hk]
    refine (List.filter_eq_self.2 fun a ha => decide_eq_true ?_).symm
    rintro rfl
    exact hk (keys_items t.entries ▸ List.mem_map_of_mem ha)

theorem WF.keys_erase (h : t.WF) (k : κ) :
    keys (t.erase k).entries = (keys t.entries).filter fun a => decide (a ≠ k) := by
  rw [← keys_items, h.items_erase k, ← keys_items, List.filter_map]
  rfl

theorem WF.pushAll (h : t.WF) {l : List (κ × Obj K)}
    (hn : (keys t.entries ++ l.map Prod.fst).Nodup) :
    (t.pushAll l).WF ∧ items (t.pushAll l).entries =
      items t.entries ++ l.map fun a => (a.1, a.2.param) := by
  induction l generalizing t with
  | nil => exact ⟨h, (List.append_nil _).symm⟩
  | cons a l ih =>
    have ha : a.1 ∉ keys t.entries := by
      rw [List.map_cons, List.nodup_append] at hn
      exact fun ha => hn.2.2 a.1 ha a.1 (by simp) rfl
    obtain ⟨hwf, hitems⟩ := ih (h.push ha a.2) (by simpa [Table.push] using hn)
    exact ⟨hwf, hitems.trans (by simp)⟩

/-! ### Tables with keys that come again -/

/-- Nodes grow along the list, and the map names the last entry under a key. -/
structure Latest (t : Table κ K) : Prop where
  increasing : (nodes t.entries).Pairwise (· < ·)
  nodes_lt : ∀ n ∈ nodes t.entries, n < t.next
  named : ∀ k n, t.map k = some n →
    (∃ e ∈ t.entries, e.key = k ∧ e.node = n) ∧ ∀ e ∈ t.entries, e.key = k → e.node ≤ n

omit [DecidableEq κ] in
theorem latest_clear (t : Table κ K) : t.clear.Latest where
  increasing := List.Pairwise.nil
  nodes_lt := by simp [clear]
  named := by simp [clear]

omit [DecidableEq κ] in
theorem latest_empty : (empty : Table κ K).Latest where
  increasing := List.Pairwise.nil
  nodes_lt := by simp [empty]
  named := by simp [empty]

omit [DecidableEq κ] in
theorem Latest.nodes_nodup (h : t.Latest) : (nodes t.entries).Nodup :=
  h.increasing.imp fun hlt => hlt.ne

omit [DecidableEq κ] in
theorem Latest.node_lt (h : t.Latest) {e : Entry κ K} (he : e ∈ t.entries) : e.node < t.next :=
  h.nodes_lt e.node (List.mem_map_of_mem he)

theorem Latest.push (h : t.Latest) (k : κ) (o : Obj K) : (t.push k o).Latest where
  increasing := by
    simp only [Table.push, nodes_append, nodes_cons, nodes_nil]
    refine List.pairwise_append.2 ⟨h.increasing, List.pairwise_singleton _ _, ?_⟩
    intro a ha b hb
    rw [List.mem_singleton.1 hb]
    exact h.nodes_lt a ha
  nodes_lt := by
    intro n hn
    simp only [Table.push, nodes_append, nodes_cons, nodes_nil, List.mem_append,
      List.mem_singleton] at hn
    rcases hn with hn | rfl
    · exact Nat.lt_succ_of_lt (h.nodes_lt n hn)
    · exact Nat.lt_succ_self _
  named := by
    intro j n hj
    simp only [Table.push] at hj ⊢
    by_cases hjk : j = k
    · subst hjk
      rw [Function.update_self, Option.some.injEq] at hj
      subst hj
      refine ⟨⟨_, List.mem_append_right _ (List.mem_singleton_self _), rfl, rfl⟩, ?_⟩
      intro e he _
      rcases List.mem_append.1 he with he | he
      · exact (h.node_lt he).le
      · rw [List.mem_singleton.1 he]
    · rw [Function.update_of_ne hjk] at hj
      obtain ⟨⟨e, he, hkey, hnode⟩, hmax⟩ := h.named j n hj
      refine ⟨⟨e, List.mem_append_left _ he, hkey, hnode⟩, ?_⟩
      intro e' he' hkey'
      rcases List.mem_append.1 he' with he' | he'
      · exact hmax e' he' hkey'
      · rw [List.mem_singleton.1 he'] at hkey'
        exact absurd hkey'.symm hjk

/-- The map still names the last entries when an entry and its key are taken out. -/
theorem Latest.unlink (h : t.Latest) {l l' : List (Entry κ K)} {e : Entry κ K}
    (ht : t.entries = l ++ e :: l') :
    (⟨l ++ l', Function.update t.map e.key none, t.next⟩ : Table κ K).Latest := by
  have hsub : (l ++ l').Sublist t.entries := ht ▸ (List.sublist_cons_self e l').append_left l
  refine ⟨h.increasing.sublist (hsub.map _), fun n hn => h.nodes_lt n ((hsub.map _).subset hn), ?_⟩
  intro j n hj
  by_cases hjk : j = e.key
  · subst hjk
    simp at hj
  · simp only [Function.update_of_ne hjk] at hj
    obtain ⟨⟨e', he', hkey, hnode⟩, hmax⟩ := h.named j n hj
    refine ⟨⟨e', ?_, hkey, hnode⟩, fun e'' he'' => hmax e'' (hsub.subset he'')⟩
    rw [ht, List.mem_append, List.mem_cons] at he'
    rcases he' with he' | rfl | he'
    · exact List.mem_append_left _ he'
    · exact absurd hkey.symm hjk
    · exact List.mem_append_right _ he'

theorem Latest.popFront (h : t.Latest) : t.popFront.Latest := by
  unfold Table.popFront
  split
  · exact h
  · rename_i e l hl
    have hunlinked := @Latest.unlink _ _ _ _ t h [] l e hl
    exact hunlinked

/-- Unlinking a named key takes out its last entry. -/
theorem Latest.erase_of_contains (h : t.Latest) {k : κ} (hk : t.contains k = true) :
    ∃ l e l', t.entries = l ++ e :: l' ∧ e.key = k ∧ k ∉ keys l' ∧
      t.erase k = ⟨l ++ l', Function.update t.map k none, t.next⟩ := by
  obtain ⟨n, hn⟩ := Option.isSome_iff_exists.1 hk
  obtain ⟨⟨e, he, hkey, rfl⟩, hmax⟩ := h.named k n hn
  obtain ⟨l, l', hl⟩ := List.append_of_mem he
  have hnodes := h.nodes_nodup
  have hincreasing := h.increasing
  rw [hl] at hnodes hincreasing
  refine ⟨l, e, l', hl, hkey, ?_, by simp only [Table.erase, hn, hl, eraseNode_append hnodes]⟩
  intro hmem
  obtain ⟨e', he', hkey'⟩ := mem_keys.1 hmem
  have hle := hmax e' (by rw [hl]; simp [he']) hkey'
  rw [nodes_append, nodes_cons] at hincreasing
  have hlt := List.rel_of_pairwise_cons (List.pairwise_append.1 hincreasing).2.1 (List.mem_map_of_mem he')
  omega

theorem Latest.erase (h : t.Latest) {k : κ} (hk : t.contains k = true) : (t.erase k).Latest := by
  obtain ⟨l, e, l', hl, rfl, -, heq⟩ := h.erase_of_contains hk
  rw [heq]
  exact h.unlink hl

/-- The list without the last item under a key. -/
def eraseLast {β : Type} (k : κ) (l : List (κ × β)) : List (κ × β) :=
  (l.reverse.eraseP fun a => decide (a.1 = k)).reverse

theorem eraseLast_append {β : Type} {l l' : List (κ × β)} {a : κ × β} (h : a.1 ∉ l'.map Prod.fst) :
    eraseLast a.1 (l ++ a :: l') = l ++ l' := by
  have hnone : ∀ b ∈ l'.reverse, ¬ decide (b.1 = a.1) = true := by
    intro b hb heq
    exact h (List.mem_map.2 ⟨b, List.mem_reverse.1 hb, of_decide_eq_true heq⟩)
  rw [eraseLast, List.reverse_append, List.reverse_cons, List.append_assoc,
    List.eraseP_append_right _ hnone, List.singleton_append, List.eraseP_cons_of_pos (by simp),
    List.reverse_append, List.reverse_reverse, List.reverse_reverse]

theorem Latest.items_erase (h : t.Latest) {k : κ} (hk : t.contains k = true) :
    items (t.erase k).entries = eraseLast k (items t.entries) := by
  obtain ⟨l, e, l', hl, rfl, hnot, heq⟩ := h.erase_of_contains hk
  rw [heq, hl, items_append, items_append, items_cons]
  have hlast := @eraseLast_append κ _ K.Param (items l) (items l') (e.key, e.obj.param)
    (by rwa [show (items l').map Prod.fst = keys l' from keys_items l'])
  exact hlast.symm

end Table

end Undoable
