import Mathlib.Data.Finset.Lattice.Lemmas
import Mathlib.Data.Finset.SDiff
import Mathlib.Data.Finset.Erase
import Mathlib.Data.Finset.Dedup

/-!
# Net changes of a set of keys

A log of which keys of an evolving set have been added, erased and changed since a start.  A key that
was added and erased again leaves no trace, and one that was erased and added again counts as changed.
An operation that contradicts the log has no result.
-/

/-- The keys that are new, those that are gone, and those that are still there and have changed. -/
structure NetChange (ι : Type) where
  changed : Finset ι := ∅
  added : Finset ι := ∅
  erased : Finset ι := ∅

namespace NetChange

variable {ι : Type} [DecidableEq ι] {s s' : NetChange ι} {ids : List ι}

/-- A key has changed. -/
def change (s : NetChange ι) (id : ι) : Option (NetChange ι) :=
  if id ∈ s.erased then none
  else if id ∈ s.added then some s
  else some { s with changed := insert id s.changed }

/-- A key was added. -/
def add (s : NetChange ι) (id : ι) : Option (NetChange ι) :=
  if id ∈ s.changed then none
  else if id ∈ s.erased then
    some { s with erased := s.erased.erase id, changed := insert id s.changed }
  else some { s with added := insert id s.added }

/-- A key is about to be erased. -/
def erase (s : NetChange ι) (id : ι) : Option (NetChange ι) :=
  if id ∈ s.erased then none
  else if id ∈ s.added then some { s with added := s.added.erase id }
  else some { s with changed := s.changed.erase id, erased := insert id s.erased }

def changeAll (s : NetChange ι) (ids : List ι) : Option (NetChange ι) := ids.foldlM change s

def addAll (s : NetChange ι) (ids : List ι) : Option (NetChange ι) := ids.foldlM add s

def eraseAll (s : NetChange ι) (ids : List ι) : Option (NetChange ι) := ids.foldlM erase s

/-! ### What the loops do -/

omit [DecidableEq ι] in
theorem ext_iff' : s = s' ↔ s.changed = s'.changed ∧ s.added = s'.added ∧ s.erased = s'.erased := by
  cases s
  cases s'
  simp

theorem changeAll_cons (s : NetChange ι) (id : ι) (ids : List ι) :
    s.changeAll (id :: ids) = (s.change id).bind (changeAll · ids) := List.foldlM_cons ..

theorem addAll_cons (s : NetChange ι) (id : ι) (ids : List ι) :
    s.addAll (id :: ids) = (s.add id).bind (addAll · ids) := List.foldlM_cons ..

theorem eraseAll_cons (s : NetChange ι) (id : ι) (ids : List ι) :
    s.eraseAll (id :: ids) = (s.erase id).bind (eraseAll · ids) := List.foldlM_cons ..

theorem changeAll_eq_some : s.changeAll ids = some s' ↔ (∀ id ∈ ids, id ∉ s.erased) ∧
    s' = { s with changed := s.changed ∪ (ids.toFinset \ s.added) } := by
  induction ids generalizing s with
  | nil => simp [changeAll, eq_comm]
  | cons id ids ih =>
    rw [changeAll_cons]
    unfold change
    by_cases herased : id ∈ s.erased
    · simp [herased]
    · by_cases hadded : id ∈ s.added
      · simp only [herased, hadded, if_false, if_true, Option.bind_some, ih, List.forall_mem_cons,
          not_false_eq_true, true_and, List.toFinset_cons, Finset.insert_sdiff_of_mem]
      · simp only [herased, hadded, if_false, Option.bind_some, ih, List.forall_mem_cons,
          not_false_eq_true, true_and, List.toFinset_cons, Finset.insert_sdiff_of_notMem,
          Finset.insert_union, Finset.union_insert]

/-- The loop over keys that are all different. -/
theorem addAll_eq_some (hids : ids.Nodup) : s.addAll ids = some s' ↔ (∀ id ∈ ids, id ∉ s.changed) ∧
    s' = { changed := s.changed ∪ (ids.toFinset ∩ s.erased)
           added := s.added ∪ (ids.toFinset \ s.erased)
           erased := s.erased \ ids.toFinset } := by
  induction ids generalizing s with
  | nil => simp [addAll, eq_comm]
  | cons id ids ih =>
    obtain ⟨hid, hids⟩ := List.nodup_cons.1 hids
    have hne : ∀ i ∈ ids, i ≠ id := fun i hi heq => hid (heq ▸ hi)
    rw [addAll_cons]
    unfold add
    by_cases hchanged : id ∈ s.changed
    · simp [hchanged]
    · by_cases herased : id ∈ s.erased
      · simp only [hchanged, herased, if_false, if_true, Option.bind_some, ih hids]
        refine and_congr ?_ (Eq.congr_right ?_)
        · simp only [Finset.mem_insert, not_or, List.forall_mem_cons, hchanged, not_false_eq_true, true_and]
          exact forall₂_congr fun i hi => and_iff_right (hne i hi)
        · refine ext_iff'.2 ⟨?_, ?_, ?_⟩
          all_goals
            ext i
            simp only [Finset.mem_union, Finset.mem_insert, Finset.mem_inter, Finset.mem_sdiff,
              Finset.mem_erase, List.mem_toFinset, List.mem_cons]
            grind
      · simp only [hchanged, herased, if_false, Option.bind_some, ih hids]
        refine and_congr ?_ (Eq.congr_right ?_)
        · simp [hchanged]
        · refine ext_iff'.2 ⟨?_, ?_, ?_⟩
          all_goals
            ext i
            simp only [Finset.mem_union, Finset.mem_insert, Finset.mem_inter, Finset.mem_sdiff,
              List.mem_toFinset, List.mem_cons]
            grind

/-- The loop over keys that are all different. -/
theorem eraseAll_eq_some (hids : ids.Nodup) : s.eraseAll ids = some s' ↔ (∀ id ∈ ids, id ∉ s.erased) ∧
    s' = { changed := s.changed \ (ids.toFinset \ s.added)
           added := s.added \ ids.toFinset
           erased := s.erased ∪ (ids.toFinset \ s.added) } := by
  induction ids generalizing s with
  | nil => simp [eraseAll, eq_comm]
  | cons id ids ih =>
    obtain ⟨hid, hids⟩ := List.nodup_cons.1 hids
    have hne : ∀ i ∈ ids, i ≠ id := fun i hi heq => hid (heq ▸ hi)
    rw [eraseAll_cons]
    unfold erase
    by_cases herased : id ∈ s.erased
    · simp [herased]
    · by_cases hadded : id ∈ s.added
      · simp only [hadded, herased, if_false, if_true, Option.bind_some, ih hids]
        refine and_congr ?_ (Eq.congr_right ?_)
        · simp [herased]
        · refine ext_iff'.2 ⟨?_, ?_, ?_⟩
          all_goals
            ext i
            simp only [Finset.mem_union, Finset.mem_sdiff, Finset.mem_erase, List.mem_toFinset, List.mem_cons]
            grind
      · simp only [hadded, herased, if_false, Option.bind_some, ih hids]
        refine and_congr ?_ (Eq.congr_right ?_)
        · simp only [Finset.mem_insert, not_or, List.forall_mem_cons, herased, not_false_eq_true, true_and]
          exact forall₂_congr fun i hi => and_iff_right (hne i hi)
        · refine ext_iff'.2 ⟨?_, ?_, ?_⟩
          all_goals
            ext i
            simp only [Finset.mem_union, Finset.mem_insert, Finset.mem_sdiff, Finset.mem_erase,
              List.mem_toFinset, List.mem_cons]
            grind

/-! ### The net change -/

/-- The log is the difference between the keys at the start and the keys now; the keys that were
reported as changed and are there at both times are among the changed ones. -/
structure Net (s : NetChange ι) (start now reported : Finset ι) : Prop where
  added : s.added = now \ start
  erased : s.erased = start \ now
  changed : s.changed ⊆ start ∩ now
  reported : reported ∩ (start ∩ now) ⊆ s.changed

namespace Net

variable {start now reported : Finset ι}

theorem init (start : Finset ι) : ({} : NetChange ι).Net start start ∅ := by
  constructor <;> simp

/-- Keys that exist can be reported as changed. -/
theorem changeAll (h : s.Net start now reported) (hids : ∀ id ∈ ids, id ∈ now) :
    ∃ s', s.changeAll ids = some s' ∧ s'.Net start now (reported ∪ ids.toFinset) := by
  refine ⟨_, changeAll_eq_some.2 ⟨fun id hid => ?_, rfl⟩, h.added, h.erased, ?_, ?_⟩
  · rw [h.erased]
    simp [hids id hid]
  · refine Finset.union_subset h.changed fun id hid => ?_
    rw [h.added, Finset.mem_sdiff, List.mem_toFinset, Finset.mem_sdiff] at hid
    have hnow := hids id hid.1
    exact Finset.mem_inter.2 ⟨by simpa [hnow] using hid.2, hnow⟩
  · intro id hid
    have hreported := @h.reported id
    simp only [Finset.mem_inter, Finset.mem_union, List.mem_toFinset, Finset.mem_sdiff, h.added] at hid hreported ⊢
    grind

/-- Keys that do not exist can be added. -/
theorem addAll (h : s.Net start now reported) (hnodup : ids.Nodup) (hids : ∀ id ∈ ids, id ∉ now) :
    ∃ s', s.addAll ids = some s' ∧ s'.Net start (now ∪ ids.toFinset) reported := by
  have hchanged := h.changed
  have hreported := h.reported
  refine ⟨_, (addAll_eq_some hnodup).2 ⟨fun id hid hmem => ?_, rfl⟩, ?_, ?_, ?_, ?_⟩
  · exact hids id hid (Finset.mem_inter.1 (h.changed hmem)).2
  · ext id
    simp only [h.added, h.erased, Finset.mem_union, Finset.mem_sdiff, List.mem_toFinset]
    grind
  · ext id
    simp only [h.erased, Finset.mem_union, Finset.mem_sdiff, List.mem_toFinset]
    grind
  · intro id
    have := @hchanged id
    simp only [h.erased, Finset.mem_inter, Finset.mem_union, Finset.mem_sdiff, List.mem_toFinset] at this ⊢
    grind
  · intro id
    have := @hreported id
    simp only [h.erased, Finset.mem_inter, Finset.mem_union, Finset.mem_sdiff, List.mem_toFinset] at this ⊢
    grind

/-- Keys that exist can be erased. -/
theorem eraseAll (h : s.Net start now reported) (hnodup : ids.Nodup) (hids : ∀ id ∈ ids, id ∈ now) :
    ∃ s', s.eraseAll ids = some s' ∧ s'.Net start (now \ ids.toFinset) reported := by
  have hchanged := h.changed
  have hreported := h.reported
  refine ⟨_, (eraseAll_eq_some hnodup).2 ⟨fun id hid => ?_, rfl⟩, ?_, ?_, ?_, ?_⟩
  · rw [h.erased]
    simp [hids id hid]
  · ext id
    simp only [h.added, Finset.mem_sdiff, List.mem_toFinset]
    grind
  · ext id
    simp only [h.added, h.erased, Finset.mem_union, Finset.mem_sdiff, List.mem_toFinset]
    grind
  · intro id
    have := @hchanged id
    simp only [h.added, Finset.mem_inter, Finset.mem_sdiff, List.mem_toFinset] at this ⊢
    grind
  · intro id
    have := @hreported id
    simp only [h.added, Finset.mem_inter, Finset.mem_sdiff, List.mem_toFinset] at this ⊢
    grind

end Net

end NetChange
