import Mathlib.Data.List.Perm.Subperm
import JudoAssistant.Lib.Run
import JudoAssistant.Tournament.MatchOrder

/-!
# The match counts of a category

A category counts its matches of each type, without the permanent byes, for the expected duration of its
blocks.  `pushMatch` does not count a permanent bye, but `popMatch` takes any match from the count
(`src/core/stores/category_store.cpp`).
-/

namespace JudoAssistant

open Runs

/-- The calls that change the list of matches of a category. -/
inductive MatchListCall where
  | pushMatch (m : MatchStore)
  | popMatch
  | clearMatches
  deriving DecidableEq, Repr

namespace CategoryStore

/-- A call, or none where an assertion fails or there is no match to pop. -/
def call (c : CategoryStore) : MatchListCall → Option CategoryStore
  | .pushMatch m => (c.pushMatch m).toOption
  | .popMatch => c.popMatch.toOption
  | .clearMatches => some c.clearMatches

/-- The count of a type is the number of its matches that are no permanent byes. -/
def CountsMatches (c : CategoryStore) : Prop :=
  ∀ type, (c.matchCount.get type).toNat = c.matchList.countP (scheduled type)

/-- The call takes a match from a count that is zero. -/
def Wraps (c : CategoryStore) (call : MatchListCall) : Prop :=
  call = .popMatch ∧ ∃ m, c.matchList.getLast? = some m ∧ c.matchCount.get m.type = 0

/-- A match that is popped is no permanent bye. -/
def PopsCounted (c : CategoryStore) (call : MatchListCall) : Prop :=
  call = .popMatch → ∀ m, c.matchList.getLast? = some m → m.permanentBye = false

/-- The counts are right, and the ids are distinct words of 32 bits. -/
structure MatchesCounted (c : CategoryStore) : Prop where
  counts : c.CountsMatches
  map : c.MapsMatches
  word : ∀ m ∈ c.matchList, m.id.value < 2 ^ 32

variable {c c' : CategoryStore} {m : MatchStore}

/-! ### One call -/

/-- There are no more matches than ids. -/
theorem MatchesCounted.length_le (h : c.MatchesCounted) : c.matchList.length ≤ 2 ^ 32 := by
  have hnodup : ((c.matchList.map (·.id)).map MatchId.value).Nodup :=
    h.map.nodup_ids.map fun a b heq => by cases a; cases b; cases heq; rfl
  have hsubset : (c.matchList.map (·.id)).map MatchId.value ⊆ List.range (2 ^ 32) := by
    intro n hn
    obtain ⟨id, hid, rfl⟩ := List.mem_map.1 hn
    obtain ⟨m, hm, rfl⟩ := List.mem_map.1 hid
    exact List.mem_range.2 (h.word m hm)
  have hle := (List.subperm_of_subset hnodup hsubset).length_le
  rwa [List.length_map, List.length_map, List.length_range] at hle

theorem scheduled_of_type (hbye : m.permanentBye = false) : scheduled m.type m = true := by
  simp [scheduled, hbye]

theorem scheduled_of_ne {type : MatchType} (h : m.type ≠ type) : scheduled type m = false := by
  simp [scheduled, h]

theorem scheduled_of_bye (type : MatchType) (hbye : m.permanentBye = true) : scheduled type m = false := by
  simp [scheduled, hbye]

theorem MatchesCounted.pushMatch (h : c.MatchesCounted) (hm : m.id.value < 2 ^ 32) (hpush : c.pushMatch m = .ok c') :
    c'.MatchesCounted := by
  have hmap := h.map.pushMatch hpush
  obtain ⟨-, rfl⟩ := pushMatch_ok hpush
  refine ⟨fun type => ?_, hmap, fun n hn => ?_⟩
  · show (ByType.get (if m.permanentBye then c.matchCount
      else c.matchCount.set m.type (c.matchCount.get m.type + 1)) type).toNat =
        (c.matchList ++ [m]).countP (scheduled type)
    rw [List.countP_append, List.countP_singleton, ← h.counts type]
    cases hbye : m.permanentBye with
    | true => rw [if_pos rfl, scheduled_of_bye type hbye, if_neg Bool.false_ne_true, Nat.add_zero]
    | false =>
      rw [if_neg Bool.false_ne_true]
      by_cases htype : m.type = type
      · subst htype
        have hle : (c.matchCount.get m.type).toNat ≤ 2 ^ 32 := by
          rw [h.counts m.type]
          exact List.countP_le_length.trans h.length_le
        have hone : (1 : UInt64).toNat = 1 := rfl
        rw [ByType.get_set_self, scheduled_of_type hbye, if_pos rfl, UInt64.toNat_add, hone,
          Nat.mod_eq_of_lt (by omega)]
      · rw [ByType.get_set_of_ne _ htype, scheduled_of_ne htype, if_neg Bool.false_ne_true, Nat.add_zero]
  · obtain hn | hn := List.mem_append.1 hn
    · exact h.word n hn
    · rwa [List.mem_singleton.1 hn]

theorem countP_popMatch {ms : List MatchStore} (hms : c.matchList = ms ++ [m]) (type : MatchType) :
    c.matchList.countP (scheduled type) = ms.countP (scheduled type) + if scheduled type m then 1 else 0 := by
  rw [hms, List.countP_append, List.countP_singleton]

/-- A match that is no permanent bye is counted. -/
theorem CountsMatches.count_pos (h : c.CountsMatches) (hlast : c.matchList.getLast? = some m)
    (hbye : m.permanentBye = false) : 0 < (c.matchCount.get m.type).toNat := by
  obtain ⟨ms, hms⟩ := List.getLast?_eq_some_iff.1 hlast
  rw [h m.type, countP_popMatch hms, if_pos (scheduled_of_type hbye)]
  exact Nat.succ_pos _

theorem MatchesCounted.popMatch (h : c.MatchesCounted)
    (hbye : ∀ m, c.matchList.getLast? = some m → m.permanentBye = false)
    (hpop : c.popMatch = .ok c') : c'.MatchesCounted := by
  have hmap := h.map.popMatch hpop
  obtain ⟨m, hm, rfl⟩ := popMatch_ok hpop
  obtain ⟨ms, hms⟩ := List.getLast?_eq_some_iff.1 hm
  have hdrop : c.matchList.dropLast = ms := by rw [hms, List.dropLast_concat]
  refine ⟨fun type => ?_, hmap, fun n hn => h.word n (List.mem_of_mem_dropLast hn)⟩
  show ((c.matchCount.set m.type (c.matchCount.get m.type - 1)).get type).toNat =
    c.matchList.dropLast.countP (scheduled type)
  have hcount := (h.counts type).trans (countP_popMatch hms type)
  rw [hdrop]
  by_cases htype : m.type = type
  · subst htype
    rw [if_pos (scheduled_of_type (hbye m hm))] at hcount
    have hone : (1 : UInt64).toNat = 1 := rfl
    rw [ByType.get_set_self, UInt64.toNat_sub_of_le _ _ (UInt64.le_iff_toNat_le.2 (by omega)), hone, hcount,
      Nat.add_sub_cancel]
  · rw [ByType.get_set_of_ne _ htype, hcount, scheduled_of_ne htype, if_neg Bool.false_ne_true, Nat.add_zero]

/-- The count is wrong once a permanent bye has been popped. -/
theorem CountsMatches.not_popMatch (h : c.CountsMatches) (hm : c.matchList.getLast? = some m)
    (hbye : m.permanentBye = true) (hpop : c.popMatch = .ok c') : ¬c'.CountsMatches := by
  intro h'
  obtain ⟨m', hm', rfl⟩ := popMatch_ok hpop
  obtain rfl : m = m' := Option.some.inj (hm.symm.trans hm')
  obtain ⟨ms, hms⟩ := List.getLast?_eq_some_iff.1 hm
  have hdrop : c.matchList.dropLast = ms := by rw [hms, List.dropLast_concat]
  have hcount := (h m.type).trans (countP_popMatch hms m.type)
  rw [scheduled_of_bye m.type hbye, if_neg Bool.false_ne_true, Nat.add_zero] at hcount
  have hcount' : ((c.matchCount.set m.type (c.matchCount.get m.type - 1)).get m.type).toNat =
      c.matchList.dropLast.countP (scheduled m.type) := h' m.type
  have hone : (1 : UInt64).toNat = 1 := rfl
  have hlt := (c.matchCount.get m.type).toNat_lt
  rw [ByType.get_set_self, hdrop, ← hcount, UInt64.toNat_sub, hone] at hcount'
  omega

theorem matchesCounted_clearMatches (c : CategoryStore) : c.clearMatches.MatchesCounted where
  counts type := by cases type <;> rfl
  map := (indexed_clearMatches c).map
  word _ hm := nomatch hm

theorem matchesCounted_init (id : CategoryId) (name : String) (ruleset : RulesetIdentifier) (drawSystem : DrawSystem) :
    (CategoryStore.init id name ruleset drawSystem).MatchesCounted where
  counts type := by cases type <;> rfl
  map := (indexed_init id name ruleset drawSystem).map
  word _ hm := nomatch hm

/-! ### Runs of calls -/

theorem toOption_eq_some {x : Except Failure CategoryStore} : x.toOption = some c ↔ x = .ok c := by
  cases x with
  | error e => exact ⟨fun h => (nomatch h), fun h => (nomatch h)⟩
  | ok c' => exact ⟨fun h => congrArg Except.ok (Option.some.inj h), fun h => by cases h; rfl⟩

theorem MatchesCounted.call (h : c.MatchesCounted) {call : MatchListCall}
    (hword : ∀ m, call = .pushMatch m → m.id.value < 2 ^ 32)
    (hpops : c.PopsCounted call) (hstep : c.call call = some c') : c'.MatchesCounted := by
  cases call with
  | pushMatch m => exact h.pushMatch (hword m rfl) (toOption_eq_some.1 hstep)
  | popMatch => exact h.popMatch (hpops rfl) (toOption_eq_some.1 hstep)
  | clearMatches =>
    cases hstep
    exact matchesCounted_clearMatches c

/-- A call that pops a permanent bye makes the count wrong. -/
theorem MatchesCounted.break (h : c.MatchesCounted) {call : MatchListCall} (hpops : ¬c.PopsCounted call) :
    ∃ c', c.call call = some c' ∧ ¬c'.CountsMatches := by
  unfold PopsCounted at hpops
  push Not at hpops
  obtain ⟨rfl, m, hm, hbye⟩ := hpops
  obtain ⟨c', hpop⟩ : ∃ c', c.popMatch = .ok c' := by
    rw [CategoryStore.popMatch, hm]
    exact ⟨_, rfl⟩
  have hbye : m.permanentBye = true := by simpa using hbye
  exact ⟨c', toOption_eq_some.2 hpop, h.counts.not_popMatch hm hbye hpop⟩

/-- In a run of calls the counts are right after every call, and none of them wraps, if and only if no permanent bye
is popped. -/
theorem run_countsMatches_iff (id : CategoryId) (name : String) (ruleset : RulesetIdentifier) (drawSystem : DrawSystem)
    (calls : List MatchListCall) (hword : ∀ m, .pushMatch m ∈ calls → m.id.value < 2 ^ 32) :
    (∀ calls₁ c', calls₁ <+: calls → run call calls₁ (.init id name ruleset drawSystem) = some c' →
      c'.CountsMatches) ∧
      (∀ calls₁ x calls₂ c', calls = calls₁ ++ x :: calls₂ →
          run call calls₁ (.init id name ruleset drawSystem) = some c' → ¬c'.Wraps x) ↔
      Guarded call PopsCounted calls (.init id name ruleset drawSystem) := by
  have hiff : Guarded call PopsCounted calls (.init id name ruleset drawSystem) ↔
      ∀ calls₁ c', calls₁ <+: calls →
      run call calls₁ (.init id name ruleset drawSystem) = some c' → c'.CountsMatches := by
    refine guarded_iff_forall_prefix (fun c h => MatchesCounted.counts h) (fun x hx c c' hc hpops hstep => ?_)
      (fun x _ c hc hpops => hc.break hpops) (matchesCounted_init id name ruleset drawSystem)
    exact hc.call (fun m hm => hword m (hm ▸ hx)) hpops hstep
  refine ⟨fun h => hiff.2 h.1, fun hguarded => ⟨hiff.1 hguarded, ?_⟩⟩
  rintro calls₁ x calls₂ c' rfl hrun ⟨rfl, m, hm, hzero⟩
  have hcounts := hiff.1 hguarded calls₁ c' (List.prefix_append _ _) hrun
  have hbye := guarded_iff_forall.1 hguarded calls₁ .popMatch calls₂ c' rfl hrun rfl m hm
  exact absurd (hcounts.count_pos hm hbye) (by rw [hzero]; decide)

/-- A match that is pushed and popped again. -/
def pushAndPop (permanentBye : Bool) : List MatchListCall :=
  [.pushMatch (.init ⟨⟨1⟩, ⟨2⟩⟩ .elimination "" permanentBye none none), .popMatch]

theorem run_countsMatches_iff_pushAndPop :
    (∀ calls₁ c', calls₁ <+: pushAndPop false →
        run call calls₁ (.init ⟨1⟩ "" .twentyEighteen (.pool {})) = some c' → c'.CountsMatches) ∧
      (∀ calls₁ x calls₂ c', pushAndPop false = calls₁ ++ x :: calls₂ →
        run call calls₁ (.init ⟨1⟩ "" .twentyEighteen (.pool {})) = some c' → ¬c'.Wraps x) := by
  refine (run_countsMatches_iff ⟨1⟩ "" .twentyEighteen (.pool {}) (pushAndPop false) fun m hm => ?_).2
    ⟨fun h => (nomatch h), fun _ m hm => ?_, trivial⟩
  · obtain heq | hm := List.mem_cons.1 hm
    · cases heq
      decide
    · exact (nomatch (List.mem_singleton.1 hm))
  · cases hm
    rfl

/-- A permanent bye that is pushed and popped leaves a count that has wrapped. -/
theorem not_countsMatches_pushAndPop : ∃ c',
    run call (pushAndPop true) (.init ⟨1⟩ "" .twentyEighteen (.pool {})) = some c' ∧
    c'.matchList = [] ∧ (c'.matchCount.get .elimination).toNat = 2 ^ 64 - 1 ∧ ¬c'.CountsMatches :=
  ⟨_, rfl, rfl, rfl, fun h => absurd (h .elimination) (by decide)⟩

end CategoryStore

end JudoAssistant
