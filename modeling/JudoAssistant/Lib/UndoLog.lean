import Mathlib.Data.Finset.Basic
import Mathlib.Data.List.Basic
import Mathlib.Data.List.Nodup

/-!
# Logs of undoable operations

An operation object has parameters, fixed when it is built, and undo members (its memo), which
`redo` fills and `undo` reads.  A log is a list of such objects under keys; some of them are done.
`Chain b l t` says that the state `t` arose from `b` by redoing the done entries of `l` in order
and that each of them still holds the memo of that redo.  Two loops work on a log: `rewind` undoes
the done entries from the back, `replay` redoes, from the front, the entries whose key is not
skipped.  For a lawful family of operations they move along chains (`rewind_chain`,
`replay_chain`), and the state at the end of a chain is the effect of its done entries
(`Chain.effect`).
-/

namespace Undoable

/-- A family of operations on the states `T`. -/
structure Ops (T : Type) where
  Param : Type
  Memo : Type
  /-- The undo members of an object that has never been redone. -/
  init : Memo
  redo : Param → Memo → T → Memo × T
  undo : Param → Memo → T → Memo × T

variable {T : Type}

/-- What `redo` does to the state does not depend on the memo left by earlier runs of the object,
and `undo` right after `redo` restores the state. -/
structure Ops.Lawful (K : Ops T) : Prop where
  redo_memo : ∀ p m m' t, (K.redo p m t).2 = (K.redo p m' t).2
  undo_redo : ∀ p m t, (K.undo p (K.redo p m t).1 (K.redo p m t).2).2 = t

/-- The effect of an operation on the state. -/
def Ops.effect (K : Ops T) (p : K.Param) (t : T) : T := (K.redo p K.init t).2

/-- The effect of a list of operations, in order. -/
def Ops.effects (K : Ops T) (ps : List K.Param) (t : T) : T := ps.foldl (fun t p => K.effect p t) t

@[simp] theorem Ops.effects_nil (K : Ops T) (t : T) : K.effects [] t = t := rfl

@[simp] theorem Ops.effects_cons (K : Ops T) (p : K.Param) (ps : List K.Param) (t : T) :
    K.effects (p :: ps) t = K.effects ps (K.effect p t) := rfl

theorem Ops.effects_append (K : Ops T) (ps qs : List K.Param) (t : T) :
    K.effects (ps ++ qs) t = K.effects qs (K.effects ps t) := List.foldl_append

theorem Ops.Lawful.redo_snd {K : Ops T} (hK : K.Lawful) (p : K.Param) (m : K.Memo) (t : T) :
    (K.redo p m t).2 = K.effect p t := hK.redo_memo p m K.init t

/-- An operation object. -/
structure Obj (K : Ops T) where
  param : K.Param
  memo : K.Memo
  done : Bool

namespace Obj

variable {K : Ops T}

/-- A newly built object. -/
def fresh (p : K.Param) : Obj K := ⟨p, K.init, false⟩

/-- A new object with the parameters of an old one. -/
def freshClone (o : Obj K) : Obj K := fresh o.param

/-- Redo an object; `none` if it is done already. -/
def redo (o : Obj K) (t : T) : Option (Obj K × T) :=
  if o.done then none
  else some (⟨o.param, (K.redo o.param o.memo t).1, true⟩, (K.redo o.param o.memo t).2)

/-- Undo an object; `none` if it is not done. -/
def undo (o : Obj K) (t : T) : Option (Obj K × T) :=
  if o.done then
    some (⟨o.param, (K.undo o.param o.memo t).1, false⟩, (K.undo o.param o.memo t).2)
  else none

/-- Undo an object if it is done. -/
def unroll (o : Obj K) (t : T) : Obj K × T := (o.undo t).getD (o, t)

@[simp] theorem fresh_param (p : K.Param) : (fresh p).param = p := rfl

@[simp] theorem fresh_done (p : K.Param) : (fresh p).done = false := rfl

@[simp] theorem freshClone_param (o : Obj K) : o.freshClone.param = o.param := rfl

@[simp] theorem freshClone_done (o : Obj K) : o.freshClone.done = false := rfl

theorem redo_of_not_done {o : Obj K} (h : o.done = false) (t : T) :
    o.redo t =
      some (⟨o.param, (K.redo o.param o.memo t).1, true⟩, (K.redo o.param o.memo t).2) := by
  simp [redo, h]

theorem undo_of_done {o : Obj K} (h : o.done = true) (t : T) :
    o.undo t =
      some (⟨o.param, (K.undo o.param o.memo t).1, false⟩, (K.undo o.param o.memo t).2) := by
  simp [undo, h]

theorem unroll_of_not_done {o : Obj K} (h : o.done = false) (t : T) : o.unroll t = (o, t) := by
  simp [unroll, undo, h]

theorem unroll_param (o : Obj K) (t : T) : (o.unroll t).1.param = o.param := by
  cases h : o.done <;> simp [unroll, undo, h]

theorem unroll_done (o : Obj K) (t : T) : (o.unroll t).1.done = false := by
  cases h : o.done <;> simp [unroll, undo, h]

end Obj

/-- A log entry: the list node that holds it, its key and its object. -/
structure Entry (κ : Type) (K : Ops T) where
  node : ℕ
  key : κ
  obj : Obj K

section Log

variable {κ : Type} {K : Ops T}

/-- The part of an entry that `rewind` and `replay` leave alone. -/
def Entry.sig (e : Entry κ K) : ℕ × κ × K.Param := (e.node, e.key, e.obj.param)

/-- The node, key and parameters of every entry. -/
def sigs (l : List (Entry κ K)) : List (ℕ × κ × K.Param) := l.map Entry.sig

/-- The keys of a log. -/
def keys (l : List (Entry κ K)) : List κ := l.map Entry.key

/-- The nodes of a log. -/
def nodes (l : List (Entry κ K)) : List ℕ := l.map Entry.node

/-- The keys and parameters of a log. -/
def items (l : List (Entry κ K)) : List (κ × K.Param) := l.map fun e => (e.key, e.obj.param)

/-- Undo the done entries, from the back. -/
def rewind : List (Entry κ K) → T → List (Entry κ K) × T
  | [], t => ([], t)
  | e :: l, t =>
    let r := rewind l t
    let o := e.obj.unroll r.2
    ({ e with obj := o.1 } :: r.1, o.2)

/-- Redo the entries whose key is not skipped, from the front; `none` if one of them is done. -/
def replay [DecidableEq κ] (skip : Finset κ) :
    List (Entry κ K) → T → Option (List (Entry κ K) × T)
  | [], t => some ([], t)
  | e :: l, t =>
    if e.key ∈ skip then do
      let r ← replay skip l t
      return (e :: r.1, r.2)
    else do
      let o ← e.obj.redo t
      let r ← replay skip l o.2
      return ({ e with obj := o.1 } :: r.1, r.2)

/-- Redo the entries that are neither skipped nor done, from the front. -/
def replayRest [DecidableEq κ] (skip : Finset κ) :
    List (Entry κ K) → T → Option (List (Entry κ K) × T)
  | [], t => some ([], t)
  | e :: l, t =>
    if e.key ∈ skip ∨ e.obj.done then do
      let r ← replayRest skip l t
      return (e :: r.1, r.2)
    else do
      let o ← e.obj.redo t
      let r ← replayRest skip l o.2
      return ({ e with obj := o.1 } :: r.1, r.2)

/-- The last entry under the key, with the entries before and after it. -/
def splitLast [DecidableEq κ] (k : κ) :
    List (Entry κ K) → Option (List (Entry κ K) × Entry κ K × List (Entry κ K))
  | [] => none
  | e :: l =>
    match splitLast k l with
    | some (below, e', above) => some (e :: below, e', above)
    | none => if e.key = k then some ([], e, l) else none

/-- `t` arose from `b` by redoing the done entries of the log, whose memos are still in place. -/
def Chain : T → List (Entry κ K) → T → Prop
  | b, [], t => t = b
  | b, e :: l, t =>
    if e.obj.done then
      ∃ m, e.obj.memo = (K.redo e.obj.param m b).1 ∧ Chain (K.redo e.obj.param m b).2 l t
    else Chain b l t

/-- Exactly the entries whose key is not in `skip` are done. -/
def Marked (skip : Finset κ) (l : List (Entry κ K)) : Prop :=
  ∀ e ∈ l, e.obj.done = true ↔ e.key ∉ skip

@[simp] theorem sigs_append (l l' : List (Entry κ K)) : sigs (l ++ l') = sigs l ++ sigs l' :=
  List.map_append

@[simp] theorem sigs_cons (e : Entry κ K) (l : List (Entry κ K)) :
    sigs (e :: l) = e.sig :: sigs l := rfl

theorem sig_unroll (e : Entry κ K) (t : T) :
    Entry.sig { e with obj := (e.obj.unroll t).1 } = e.sig := by
  simp [Entry.sig, Obj.unroll_param]

@[simp] theorem keys_append (l l' : List (Entry κ K)) : keys (l ++ l') = keys l ++ keys l' :=
  List.map_append

@[simp] theorem items_append (l l' : List (Entry κ K)) : items (l ++ l') = items l ++ items l' :=
  List.map_append

@[simp] theorem nodes_append (l l' : List (Entry κ K)) : nodes (l ++ l') = nodes l ++ nodes l' :=
  List.map_append

@[simp] theorem keys_cons (e : Entry κ K) (l : List (Entry κ K)) :
    keys (e :: l) = e.key :: keys l := rfl

@[simp] theorem items_cons (e : Entry κ K) (l : List (Entry κ K)) :
    items (e :: l) = (e.key, e.obj.param) :: items l := rfl

@[simp] theorem nodes_cons (e : Entry κ K) (l : List (Entry κ K)) :
    nodes (e :: l) = e.node :: nodes l := rfl

@[simp] theorem keys_nil : keys ([] : List (Entry κ K)) = [] := rfl

@[simp] theorem items_nil : items ([] : List (Entry κ K)) = [] := rfl

@[simp] theorem nodes_nil : nodes ([] : List (Entry κ K)) = [] := rfl

theorem keys_of_sigs {l l' : List (Entry κ K)} (h : sigs l = sigs l') : keys l = keys l' := by
  have := congrArg (List.map fun s : ℕ × κ × K.Param => s.2.1) h
  simpa [sigs, keys, Entry.sig, Function.comp_def] using this

theorem nodes_of_sigs {l l' : List (Entry κ K)} (h : sigs l = sigs l') : nodes l = nodes l' := by
  have := congrArg (List.map fun s : ℕ × κ × K.Param => s.1) h
  simpa [sigs, nodes, Entry.sig, Function.comp_def] using this

theorem items_of_sigs {l l' : List (Entry κ K)} (h : sigs l = sigs l') : items l = items l' := by
  have := congrArg (List.map fun s : ℕ × κ × K.Param => s.2) h
  simpa [sigs, items, Entry.sig, Function.comp_def] using this

theorem keys_items (l : List (Entry κ K)) : (items l).map Prod.fst = keys l := by
  simp [items, keys, Function.comp_def]

theorem mem_keys {k : κ} {l : List (Entry κ K)} : k ∈ keys l ↔ ∃ e ∈ l, e.key = k := List.mem_map

/-! ## Chains -/

@[simp] theorem chain_nil {b t : T} : Chain b ([] : List (Entry κ K)) t ↔ t = b := Iff.rfl

theorem chain_cons_done {b t : T} {e : Entry κ K} {l : List (Entry κ K)} (h : e.obj.done = true) :
    Chain b (e :: l) t ↔
      ∃ m, e.obj.memo = (K.redo e.obj.param m b).1 ∧ Chain (K.redo e.obj.param m b).2 l t := by
  simp [Chain, h]

theorem chain_cons_not_done {b t : T} {e : Entry κ K} {l : List (Entry κ K)}
    (h : e.obj.done = false) : Chain b (e :: l) t ↔ Chain b l t := by
  simp [Chain, h]

theorem chain_append {b t : T} {l l' : List (Entry κ K)} :
    Chain b (l ++ l') t ↔ ∃ s, Chain b l s ∧ Chain s l' t := by
  induction l generalizing b with
  | nil => simp
  | cons e l ih =>
    cases h : e.obj.done with
    | false => simp only [List.cons_append, chain_cons_not_done h, ih]
    | true =>
      simp only [List.cons_append, chain_cons_done h, ih]
      constructor
      · rintro ⟨m, hm, s, h₁, h₂⟩
        exact ⟨s, ⟨m, hm, h₁⟩, h₂⟩
      · rintro ⟨s, ⟨m, hm, h₁⟩, h₂⟩
        exact ⟨m, hm, s, h₁, h₂⟩

/-- An entry that has just been redone extends the chain. -/
theorem Chain.redo_snoc {b t : T} {l : List (Entry κ K)} (h : Chain b l t) (e : Entry κ K)
    (m : K.Memo) (hd : e.obj.done = true) (hm : e.obj.memo = (K.redo e.obj.param m t).1) :
    Chain b (l ++ [e]) (K.redo e.obj.param m t).2 :=
  chain_append.2 ⟨t, h, (chain_cons_done hd).2 ⟨m, hm, rfl⟩⟩

/-- The state at the end of a chain is the effect of its done entries. -/
theorem Chain.effect (hK : K.Lawful) {b t : T} {l : List (Entry κ K)} (h : Chain b l t) :
    t = K.effects ((l.filter fun e => e.obj.done).map fun e => e.obj.param) b := by
  induction l generalizing b with
  | nil => exact h
  | cons e l ih =>
    cases hd : e.obj.done with
    | false => simpa [hd] using ih ((chain_cons_not_done hd).1 h)
    | true =>
      obtain ⟨m, -, h'⟩ := (chain_cons_done hd).1 h
      rw [hK.redo_snd] at h'
      simpa [hd] using ih h'

/-! ## Rewinding -/

/-- Undoing the done entry at the head of a chain leads to the state below it. -/
theorem undo_of_chain (hK : K.Lawful) {b s : T} {o : Obj K} {m : K.Memo} (hd : o.done = true)
    (hm : o.memo = (K.redo o.param m b).1) (hs : s = (K.redo o.param m b).2) :
    (o.unroll s).2 = b := by
  simp only [Obj.unroll, Obj.undo_of_done hd, Option.getD_some, hs, hm]
  exact hK.undo_redo _ _ _

theorem rewind_chain (hK : K.Lawful) {b t : T} {l : List (Entry κ K)} (h : Chain b l t) :
    (rewind l t).2 = b := by
  induction l generalizing b with
  | nil => exact h
  | cons e l ih =>
    cases hd : e.obj.done with
    | false =>
      have := ih ((chain_cons_not_done hd).1 h)
      simpa [rewind, Obj.unroll_of_not_done hd] using this
    | true =>
      obtain ⟨m, hm, h'⟩ := (chain_cons_done hd).1 h
      exact undo_of_chain hK hd hm (ih h')

theorem sigs_rewind (l : List (Entry κ K)) (t : T) : sigs (rewind l t).1 = sigs l := by
  induction l with
  | nil => rfl
  | cons e l ih => simpa [rewind, sig_unroll] using ih

theorem not_done_rewind (l : List (Entry κ K)) (t : T) :
    ∀ e ∈ (rewind l t).1, e.obj.done = false := by
  induction l with
  | nil => simp [rewind]
  | cons e l ih =>
    intro e' he'
    rcases List.mem_cons.1 he' with rfl | he'
    · exact Obj.unroll_done _ _
    · exact ih e' he'

/-! ## Marks -/

theorem Marked.append {skip : Finset κ} {l l' : List (Entry κ K)} (h : Marked skip l)
    (h' : Marked skip l') : Marked skip (l ++ l') := by
  intro e he
  rcases List.mem_append.1 he with he | he
  · exact h e he
  · exact h' e he

theorem marked_append {skip : Finset κ} {l l' : List (Entry κ K)} :
    Marked skip (l ++ l') ↔ Marked skip l ∧ Marked skip l' :=
  ⟨fun h => ⟨fun e he => h e (by simp [he]), fun e he => h e (by simp [he])⟩,
    fun h => h.1.append h.2⟩

theorem marked_cons {skip : Finset κ} {e : Entry κ K} {l : List (Entry κ K)} :
    Marked skip (e :: l) ↔ (e.obj.done = true ↔ e.key ∉ skip) ∧ Marked skip l := by
  simp [Marked]

/-- Marks only read the skipped keys that occur in the log. -/
theorem Marked.congr {skip skip' : Finset κ} {l : List (Entry κ K)} (h : Marked skip l)
    (hk : ∀ k ∈ keys l, k ∈ skip ↔ k ∈ skip') : Marked skip' l := by
  intro e he
  rw [h e he, hk e.key (List.mem_map_of_mem he)]

/-! ## Replaying -/

variable [DecidableEq κ]

/-- A log none of whose entries is done can be replayed; the result is a chain on which exactly
the entries that were not skipped are done. -/
theorem replay_chain (skip : Finset κ) {l : List (Entry κ K)}
    (h : ∀ e ∈ l, e.obj.done = false) (b : T) :
    ∃ l' t, replay skip l b = some (l', t) ∧ sigs l' = sigs l ∧ Chain b l' t ∧ Marked skip l' := by
  induction l generalizing b with
  | nil => exact ⟨[], b, rfl, rfl, rfl, by simp [Marked]⟩
  | cons e l ih =>
    have he := h e (by simp)
    by_cases hk : e.key ∈ skip
    · obtain ⟨l', t, hr, hs, hc, hm⟩ := ih (fun e' he' => h e' (by simp [he'])) b
      refine ⟨e :: l', t, by simp [replay, hk, hr], by simpa [sigs] using hs,
        (chain_cons_not_done he).2 hc, fun e' he' => ?_⟩
      rcases List.mem_cons.1 he' with rfl | he'
      · simp [he, hk]
      · exact hm e' he'
    · obtain ⟨l', t, hr, hs, hc, hm⟩ :=
        ih (fun e' he' => h e' (by simp [he'])) (K.redo e.obj.param e.obj.memo b).2
      refine ⟨{ e with obj := ⟨e.obj.param, (K.redo e.obj.param e.obj.memo b).1, true⟩ } :: l', t,
        by simp [replay, hk, Obj.redo_of_not_done he, hr], by simpa [sigs, Entry.sig] using hs,
        (chain_cons_done rfl).2 ⟨e.obj.memo, rfl, hc⟩, fun e' he' => ?_⟩
      rcases List.mem_cons.1 he' with rfl | he'
      · simp [hk]
      · exact hm e' he'

/-- On a log none of whose entries is done, skipping the done ones makes no difference. -/
theorem replayRest_of_not_done (skip : Finset κ) {l : List (Entry κ K)}
    (h : ∀ e ∈ l, e.obj.done = false) (b : T) : replayRest skip l b = replay skip l b := by
  induction l generalizing b with
  | nil => rfl
  | cons e l ih =>
    have he := h e (by simp)
    have ih' := ih fun e' he' => h e' (by simp [he'])
    simp only [replayRest, replay, he, Bool.false_eq_true, or_false, ih']

/-- The entries of a marked log are skipped or done, so there is nothing left to redo on it. -/
theorem replayRest_append_of_marked {skip : Finset κ} {l : List (Entry κ K)} (h : Marked skip l)
    (l' : List (Entry κ K)) (b : T) :
    replayRest skip (l ++ l') b = (replayRest skip l' b).map fun r => (l ++ r.1, r.2) := by
  induction l with
  | nil => simp
  | cons e l ih =>
    have he : e.key ∈ skip ∨ e.obj.done = true := by
      by_cases hk : e.key ∈ skip
      · exact .inl hk
      · exact .inr ((h e (by simp)).2 hk)
    have ih' := ih fun e' he' => h e' (by simp [he'])
    simp only [List.cons_append, replayRest, he, if_true, ih']
    cases replayRest skip l' b <;> rfl

/-- The done entries of a marked log are those whose key is not skipped. -/
theorem Marked.filter_done {skip : Finset κ} {l : List (Entry κ K)} (h : Marked skip l) :
    (l.filter fun e => e.obj.done) = l.filter fun e => decide (e.key ∉ skip) := by
  apply List.filter_congr
  intro e he
  rw [Bool.eq_iff_iff, h e he, decide_eq_true_iff]

/-! ## Splitting -/

theorem splitLast_eq_none {k : κ} {l : List (Entry κ K)} :
    splitLast k l = none ↔ k ∉ keys l := by
  induction l with
  | nil => simp [splitLast]
  | cons e l ih =>
    simp only [splitLast, keys_cons, List.mem_cons, not_or]
    cases h : splitLast k l with
    | some r =>
      obtain ⟨below, e', above⟩ := r
      have : k ∈ keys l := not_not.1 fun hk => by simp [ih.2 hk] at h
      simp [this]
    | none =>
      have hk := ih.1 h
      by_cases he : e.key = k
      · simp [he]
      · simp [he, hk, Ne.symm he]

theorem splitLast_eq_some {k : κ} {l below above : List (Entry κ K)} {e : Entry κ K}
    (h : splitLast k l = some (below, e, above)) : l = below ++ e :: above ∧ e.key = k := by
  induction l generalizing below with
  | nil => simp [splitLast] at h
  | cons d l ih =>
    simp only [splitLast] at h
    cases hl : splitLast k l with
    | some r =>
      obtain ⟨below', e', above'⟩ := r
      rw [hl] at h
      simp only [Option.some.injEq, Prod.mk.injEq] at h
      obtain ⟨rfl, rfl, rfl⟩ := h
      obtain ⟨rfl, hk⟩ := ih hl
      exact ⟨rfl, hk⟩
    | none =>
      rw [hl] at h
      by_cases hd : d.key = k
      · simp only [hd, if_true, Option.some.injEq, Prod.mk.injEq] at h
        obtain ⟨rfl, rfl, rfl⟩ := h
        exact ⟨rfl, hd⟩
      · simp [hd] at h

theorem exists_splitLast {k : κ} {l : List (Entry κ K)} (h : k ∈ keys l) :
    ∃ below e above, splitLast k l = some (below, e, above) ∧ l = below ++ e :: above ∧
      e.key = k := by
  cases hs : splitLast k l with
  | none => exact absurd h (splitLast_eq_none.1 hs)
  | some r =>
    obtain ⟨below, e, above⟩ := r
    exact ⟨below, e, above, rfl, splitLast_eq_some hs⟩

end Log

end Undoable
