import Mathlib.Logic.Basic
import Mathlib.Data.List.Infix

/-!
# Runs of a partial step function

A system takes a step for an event, or has none to take.  `run` takes the steps for a list of
events; `Guarded` says that every event of a run meets a condition on the state in which it is
taken.  An invariant that guarded steps keep holds after every guarded run.
-/

namespace Runs

variable {S E : Type} (step : S → E → Option S)

/-- Take the steps for the events in order. -/
def run : List E → S → Option S
  | [], s => some s
  | e :: es, s => (step s e).bind (run es)

/-- Every event is taken in a state in which it is allowed. -/
def Guarded (ok : S → E → Prop) : List E → S → Prop
  | [], _ => True
  | e :: es, s => ok s e ∧ match step s e with
    | some s' => Guarded ok es s'
    | none => True

instance decidableGuarded (ok : S → E → Prop) [∀ s e, Decidable (ok s e)] :
    ∀ es s, Decidable (Guarded step ok es s)
  | [], _ => .isTrue trivial
  | e :: es, s =>
    have : Decidable (match step s e with
        | some s' => Guarded step ok es s'
        | none => True) :=
      match step s e with
      | some s' => decidableGuarded ok es s'
      | none => .isTrue trivial
    inferInstanceAs (Decidable (ok s e ∧ _))

variable {step}

theorem run_cons {e : E} {es : List E} {s s' : S} (h : run step (e :: es) s = some s') :
    ∃ s₁, step s e = some s₁ ∧ run step es s₁ = some s' := Option.bind_eq_some_iff.1 h

theorem guarded_cons {ok : S → E → Prop} {e : E} {es : List E} {s : S} (hok : ok s e)
    (hes : ∀ s', step s e = some s' → Guarded step ok es s') : Guarded step ok (e :: es) s := by
  refine ⟨hok, ?_⟩
  cases hs : step s e with
  | none => trivial
  | some s' => exact hes s' hs

theorem guarded_of_forall {ok : S → E → Prop} {es : List E} (h : ∀ e ∈ es, ∀ s, ok s e) (s : S) :
    Guarded step ok es s := by
  induction es generalizing s with
  | nil => trivial
  | cons e es ih =>
    exact guarded_cons (h e List.mem_cons_self s) fun s' _ => ih (fun e he => h e (List.mem_cons_of_mem _ he)) s'

theorem run_append (es es' : List E) (s : S) :
    run step (es ++ es') s = (run step es s).bind (run step es') := by
  induction es generalizing s with
  | nil => rfl
  | cons e es ih =>
    simp only [List.cons_append, run]
    cases step s e with
    | none => rfl
    | some s' => exact ih s'

theorem run_concat {es : List E} {s s' : S} (h : run step es s = some s') (e : E) :
    run step (es ++ [e]) s = step s' e := by
  rw [run_append, h, Option.bind_some]
  exact Option.bind_fun_some _

theorem guarded_append {ok : S → E → Prop} {es es' : List E} {s s' : S} (hes : Guarded step ok es s)
    (hrun : run step es s = some s') (hes' : Guarded step ok es' s') : Guarded step ok (es ++ es') s := by
  induction es generalizing s with
  | nil =>
    cases hrun
    exact hes'
  | cons e es ih =>
    obtain ⟨hok, hrest⟩ := hes
    obtain ⟨s₁, h₁, hrun⟩ := run_cons hrun
    refine guarded_cons hok fun s₂ h₂ => ?_
    cases h₁.symm.trans h₂
    rw [h₁] at hrest
    exact ih hrest hrun

theorem guarded_and {ok ok' : S → E → Prop} {es : List E} {s : S} (hes : Guarded step ok es s)
    (hes' : Guarded step ok' es s) : Guarded step (fun s e => ok s e ∧ ok' s e) es s := by
  induction es generalizing s with
  | nil => trivial
  | cons e es ih =>
    obtain ⟨hok, hrest⟩ := hes
    obtain ⟨hok', hrest'⟩ := hes'
    refine guarded_cons ⟨hok, hok'⟩ fun s₁ h₁ => ?_
    rw [h₁] at hrest hrest'
    exact ih hrest hrest'

theorem guarded_imp {ok ok' : S → E → Prop} (himp : ∀ s e, ok s e → ok' s e) {es : List E} {s : S}
    (hes : Guarded step ok es s) : Guarded step ok' es s := by
  induction es generalizing s with
  | nil => trivial
  | cons e es ih =>
    obtain ⟨hok, hrest⟩ := hes
    refine guarded_cons (himp s e hok) fun s₁ h₁ => ?_
    rw [h₁] at hrest
    exact ih hrest

/-- A run is guarded if and only if every event is allowed in the state that the events before it lead to. -/
theorem guarded_iff_forall {ok : S → E → Prop} {es : List E} {s : S} :
    Guarded step ok es s ↔ ∀ es₁ e es₂ s', es = es₁ ++ e :: es₂ →
      run step es₁ s = some s' → ok s' e := by
  induction es generalizing s with
  | nil =>
    refine ⟨fun _ es₁ e es₂ s' hes => ?_, fun _ => trivial⟩
    exact absurd hes.symm (List.append_ne_nil_of_right_ne_nil es₁ (List.cons_ne_nil e es₂))
  | cons e es ih =>
    constructor
    · rintro ⟨hok, hrest⟩ es₁ e' es₂ s' hes hrun
      cases es₁ with
      | nil =>
        cases hes
        cases hrun
        exact hok
      | cons e₁ es₁ =>
        cases hes
        obtain ⟨s₁, h₁, hrun⟩ := run_cons hrun
        rw [h₁] at hrest
        exact ih.1 hrest es₁ e' es₂ s' rfl hrun
    · intro hall
      refine guarded_cons (hall [] e es s rfl rfl) fun s₁ h₁ => ?_
      refine ih.2 fun es₁ e' es₂ s' hes hrun => ?_
      refine hall (e :: es₁) e' es₂ s' (by rw [hes, List.cons_append]) ?_
      rw [run, h₁, Option.bind_some, hrun]

/-- Guarded steps that exist and keep the invariant make guarded runs that do. -/
theorem run_total {ok : S → E → Prop} {Inv : S → Prop}
    (hstep : ∀ s e, Inv s → ok s e → ∃ s', step s e = some s' ∧ Inv s') {es : List E} {s : S}
    (hs : Inv s) (hes : Guarded step ok es s) : ∃ s', run step es s = some s' ∧ Inv s' := by
  induction es generalizing s with
  | nil => exact ⟨s, rfl, hs⟩
  | cons e es ih =>
    obtain ⟨hok, hes⟩ := hes
    obtain ⟨s₁, h₁, hs₁⟩ := hstep s e hs hok
    rw [h₁] at hes
    obtain ⟨s', h', hs'⟩ := ih hs₁ hes
    exact ⟨s', by rw [run, h₁, Option.bind_some, h'], hs'⟩

/-- An invariant that guarded steps keep holds after a guarded run. -/
theorem run_inv {ok : S → E → Prop} {Inv : S → Prop}
    (hstep : ∀ s e s', Inv s → ok s e → step s e = some s' → Inv s') {es : List E} {s s' : S}
    (hs : Inv s) (hes : Guarded step ok es s) (hrun : run step es s = some s') : Inv s' := by
  induction es generalizing s with
  | nil =>
    cases hrun
    exact hs
  | cons e es ih =>
    obtain ⟨hok, hes⟩ := hes
    obtain ⟨s₁, h₁, hrun⟩ := Option.bind_eq_some_iff.1 hrun
    rw [h₁] at hes
    exact ih (hstep s e s₁ hs hok h₁) hes hrun

/-- Where the invariant holds the two conditions agree, so they allow the same runs. -/
theorem guarded_congr {ok ok' : S → E → Prop} {Inv : S → Prop} (hiff : ∀ s e, Inv s → (ok s e ↔ ok' s e))
    (hstep : ∀ s e s', Inv s → ok s e → step s e = some s' → Inv s') {es : List E} {s : S} (hs : Inv s) :
    Guarded step ok es s ↔ Guarded step ok' es s := by
  induction es generalizing s with
  | nil => exact Iff.rfl
  | cons e es ih =>
    refine and_congr_right_iff.2 ?_ |>.trans (and_congr_left fun _ => hiff s e hs)
    intro hok
    cases hnext : step s e with
    | none => exact Iff.rfl
    | some s' => exact ih (hstep s e s' hs hok hnext)

/-- Where guarded steps keep the invariant and every other step breaks the property at once, the runs
that keep the property are the guarded ones.  The invariant may speak of the events that are still to come. -/
theorem guarded_iff_of_rest {ok : S → E → Prop} {Inv : List E → S → Prop} {P : S → Prop}
    (hP : ∀ es s, Inv es s → P s)
    (hkeep : ∀ e es s s', Inv (e :: es) s → ok s e → step s e = some s' → Inv es s')
    (hbreak : ∀ e es s, Inv (e :: es) s → ¬ok s e → ∃ s', step s e = some s' ∧ ¬P s') {es : List E} {s : S}
    (hs : Inv es s) :
    Guarded step ok es s ↔ ∀ es₁ s', es₁ <+: es → run step es₁ s = some s' → P s' := by
  induction es generalizing s with
  | nil =>
    refine ⟨fun _ es₁ s' hprefix hrun => ?_, fun _ => trivial⟩
    rw [List.prefix_nil.1 hprefix] at hrun
    cases hrun
    exact hP [] s hs
  | cons e es ih =>
    constructor
    · rintro ⟨hok, hes⟩ es₁ s' hprefix hrun
      obtain rfl | ⟨es₂, rfl, hprefix₂⟩ := List.prefix_cons_iff.1 hprefix
      · cases hrun
        exact hP (e :: es) s hs
      · obtain ⟨s₁, h₁, hrun⟩ := run_cons hrun
        rw [h₁] at hes
        have hinv := hkeep e es s s₁ hs hok h₁
        exact (ih hinv).1 hes es₂ s' hprefix₂ hrun
    · intro hall
      have hok : ok s e := by
        by_contra hne
        obtain ⟨s', hs', hnot⟩ := hbreak e es s hs hne
        refine hnot (hall [e] s' (List.prefix_append [e] es) ?_)
        rw [run, hs']
        rfl
      refine guarded_cons hok fun s' hs' => ?_
      have hinv := hkeep e es s s' hs hok hs'
      refine (ih hinv).2 fun es₁ s₁ hprefix hrun => ?_
      refine hall (e :: es₁) s₁ (List.cons_prefix_cons.2 ⟨rfl, hprefix⟩) ?_
      rw [run, hs']
      exact hrun

/-- The same for an invariant of the state alone. -/
theorem guarded_iff_forall_prefix {ok : S → E → Prop} {Inv P : S → Prop} (hP : ∀ s, Inv s → P s)
    {es : List E} (hkeep : ∀ e ∈ es, ∀ s s', Inv s → ok s e → step s e = some s' → Inv s')
    (hbreak : ∀ e ∈ es, ∀ s, Inv s → ¬ok s e → ∃ s', step s e = some s' ∧ ¬P s') {s : S} (hs : Inv s) :
    Guarded step ok es s ↔ ∀ es₁ s', es₁ <+: es → run step es₁ s = some s' → P s' := by
  have hinv : es ⊆ es ∧ Inv s := ⟨List.Subset.refl es, hs⟩
  refine @guarded_iff_of_rest S E step ok (fun rest s => rest ⊆ es ∧ Inv s) P
    (fun _ s h => hP s h.2) ?_ ?_ es s hinv
  · rintro e rest s s' ⟨hsub, hinv⟩ hok hstep
    obtain ⟨hmem, hrest⟩ := List.cons_subset.1 hsub
    exact ⟨hrest, hkeep e hmem s s' hinv hok hstep⟩
  · rintro e rest s ⟨hsub, hinv⟩ hnot
    exact hbreak e (hsub List.mem_cons_self) s hinv hnot

end Runs
