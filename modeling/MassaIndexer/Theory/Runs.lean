/-
# Theory.Runs -- runs of a deterministic machine and what their steps preserve

A machine is a step function; a run is the fold of its events. `Along C` says that every step of a
run meets a condition on the state before the step and the event, which is how a law that one
handler breaks is stated for the runs that keep away from it.

* `invariant_of_along` -- a property the good steps preserve holds after the run, and
  `Along.visits` in every state on the way.
* `simulation` -- two machines stay related, event by event.
* `simulation_filter` -- the same when the second machine never sees the events that fail a test.
* `run_filter` -- a run beside the same run without those events, as one run of pairs.
* `kept_throughout_iff` -- what is kept from any state to any later one.
* `foldl_or_eq_getLast`, `foldl_settle` -- folds whose last, or first, word counts.
* `foldl_view` -- what no step of a fold touches.
-/
import Mathlib.Data.List.Induction
import Mathlib.Tactic.Common

namespace MassaIndexer.Theory.Runs

set_option autoImplicit false

variable {σ τ α β : Type}

/-- The state after `events`, taken in order from `s`. -/
def run (step : σ → α → σ) (s : σ) (events : List α) : σ := events.foldl step s

@[simp] theorem run_nil (step : σ → α → σ) (s : σ) : run step s [] = s := rfl

@[simp] theorem run_cons (step : σ → α → σ) (s : σ) (e : α) (es : List α) :
    run step s (e :: es) = run step (step s e) es := rfl

@[simp] theorem run_append (step : σ → α → σ) (s : σ) (before after : List α) :
    run step s (before ++ after) = run step (run step s before) after :=
  List.foldl_append

/-- Every step of the run meets `C`, read on the state before the step. -/
def Along (step : σ → α → σ) (C : σ → α → Prop) : σ → List α → Prop
  | _, [] => True
  | s, e :: es => C s e ∧ Along step C (step s e) es

section Invariants

variable {step : σ → α → σ} {C : σ → α → Prop} {P : σ → Prop}

theorem along_append {s : σ} {before after : List α} :
    Along step C s (before ++ after) ↔
      Along step C s before ∧ Along step C (run step s before) after := by
  induction before generalizing s with
  | nil => simp [Along]
  | cons e es ih => simp [Along, ih, and_assoc]

/-- The condition at each event, given by what comes before it. -/
theorem along_iff_forall_split {s : σ} {es : List α} :
    Along step C s es ↔
      ∀ before e after, es = before ++ e :: after → C (run step s before) e := by
  constructor
  · rintro good before e after rfl
    exact (along_append.mp good).2.1
  · intro good
    induction es generalizing s with
    | nil => trivial
    | cons e es ih =>
        refine ⟨good [] e es rfl, ih fun before d after whole => ?_⟩
        exact good (e :: before) d after (by rw [whole]; rfl)

theorem invariant_of_along (keep : ∀ s e, P s → C s e → P (step s e)) {s : σ} {es : List α}
    (init : P s) (good : Along step C s es) : P (run step s es) := by
  induction es generalizing s with
  | nil => exact init
  | cons e es ih => exact ih (keep s e init good.1) good.2

/-- An unconditional invariant: every step preserves it. -/
theorem invariant_of_step (keep : ∀ s e, P s → P (step s e)) {s : σ} (es : List α) (init : P s) :
    P (run step s es) := by
  induction es generalizing s with
  | nil => exact init
  | cons e es ih => exact ih (keep s e init)

/-- The states a run passes through, its first and last included. -/
def Visits (step : σ → α → σ) (s : σ) (es : List α) (x : σ) : Prop :=
  ∃ before after, es = before ++ after ∧ run step s before = x

theorem visits_run (s : σ) (es : List α) : Visits step s es (run step s es) :=
  ⟨es, [], (List.append_nil es).symm, rfl⟩

theorem Along.visits (keep : ∀ s e, P s → C s e → P (step s e)) {s : σ} {es : List α}
    (init : P s) (good : Along step C s es) {x : σ} (visited : Visits step s es x) : P x := by
  obtain ⟨before, after, rfl, rfl⟩ := visited
  exact invariant_of_along keep init (along_append.mp good).1

/-- When a good step on an event within `D` is exactly one that keeps `P`, a run of such events keeps `P`
throughout exactly when all its steps are good. -/
theorem forall_visits_iff_along_within {D : α → Prop}
    (exact_step : ∀ s e, D e → P s → (P (step s e) ↔ C s e)) {s : σ} {es : List α}
    (within : ∀ e ∈ es, D e) (init : P s) :
    (∀ x, Visits step s es x → P x) ↔ Along step C s es := by
  induction es generalizing s with
  | nil =>
      refine iff_of_true (fun x visited => ?_) trivial
      obtain ⟨before, after, whole, rfl⟩ := visited
      obtain ⟨rfl, -⟩ := List.append_eq_nil_iff.mp whole.symm
      exact init
  | cons e es ih =>
      obtain ⟨first, rest⟩ := List.forall_mem_cons.mp within
      constructor
      · intro throughout
        have next : P (step s e) := throughout _ ⟨[e], es, rfl, rfl⟩
        refine ⟨(exact_step s e first init).mp next, (ih rest next).mp fun x visited => ?_⟩
        obtain ⟨before, after, rfl, rfl⟩ := visited
        exact throughout _ ⟨e :: before, after, rfl, rfl⟩
      · rintro ⟨good, later⟩ x ⟨before, after, whole, rfl⟩
        cases before with
        | nil => exact init
        | cons d before =>
            obtain ⟨rfl, rfl⟩ := List.cons.inj whole
            exact (ih rest ((exact_step s e first init).mpr good)).mpr later _ ⟨before, after, rfl, rfl⟩

/-- When a good step is exactly one that keeps `P`, a run keeps `P` throughout exactly when all its
steps are good. -/
theorem forall_visits_iff_along (exact_step : ∀ s e, P s → (P (step s e) ↔ C s e)) {s : σ}
    {es : List α} (init : P s) :
    (∀ x, Visits step s es x → P x) ↔ Along step C s es :=
  forall_visits_iff_along_within (D := fun _ => True) (fun s e _ => exact_step s e)
      (fun _ _ => trivial) init

end Invariants

section Simulation

variable {step : σ → α → σ} {step' : τ → β → τ} {R : σ → τ → Prop} {C : σ → α → Prop}

/-- Related states stay related when the second machine takes the image of each event. -/
theorem simulation {g : α → β} (square : ∀ s t e, R s t → R (step s e) (step' t (g e))) {s : σ}
    {t : τ} (es : List α) (init : R s t) : R (run step s es) (run step' t (es.map g)) := by
  induction es generalizing s t with
  | nil => exact init
  | cons e es ih => exact ih (square s t e init)

/-- The same with the second machine skipping every event that fails `keep`. -/
theorem simulation_filter {step₂ : τ → α → τ} {keep : α → Bool}
    (kept : ∀ s t e, keep e = true → C s e → R s t → R (step s e) (step₂ t e))
    (dropped : ∀ s t e, keep e = false → C s e → R s t → R (step s e) t) {s : σ} {t : τ}
    {es : List α} (good : Along step C s es) (init : R s t) :
    R (run step s es) (run step₂ t (es.filter keep)) := by
  induction es generalizing s t with
  | nil => exact init
  | cons e es ih =>
      obtain ⟨head, rest⟩ := good
      cases sieve : keep e with
      | true =>
          rw [List.filter_cons_of_pos sieve, run_cons, run_cons]
          exact ih rest (kept s t e sieve head init)
      | false =>
          rw [List.filter_cons_of_neg (by simp [sieve]), run_cons]
          exact ih rest (dropped s t e sieve head init)

/-- Two runs of one machine, of which the second skips the events that fail `keep`. -/
theorem run_filter {keep : α → Bool} (s t : σ) (es : List α) :
    run (fun p e => (step p.1 e, if keep e then step p.2 e else p.2)) (s, t) es =
      (run step s es, run step t (es.filter keep)) := by
  induction es generalizing s t with
  | nil => rfl
  | cons e es ih =>
      cases sieve : keep e with
      | true =>
          rw [List.filter_cons_of_pos sieve]
          simpa [sieve] using ih (step s e) (step t e)
      | false =>
          rw [List.filter_cons_of_neg (by simp [sieve])]
          simpa [sieve] using ih (step s e) t

end Simulation

section Kept

variable {step : σ → α → σ} {Kept : σ → σ → Prop}

/-- What is kept from every state of a run to every later one is what each step keeps. -/
theorem kept_throughout_iff (refl : ∀ s, Kept s s)
    (trans : ∀ s t u, Kept s t → Kept t u → Kept s u) {s : σ} {es : List α} :
    (∀ before between after, es = before ++ between ++ after →
        Kept (run step s before) (run step s (before ++ between))) ↔
      Along step (fun s e => Kept s (step s e)) s es := by
  rw [along_iff_forall_split]
  constructor
  · intro kept before e after whole
    have one := kept before [e] after (by rw [whole]; simp)
    simpa using one
  · intro steps before between after whole
    induction between using List.reverseRecOn generalizing after with
    | nil =>
        rw [List.append_nil]
        exact refl _
    | append_singleton between e ih =>
        have later : es = before ++ between ++ (e :: after) := by rw [whole]; simp
        have last := steps (before ++ between) e after later
        rw [← List.append_assoc, run_append step s (before ++ between) [e]]
        exact trans _ _ _ (ih _ later) last

end Kept

/-! ## Folds that keep the last or the first word -/

/-- Every write replaces what is there. -/
theorem foldl_or_eq_getLast (write : α → Option σ) (l : List α) (s : Option σ) :
    l.foldl (fun s a => (write a).or s) s = (l.filterMap write).getLast?.or s := by
  induction l generalizing s with
  | nil => rfl
  | cons a l ih =>
      rw [List.foldl_cons, ih]
      cases written : write a with
      | none => rw [List.filterMap_cons_none written, Option.none_or]
      | some value =>
          rw [List.filterMap_cons_some written, List.getLast?_cons]
          cases (l.filterMap write).getLast? <;> rfl

/-- A settled state stays; the first word settles an open one. -/
theorem foldl_settle {settled : σ → Bool} {word : α → Option σ}
    (settles : ∀ a v, word a = some v → settled v = true) (l : List α) (s : σ) :
    l.foldl (fun s a => if settled s then s else (word a).getD s) s =
      if settled s then s else (l.findSome? word).getD s := by
  induction l generalizing s with
  | nil => simp
  | cons a l ih =>
      rw [List.foldl_cons, ih]
      by_cases done : settled s = true
      · simp [done]
      · cases said : word a with
        | none => simp [done, said]
        | some v => simp [done, said, settles a v said]

/-- A view that every step leaves alone is the same after a fold. -/
theorem foldl_view (view : σ → β) {step : σ → α → σ} {es : List α}
    (frame : ∀ s, ∀ e ∈ es, view (step s e) = view s) (s : σ) :
    view (es.foldl step s) = view s := by
  induction es generalizing s with
  | nil => rfl
  | cons e es ih =>
      rw [List.foldl_cons, ih fun s d member => frame s d (List.mem_cons_of_mem e member)]
      exact frame s e List.mem_cons_self

end MassaIndexer.Theory.Runs
