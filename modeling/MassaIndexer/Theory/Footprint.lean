/-
# Theory.Footprint -- what a procedure may write

A procedure on a state is a sequence of primitive writes. `Writes apply allowed s s'` says that `s'`
is reached from `s` by writes that are allowed where they happen, and nothing else about the
procedure. What no allowed write touches, the procedure leaves alone (`Writes.view`); what every
allowed write preserves, it preserves (`Writes.keep`).

A state seen through a family of views splits a procedure into what it does to each view. A procedure
confined to one view (`Confined`) leaves the others alone and goes by that view only: so what it does
inside a longer procedure is what it does by itself, and two procedures confined to different views
commute (`Confined.commute`). Of a list of such procedures only those confined to a view matter to it
(`Stage.view_runAll`).
-/
import Mathlib.Logic.Relation

namespace MassaIndexer.Theory.Footprint

set_option autoImplicit false

variable {σ ω α β : Type} {apply : σ → ω → σ} {allowed allowed' : σ → ω → Prop} {s s' t : σ}

/-- `s'` is reached from `s` by allowed writes. -/
def Writes (apply : σ → ω → σ) (allowed : σ → ω → Prop) : σ → σ → Prop :=
  Relation.ReflTransGen fun s s' => ∃ w, allowed s w ∧ s' = apply s w

namespace Writes

theorem none : Writes apply allowed s s := .refl

theorem one {w : ω} (ok : allowed s w) : Writes apply allowed s (apply s w) :=
  .single ⟨w, ok, rfl⟩

theorem trans (first : Writes apply allowed s t) (second : Writes apply allowed t s') :
    Writes apply allowed s s' := Relation.ReflTransGen.trans first second

theorem weaken (writes : Writes apply allowed s s') (weaker : ∀ s w, allowed s w → allowed' s w) :
    Writes apply allowed' s s' := by
  induction writes with
  | refl => exact none
  | tail _ last ih =>
      obtain ⟨w, ok, rfl⟩ := last
      exact ih.trans (one (weaker _ w ok))

theorem foldl {f : σ → α → σ} {l : List α}
    (each : ∀ s, ∀ a ∈ l, Writes apply allowed s (f s a)) (s : σ) :
    Writes apply allowed s (l.foldl f s) := by
  induction l generalizing s with
  | nil => exact none
  | cons a l ih =>
      exact (each s a List.mem_cons_self).trans
        (ih (fun s b member => each s b (List.mem_cons_of_mem a member)) (f s a))

theorem keep {P : σ → Prop} (writes : Writes apply allowed s s')
    (each : ∀ s w, allowed s w → P s → P (apply s w)) (init : P s) : P s' := by
  induction writes with
  | refl => exact init
  | tail _ last ih =>
      obtain ⟨w, ok, rfl⟩ := last
      exact each _ w ok ih

/-- What no allowed write touches. -/
theorem view (look : σ → β) (writes : Writes apply allowed s s')
    (blind : ∀ s w, allowed s w → look (apply s w) = look s) : look s' = look s :=
  writes.keep (P := fun x => look x = look s) (fun s' w ok same => (blind s' w ok).trans same) rfl

end Writes

/-! ## Procedures confined to one view -/

section Confined

variable {ι : Type} {V : ι → Type} {view : σ → (i : ι) → V i} {i j : ι} {P Q : σ → σ}

structure Confined (view : σ → (i : ι) → V i) (i : ι) (P : σ → σ) : Prop where
  frame : ∀ s j, j ≠ i → view (P s) j = view s j
  own : ∀ s t, view s i = view t i → view (P s) i = view (P t) i

namespace Confined

theorem nothing : Confined view i (fun s : σ => s) := ⟨fun _ _ _ => rfl, fun _ _ same => same⟩

theorem comp (second : Confined view i Q) (first : Confined view i P) :
    Confined view i fun s => Q (P s) where
  frame s j other := (second.frame (P s) j other).trans (first.frame s j other)
  own s t same := second.own _ _ (first.own s t same)

theorem foldl {f : σ → α → σ} {l : List α} (each : ∀ a ∈ l, Confined view i (f · a)) :
    Confined view i (l.foldl f ·) := by
  induction l with
  | nil => exact nothing
  | cons a l ih =>
      exact (ih fun b member => each b (List.mem_cons_of_mem a member)).comp
        (each a List.mem_cons_self)

/-- The procedure may look at its view before it starts. -/
theorem reads {P : β → σ → σ} (look : σ → β)
    (seen : ∀ s t, view s i = view t i → look s = look t) (each : ∀ b, Confined view i (P b)) :
    Confined view i fun s => P (look s) s where
  frame s j other := (each (look s)).frame s j other
  own s t same := by
    rw [seen s t same]
    exact (each (look t)).own s t same

theorem ite {c : Prop} [Decidable c] (yes : Confined view i P) (no : Confined view i Q) :
    Confined view i fun s => if c then P s else Q s := by
  by_cases holds : c
  · simpa only [if_pos holds] using yes
  · simpa only [if_neg holds] using no

/-- Two procedures confined to different views commute. -/
theorem commute (ext : ∀ s t, (∀ k, view s k = view t k) → s = t) (left : Confined view i P)
    (right : Confined view j Q) (apart : i ≠ j) (s : σ) : P (Q s) = Q (P s) := by
  refine ext _ _ fun k => ?_
  by_cases here : k = i
  · subst here
    exact (left.own _ _ (right.frame s k apart)).trans (right.frame (P s) k apart).symm
  · rw [left.frame (Q s) k here]
    by_cases there : k = j
    · subst there
      exact (right.own _ _ (left.frame s k here)).symm
    · rw [right.frame s k there, right.frame (P s) k there, left.frame s k here]

end Confined

/-! ## Stages -/

/-- A procedure with the view it is confined to. -/
structure Stage (view : σ → (i : ι) → V i) where
  site : ι
  act : σ → σ
  confined : Confined view site act

namespace Stage

/-- The stages one after the other. -/
def runAll (stages : List (Stage view)) (s : σ) : σ := stages.foldl (fun s stage => stage.act s) s

@[simp] theorem runAll_nil (s : σ) : runAll ([] : List (Stage view)) s = s := rfl

@[simp] theorem runAll_cons (stage : Stage view) (stages : List (Stage view)) (s : σ) :
    runAll (stage :: stages) s = runAll stages (stage.act s) := rfl

@[simp] theorem runAll_append (before after : List (Stage view)) (s : σ) :
    runAll (before ++ after) s = runAll after (runAll before s) := List.foldl_append

variable [DecidableEq ι]

/-- Where a view is the same before, the stages confined to it leave it the same. -/
theorem view_runAll_congr (stages : List (Stage view)) {s t : σ} (same : view s i = view t i) :
    view (runAll stages s) i = view (runAll (stages.filter (·.site = i)) t) i := by
  induction stages generalizing s t with
  | nil => exact same
  | cons stage stages ih =>
      by_cases here : stage.site = i
      · rw [List.filter_cons_of_pos (by simpa using here)]
        refine ih ?_
        subst here
        exact stage.confined.own s t same
      · rw [List.filter_cons_of_neg (by simpa using here)]
        exact ih ((stage.confined.frame s i (Ne.symm here)).trans same)

/-- **What the stages do to a view is what the stages confined to it do.** -/
theorem view_runAll (stages : List (Stage view)) (s : σ) (i : ι) :
    view (runAll stages s) i = view (runAll (stages.filter (·.site = i)) s) i :=
  view_runAll_congr stages rfl

/-- A view no stage is confined to. -/
theorem view_runAll_of_absent {stages : List (Stage view)} (absent : ∀ stage ∈ stages, stage.site ≠ i)
    (s : σ) : view (runAll stages s) i = view s i := by
  have none : stages.filter (·.site = i) = [] := List.filter_eq_nil_iff.mpr fun stage member => by
    simpa using absent stage member
  have only := view_runAll stages s i
  rwa [none, runAll_nil] at only

end Stage

end Confined

end MassaIndexer.Theory.Footprint
