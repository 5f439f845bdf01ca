/-
# Theory.Shards -- what a shared machine holds of one shard

A machine takes the events of many shards. For one of them an event is its own (`own e = some c`, with
what the shard makes of it) or another's. When two states that agree on the shard still do after its own
event, taken on both, and after another shard's event, taken on one, then a run leaves of the shard what
the shard's own events make of it: other events may come in between, be left out or be taken at other
times (`Shard.alike_run`).
-/
import MassaIndexer.Theory.Runs

namespace MassaIndexer.Theory.Shards

open MassaIndexer.Theory.Runs

set_option autoImplicit false

variable {σ α γ : Type}

/-- A shard keeps to itself. `Alike` is agreement on the shard; an own event is understood where it
`Fits` the state it meets, and another shard's event is one that `Spares` this one. -/
structure Shard (step : σ → α → σ) (Alike : σ → σ → Prop) (own : α → Option γ) (Fits : σ → γ → Prop)
    (Spares : α → Prop) : Prop where
  symm : ∀ {s t}, Alike s t → Alike t s
  mine : ∀ {s t e e' c}, own e = some c → own e' = some c → Fits s c → Alike s t →
    Alike (step s e) (step t e')
  others : ∀ {s t e}, own e = none → Spares e → Alike s t → Alike (step s e) t

/-- Every event of another shard spares this one. -/
def Spared (own : α → Option γ) (Spares : α → Prop) (es : List α) : Prop :=
  ∀ e ∈ es, own e = none → Spares e

/-- Every own event fits the state it meets. -/
def FitAlong (step : σ → α → σ) (own : α → Option γ) (Fits : σ → γ → Prop) : σ → List α → Prop :=
  Along step fun s e => ∀ c, own e = some c → Fits s c

namespace Shard

variable {step : σ → α → σ} {Alike : σ → σ → Prop} {own : α → Option γ} {Fits : σ → γ → Prop}
  {Spares : α → Prop}

/-- Events of other shards, however many, change nothing of this one. -/
theorem alike_others (shard : Shard step Alike own Fits Spares) {es : List α} {s t : σ}
    (none_own : ∀ e ∈ es, own e = none) (spared : Spared own Spares es) (alike : Alike s t) :
    Alike (run step s es) t := by
  induction es generalizing s with
  | nil => exact alike
  | cons e es ih =>
      obtain ⟨here, later⟩ := List.forall_mem_cons.mp none_own
      obtain ⟨spares, rest⟩ := List.forall_mem_cons.mp spared
      exact ih later rest (shard.others here (spares here) alike)

/-- **The shard goes by its own events alone.** -/
theorem alike_run (shard : Shard step Alike own Fits Spares) {es es' : List α} {s t : σ}
    (same : es.filterMap own = es'.filterMap own) (spared : Spared own Spares es)
    (spared' : Spared own Spares es') (fit : FitAlong step own Fits s es) (alike : Alike s t) :
    Alike (run step s es) (run step t es') := by
  induction es generalizing s t es' with
  | nil =>
      have none_own : ∀ e ∈ es', own e = none := List.filterMap_eq_nil_iff.mp same.symm
      exact shard.symm (shard.alike_others none_own spared' (shard.symm alike))
  | cons e es ih =>
      obtain ⟨here, later⟩ := fit
      obtain ⟨spares, rest⟩ := List.forall_mem_cons.mp spared
      cases mine : own e with
      | none =>
          rw [List.filterMap_cons_none mine] at same
          exact ih same rest spared' later (shard.others mine (spares mine) alike)
      | some c =>
          rw [List.filterMap_cons_some mine] at same
          -- the same own event comes in the other run after events of other shards
          obtain ⟨before, e', after, rfl, none_own, mine', left⟩ :=
            List.filterMap_eq_cons_iff.mp same.symm
          have first : Spared own Spares before :=
            fun d member => spared' d (List.mem_append_left _ member)
          have second : Spared own Spares after :=
            fun d member => spared' d (List.mem_append_right _ (List.mem_cons_of_mem e' member))
          have waited : Alike s (run step t before) :=
            shard.symm (shard.alike_others none_own first (shard.symm alike))
          rw [run_cons, run_append, run_cons]
          exact ih left.symm rest second later (shard.mine mine mine' (here c mine) waited)

end Shard

end MassaIndexer.Theory.Shards
