/- # Theory.Freshest -- a cache that keeps the freshest row of each key

Rows arrive late, out of order and more than once. A rule says whether a row replaces the one that is
held; one that takes no older row and turns no newer one away is fair. Under fair rules, of whatever
kind and in whatever order, a cache never goes back, and holds for each key a row that is as fresh as
any it was offered. -/
import Mathlib.Logic.Function.Basic
import Mathlib.Order.Lattice

namespace MassaIndexer.Theory.Freshest

set_option autoImplicit false

variable {κ ρ τ : Type} [DecidableEq κ] [LinearOrder τ] (key : ρ → κ) (stamp : ρ → τ)

/-- A rule that follows the stamps where they differ. -/
structure Fair (takes : ρ → ρ → Bool) : Prop where
  older : ∀ p r, takes p r = true → stamp p ≤ stamp r
  newer : ∀ p r, stamp p < stamp r → takes p r = true

def offer (takes : ρ → ρ → Bool) (cache : κ → Option ρ) (r : ρ) : κ → Option ρ :=
  if (cache (key r)).all (takes · r) then Function.update cache (key r) (some r) else cache

def evict (aged : κ → Bool) (cache : κ → Option ρ) : κ → Option ρ :=
  fun k => if aged k then none else cache k

/-- As fresh a row as `r` is held. -/
def Keeps (cache : κ → Option ρ) (r : ρ) : Prop := ∃ p, cache (key r) = some p ∧ stamp r ≤ stamp p

/-- No key loses its row, or gets an older one. -/
def Forward (cache cache' : κ → Option ρ) : Prop :=
  ∀ k p, cache k = some p → ∃ p', cache' k = some p' ∧ stamp p ≤ stamp p'

variable {key stamp}

omit [DecidableEq κ] in
theorem Forward.refl (cache : κ → Option ρ) : Forward stamp cache cache :=
  fun _ p held => ⟨p, held, le_rfl⟩

omit [DecidableEq κ] in
theorem Forward.trans {a b c : κ → Option ρ} (first : Forward stamp a b) (second : Forward stamp b c) :
    Forward stamp a c := by
  intro k p held
  obtain ⟨q, held', le⟩ := first k p held
  obtain ⟨r, held'', le'⟩ := second k q held'
  exact ⟨r, held'', le.trans le'⟩

omit [DecidableEq κ] in
theorem Forward.keeps {cache cache' : κ → Option ρ} (forward : Forward stamp cache cache') {r : ρ}
    (kept : Keeps key stamp cache r) : Keeps key stamp cache' r := by
  obtain ⟨p, held, le⟩ := kept
  obtain ⟨p', held', le'⟩ := forward (key r) p held
  exact ⟨p', held', le.trans le'⟩

/-- What is held came with this row, or was held before. -/
theorem held_of_offer {takes : ρ → ρ → Bool} {cache : κ → Option ρ} {r p : ρ} {k : κ}
    (held : offer key takes cache r k = some p) : (k = key r ∧ p = r) ∨ cache k = some p := by
  unfold offer at held
  split at held
  · by_cases here : k = key r
    · subst here
      rw [Function.update_self] at held
      exact .inl ⟨rfl, (Option.some.inj held).symm⟩
    · rw [Function.update_of_ne here] at held
      exact .inr held
  · exact .inr held

theorem forward_offer {takes : ρ → ρ → Bool} (fair : Fair stamp takes) (cache : κ → Option ρ) (r : ρ) :
    Forward stamp cache (offer key takes cache r) := by
  unfold offer
  split
  · next taken =>
      intro k p held
      by_cases here : k = key r
      · subst here
        rw [held] at taken
        exact ⟨r, Function.update_self .., fair.older p r taken⟩
      · exact ⟨p, (Function.update_of_ne here ..).trans held, le_rfl⟩
  · exact Forward.refl cache

/-- A row that was offered is kept, or one as fresh is. -/
theorem keeps_offer {takes : ρ → ρ → Bool} (fair : Fair stamp takes) (cache : κ → Option ρ) (r : ρ) :
    Keeps key stamp (offer key takes cache r) r := by
  unfold offer
  split
  · exact ⟨r, Function.update_self .., le_rfl⟩
  · next refused =>
      cases held : cache (key r) with
      | none => exact absurd (by rw [held]; rfl) refused
      | some p =>
          rw [held] at refused
          exact ⟨p, held, not_lt.mp fun newer => refused (fair.newer p r newer)⟩

section Batch

variable {takes : ρ → ρ → Bool}

theorem held_of_offers (rows : List ρ) {cache : κ → Option ρ} {p : ρ} {k : κ}
    (held : rows.foldl (offer key takes) cache k = some p) :
    (p ∈ rows ∧ k = key p) ∨ cache k = some p := by
  induction rows generalizing cache with
  | nil => exact .inr held
  | cons r rows ih =>
      rcases ih held with ⟨listed, here⟩ | held
      · exact .inl ⟨List.mem_cons_of_mem r listed, here⟩
      · rcases held_of_offer held with ⟨rfl, rfl⟩ | held
        · exact .inl ⟨List.mem_cons_self, rfl⟩
        · exact .inr held

theorem forward_offers (fair : Fair stamp takes) (rows : List ρ) (cache : κ → Option ρ) :
    Forward stamp cache (rows.foldl (offer key takes) cache) := by
  induction rows generalizing cache with
  | nil => exact .refl cache
  | cons r rows ih => exact (forward_offer fair cache r).trans (ih _)

theorem keeps_offers (fair : Fair stamp takes) {rows : List ρ} {r : ρ} (listed : r ∈ rows)
    (cache : κ → Option ρ) : Keeps key stamp (rows.foldl (offer key takes) cache) r := by
  induction rows generalizing cache with
  | nil => cases listed
  | cons first rows ih =>
      rcases List.mem_cons.mp listed with rfl | later
      · exact (forward_offers fair rows _).keeps (keeps_offer fair cache r)
      · exact ih later _

end Batch

omit [DecidableEq κ] in
theorem held_of_evict {aged : κ → Bool} {cache : κ → Option ρ} {k : κ} {p : ρ}
    (held : evict aged cache k = some p) : cache k = some p := by
  unfold evict at held
  split at held
  · cases held
  · exact held

end MassaIndexer.Theory.Freshest
