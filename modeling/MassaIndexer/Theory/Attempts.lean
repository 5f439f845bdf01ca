/-
# Theory.Attempts -- fallible writes, one after the other

A list of items is carried out on a state until one is refused; what the earlier ones wrote stays. An item
is settled where carrying it out would change nothing. When an accepted item is settled afterwards and
stays so, the whole list leaves the state as it was exactly if every item ahead of the first one
refused was settled before (`unchanged_iff`).
-/
import Mathlib.Tactic.Common

namespace MassaIndexer.Theory.Attempts

set_option autoImplicit false

variable {α σ ε : Type} (attempt : α → σ → Except ε σ)

/-- The state left, and the error that ended the run. -/
def attemptAll : List α → σ → σ × Option ε
  | [], s => (s, none)
  | a :: rest, s =>
      match attempt a s with
      | .ok s' => attemptAll rest s'
      | .error e => (s, some e)

/-- The items before the first one that `s` refuses. -/
def ahead (items : List α) (s : σ) : List α := items.takeWhile fun a => (attempt a s).isOk

variable {attempt}

theorem attemptAll_ok {a : α} {s s' : σ} (taken : attempt a s = .ok s') (rest : List α) :
    attemptAll attempt (a :: rest) s = attemptAll attempt rest s' := by
  rw [attemptAll, taken]

theorem attemptAll_error {a : α} {s : σ} {e : ε} (refused : attempt a s = .error e) (rest : List α) :
    attemptAll attempt (a :: rest) s = (s, some e) := by
  rw [attemptAll, refused]

theorem attemptAll_append_of_clean {first : List α} {s : σ} (second : List α)
    (clean : (attemptAll attempt first s).2 = none) :
    attemptAll attempt (first ++ second) s =
      attemptAll attempt second (attemptAll attempt first s).1 := by
  induction first generalizing s with
  | nil => rfl
  | cons a rest ih =>
      cases taken : attempt a s with
      | error e =>
          rw [attemptAll_error taken] at clean
          exact absurd clean (by simp)
      | ok s' =>
          rw [attemptAll_ok taken] at clean ⊢
          rw [List.cons_append, attemptAll_ok taken]
          exact ih clean

theorem attemptAll_append_of_refused {first : List α} {s : σ} {e : ε} (second : List α)
    (refused : (attemptAll attempt first s).2 = some e) :
    attemptAll attempt (first ++ second) s = attemptAll attempt first s := by
  induction first generalizing s with
  | nil => exact absurd refused (by simp [attemptAll])
  | cons a rest ih =>
      rw [List.cons_append]
      cases taken : attempt a s with
      | error e' => rw [attemptAll_error taken, attemptAll_error taken]
      | ok s' =>
          rw [attemptAll_ok taken] at refused
          rw [attemptAll_ok taken, attemptAll_ok taken]
          exact ih refused

/-- One more item is accepted where the others lead. -/
theorem clean_concat {items : List α} {a : α} {s : σ} :
    (attemptAll attempt (items ++ [a]) s).2 = none ↔
      (attemptAll attempt items s).2 = none ∧
        (attempt a (attemptAll attempt items s).1).isOk = true := by
  cases ended : (attemptAll attempt items s).2 with
  | some e =>
      rw [attemptAll_append_of_refused [a] ended, ended]
      simp
  | none =>
      rw [attemptAll_append_of_clean [a] ended]
      cases taken : attempt a (attemptAll attempt items s).1 with
      | error e =>
          rw [attemptAll_error taken]
          simp [Except.isOk, Except.toBool]
      | ok s' =>
          rw [attemptAll_ok taken]
          exact iff_of_true rfl ⟨rfl, rfl⟩

theorem attemptAll_map {β : Type} (f : β → α) (items : List β) (s : σ) :
    attemptAll attempt (items.map f) s = attemptAll (fun b => attempt (f b)) items s := by
  induction items generalizing s with
  | nil => rfl
  | cons b rest ih =>
      rw [List.map_cons]
      cases taken : attempt (f b) s with
      | ok s' => rw [attemptAll_ok taken, attemptAll_ok (a := b) taken, ih]
      | error e => rw [attemptAll_error taken, attemptAll_error (a := b) taken]

/-- Items that leave a state as it is leave it so together. -/
theorem attemptAll_idle {items : List α} {s : σ} (idle : ∀ a ∈ items, attempt a s = .ok s) :
    attemptAll attempt items s = (s, none) := by
  induction items with
  | nil => rfl
  | cons a rest ih =>
      obtain ⟨here, later⟩ := List.forall_mem_cons.mp idle
      rw [attemptAll_ok here, ih later]

/-- What a list leaves is what the items before the first one refused leave. -/
theorem exists_clean_prefix (attempt : α → σ → Except ε σ) (items : List α) (s : σ) :
    ∃ first rest, items = first ++ rest ∧
      attemptAll attempt first s = ((attemptAll attempt items s).1, none) := by
  induction items generalizing s with
  | nil => exact ⟨[], [], rfl, rfl⟩
  | cons a items ih =>
      cases taken : attempt a s with
      | error e =>
          refine ⟨[], a :: items, rfl, ?_⟩
          rw [attemptAll_error taken]
          rfl
      | ok s' =>
          obtain ⟨first, rest, whole, left⟩ := ih s'
          refine ⟨a :: first, rest, by rw [whole]; rfl, ?_⟩
          rw [attemptAll_ok taken, attemptAll_ok taken]
          exact left

/-- What being settled means: it is what an accepted item leaves, it stays, and there is nothing to do. -/
structure Settles (attempt : α → σ → Except ε σ) (Settled : α → σ → Prop) : Prop where
  done : ∀ {a s s'}, attempt a s = .ok s' → Settled a s'
  idle : ∀ {a s}, Settled a s → attempt a s = .ok s
  stays : ∀ {a b s s'}, Settled a s → attempt b s = .ok s' → Settled a s'

namespace Settles

variable {Settled : α → σ → Prop} (laws : Settles attempt Settled)

include laws

theorem stays_all {a : α} (items : List α) {s : σ} (settled : Settled a s) :
    Settled a (attemptAll attempt items s).1 := by
  induction items generalizing s with
  | nil => exact settled
  | cons b rest ih =>
      cases taken : attempt b s with
      | error e =>
          rw [attemptAll_error taken]
          exact settled
      | ok s' =>
          rw [attemptAll_ok taken]
          exact ih (laws.stays settled taken)

/-- What a list without a refusal leaves has settled every item. -/
theorem settled_of_clean (items : List α) {s : σ} (clean : (attemptAll attempt items s).2 = none) :
    ∀ a ∈ items, Settled a (attemptAll attempt items s).1 := by
  induction items generalizing s with
  | nil => exact fun a member => by cases member
  | cons b rest ih =>
      cases taken : attempt b s with
      | error e =>
          rw [attemptAll_error taken] at clean
          cases clean
      | ok s' =>
          rw [attemptAll_ok taken] at clean ⊢
          exact List.forall_mem_cons.mpr ⟨laws.stays_all rest (laws.done taken), ih clean⟩

/-- **Nothing changed exactly when everything ahead of the first refusal was settled.** -/
theorem unchanged_iff (items : List α) (s : σ) :
    (attemptAll attempt items s).1 = s ↔ ∀ a ∈ ahead attempt items s, Settled a s := by
  induction items with
  | nil => exact iff_of_true rfl (by simp [ahead])
  | cons a rest ih =>
      unfold ahead
      cases taken : attempt a s with
      | error e =>
          rw [attemptAll_error taken, List.takeWhile_cons_of_neg
              (by simp [taken, Except.isOk, Except.toBool])]
          exact iff_of_true rfl (by simp)
      | ok s' =>
          rw [attemptAll_ok taken, List.takeWhile_cons_of_pos
              (by simp [taken, Except.isOk, Except.toBool])]
          constructor
          · intro same
            have settled : Settled a s := by
              have left := laws.stays_all rest (laws.done taken)
              rwa [show (attemptAll attempt rest s').1 = s from same] at left
            obtain rfl : s' = s := Except.ok.inj (taken.symm.trans (laws.idle settled))
            exact List.forall_mem_cons.mpr ⟨settled, ih.mp same⟩
          · intro settled
            obtain ⟨here, later⟩ := List.forall_mem_cons.mp settled
            obtain rfl : s' = s := Except.ok.inj (taken.symm.trans (laws.idle here))
            exact ih.mpr later

/-- **A second round stops where the first one did and leaves the state as it found it.** It may write by
another clock: what counts is that it leaves settled items alone and refuses what the first refused. -/
theorem attemptAll_again {again : α → σ → Except ε σ}
    (idle : ∀ {a s}, Settled a s → again a s = .ok s)
    (refuses : ∀ {a s e}, attempt a s = .error e → ∃ e', again a s = .error e') (items : List α)
    (s : σ) :
    (attemptAll again items (attemptAll attempt items s).1).1 = (attemptAll attempt items s).1 ∧
      ((attemptAll again items (attemptAll attempt items s).1).2 = none ↔
        (attemptAll attempt items s).2 = none) := by
  induction items generalizing s with
  | nil => exact ⟨rfl, Iff.rfl⟩
  | cons a rest ih =>
      cases taken : attempt a s with
      | error e =>
          obtain ⟨e', refused⟩ := refuses taken
          rw [attemptAll_error taken, attemptAll_error refused]
          exact ⟨rfl, iff_of_false (by simp) (by simp)⟩
      | ok s' =>
          rw [attemptAll_ok taken, attemptAll_ok (idle (laws.stays_all rest (laws.done taken)))]
          exact ih s'

end Settles

end MassaIndexer.Theory.Attempts
