/-
# Theory.Additive -- writing a batch of rows into a keyed store

A store gives for each key the row there, and a batch is written row by row. Rows carry a key and an
identity; a batch fits a store (`Fits`) when none of its rows would replace a row of another identity,
stored or of the batch itself. What fits is additive: every row stays under its key with its identity
(`Fits.keeps`), every row of the batch lands (`Fits.lands`), and writing what is there already changes
nothing (`fill_of_stored`).
-/
import Mathlib.Logic.Function.Basic
import Mathlib.Tactic.Common

namespace MassaIndexer.Theory.Additive

set_option autoImplicit false

variable {K V I : Type} [DecidableEq K] {key : V → K} {ident : V → I}

/-- The store after a batch. -/
def fill (key : V → K) (store : K → Option V) (batch : List V) : K → Option V :=
  batch.foldl (fun store v => Function.update store (key v) (some v)) store

variable {store : K → Option V} {batch : List V} {k : K} {v : V}

@[simp] theorem fill_nil : fill key store [] = store := rfl

theorem fill_cons (v : V) (batch : List V) :
    fill key store (v :: batch) = fill key (Function.update store (key v) (some v)) batch := rfl

/-- A key none of the batch has. -/
theorem fill_of_forall_ne (others : ∀ v ∈ batch, key v ≠ k) : fill key store batch k = store k := by
  induction batch generalizing store with
  | nil => rfl
  | cons v batch ih =>
      obtain ⟨head, tail⟩ := List.forall_mem_cons.mp others
      rw [fill_cons, ih tail, Function.update_of_ne head.symm]

/-- A row after a batch is one of the batch, or was there and met none of it. -/
theorem mem_or_of_fill (found : fill key store batch k = some v) :
    (v ∈ batch ∧ key v = k) ∨ (store k = some v ∧ ∀ r ∈ batch, key r ≠ k) := by
  induction batch generalizing store with
  | nil => exact .inr ⟨found, by simp⟩
  | cons r batch ih =>
      rw [fill_cons] at found
      rcases ih found with ⟨member, here⟩ | ⟨before, others⟩
      · exact .inl ⟨List.mem_cons_of_mem _ member, here⟩
      · by_cases same : key r = k
        · subst same
          rw [Function.update_self] at before
          obtain rfl := Option.some.inj before
          exact .inl ⟨List.mem_cons_self, rfl⟩
        · rw [Function.update_of_ne (Ne.symm same)] at before
          exact .inr ⟨before, List.forall_mem_cons.mpr ⟨same, others⟩⟩

theorem fill_isSome_of_mem (member : v ∈ batch) : (fill key store batch (key v)).isSome := by
  induction batch generalizing store v with
  | nil => exact absurd member (by simp)
  | cons r batch ih =>
      rw [fill_cons]
      rcases List.mem_cons.mp member with rfl | later
      · by_cases again : ∃ r ∈ batch, key r = key v
        · obtain ⟨r, member, same⟩ := again
          rw [← same]
          exact ih member
        · rw [fill_of_forall_ne fun r member same => again ⟨r, member, same⟩, Function.update_self]
          rfl
      · exact ih later

/-- A row no other row of the batch is in the way of. -/
theorem fill_of_mem (member : v ∈ batch) (alone : ∀ r ∈ batch, key r = key v → r = v) :
    fill key store batch (key v) = some v := by
  have filled : (fill key store batch (key v)).isSome := fill_isSome_of_mem member
  obtain ⟨r, found⟩ := Option.isSome_iff_exists.mp filled
  rcases mem_or_of_fill found with ⟨other, same⟩ | ⟨-, others⟩
  · rw [found, alone r other same]
  · exact absurd rfl (others v member)

/-- Writing what is there changes nothing. -/
theorem fill_of_stored (stored : ∀ v ∈ batch, store (key v) = some v) :
    fill key store batch = store := by
  induction batch with
  | nil => rfl
  | cons v batch ih =>
      obtain ⟨head, tail⟩ := List.forall_mem_cons.mp stored
      rw [fill_cons, ← head, Function.update_eq_self, ih tail]

/-! ## Batches that fit -/

/-- No row of the batch replaces a row of another identity. -/
structure Fits (key : V → K) (ident : V → I) (store : K → Option V) (batch : List V) : Prop where
  stored : ∀ v ∈ batch, ∀ r, store (key v) = some r → ident r = ident v
  apart : ∀ v ∈ batch, ∀ r ∈ batch, key r = key v → ident r = ident v

namespace Fits

variable (fits : Fits key ident store batch)

include fits

/-- Every row stays under its key with its identity. -/
theorem keeps {r : V} (found : store k = some r) :
    ∃ r', fill key store batch k = some r' ∧ ident r' = ident r := by
  by_cases met : ∃ v ∈ batch, key v = k
  · obtain ⟨v, member, rfl⟩ := met
    have filled : (fill key store batch (key v)).isSome := fill_isSome_of_mem member
    obtain ⟨r', after⟩ := Option.isSome_iff_exists.mp filled
    refine ⟨r', after, ?_⟩
    rcases mem_or_of_fill after with ⟨written, same⟩ | ⟨before, -⟩
    · exact (fits.apart v member r' written same).trans (fits.stored v member r found).symm
    · rw [Option.some.inj (before.symm.trans found)]
  · refine ⟨r, ?_, rfl⟩
    rw [fill_of_forall_ne fun v member same => met ⟨v, member, same⟩, found]

/-- Every row of the batch lands under its key. -/
theorem lands (member : v ∈ batch) :
    ∃ r, fill key store batch (key v) = some r ∧ ident r = ident v := by
  have filled : (fill key store batch (key v)).isSome := fill_isSome_of_mem member
  obtain ⟨r, after⟩ := Option.isSome_iff_exists.mp filled
  refine ⟨r, after, ?_⟩
  rcases mem_or_of_fill after with ⟨written, same⟩ | ⟨before, -⟩
  · exact fits.apart v member r written same
  · exact fits.stored v member r before

/-- A store that agrees on the keys of the batch is met the same way. -/
theorem of_agree {store' : K → Option V} (agree : ∀ v ∈ batch, store' (key v) = store (key v)) :
    Fits key ident store' batch where
  stored v member r found := fits.stored v member r ((agree v member).symm.trans found)
  apart := fits.apart

end Fits

end MassaIndexer.Theory.Additive
