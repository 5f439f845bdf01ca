/-
# Theory.Labels -- items filed under labels

A directory files items under labels: `held k x` says that `x` is under `k`. It changes by a `Move`: an
item is filed, taken from one label or from all of them, or a label is collapsed into another, which
takes over all that was under it.

* `single_run_iff` -- every item stays under at most one label exactly when what is filed is not
  already under another one.
* `absent_eraseAt_iff` -- an item taken from one label is gone exactly when it was under no other.
* `collapse_to` -- the target of a collapse has what both labels had.
-/
import Mathlib.Tactic.Common

namespace MassaIndexer.Theory.Labels

set_option autoImplicit false

section Directory

variable {κ α : Type}

/-- Every item is under at most one label. -/
def Single (held : κ → α → Prop) : Prop := ∀ x k l, held k x → held l x → k = l

def Absent (held : κ → α → Prop) (x : α) : Prop := ∀ k, ¬ held k x

inductive Move (κ α : Type) where
  | keep
  | insert (k : κ) (x : α)
  | eraseAt (k : κ) (x : α)
  | erase (x : α)
  | collapse (k l : κ)

namespace Move

/-- What is held after a move. -/
def run (held : κ → α → Prop) : Move κ α → κ → α → Prop
  | .keep => held
  | .insert k x => fun l y => held l y ∨ l = k ∧ y = x
  | .eraseAt k x => fun l y => held l y ∧ ¬ (l = k ∧ y = x)
  | .erase x => fun l y => held l y ∧ y ≠ x
  | .collapse k l => fun m y => m ≠ k ∧ (held m y ∨ m = l ∧ held k y)

end Move

variable {held : κ → α → Prop}

theorem collapse_to {k l : κ} (differ : k ≠ l) (y : α) :
    (Move.collapse k l).run held l y ↔ held k y ∨ held l y := by
  simp [Move.run, differ.symm, or_comm]

theorem Single.mono {fewer : κ → α → Prop} (single : Single held)
    (less : ∀ k x, fewer k x → held k x) : Single fewer :=
  fun x k l atK atL => single x k l (less k x atK) (less l x atL)

theorem single_collapse (single : Single held) (k l : κ) :
    Single ((Move.collapse k l).run held) := by
  rintro y m m' ⟨notK, here⟩ ⟨notK', here'⟩
  rcases here with here | ⟨rfl, here⟩ <;> rcases here' with here' | ⟨rfl, here'⟩
  · exact single y m m' here here'
  · exact absurd (single y m k here here') notK
  · exact absurd (single y m' k here' here) notK'
  · rfl

/-- **When every item stays under at most one label.** -/
theorem single_run_iff (single : Single held) (move : Move κ α) :
    Single (move.run held) ↔ ∀ k x, move = .insert k x → ∀ l, held l x → l = k := by
  cases move with
  | keep => simpa [Move.run] using single
  | insert k x =>
      constructor
      · rintro now k' x' same l here
        obtain ⟨rfl, rfl⟩ := Move.insert.inj same
        exact now x l k (.inl here) (.inr ⟨rfl, rfl⟩)
      · rintro alone y l m (atL | ⟨hereL, same⟩) (atM | ⟨hereM, same'⟩)
        · exact single y l m atL atM
        · rw [hereM]
          exact alone k x rfl l (same' ▸ atL)
        · rw [hereL]
          exact (alone k x rfl m (same ▸ atM)).symm
        · rw [hereL, hereM]
  | eraseAt k x =>
      have less : Single ((Move.eraseAt k x).run held) := single.mono fun l y here => here.1
      exact iff_of_true less (by rintro _ _ ⟨⟩)
  | erase x =>
      have less : Single ((Move.erase x).run held) := single.mono fun l y here => here.1
      exact iff_of_true less (by rintro _ _ ⟨⟩)
  | collapse k l => exact iff_of_true (single_collapse single k l) (by rintro _ _ ⟨⟩)

theorem Absent.run {x : α} (absent : Absent held x) (move : Move κ α)
    (other : ∀ k, move ≠ .insert k x) : Absent (move.run held) x := by
  intro l here
  cases move with
  | keep => exact absent l here
  | insert k y =>
      rcases here with here | ⟨-, rfl⟩
      · exact absent l here
      · exact other k rfl
  | eraseAt k y => exact absent l here.1
  | erase y => exact absent l here.1
  | collapse k m =>
      rcases here.2 with here | ⟨-, here⟩
      · exact absent l here
      · exact absent k here

theorem absent_erase (x : α) : Absent ((Move.erase x).run held) x := fun _ here => here.2 rfl

/-- **An item taken from one label is gone exactly when it was under no other.** -/
theorem absent_eraseAt_iff (k : κ) (x : α) :
    Absent ((Move.eraseAt k x).run held) x ↔ ∀ l, held l x → l = k := by
  simp only [Absent, Move.run, not_and, not_not, and_true]

end Directory

end MassaIndexer.Theory.Labels
