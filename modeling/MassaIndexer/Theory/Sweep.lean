/-
# Theory.Sweep -- walking a range in windows, and filling needs from offers

A sweep takes the numbers from `top` down to zero in windows: together the windows are the whole range,
each number once and in order (`flatMap_windows`).

Offers fill needs: an offer is taken when its key is still needed, and that key is then not needed any
more. What remains is what nothing offered (`remaining_fill`); what was taken is for a key that was
needed (`needed_of_mem_taken`), and each key that was needed and offered got an offer (`taken_of_offered`).
-/
import Mathlib.Data.List.Range
import Mathlib.Tactic.Common

namespace MassaIndexer.Theory.Sweep

set_option autoImplicit false

/-! ## Windows -/

def downTo (low high : Nat) : List Nat := (List.range' low (high + 1 - low)).reverse

@[simp] theorem mem_downTo {low high n : Nat} : n ∈ downTo low high ↔ low ≤ n ∧ n ≤ high := by
  simp only [downTo, List.mem_reverse, List.mem_range'_1]
  omega

theorem nodup_downTo (low high : Nat) : (downTo low high).Nodup :=
  List.pairwise_reverse.mpr (List.Pairwise.imp Ne.symm List.nodup_range')

theorem downTo_append {low high : Nat} (positive : 0 < low) (ordered : low ≤ high) :
    downTo low high ++ downTo 0 (low - 1) = downTo 0 high := by
  have below : low - 1 + 1 - 0 = low := by omega
  have whole : high + 1 - 0 = low + (high + 1 - low) := by omega
  rw [downTo, downTo, downTo, below, whole, ← List.reverse_append, ← List.range'_append_1, Nat.zero_add]

/-- The windows of `size` numbers that a walk from `top` down to zero takes. -/
def windows (size top : Nat) : List (Nat × Nat) :=
  let low := top - (size - 1)
  if low = 0 then [(low, top)] else (low, top) :: windows size (low - 1)
termination_by top
decreasing_by omega

/-- **The windows are the whole range.** -/
theorem flatMap_windows (size top : Nat) :
    (windows size top).flatMap (fun w => downTo w.1 w.2) = downTo 0 top := by
  induction top using Nat.strong_induction_on with
  | _ top ih =>
      rw [windows]
      split
      · next last => rw [List.flatMap_singleton, last]
      · next more =>
          rw [List.flatMap_cons, ih (top - (size - 1) - 1) (by omega)]
          exact downTo_append (by omega) (by omega)

theorem le_of_mem_windows {size top : Nat} {w : Nat × Nat} (taken : w ∈ windows size top) :
    w.1 ≤ w.2 ∧ w.2 ≤ top := by
  induction top using Nat.strong_induction_on with
  | _ top ih =>
      rw [windows] at taken
      split at taken
      · obtain rfl := List.mem_singleton.mp taken
        exact ⟨by dsimp only; omega, Nat.le_refl _⟩
      · rcases List.mem_cons.mp taken with rfl | later
        · exact ⟨by dsimp only; omega, Nat.le_refl _⟩
        · have bound := ih (top - (size - 1) - 1) (by omega) later
          exact ⟨bound.1, by omega⟩

/-! ## Filling needs -/

section Fill

variable {κ α : Type} [DecidableEq κ] (key : α → Option κ)

structure Filling (κ α : Type) where
  remaining : List κ
  taken : List α := []

def take (f : Filling κ α) (offer : α) : Filling κ α :=
  match key offer with
  | none => f
  | some k =>
      if k ∈ f.remaining then { remaining := f.remaining.filter (· ≠ k), taken := f.taken ++ [offer] }
      else f

def fill (f : Filling κ α) (offers : List α) : Filling κ α := offers.foldl (take key) f

variable {key}

@[simp] theorem fill_nil (f : Filling κ α) : fill key f [] = f := rfl

@[simp] theorem fill_cons (f : Filling κ α) (o : α) (offers : List α) :
    fill key f (o :: offers) = fill key (take key f o) offers := rfl

theorem fill_append (f : Filling κ α) (first second : List α) :
    fill key f (first ++ second) = fill key (fill key f first) second :=
  List.foldl_append

theorem remaining_take (f : Filling κ α) (o : α) :
    (take key f o).remaining = f.remaining.filter fun k => key o ≠ some k := by
  unfold take
  cases asked : key o with
  | none => simp
  | some k =>
      dsimp only
      split
      · simp [eq_comm]
      · next gone =>
          refine (List.filter_eq_self.mpr fun l needed => ?_).symm
          simp only [ne_eq, Option.some.injEq, decide_eq_true_eq]
          rintro rfl
          exact gone needed

/-- **What remains is what nothing offered.** -/
theorem remaining_fill (f : Filling κ α) (offers : List α) :
    (fill key f offers).remaining = f.remaining.filter fun k => some k ∉ offers.map key := by
  induction offers generalizing f with
  | nil => simp
  | cons o offers ih =>
      rw [fill_cons, ih, remaining_take, List.filter_filter]
      congr 1
      funext k
      have asked : (key o = some k) = (some k = key o) := propext eq_comm
      simp [asked, Bool.and_comm]

theorem mem_taken_take {f : Filling κ α} {o p : α} (taken : p ∈ (take key f o).taken) :
    p ∈ f.taken ∨ p = o ∧ ∃ k ∈ f.remaining, key o = some k := by
  unfold take at taken
  split at taken
  · exact .inl taken
  · next k asked =>
      split at taken
      · next needed =>
          rcases List.mem_append.mp taken with before | here
          · exact .inl before
          · exact .inr ⟨List.mem_singleton.mp here, k, needed, asked⟩
      · exact .inl taken

/-- **What is taken is for a key that was needed.** -/
theorem needed_of_mem_taken {f : Filling κ α} {offers : List α} {p : α}
    (taken : p ∈ (fill key f offers).taken) :
    p ∈ f.taken ∨ p ∈ offers ∧ ∃ k ∈ f.remaining, key p = some k := by
  induction offers generalizing f with
  | nil => exact .inl taken
  | cons o offers ih =>
      rcases ih taken with before | ⟨offered, k, needed, asked⟩
      · rcases mem_taken_take before with earlier | ⟨rfl, needed⟩
        · exact .inl earlier
        · exact .inr ⟨List.mem_cons_self, needed⟩
      · rw [remaining_take] at needed
        exact .inr ⟨List.mem_cons_of_mem o offered, k, (List.mem_filter.mp needed).1, asked⟩

theorem taken_take_mono {f : Filling κ α} {o p : α} (taken : p ∈ f.taken) :
    p ∈ (take key f o).taken := by
  unfold take
  split
  · exact taken
  · split
    · exact List.mem_append_left _ taken
    · exact taken

theorem taken_fill_mono {f : Filling κ α} {p : α} (offers : List α) (taken : p ∈ f.taken) :
    p ∈ (fill key f offers).taken := by
  induction offers generalizing f with
  | nil => exact taken
  | cons o offers ih => exact ih (taken_take_mono taken)

/-- **A key that is needed and offered gets an offer.** -/
theorem taken_of_offered {f : Filling κ α} {offers : List α} {k : κ} (needed : k ∈ f.remaining)
    (offered : some k ∈ offers.map key) : ∃ p ∈ (fill key f offers).taken, key p = some k := by
  induction offers generalizing f with
  | nil => simp at offered
  | cons o offers ih =>
      by_cases here : key o = some k
      · have taken : o ∈ (take key f o).taken := by
          rw [take, here]
          dsimp only
          rw [if_pos needed]
          exact List.mem_append_right _ (List.mem_singleton.mpr rfl)
        exact ⟨o, taken_fill_mono offers taken, here⟩
      · rw [List.map_cons, List.mem_cons] at offered
        refine ih ?_ (offered.resolve_left (Ne.symm here))
        rw [remaining_take]
        exact List.mem_filter.mpr ⟨needed, by simpa using here⟩

/-- **A key that is needed gets the first offer for it, and no other.** -/
theorem takenFor_fill (f : Filling κ α) (offers : List α) (k : κ) :
    (fill key f offers).taken.filter (key · = some k) =
      f.taken.filter (key · = some k) ++
        if k ∈ f.remaining then (offers.find? (key · = some k)).toList else [] := by
  induction offers generalizing f with
  | nil => simp
  | cons o offers ih =>
      rw [fill_cons, ih, remaining_take]
      by_cases here : key o = some k
      · have gone : k ∉ f.remaining.filter fun l => key o ≠ some l := by simp [here]
        rw [if_neg gone, List.append_nil, List.find?_cons_of_pos (by simpa using here), take, here]
        by_cases needed : k ∈ f.remaining
        · simp [needed, here]
        · simp [needed]
      · have other : (take key f o).taken.filter (key · = some k) =
            f.taken.filter (key · = some k) := by
          unfold take
          split
          · rfl
          · split
            · simp [here]
            · rfl
        have same : (k ∈ f.remaining.filter fun l => key o ≠ some l) = (k ∈ f.remaining) := by
          simp [here]
        rw [other, List.find?_cons_of_neg (by simpa using here)]
        simp only [same]

/-- The books of a filling: each key at most one offer, offers only for needs, and left is what got none. -/
structure Booked (key : α → Option κ) (needs : List κ) (f : Filling κ α) : Prop where
  once : (f.taken.map key).Nodup
  needed : ∀ o ∈ f.taken, ∃ k ∈ needs, key o = some k
  left : f.remaining = needs.filter fun k => some k ∉ f.taken.map key

theorem booked_start (needs : List κ) : Booked key needs { remaining := needs } where
  once := List.nodup_nil
  needed _ member := absurd member List.not_mem_nil
  left := by simp

theorem Booked.take {needs : List κ} {f : Filling κ α} (booked : Booked key needs f) (o : α) :
    Booked key needs (take key f o) := by
  cases asked : key o with
  | none =>
      have same : Sweep.take key f o = f := by rw [Sweep.take, asked]
      rwa [same]
  | some k =>
      by_cases open_ : k ∈ f.remaining
      · have struck : Sweep.take key f o =
            { remaining := f.remaining.filter (· ≠ k), taken := f.taken ++ [o] } := by
          rw [Sweep.take, asked]
          exact if_pos open_
        have fresh := open_
        rw [booked.left, List.mem_filter, decide_eq_true_eq] at fresh
        rw [struck]
        constructor
        · rw [List.map_append, List.nodup_append]
          refine ⟨booked.once, by simp, ?_⟩
          intro x inTaken y last same
          rw [List.map_singleton, List.mem_singleton] at last
          rw [same, last, asked] at inTaken
          exact fresh.2 inTaken
        · intro p member
          rcases List.mem_append.mp member with before | last
          · exact booked.needed p before
          · rw [List.mem_singleton.mp last]
            exact ⟨k, fresh.1, asked⟩
        · show f.remaining.filter _ = _
          rw [booked.left, List.filter_filter]
          refine List.filter_congr fun l _ => ?_
          simp [asked, Bool.and_comm]
      · have same : Sweep.take key f o = f := by
          rw [Sweep.take, asked]
          exact if_neg open_
        rwa [same]

/-- With nothing left to fill, offers change nothing. -/
theorem fill_of_done {f : Filling κ α} (done : f.remaining = []) (offers : List α) :
    fill key f offers = f := by
  induction offers with
  | nil => rfl
  | cons o offers ih =>
      have same : take key f o = f := by
        unfold take
        split
        · rfl
        · rw [done, if_neg List.not_mem_nil]
      rw [fill_cons, same, ih]

end Fill

end MassaIndexer.Theory.Sweep
