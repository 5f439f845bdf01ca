/-
# Theory.Tally -- weights summed up by bucket

A tally walks a list once and adds the weight of each row to its bucket; a row without a bucket, or with
one outside the range, is dropped. Each bucket then holds the sum of its rows, and the buckets together
the sum of the rows that were not dropped.
-/
import Mathlib.Algebra.GroupWithZero.Nat
import Mathlib.Tactic.Common

namespace MassaIndexer.Theory.Tally

set_option autoImplicit false

variable {α : Type} (bucket : α → Option Nat) (weight : α → Nat)

/-- One row. -/
def tallyStep (counts : List Nat) (x : α) : List Nat :=
  match bucket x with
  | none => counts
  | some i => counts.modify i (· + weight x)

def tally (n : Nat) (l : List α) : List Nat := l.foldl (tallyStep bucket weight) (List.replicate n 0)

def total (l : List α) : Nat := (l.map weight).sum

variable {bucket weight}

theorem length_tallyStep (counts : List Nat) (x : α) :
    (tallyStep bucket weight counts x).length = counts.length := by
  unfold tallyStep
  split
  · rfl
  · exact List.length_modify _ _ _

theorem length_foldl_tallyStep (counts : List Nat) (l : List α) :
    (l.foldl (tallyStep bucket weight) counts).length = counts.length := by
  induction l generalizing counts with
  | nil => rfl
  | cons x l ih => rw [List.foldl_cons, ih, length_tallyStep]

theorem getElem?_foldl_tallyStep {counts : List Nat} {i c : Nat} (here : counts[i]? = some c)
    (l : List α) : (l.foldl (tallyStep bucket weight) counts)[i]? =
      some (c + total weight (l.filter fun x => bucket x = some i)) := by
  induction l generalizing counts c with
  | nil => exact here
  | cons x l ih =>
      rw [List.foldl_cons]
      by_cases inBucket : bucket x = some i
      · have step : (tallyStep bucket weight counts x)[i]? = some (c + weight x) := by
          unfold tallyStep
          rw [inBucket]
          simp [List.getElem?_modify, here]
        rw [ih step, List.filter_cons_of_pos (by simpa using inBucket), total, total, List.map_cons,
          List.sum_cons, Nat.add_assoc]
      · have step : (tallyStep bucket weight counts x)[i]? = some c := by
          unfold tallyStep
          split
          · exact here
          · next j found =>
              have apart : j ≠ i := by
                rintro rfl
                exact inBucket found
              simp [List.getElem?_modify, apart, here]
        rw [ih step, List.filter_cons_of_neg (by simpa using inBucket)]

theorem sum_modify_add {counts : List Nat} {i : Nat} (within : i < counts.length) (w : Nat) :
    (counts.modify i (· + w)).sum = counts.sum + w := by
  induction counts generalizing i with
  | nil => exact absurd within (Nat.not_lt_zero i)
  | cons c counts ih =>
      cases i with
      | zero =>
          rw [List.modify_zero_cons, List.sum_cons, List.sum_cons]
          omega
      | succ i =>
          rw [List.modify_succ_cons, List.sum_cons, List.sum_cons,
            ih (Nat.lt_of_succ_lt_succ within)]
          omega

theorem sum_foldl_tallyStep (counts : List Nat) (l : List α) :
    (l.foldl (tallyStep bucket weight) counts).sum =
      counts.sum + total weight (l.filter fun x => (bucket x).any (· < counts.length)) := by
  induction l generalizing counts with
  | nil => rfl
  | cons x l ih =>
      rw [List.foldl_cons, ih, length_tallyStep]
      unfold tallyStep
      cases found : bucket x with
      | none => rw [List.filter_cons_of_neg (by simp [found])]
      | some i =>
          dsimp only
          by_cases within : i < counts.length
          · rw [sum_modify_add within, List.filter_cons_of_pos (by simp [found, within]), total, total,
              List.map_cons, List.sum_cons, Nat.add_assoc]
          · rw [List.modify_eq_self (Nat.le_of_not_lt within),
              List.filter_cons_of_neg (by simp [found, within])]

/-- A bucket holds the sum of its rows. -/
theorem getElem?_tally {n i : Nat} (within : i < n) (l : List α) : (tally bucket weight n l)[i]? =
    some (total weight (l.filter fun x => bucket x = some i)) := by
  have here : (List.replicate n 0)[i]? = some 0 := by simp [within]
  rw [tally, getElem?_foldl_tallyStep here, Nat.zero_add]

/-- The buckets hold the sum of the rows that have one. -/
theorem sum_tally (n : Nat) (l : List α) : (tally bucket weight n l).sum =
    total weight (l.filter fun x => (bucket x).any (· < n)) := by
  rw [tally, sum_foldl_tallyStep, List.length_replicate]
  simp

theorem length_tally (n : Nat) (l : List α) : (tally bucket weight n l).length = n := by
  rw [tally, length_foldl_tallyStep, List.length_replicate]

/-! ## Counts -/

/-- Of two counts, the one that takes less is the same only when it takes all that the other takes. -/
theorem countP_eq_countP_iff {p q : α → Bool} {l : List α} (fewer : ∀ x ∈ l, p x = true → q x = true) :
    l.countP p = l.countP q ↔ ∀ x ∈ l, q x = true → p x = true := by
  induction l with
  | nil => simp
  | cons x l ih =>
      have rest := ih fun y member => fewer y (List.mem_cons_of_mem x member)
      have first := fewer x List.mem_cons_self
      have below : l.countP p ≤ l.countP q :=
        List.countP_mono_left fun y member => fewer y (List.mem_cons_of_mem x member)
      rw [List.countP_cons, List.countP_cons, List.forall_mem_cons, ← rest]
      cases counted : p x with
      | true =>
          rw [first counted]
          simp
      | false =>
          cases counts : q x with
          | true =>
              simp
              omega
          | false => simp

end MassaIndexer.Theory.Tally
