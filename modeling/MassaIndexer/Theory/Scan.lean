/-
# Theory.Scan -- searching an ordered list through a partial map

A list whose elements stand in increasing order and a map that is defined on some of them: which
value a scan from one end meets first.

* `findSome?_of_first` -- the value at an element before which the map is undefined.
* `getLast?_filterMap_of_last` -- the value at an element after which it is undefined.
* `split_of_filterMap` -- a value the scan passes, with what it passed before and after.
* `filter_take_iff` -- when a limit before a filter is as good as one behind it.
-/
import Mathlib.Tactic.Common

namespace MassaIndexer.Theory.Scan

set_option autoImplicit false

variable {α β : Type} {r : α → α → Prop} {f : α → Option β}

theorem findSome?_of_first {l : List α} (sorted : l.Pairwise r) {x : α} {b : β} (member : x ∈ l)
    (hit : f x = some b) (earlier : ∀ y ∈ l, r y x → f y = none) : l.findSome? f = some b := by
  obtain ⟨before, after, rfl⟩ := List.append_of_mem member
  have passed : before.findSome? f = none := List.findSome?_eq_none_iff.mpr fun y inBefore =>
    earlier y (List.mem_append_left _ inBefore)
      ((List.pairwise_append.mp sorted).2.2 y inBefore x List.mem_cons_self)
  rw [List.findSome?_append, passed, List.findSome?_cons, hit]
  rfl

theorem getLast?_filterMap_of_last {l : List α} (sorted : l.Pairwise r) {x : α} {b : β}
    (member : x ∈ l) (hit : f x = some b) (later : ∀ y ∈ l, r x y → f y = none) :
    (l.filterMap f).getLast? = some b := by
  obtain ⟨before, after, rfl⟩ := List.append_of_mem member
  have rest : after.filterMap f = [] := List.filterMap_eq_nil_iff.mpr fun y inAfter =>
    later y (by simp [inAfter])
      ((List.pairwise_cons.mp (List.pairwise_append.mp sorted).2.1).1 y inAfter)
  rw [List.filterMap_append, List.filterMap_cons_some hit, rest]
  exact List.getLast?_concat

/-- A split of the values comes from a split of the list. -/
theorem split_of_filterMap {l : List α} {before after : List β} {b : β}
    (split : l.filterMap f = before ++ b :: after) :
    ∃ l₁ x l₂, l = l₁ ++ x :: l₂ ∧ l₁.filterMap f = before ∧ f x = some b ∧
      l₂.filterMap f = after := by
  obtain ⟨l₁, rest, rfl, first, tail⟩ := List.filterMap_eq_append_iff.mp split
  obtain ⟨skipped, x, l₂, rfl, undefined, hit, last⟩ := List.filterMap_eq_cons_iff.mp tail
  refine ⟨l₁ ++ skipped, x, l₂, by simp, ?_, hit, last⟩
  rw [List.filterMap_append, first, List.filterMap_eq_nil_iff.mpr undefined, List.append_nil]

/-! ## A limit and a filter -/

section Limit

variable {l : List α} {q : α → Bool} {n : Nat}

theorem length_filter_take_iff : ((l.take n).filter q).length = ((l.filter q).take n).length ↔
    (∀ x ∈ l.drop n, q x = false) ∨ ∀ x ∈ l.take n, q x = true := by
  have whole : (l.filter q).length = ((l.take n).filter q).length + ((l.drop n).filter q).length := by
    rw [← List.length_append, ← List.filter_append, List.take_append_drop]
  have few : ((l.take n).filter q).length ≤ (l.take n).length := List.length_filter_le _ _
  have short : (l.take n).length ≤ n := by
    rw [List.length_take]
    omega
  have none_ : ((l.drop n).filter q).length = 0 ↔ ∀ x ∈ l.drop n, q x = false := by
    rw [List.length_eq_zero_iff, List.filter_eq_nil_iff]
    simp only [Bool.not_eq_true]
  have all : ((l.take n).filter q).length = (l.take n).length ↔ ∀ x ∈ l.take n, q x = true :=
    List.length_filter_eq_length_iff
  rw [List.length_take, ← none_, ← all]
  constructor
  · intro same
    omega
  · rintro (nothing | full)
    · omega
    · by_cases reach : n ≤ l.length
      · have size : (l.take n).length = n := by rw [List.length_take]; omega
        omega
      · have rest : l.drop n = [] := List.drop_eq_nil_iff.mpr (by omega)
        rw [rest, List.filter_nil, List.length_nil] at whole
        omega

/-- **A limit before a filter keeps what one behind it keeps exactly when nothing that passes lies beyond the
limit, or all before it passes.** -/
theorem filter_take_iff : (l.take n).filter q = (l.filter q).take n ↔
    (∀ x ∈ l.drop n, q x = false) ∨ ∀ x ∈ l.take n, q x = true := by
  rw [← length_filter_take_iff]
  refine ⟨congrArg List.length, fun same => ?_⟩
  have whole : l.filter q = (l.take n).filter q ++ (l.drop n).filter q := by
    rw [← List.filter_append, List.take_append_drop]
  have front : (l.take n).filter q <+: l.filter q := by
    rw [whole]
    exact List.prefix_append _ _
  exact (List.prefix_of_prefix_length_le front (List.take_prefix n _) (Nat.le_of_eq same)).eq_of_length same

end Limit

end MassaIndexer.Theory.Scan
