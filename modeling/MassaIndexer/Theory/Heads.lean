/-
# Theory.Heads -- the first rows of ordered lists, capped before and after

A list in the order of `R` has no row twice, and a row is among its first `n` exactly when fewer
than `n` rows come before it (`mem_take_iff`). From that follows when a list that was capped early,
before it was merged with others or filtered, has the head of the whole list (`take_eq_take_iff`),
and when it has all rows that count (`filter_eq_filter_iff`).
-/
import Mathlib.Data.List.Nodup
import Mathlib.Data.List.Perm.Subperm
import Mathlib.Tactic.Common

namespace MassaIndexer.Theory.Heads

set_option autoImplicit false

variable {α : Type} {R : α → α → Prop}

section Ordered

variable (asymm : ∀ x y, R x y → ¬ R y x)

include asymm

theorem nodup_of_ordered {l : List α} (ordered : l.Pairwise R) : l.Nodup := by
  refine ordered.imp ?_
  rintro x y before rfl
  exact asymm x x before before

/-- Among the first `n` are the rows with fewer than `n` before them. -/
theorem mem_take_iff [DecidableRel R] {l : List α} (ordered : l.Pairwise R) {x : α} (n : Nat) :
    x ∈ l.take n ↔ x ∈ l ∧ l.countP (fun y => R y x) < n := by
  by_cases listed : x ∈ l
  · obtain ⟨before, after, rfl⟩ := List.append_of_mem listed
    obtain ⟨-, rest, apart⟩ := List.pairwise_append.mp ordered
    have itself : ¬ R x x := fun loop => asymm x x loop loop
    have early : before.countP (fun y => R y x) = before.length := by
      rw [List.countP_eq_length]
      intro y member
      exact decide_eq_true (apart y member x List.mem_cons_self)
    have late : after.countP (fun y => R y x) = 0 := by
      rw [List.countP_eq_zero]
      intro y member
      have later := (List.pairwise_cons.mp rest).1 y member
      simpa using asymm x y later
    rw [List.countP_append, List.countP_cons_of_neg (by simpa using itself), early, late,
      Nat.add_zero]
    constructor
    · intro taken
      refine ⟨listed, ?_⟩
      by_contra over_
      rw [List.take_append_of_le_length (by omega)] at taken
      exact itself (apart x (List.mem_of_mem_take taken) x List.mem_cons_self)
    · rintro ⟨-, few⟩
      rw [List.take_append, List.mem_append]
      refine .inr ?_
      obtain ⟨k, room⟩ : ∃ k, n - before.length = k + 1 := ⟨n - before.length - 1, by omega⟩
      rw [room, List.take_succ_cons]
      exact List.mem_cons_self
  · exact ⟨fun taken => absurd (List.mem_of_mem_take taken) listed, fun both => absurd both.1 listed⟩

end Ordered

/-! ## Merged -/

section Transitive
variable (asymm : ∀ x y, R x y → ¬ R y x) (trans : ∀ {x y z}, R x y → R y z → R x z)

include asymm

/-- Rows with fewer before them come first. -/
theorem countP_le_countP [DecidableRel R] {l m : List α} (ordered : l.Pairwise R) {x y : α}
    (sub : ∀ z ∈ l, R z x → z ∈ m ∧ R z y) : l.countP (fun z => R z x) ≤ m.countP (fun z => R z y) := by
  rw [List.countP_eq_length_filter, List.countP_eq_length_filter]
  refine (List.subperm_of_subset ((nodup_of_ordered asymm ordered).filter _) ?_).length_le
  intro z member
  obtain ⟨listed, before⟩ := List.mem_filter.mp member
  obtain ⟨listed', before'⟩ := sub z listed (of_decide_eq_true before)
  exact List.mem_filter.mpr ⟨listed', decide_eq_true before'⟩

include trans

/-- Two lists in one order have the same head when they agree on the rows with fewer than `n` rows of the
second before them. -/
theorem take_eq_take_iff [DecidableRel R] {l all : List α} (ordered : l.Pairwise R)
    (ordered' : all.Pairwise R) (total : ∀ x ∈ l, ∀ y ∈ all, x = y ∨ R x y ∨ R y x) (n : Nat) :
    l.take n = all.take n ↔
      ∀ x, all.countP (fun y => R y x) < n → (x ∈ l ↔ x ∈ all) := by
  constructor
  · intro same x few
    constructor
    · intro listed
      by_cases first : x ∈ l.take n
      · rw [same] at first
        exact List.mem_of_mem_take first
      · exfalso
        have many : n ≤ l.countP fun y => R y x := by
          by_contra room
          exact first ((mem_take_iff asymm ordered n).mpr ⟨listed, by omega⟩)
        have parts := List.pairwise_append.mp (show (l.take n ++ l.drop n).Pairwise R by
          rw [List.take_append_drop]
          exact ordered)
        have behind : x ∈ l.drop n := by
          rw [← List.take_append_drop n l, List.mem_append] at listed
          exact listed.resolve_left first
        have long : n < l.length := by
          have some_ := List.length_pos_of_mem behind
          rw [List.length_drop] at some_
          omega
        have early : (all.take n).countP (fun y => R y x) = n := by
          rw [← same, List.countP_eq_length.mpr, List.length_take, Nat.min_eq_left (by omega)]
          intro y member
          exact decide_eq_true (parts.2.2 y member x behind)
        have most := (List.take_sublist n all).countP_le (p := fun y => decide (R y x))
        omega
    · intro listed
      have first : x ∈ all.take n := (mem_take_iff asymm ordered' n).mpr ⟨listed, few⟩
      rw [← same] at first
      exact List.mem_of_mem_take first
  · intro agree
    have earlier : ∀ z x, R z x → all.countP (fun y => R y z) ≤ all.countP (fun y => R y x) := by
      intro z x before
      refine countP_le_countP asymm ordered' ?_
      intro w listed first
      exact ⟨listed, trans first before⟩
    have members : ∀ x, x ∈ l.take n ↔ x ∈ all.take n := by
      intro x
      rw [mem_take_iff asymm ordered, mem_take_iff asymm ordered']
      constructor
      · rintro ⟨listed, few⟩
        by_cases early : all.countP (fun y => R y x) < n
        · exact ⟨(agree x early).mp listed, early⟩
        · exfalso
          have all_before : ∀ y ∈ all.take n, y ∈ l ∧ R y x := by
            intro y first
            obtain ⟨listed', few'⟩ := (mem_take_iff asymm ordered' n).mp first
            refine ⟨(agree y few').mpr listed', ?_⟩
            rcases total x listed y listed' with rfl | later | before
            · exact absurd few' early
            · exact absurd (Nat.lt_of_le_of_lt (earlier x y later) few') early
            · exact before
          have full : (all.take n).length = n := by
            have most := List.countP_le_length (p := fun y => decide (R y x)) (l := all)
            rw [List.length_take]
            omega
          have nodup := (List.take_sublist n all).nodup (nodup_of_ordered asymm ordered')
          have inside : all.take n ⊆ l.filter fun y => R y x := fun y first =>
            List.mem_filter.mpr ⟨(all_before y first).1, decide_eq_true (all_before y first).2⟩
          have bound := (List.subperm_of_subset nodup inside).length_le
          rw [full, ← List.countP_eq_length_filter] at bound
          omega
      · rintro ⟨listed, few⟩
        refine ⟨(agree x few).mpr listed, Nat.lt_of_le_of_lt ?_ few⟩
        refine countP_le_countP asymm ordered ?_
        intro z listed' before
        exact ⟨(agree z (Nat.lt_of_le_of_lt (earlier z x before) few)).mp listed', before⟩
    have same := (List.perm_ext_iff_of_nodup ((List.take_sublist n l).nodup
        (nodup_of_ordered asymm ordered))
      ((List.take_sublist n all).nodup (nodup_of_ordered asymm ordered'))).mpr members
    refine same.eq_of_pairwise ?_ (ordered.sublist (List.take_sublist n l))
      (ordered'.sublist (List.take_sublist n all))
    intro x y _ _ before after
    exact absurd after (asymm x y before)
end Transitive

/-! ## Filtered -/

/-- A part of a list has all rows that count when no row that counts is outside it. -/
theorem filter_eq_filter_iff {p q : α → Bool} {few all : List α} (sub : few.Sublist all)
    (nodup : all.Nodup) (counts : ∀ x, p x = true → q x = true) :
    few.filter p = all.filter q ↔ ∀ x ∈ all, q x = true → x ∈ few ∧ p x = true := by
  constructor
  · intro same x member counted
    have listed : x ∈ all.filter q := List.mem_filter.mpr ⟨member, counted⟩
    rw [← same] at listed
    exact List.mem_filter.mp listed
  · intro has
    have part : (few.filter p).Sublist (all.filter q) := by
      refine (sub.filter p).trans ?_
      exact List.monotone_filter_right all fun x here => counts x here
    refine part.eq_of_length_le ?_
    refine (List.subperm_of_subset (nodup.filter q) ?_).length_le
    intro x member
    obtain ⟨member, counted⟩ := List.mem_filter.mp member
    exact List.mem_filter.mpr (has x member counted)

end MassaIndexer.Theory.Heads
