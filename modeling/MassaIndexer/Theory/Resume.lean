/-
# Theory.Resume -- a log read from a cursor and a channel joined later

A follower of a growing log takes what is past its cursor from one reading of the log and the rest
from a channel it joins at another moment. `replay_then_live_iff` says when the two pieces make one
clean copy: the reading and the joining must have seen the same items past the cursor, and nothing at
or before the cursor may come through the channel.
-/
import Mathlib.Data.List.Nodup
import Mathlib.Data.List.Infix

namespace MassaIndexer.Theory.Resume

set_option autoImplicit false

variable {α : Type} {whole early sent live : List α} {newer keep : α → Bool}

/-- A filter of a list is never longer than it: something more in front must be nothing. -/
theorem append_eq_filter_iff {front rest : List α} :
    front ++ rest = rest.filter newer ↔ front = [] ∧ rest.filter newer = rest := by
  constructor
  · intro same
    have shorter : (rest.filter newer).length ≤ rest.length := List.length_filter_le newer rest
    have lengths := congrArg List.length same
    rw [List.length_append] at lengths
    have empty : front = [] := List.eq_nil_of_length_eq_zero (by omega)
    rw [empty, List.nil_append] at same
    exact ⟨empty, same.symm⟩
  · rintro ⟨rfl, same⟩
    exact same.symm

/-- Items that stand before `rest` in a list without repetition are not in it. -/
theorem eq_filter_append_iff {front rest : List α} (apart : List.Disjoint front rest) :
    rest = front.filter newer ++ rest.filter newer ↔
      front.filter newer = [] ∧ rest.filter newer = rest := by
  constructor
  · intro same
    have empty : front.filter newer = [] := by
      rw [List.eq_nil_iff_forall_not_mem]
      intro x found
      have inRest : x ∈ rest := by
        rw [same]
        exact List.mem_append_left _ found
      exact apart (List.mem_of_mem_filter found) inRest
    rw [empty, List.nil_append] at same
    exact ⟨empty, same.symm⟩
  · rintro ⟨empty, same⟩
    rw [empty, same, List.nil_append]

theorem filter_eq_nil_iff_forall {l : List α} :
    l.filter newer = [] ↔ ∀ x ∈ l, newer x = false := by
  simp [List.filter_eq_nil_iff]

/-- The reading saw the items `early`, the channel carries what comes after `sent`. -/
theorem replay_then_live_iff_of_all (distinct : (sent ++ live).Nodup) (read : early <+: sent ++ live) :
    early.filter newer ++ live = (sent ++ live).filter newer ↔
      ∀ x ∈ sent ++ live, (newer x = true → (x ∈ early ↔ x ∈ sent)) ∧
        (newer x = false → x ∈ sent) := by
  have apart : List.Disjoint sent live := List.disjoint_of_nodup_append distinct
  have noOld : live.filter newer = live ↔ ∀ x ∈ sent ++ live, newer x = false → x ∈ sent := by
    rw [List.filter_eq_self]
    constructor
    · intro allNew x found old
      rcases List.mem_append.mp found with early | late
      · exact early
      · rw [allNew x late] at old
        cases old
    · intro placed x late
      cases old : newer x with
      | true => rfl
      | false => exact absurd late (fun late => apart (placed x (by simp [late]) old) late)
  have sameSplit : (early.filter newer ++ live = (sent ++ live).filter newer ↔
      (∀ x ∈ sent ++ live, newer x = true → (x ∈ early ↔ x ∈ sent)) ∧
        live.filter newer = live) := by
    rcases List.prefix_or_prefix_of_prefix read (List.prefix_append sent live) with shorter | longer
    · -- the reading came first: what was sent in between is lost
      obtain ⟨between, rfl⟩ := shorter
      have apartBetween : List.Disjoint between live := fun x inBetween inLive =>
        apart (List.mem_append_right _ inBetween) inLive
      have noRepeat : List.Disjoint early between :=
        List.disjoint_of_nodup_append (List.nodup_append.mp distinct).1
      rw [List.filter_append, List.filter_append, List.append_assoc, List.append_cancel_left_eq,
        eq_filter_append_iff apartBetween, filter_eq_nil_iff_forall]
      refine and_congr_left fun _ => ⟨fun old x _ isNew => ⟨List.mem_append_left _, fun found => ?_⟩,
        fun same x found => ?_⟩
      · rcases List.mem_append.mp found with inEarly | inBetween
        · exact inEarly
        · rw [old x inBetween] at isNew
          cases isNew
      · cases isNew : newer x with
        | false => rfl
        | true =>
            have inEarly := (same x (by simp [found]) isNew).mpr (List.mem_append_right _ found)
            exact absurd found (fun found => noRepeat inEarly found)
    · -- the channel was joined first: what was read in between comes twice
      obtain ⟨between, rfl⟩ := longer
      have within : between ⊆ live := by
        obtain ⟨rest, split⟩ := read
        rw [List.append_assoc, List.append_cancel_left_eq] at split
        rw [← split]
        exact List.subset_append_left _ _
      rw [List.filter_append, List.filter_append, List.append_assoc, List.append_cancel_left_eq,
        append_eq_filter_iff, filter_eq_nil_iff_forall]
      refine and_congr_left fun _ => ⟨fun old x _ isNew => ⟨fun found => ?_, List.mem_append_left _⟩,
        fun same x found => ?_⟩
      · rcases List.mem_append.mp found with inSent | inBetween
        · exact inSent
        · rw [old x inBetween] at isNew
          cases isNew
      · cases isNew : newer x with
        | false => rfl
        | true =>
            have inSent := (same x (List.mem_append_right _ (within found)) isNew).mp
              (List.mem_append_right _ found)
            exact absurd (within found) (fun late => apart inSent late)
  rw [sameSplit, noOld]
  exact ⟨fun both x found => ⟨both.1 x found, both.2 x found⟩,
    fun each => ⟨fun x found => (each x found).1, fun x found => (each x found).2⟩⟩

/-- **When a replay and a later subscription make one clean copy of the log**, for the items that pass
a filter. -/
theorem replay_then_live_iff (distinct : whole.Nodup) (read : early <+: whole)
    (split : whole = sent ++ live) :
    (early.filter newer).filter keep ++ live.filter keep = (whole.filter newer).filter keep ↔
      ∀ x ∈ whole, keep x = true → (newer x = true → (x ∈ early ↔ x ∈ sent)) ∧
        (newer x = false → x ∈ sent) := by
  subst split
  have distinctKept : (sent.filter keep ++ live.filter keep).Nodup := by
    rw [← List.filter_append]
    exact distinct.filter _
  have readKept : early.filter keep <+: sent.filter keep ++ live.filter keep := by
    rw [← List.filter_append]
    exact read.filter _
  rw [List.filter_comm (l := early), List.filter_comm (l := sent ++ live), List.filter_append,
    replay_then_live_iff_of_all distinctKept readKept, ← List.filter_append]
  simp only [List.mem_filter]
  constructor
  · intro each x found kept
    simpa [kept] using each x ⟨found, kept⟩
  · rintro each x ⟨found, kept⟩
    simpa [kept] using each x found kept

end MassaIndexer.Theory.Resume
