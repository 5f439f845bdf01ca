/-
# Chain.Window -- the periods the arbiter looks at

The lookaround of a slot: 512 periods ahead in increasing order, 512 behind in decreasing order. The
machine word wraps only at the very top, where the periods ahead start again from zero: they are
then all below the slot, and below everything behind it.
-/
import MassaIndexer.Chain.Linkage
import MassaIndexer.Theory.Scan

namespace MassaIndexer.Chain

open MassaIndexer.Data.Ids MassaIndexer.Data.Model MassaIndexer.Peer.Arbiter
open MassaIndexer.Theory.Scan

set_option autoImplicit false

theorem mem_rangeInclusive {lo hi p : UInt64} : p ∈ rangeInclusive lo hi ↔ lo ≤ p ∧ p ≤ hi := by
  have loMax := lo.toNat_lt
  have hiMax := hi.toNat_lt
  have pMax := p.toNat_lt
  unfold rangeInclusive
  simp only [UInt64.le_iff_toNat_le]
  split
  · next le =>
      simp only [List.mem_map, List.mem_range]
      constructor
      · rintro ⟨i, small, rfl⟩
        simp only [UInt64.toNat_add, UInt64.toNat_ofNat']
        omega
      · rintro ⟨above, below⟩
        refine ⟨p.toNat - lo.toNat, by omega, ?_⟩
        apply UInt64.toNat_inj.mp
        simp only [UInt64.toNat_add, UInt64.toNat_ofNat']
        omega
  · next gt =>
      simp only [List.not_mem_nil, false_iff]
      omega

theorem pairwise_rangeInclusive (lo hi : UInt64) :
    (rangeInclusive lo hi).Pairwise (· < ·) := by
  have loMax := lo.toNat_lt
  have hiMax := hi.toNat_lt
  unfold rangeInclusive
  split
  · next le =>
      have le := UInt64.le_iff_toNat_le.mp le
      rw [List.pairwise_map]
      refine List.Pairwise.imp_of_mem ?_ List.pairwise_lt_range
      intro i j iIn jIn lt
      have iSmall := List.mem_range.mp iIn
      have jSmall := List.mem_range.mp jIn
      simp only [UInt64.lt_iff_toNat_lt, UInt64.toNat_add, UInt64.toNat_ofNat']
      omega
  · exact List.Pairwise.nil

theorem pairwise_aheadPeriods (period : UInt64) : (aheadPeriods period).Pairwise (· < ·) :=
  pairwise_rangeInclusive _ _

/-- A period ahead lies above the slot, or the word has wrapped and it lies below everything
behind. -/
theorem above_or_wrapped {period p : UInt64} (ahead : p ∈ aheadPeriods period) :
    period < p ∨ p.toNat + 512 < period.toNat := by
  have pMax := p.toNat_lt
  have periodMax := period.toNat_lt
  unfold aheadPeriods linkageLookaround at ahead
  simp only [mem_rangeInclusive, UInt64.le_iff_toNat_le, UInt64.lt_iff_toNat_lt, UInt64.toNat_add]
    at ahead ⊢
  have one : (1 : UInt64).toNat = 1 := rfl
  have look : (512 : UInt64).toNat = 512 := rfl
  omega

/-- Below the largest period, the periods ahead are above. -/
theorem above_of_room {period p r : UInt64} (ahead : p ∈ aheadPeriods period) (room : period < r) :
    period < p := by
  have rMax := r.toNat_lt
  unfold aheadPeriods linkageLookaround at ahead
  simp only [mem_rangeInclusive, UInt64.le_iff_toNat_le, UInt64.lt_iff_toNat_lt, UInt64.toNat_add]
    at ahead room ⊢
  have one : (1 : UInt64).toNat = 1 := rfl
  have look : (512 : UInt64).toNat = 512 := rfl
  omega

/-- If one period ahead lies above the slot, all do. -/
theorem above_of_above {period p q : UInt64} (qAhead : q ∈ aheadPeriods period)
    (above : period < p) : period < q := by
  have pMax := p.toNat_lt
  have qMax := q.toNat_lt
  have periodMax := period.toNat_lt
  unfold aheadPeriods linkageLookaround at qAhead
  simp only [mem_rangeInclusive, UInt64.le_iff_toNat_le, UInt64.lt_iff_toNat_lt, UInt64.toNat_add]
    at qAhead above ⊢
  have one : (1 : UInt64).toNat = 1 := rfl
  have look : (512 : UInt64).toNat = 512 := rfl
  omega

/-- The first period the arbiter looks back to. -/
theorem toNat_lookback (period : UInt64) :
    (if period < linkageLookaround then 0 else period - linkageLookaround : UInt64).toNat =
      period.toNat - 512 := by
  have look : linkageLookaround.toNat = 512 := rfl
  split
  · next low =>
      have low := UInt64.lt_iff_toNat_lt.mp low
      change 0 = _
      omega
  · next high =>
      have high : linkageLookaround ≤ period := UInt64.not_lt.mp high
      rw [UInt64.toNat_sub_of_le _ _ high, look]

theorem mem_behindPeriods {period p : UInt64} :
    p ∈ behindPeriods period ↔ p < period ∧ period.toNat ≤ p.toNat + 512 := by
  have pMax := p.toNat_lt
  have periodMax := period.toNat_lt
  have lookback := toNat_lookback period
  unfold behindPeriods
  dsimp only
  generalize (if period < linkageLookaround then 0 else period - linkageLookaround : UInt64) = lo
    at lookback ⊢
  simp only [List.mem_reverse, List.mem_map, List.mem_range, UInt64.lt_iff_toNat_lt]
  constructor
  · rintro ⟨i, small, rfl⟩
    simp only [UInt64.toNat_add, UInt64.toNat_ofNat']
    omega
  · rintro ⟨below, near⟩
    refine ⟨p.toNat - lo.toNat, by omega, ?_⟩
    apply UInt64.toNat_inj.mp
    simp only [UInt64.toNat_add, UInt64.toNat_ofNat']
    omega

theorem pairwise_behindPeriods (period : UInt64) : (behindPeriods period).Pairwise (· > ·) := by
  have periodMax := period.toNat_lt
  have lookback := toNat_lookback period
  unfold behindPeriods
  dsimp only
  generalize (if period < linkageLookaround then 0 else period - linkageLookaround : UInt64) = lo
    at lookback ⊢
  rw [List.pairwise_reverse, List.pairwise_map]
  refine List.Pairwise.imp_of_mem ?_ List.pairwise_lt_range
  intro i j iIn jIn lt
  have iSmall := List.mem_range.mp iIn
  have jSmall := List.mem_range.mp jIn
  simp only [gt_iff_lt, UInt64.lt_iff_toNat_lt, UInt64.toNat_add, UInt64.toNat_ofNat']
  omega

/-- A period behind is behind every period ahead that lies above the slot. -/
theorem behind_lt_of_above {period p q : UInt64} (behind : p ∈ behindPeriods period)
    (above : period < q) : p < q := by
  have := (mem_behindPeriods.mp behind).1
  simp only [UInt64.lt_iff_toNat_lt] at this above ⊢
  omega

/-- Nothing behind comes before a period ahead unless the slot does. -/
theorem above_of_behind_lt {period p q : UInt64} (behind : p ∈ behindPeriods period)
    (ahead : q ∈ aheadPeriods period) (lt : p < q) : period < q := by
  have near := (mem_behindPeriods.mp behind).2
  rcases above_or_wrapped ahead with above | wrapped
  · exact above
  · simp only [UInt64.lt_iff_toNat_lt] at lt
    omega

namespace Ledger

variable {L : Ledger}

/-- The periods of the lookaround, the slot's own included. -/
def InWindow (s : Slot) (p : UInt64) : Prop :=
  p ∈ behindPeriods s.period ∨ p = s.period ∨ p ∈ aheadPeriods s.period

/-- Some row of the lookaround is settled with `z`. -/
def NamedNear (L : Ledger) (s : Slot) (z : BlockId) : Prop :=
  ∃ p, InWindow s p ∧ L.finalAt ⟨p, s.thread⟩ = some z

/-- The last final block before a slot, found where the rows behind it stop naming blocks. -/
theorem prevFinal_of_last {s : Slot} {p : UInt64} {b : BlockId}
    (behind : p ∈ behindPeriods s.period) (final : L.finalAt ⟨p, s.thread⟩ = some b)
    (later : ∀ q, p < q → q < s.period → L.finalAt ⟨q, s.thread⟩ = none) :
    L.prevFinal s = some b :=
  findSome?_of_first (pairwise_behindPeriods s.period) behind final fun q inBehind above =>
    later q above (mem_behindPeriods.mp inBehind).1

theorem exists_of_prevFinal {s : Slot} {b : BlockId} (found : L.prevFinal s = some b) :
    ∃ p ∈ behindPeriods s.period, L.finalAt ⟨p, s.thread⟩ = some b :=
  List.exists_of_findSome?_eq_some found

/-- A final block ahead with what the walk passed before it. -/
theorem split_of_ahead {s : Slot} {before after : List BlockId} {q : BlockId}
    (split : L.ahead s = before ++ q :: after) :
    ∃ earlier p later, aheadPeriods s.period = earlier ++ p :: later ∧
      (earlier.filterMap fun p => L.finalAt ⟨p, s.thread⟩) = before ∧
      L.finalAt ⟨p, s.thread⟩ = some q := by
  obtain ⟨earlier, p, later, whole, passed, hit, -⟩ := split_of_filterMap split
  exact ⟨earlier, p, later, whole, passed, hit⟩

end Ledger

end MassaIndexer.Chain
