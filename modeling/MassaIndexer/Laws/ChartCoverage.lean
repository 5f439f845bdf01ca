/-
# Laws.ChartCoverage -- the charts against the slots of their window

A chart is to count every stored slot whose timestamp lies in its window: each bucket the slots that fall
in it, and all buckets together the slots of the window. A slot is left out in three ways. The read of the
newest rows does not see it, because it lies above `(u64::MAX, 31)`; or 20,000 rows that it does see are
newer, whatever their timestamps; or its timestamp is this very moment and the buckets divide the window,
so that its quotient is one past the last bucket. The charts are exact when no slot of the window is any
of these, and only then (`charts_exact_iff`).
-/
import MassaIndexer.Rest.Charts
import MassaIndexer.Chain.Snapshot

namespace MassaIndexer.Laws.ChartCoverage

open MassaIndexer.Theory.Heads MassaIndexer.Theory.Tally
open MassaIndexer.Data.Ids MassaIndexer.Data.Model MassaIndexer.Data.Codec
open MassaIndexer.Store.ColumnFamilies MassaIndexer.Store.Scans MassaIndexer.Store.NewestSlots
open MassaIndexer.Rest.Charts

set_option autoImplicit false

section Window

variable (q : ChartQ) (p : ChainParams) (now : Int64)

def InWindow (row : SlotState) : Prop :=
  fromMs q now ≤ slotTsMs row.slot p ∧ slotTsMs row.slot p ≤ now

instance : DecidablePred (InWindow q p now) := fun row =>
  inferInstanceAs (Decidable (fromMs q now ≤ slotTsMs row.slot p ∧ slotTsMs row.slot p ≤ now))

/-- The timestamp lies in the window, and as many whole buckets after its start. -/
def InBucket (i : Nat) (row : SlotState) : Prop :=
  InWindow q p now row ∧ ((slotTsMs row.slot p - fromMs q now) / bucketMs q).toInt.toNat = i

instance (i : Nat) : DecidablePred (InBucket q p now i) := fun row =>
  inferInstanceAs (Decidable (InWindow q p now row ∧
    ((slotTsMs row.slot p - fromMs q now) / bucketMs q).toInt.toNat = i))

/-- The counts are the sums over all stored slots of the window, by bucket and in all. -/
structure CountsAll (weight : SlotState → Nat) (counts : List Nat) (db : Db) : Prop where
  number : counts.length = nBuckets q
  bucket : ∀ i < nBuckets q,
    counts[i]? = some (total weight ((slotsDesc db).filter (InBucket q p now i)))
  sum : counts.sum = total weight ((slotsDesc db).filter (InWindow q p now))

/-- No bucket takes the slot: its timestamp is this very moment, and the buckets fill the window. -/
def OnTheEdge (row : SlotState) : Prop := slotTsMs row.slot p = now ∧ q.resolve.2 ∣ q.resolve.1

end Window

section Exactness

variable {q : ChartQ} {p : ChainParams} {now : Int64} {db : Db}

theorem bucketOf_eq_some_iff {row : SlotState} {i : Nat} :
    bucketOf q p now row = some i ↔ InBucket q p now i row := by
  unfold bucketOf
  dsimp only
  split
  · next outside =>
      rw [Int64.lt_iff_toInt_lt, Int64.lt_iff_toInt_lt] at outside
      constructor
      · intro found
        cases found
      · rintro ⟨⟨after, before⟩, -⟩
        rw [Int64.le_iff_toInt_le] at after before
        omega
  · next inside =>
      rw [Int64.lt_iff_toInt_lt, Int64.lt_iff_toInt_lt] at inside
      rw [Option.some_inj]
      constructor
      · intro index
        refine ⟨⟨?_, ?_⟩, index⟩
        · rw [Int64.le_iff_toInt_le]
          omega
        · rw [Int64.le_iff_toInt_le]
          omega
      · intro bucket
        exact bucket.2

theorem inWindow_iff {row : SlotState} : InWindow q p now row ↔ ∃ i, bucketOf q p now row = some i := by
  constructor
  · intro within
    exact ⟨_, bucketOf_eq_some_iff.mpr ⟨within, rfl⟩⟩
  · rintro ⟨i, found⟩
    exact (bucketOf_eq_some_iff.mp found).1

/-- A row of the window is counted unless it is on the edge. -/
theorem any_bucketOf {row : SlotState} : (bucketOf q p now row).any (· < nBuckets q) = true ↔
    InWindow q p now row ∧ ¬ OnTheEdge q p now row := by
  constructor
  · intro counted
    cases found : bucketOf q p now row with
    | none =>
        rw [found] at counted
        cases counted
    | some i =>
        rw [found] at counted
        exact ⟨inWindow_iff.mpr ⟨i, found⟩, (bucket_lt_iff found).mp (of_decide_eq_true counted)⟩
  · rintro ⟨within, inner⟩
    obtain ⟨i, found⟩ := inWindow_iff.mp within
    rw [found]
    exact decide_eq_true ((bucket_lt_iff found).mpr inner)

/-- The rows that are counted are those of the window when none of these is left out. -/
theorem counted_eq_iff : (fetchRecentSlots db 20000).filter (fun row =>
      (bucketOf q p now row).any (· < nBuckets q)) = (slotsDesc db).filter (InWindow q p now) ↔
    ∀ row ∈ slotsDesc db, InWindow q p now row →
      visible row ∧ rowsAbove db row < 20000 ∧ ¬ OnTheEdge q p now row := by
  rw [filter_eq_filter_iff (fetchRecentSlots_sublist db 20000) (nodup_slotsDesc db)]
  · refine forall₂_congr fun row stored => ?_
    rw [any_bucketOf, fetchRecentSlots_eq, mem_take_iff newer_asymm ((ordered_slotsDesc db).filter _),
      List.mem_filter]
    constructor
    · intro counted within
      obtain ⟨⟨⟨-, seen⟩, few⟩, -, inner⟩ := counted (decide_eq_true within)
      exact ⟨seen, few, inner⟩
    · intro counted within
      have within := of_decide_eq_true within
      obtain ⟨seen, few, inner⟩ := counted within
      exact ⟨⟨⟨stored, seen⟩, few⟩, within, inner⟩
  · intro row counted
    exact decide_eq_true (any_bucketOf.mp counted).1

/-- A tally of the newest rows counts all of the window when it has every row of it. -/
theorem countsAll_tally (weight : SlotState → Nat)
    (same : (fetchRecentSlots db 20000).filter (fun row =>
      (bucketOf q p now row).any (· < nBuckets q)) = (slotsDesc db).filter (InWindow q p now)) :
    CountsAll q p now weight
      (tally (bucketOf q p now) weight (nBuckets q) (fetchRecentSlots db 20000)) db where
  number := length_tally _ _
  bucket := by
    intro i below
    rw [getElem?_tally below]
    have narrow : ∀ l : List SlotState, ∀ r : SlotState → Bool,
        (∀ row, bucketOf q p now row = some i → r row = true) →
          l.filter (fun row => bucketOf q p now row = some i) =
            (l.filter r).filter fun row => bucketOf q p now row = some i := by
      intro l r wider
      rw [List.filter_filter]
      refine List.filter_congr fun row _ => ?_
      by_cases here : bucketOf q p now row = some i
      · simp [here, wider row here]
      · simp [here]
    have buckets : (slotsDesc db).filter (InBucket q p now i) =
        (slotsDesc db).filter fun row => bucketOf q p now row = some i := by
      refine List.filter_congr fun row _ => ?_
      exact decide_eq_decide.mpr bucketOf_eq_some_iff.symm
    rw [buckets, narrow _ (fun row => (bucketOf q p now row).any (· < nBuckets q)), same, ← narrow]
    · intro row here
      exact decide_eq_true (inWindow_iff.mpr ⟨i, here⟩)
    · intro row here
      rw [here]
      exact decide_eq_true below
  sum := by
    rw [sum_tally, same]

/-- The number of the slots alone says which of them were counted. -/
theorem counted_of_sum
    (all : (tally (bucketOf q p now) (fun _ => 1) (nBuckets q) (fetchRecentSlots db 20000)).sum =
      total (fun _ => 1) ((slotsDesc db).filter (InWindow q p now))) :
    (fetchRecentSlots db 20000).filter (fun row =>
      (bucketOf q p now row).any (· < nBuckets q)) = (slotsDesc db).filter (InWindow q p now) := by
  rw [sum_tally] at all
  refine List.Sublist.eq_of_length (((fetchRecentSlots_sublist db 20000).filter _).trans ?_) ?_
  · refine List.monotone_filter_right _ fun row counted => ?_
    exact decide_eq_true (any_bucketOf.mp counted).1
  · simpa [total] using all

end Exactness

/-- The charts count every slot of their window exactly when every one of them is read, with fewer than
20,000 rows above it, and none is on the edge. -/
theorem charts_exact_iff (db : Db) (q : ChartQ) (p : ChainParams) (now : Int64) :
    (CountsAll q p now executedOps (throughputCounts q p now db) db ∧
      CountsAll q p now blocksOf (blocksPerSlotCounts q p now db).1 db ∧
      CountsAll q p now (fun _ => 1) (blocksPerSlotCounts q p now db).2 db) ↔
    ∀ row ∈ slotsDesc db, InWindow q p now row →
      visible row ∧ rowsAbove db row < 20000 ∧ ¬ OnTheEdge q p now row := by
  rw [← counted_eq_iff]
  constructor
  · rintro ⟨-, -, slots⟩
    exact counted_of_sum slots.sum
  · intro same
    exact ⟨countsAll_tally executedOps same, countsAll_tally blocksOf same,
      countsAll_tally (fun _ => 1) same⟩

/-! ## The slot of this moment -/

/-- Period 10 of a chain that began at 0, with 16 seconds to the period. -/
def currentSlot : SlotState := SlotState.fresh ⟨10, 0⟩ 0

def chain : ChainParams := ⟨0, 16000, 32⟩

/-- A minute in buckets of ten seconds, asked for at the slot's own timestamp. -/
def minute : ChartQ := ⟨some 60, some 10⟩

def newborn : Db := Chain.storeOf [currentSlot] []

theorem current_slot_uncounted :
    ¬ (CountsAll minute chain 160000 executedOps (throughputCounts minute chain 160000 newborn) newborn ∧
      CountsAll minute chain 160000 blocksOf (blocksPerSlotCounts minute chain 160000 newborn).1 newborn ∧
      CountsAll minute chain 160000 (fun _ => 1) (blocksPerSlotCounts minute chain 160000 newborn).2
        newborn) := by
  rintro ⟨-, -, slots⟩
  have same := counted_of_sum slots.sum
  have stored : readBackSlotState currentSlot ∈ slotsDesc newborn := by
    rw [mem_slotsDesc]
    show (Db.empty.writeSlot currentSlot).readSlot currentSlot.slot = _
    rw [Db.readSlot_writeSlot]
    exact if_pos rfl
  obtain ⟨-, -, inner⟩ := counted_eq_iff.mp same _ stored (by decide)
  exact inner ⟨by decide, by decide⟩

end MassaIndexer.Laws.ChartCoverage
