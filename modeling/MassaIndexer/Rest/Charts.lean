/-
# Rest.Charts -- the counts behind the charts

The charts read the newest 20,000 slot rows, keep those whose timestamp lies in the window that ends now,
and add up what they hold by bucket: the executed operations (`throughputCounts`), and the blocks and the
slots whose quotient is the blocks per slot (`blocksPerSlotCounts`). Timestamps are 64-bit words and wrap.
The floating point values that are made of the counts are left out.
-/
import MassaIndexer.Store.NewestSlots
import MassaIndexer.Theory.Tally
import Mathlib.Tactic.Ring

namespace MassaIndexer.Rest.Charts

open MassaIndexer.Theory.Tally
open MassaIndexer.Data.Ids MassaIndexer.Data.Model
open MassaIndexer.Store.ColumnFamilies MassaIndexer.Store.Scans MassaIndexer.Store.NewestSlots

set_option autoImplicit false

/-! ## Windows -/

structure ChartQ where
  windowSecs : Option Int := none
  bucketSecs : Option Int := none

/-- `Ord::clamp`. -/
def clamp (lo hi x : Int) : Int := if x < lo then lo else if hi < x then hi else x

/-- The window and the bucket, in seconds. -/
def ChartQ.resolve (q : ChartQ) : Int × Int :=
  let window := clamp 60 (7 * 24 * 3600) (q.windowSecs.getD 3600)
  let bucket := clamp 10 window (q.bucketSecs.getD (max (window / 120) 10))
  (window, bucket)

/-- What `chain_params` reads of the meta row. -/
structure ChainParams where
  genesisTimestampMs : Int64
  t0Ms : Int64
  threadCount : UInt8

def slotTsMs (slot : Slot) (p : ChainParams) : Int64 :=
  let tc := Int64.ofNat (max p.threadCount.toNat 1)
  p.genesisTimestampMs + slot.period.toInt64 * p.t0Ms + Int64.ofNat slot.thread.toNat * p.t0Ms / tc

def fetchRecentSlots (db : Db) (cap : Nat) : List SlotState := (iterSlotsDesc db none cap).items

theorem fetchRecentSlots_eq (db : Db) (cap : Nat) :
    fetchRecentSlots db cap = ((slotsDesc db).filter visible).take cap := iterSlotsDesc_none db cap

theorem fetchRecentSlots_sublist (db : Db) (cap : Nat) :
    (fetchRecentSlots db cap).Sublist (slotsDesc db) := by
  rw [fetchRecentSlots_eq]
  exact (List.take_sublist _ _).trans List.filter_sublist

/-! ## Counting -/

section Counting

variable (q : ChartQ) (p : ChainParams) (now : Int64)

def fromMs : Int64 := now - Int64.ofInt (q.resolve.1 * 1000)

def bucketMs : Int64 := Int64.ofInt (q.resolve.2 * 1000)

def nBuckets : Nat := (max ((q.resolve.1 + q.resolve.2 - 1) / q.resolve.2) 1).toNat

/-- The bucket of a slot, if its timestamp lies in the window. -/
def bucketOf (row : SlotState) : Option Nat :=
  let ts := slotTsMs row.slot p
  if ts < fromMs q now ∨ now < ts then none
  else some ((ts - fromMs q now) / bucketMs q).toInt.toNat

def executedOps (row : SlotState) : Nat := row.executedOpIds.length

/-- The candidates, and the final block if that is none of them. -/
def blocksOf (row : SlotState) : Nat :=
  row.candidateBlockIds.length +
    if row.finalBlockId.isSome && !row.candidateBlockIds.any (some · = row.finalBlockId) then 1 else 0

/-- The `counts` of `chart_throughput`. -/
def throughputCounts (db : Db) : List Nat :=
  tally (bucketOf q p now) executedOps (nBuckets q) (fetchRecentSlots db 20000)

/-- The `blocks` and the `total` of `chart_blocks_per_slot`. -/
def blocksPerSlotCounts (db : Db) : List Nat × List Nat :=
  let slots := fetchRecentSlots db 20000
  (tally (bucketOf q p now) blocksOf (nBuckets q) slots,
    tally (bucketOf q p now) (fun _ => 1) (nBuckets q) slots)

end Counting

/-! ## The last bucket -/

/-- The quotients of a window by its buckets stay below their number, which is rounded up, but for the
quotient of the whole window when it is exact. -/
theorem quotient_lt_iff {age window bucket : Int} (positive : 0 < bucket) (fits : bucket ≤ window)
    (young : 0 ≤ age) (inside : age ≤ window * 1000) :
    (age / (bucket * 1000)).toNat < (max ((window + bucket - 1) / bucket) 1).toNat ↔
      ¬ (age = window * 1000 ∧ bucket ∣ window) := by
  have some_ : 1 ≤ (window + bucket - 1) / bucket := by
    rw [Int.le_ediv_iff_mul_le positive]
    omega
  have quotient : 0 ≤ age / (bucket * 1000) := Int.ediv_nonneg young (by omega)
  have natural : (age / (bucket * 1000)).toNat < (max ((window + bucket - 1) / bucket) 1).toNat ↔
      age / (bucket * 1000) < (window + bucket - 1) / bucket := by omega
  have parts := Int.mul_ediv_add_emod window bucket
  have low := Int.emod_nonneg window (show bucket ≠ 0 by omega)
  have high := Int.emod_lt_of_pos window positive
  have width : (window + bucket - 1) / bucket * (bucket * 1000) =
      bucket * ((window + bucket - 1) / bucket) * 1000 := by ring
  rw [natural, Int.ediv_lt_iff_lt_mul (by omega), width, Int.dvd_iff_emod_eq_zero]
  by_cases exact_ : window % bucket = 0
  · have number : (window + bucket - 1) / bucket = window / bucket := by
      rw [show window + bucket - 1 = bucket - 1 + bucket * (window / bucket) by omega,
        Int.add_mul_ediv_left _ _ (by omega), Int.ediv_eq_zero_of_lt (by omega) (by omega), Int.zero_add]
    rw [number]
    omega
  · have number : (window + bucket - 1) / bucket = window / bucket + 1 := by
      rw [show window + bucket - 1 = window % bucket - 1 + bucket * (window / bucket + 1) by
          rw [Int.mul_add]
          omega,
        Int.add_mul_ediv_left _ _ (by omega), Int.ediv_eq_zero_of_lt (by omega) (by omega), Int.zero_add]
    rw [number, Int.mul_add]
    omega

theorem clamp_mem {lo hi : Int} (ordered : lo ≤ hi) (x : Int) :
    lo ≤ clamp lo hi x ∧ clamp lo hi x ≤ hi := by
  unfold clamp
  split
  · omega
  · split
    · omega
    · omega

/-- What a query asks for is a bucket within a window of at most a week. -/
theorem resolve_bounds (q : ChartQ) : 10 ≤ q.resolve.2 ∧ q.resolve.2 ≤ q.resolve.1 ∧
    q.resolve.1 ≤ 604800 := by
  obtain ⟨low, high⟩ := clamp_mem (show (60 : Int) ≤ 7 * 24 * 3600 by decide)
    (q.windowSecs.getD 3600)
  obtain ⟨low', high'⟩ := clamp_mem (show (10 : Int) ≤ q.resolve.1 by
    show 10 ≤ clamp 60 (7 * 24 * 3600) (q.windowSecs.getD 3600)
    omega) (q.bucketSecs.getD (max (q.resolve.1 / 120) 10))
  exact ⟨low', high', high⟩

section LastBucket

variable {q : ChartQ} {p : ChainParams} {now : Int64} {row : SlotState} {i : Nat}

theorem toInt_bucketMs (q : ChartQ) : (bucketMs q).toInt = q.resolve.2 * 1000 := by
  have bounds := resolve_bounds q
  exact Int64.toInt_ofInt_of_le (by omega) (by omega)

/-- A window that holds a timestamp has not wrapped. -/
theorem toInt_fromMs (holds : (fromMs q now).toInt ≤ now.toInt) :
    (fromMs q now).toInt = now.toInt - q.resolve.1 * 1000 := by
  have bounds := resolve_bounds q
  have width : (Int64.ofInt (q.resolve.1 * 1000)).toInt = q.resolve.1 * 1000 :=
    Int64.toInt_ofInt_of_le (by omega) (by omega)
  have low := now.le_toInt
  have high := now.toInt_lt
  rw [fromMs, Int64.toInt_sub, width, Int.bmod_def] at holds ⊢
  split at holds
  · next small =>
      rw [if_pos small]
      omega
  · next large =>
      rw [if_neg large]
      omega

/-- The bucket of a slot, in unbounded integers. -/
theorem bucketOf_eq_some : bucketOf q p now row = some i ↔
    (fromMs q now).toInt ≤ (slotTsMs row.slot p).toInt ∧ (slotTsMs row.slot p).toInt ≤ now.toInt ∧
      i = (((slotTsMs row.slot p).toInt - (now.toInt - q.resolve.1 * 1000)) /
        (q.resolve.2 * 1000)).toNat := by
  have bounds := resolve_bounds q
  unfold bucketOf
  dsimp only
  generalize slotTsMs row.slot p = ts
  split
  · next outside =>
      rw [Int64.lt_iff_toInt_lt, Int64.lt_iff_toInt_lt] at outside
      constructor
      · intro none
        exact absurd none (by simp)
      · rintro ⟨after, before, -⟩
        omega
  · next inside =>
      rw [Int64.lt_iff_toInt_lt, Int64.lt_iff_toInt_lt] at inside
      have start : (fromMs q now).toInt = now.toInt - q.resolve.1 * 1000 :=
        toInt_fromMs (by omega)
      have low := ts.le_toInt
      have high := ts.toInt_lt
      have age : (ts - fromMs q now).toInt = ts.toInt - (now.toInt - q.resolve.1 * 1000) := by
        rw [Int64.toInt_sub, start]
        exact Int.bmod_eq_of_le (by omega) (by omega)
      have index : ((ts - fromMs q now) / bucketMs q).toInt =
          (ts.toInt - (now.toInt - q.resolve.1 * 1000)) / (q.resolve.2 * 1000) := by
        rw [Int64.toInt_div_of_ne_right, age, toInt_bucketMs]
        · exact Int.tdiv_eq_ediv_of_nonneg (by omega)
        · intro minus
          have width := toInt_bucketMs q
          rw [minus] at width
          have one : (-1 : Int64).toInt = -1 := rfl
          omega
      rw [index, Option.some_inj]
      constructor
      · rintro rfl
        exact ⟨by omega, by omega, rfl⟩
      · rintro ⟨-, -, rfl⟩
        rfl

/-- A slot of the window has its bucket but for one: the slot of this very moment, when the buckets
divide the window. -/
theorem bucket_lt_iff (found : bucketOf q p now row = some i) :
    i < nBuckets q ↔ ¬ (slotTsMs row.slot p = now ∧ q.resolve.2 ∣ q.resolve.1) := by
  obtain ⟨after, before, rfl⟩ := bucketOf_eq_some.mp found
  have bounds := resolve_bounds q
  have start : (fromMs q now).toInt = now.toInt - q.resolve.1 * 1000 := toInt_fromMs (by omega)
  have same : slotTsMs row.slot p = now ↔ (slotTsMs row.slot p).toInt = now.toInt :=
    Int64.toInt_inj.symm
  rw [same]
  show _ < (max ((q.resolve.1 + q.resolve.2 - 1) / q.resolve.2) 1).toNat ↔ _
  generalize (slotTsMs row.slot p).toInt = ts at *
  generalize q.resolve.1 = window at *
  generalize q.resolve.2 = bucket at *
  rw [quotient_lt_iff (by omega) bounds.2.1 (by omega) (by omega)]
  have whole : ts - (now.toInt - window * 1000) = window * 1000 ↔ ts = now.toInt := by omega
  rw [whole]

end LastBucket

end MassaIndexer.Rest.Charts
