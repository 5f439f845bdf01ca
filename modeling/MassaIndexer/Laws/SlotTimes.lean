/-
# Laws.SlotTimes -- two functions for the time of a slot

The REST side multiplies a thread's share of the period before it divides by the number of threads
(`slot_ts_ms`); the repair passes divide first (`slot_timestamp_ms`) and saturate the product with the
period. `slot_times_iff` says when the two agree and no operation of either leaves 64 bits, for a slot whose
time itself fits: the remainders the second one drops must not add up to a millisecond, and no product or
sum on the way may be larger than the time they lead to. Where they agree, later slots have later times.
-/
import Mathlib.Tactic.Linarith
import MassaIndexer.Repair.Producers
import MassaIndexer.Rest.Charts

namespace MassaIndexer.Laws.SlotTimes

open MassaIndexer.Data.Model MassaIndexer.Rest.Charts MassaIndexer.Repair.Producers

set_option autoImplicit false

def InI64 (x : Int) : Prop := -2 ^ 63 ≤ x ∧ x < 2 ^ 63

instance (x : Int) : Decidable (InI64 x) := inferInstanceAs (Decidable (_ ∧ _))

/-! ## Division before and after -/

theorem mul_div_eq_iff (n k th : Nat) (positive : 0 < k) :
    th * n / k = th * (n / k) ↔ th * (n % k) < k := by
  have parts : th * n = k * (th * (n / k)) + th * (n % k) := by
    rw [Nat.mul_left_comm, ← Nat.mul_add, Nat.div_add_mod]
  rw [parts, Nat.mul_add_div positive]
  constructor
  · intro same
    exact (Nat.div_eq_zero_iff_lt positive).mp (by omega)
  · intro less
    rw [Nat.div_eq_of_lt less, Nat.add_zero]

/-- The two ways to a thread's share differ exactly where the dropped remainders reach the divisor. -/
theorem mul_tdiv_eq_iff (t : Int) (k th : Nat) (positive : 0 < k) :
    ((th : Int) * t).tdiv k = th * t.tdiv k ↔ th * (t.natAbs % k) < k := by
  rw [← mul_div_eq_iff t.natAbs k th positive]
  rcases Int.natAbs_eq t with nonneg | negative
  · rw [nonneg, Int.natAbs_natCast, ← Int.natCast_mul, ← Int.ofNat_tdiv, ← Int.ofNat_tdiv]
    exact_mod_cast Iff.rfl
  · rw [negative, Int.natAbs_neg, Int.natAbs_natCast, Int.mul_neg, Int.neg_tdiv, Int.neg_tdiv, Int.mul_neg,
      Int.neg_inj, ← Int.natCast_mul, ← Int.ofNat_tdiv, ← Int.ofNat_tdiv]
    exact_mod_cast Iff.rfl

/-- A thread's share of the period is less than the period. -/
theorem natAbs_share_lt {t : Int} {k th : Nat} (below : th < k) (some : t ≠ 0) :
    (((th : Int) * t).tdiv k).natAbs < t.natAbs := by
  rw [Int.natAbs_tdiv, Int.natAbs_mul, Int.natAbs_natCast, Int.natAbs_natCast]
  refine (Nat.div_lt_iff_lt_mul (by omega)).mpr ?_
  rw [Nat.mul_comm t.natAbs]
  exact Nat.mul_lt_mul_of_pos_right below (Int.natAbs_pos.mpr some)

/-! ## Times -/

/-- The same parameters for the repair passes. -/
def timing (p : ChainParams) (fromPeriod toPeriod : UInt64) : ReconstructConfig where
  fromPeriod := fromPeriod
  toPeriod := toPeriod
  threadCount := p.threadCount
  genesisTimestampMs := p.genesisTimestampMs.toInt
  t0Ms := p.t0Ms.toInt

section Times

variable (p : ChainParams) (s : Slot)

def share : Int := ((s.thread.toNat : Int) * p.t0Ms.toInt).tdiv p.threadCount.toNat

/-- The time of a slot. -/
def exactMs : Int := p.genesisTimestampMs.toInt + s.period.toNat * p.t0Ms.toInt + share p s

/-- The period as the code multiplies it. -/
def castPeriod : Int := s.period.toInt64.toInt

/-- No operation of `slot_ts_ms` leaves 64 bits. -/
structure RestFits : Prop where
  periods : InI64 (castPeriod s * p.t0Ms.toInt)
  base : InI64 (p.genesisTimestampMs.toInt + castPeriod s * p.t0Ms.toInt)
  product : InI64 (s.thread.toNat * p.t0Ms.toInt)
  total : InI64 (p.genesisTimestampMs.toInt + castPeriod s * p.t0Ms.toInt + share p s)

/-- No operation of `slot_timestamp_ms` leaves 64 bits, and none saturates. -/
structure RepairFits : Prop where
  periods : InI64 (castPeriod s * p.t0Ms.toInt)
  base : InI64 (p.genesisTimestampMs.toInt + castPeriod s * p.t0Ms.toInt)
  product : InI64 (s.thread.toNat * p.t0Ms.toInt.tdiv p.threadCount.toNat)
  total : InI64 (p.genesisTimestampMs.toInt + castPeriod s * p.t0Ms.toInt +
    s.thread.toNat * p.t0Ms.toInt.tdiv p.threadCount.toNat)

structure TimesAgree (fromPeriod toPeriod : UInt64) : Prop where
  same : (slotTsMs s p).toInt = slotTimestampMs (timing p fromPeriod toPeriod) s
  rest : RestFits p s
  repair : RepairFits p s

/-- The products and the sum before the last one fit, and the remainders do not add up. -/
structure Steady : Prop where
  periods : InI64 (castPeriod s * p.t0Ms.toInt)
  base : InI64 (p.genesisTimestampMs.toInt + castPeriod s * p.t0Ms.toInt)
  product : InI64 (s.thread.toNat * p.t0Ms.toInt)
  remainders : s.thread.toNat * (p.t0Ms.toInt.natAbs % p.threadCount.toNat) < p.threadCount.toNat

variable {p s}

theorem toInt_eq_of_inI64 {x : Int} (fits : InI64 x) : x.bmod (2 ^ 64) = x := by
  obtain ⟨low, high⟩ := fits
  exact Int.bmod_eq_of_le (by omega) (by omega)

theorem castPeriod_eq (s : Slot) : castPeriod s = s.period.toNat ∧ s.period.toNat < 2 ^ 63 ∨
    castPeriod s = s.period.toNat - 2 ^ 64 ∧ 2 ^ 63 ≤ s.period.toNat := by
  have value : castPeriod s = s.period.toBitVec.toInt := rfl
  have bits : s.period.toBitVec.toNat = s.period.toNat := rfl
  rw [value, BitVec.toInt_eq_toNat_cond, bits]
  split <;> omega

theorem toInt_threads (one : 1 ≤ p.threadCount.toNat) :
    (Int64.ofNat (max p.threadCount.toNat 1)).toInt = p.threadCount.toNat := by
  have small := p.threadCount.toNat_lt
  rw [Nat.max_eq_left one, Int64.toInt_ofNat_of_lt (by omega)]

/-- Without overflow `slot_ts_ms` is what it says. -/
theorem toInt_slotTsMs (one : 1 ≤ p.threadCount.toNat) (fits : RestFits p s) :
    (slotTsMs s p).toInt = p.genesisTimestampMs.toInt + castPeriod s * p.t0Ms.toInt + share p s := by
  have small := s.thread.toNat_lt
  have threads := toInt_threads one
  have notMinus : Int64.ofNat (max p.threadCount.toNat 1) ≠ -1 := by
    intro minus
    rw [minus] at threads
    have negative : ((-1 : Int64)).toInt = -1 := by decide
    omega
  have thread : (Int64.ofNat s.thread.toNat).toInt = s.thread.toNat := Int64.toInt_ofNat_of_lt (by omega)
  have periods : (s.period.toInt64 * p.t0Ms).toInt = castPeriod s * p.t0Ms.toInt := by
    rw [Int64.toInt_mul]
    exact toInt_eq_of_inI64 fits.periods
  have part : (Int64.ofNat s.thread.toNat * p.t0Ms / Int64.ofNat (max p.threadCount.toNat 1)).toInt =
      share p s := by
    rw [Int64.toInt_div_of_ne_right _ _ notMinus, Int64.toInt_mul, thread, threads,
      toInt_eq_of_inI64 fits.product, share]
  rw [slotTsMs, Int64.toInt_add, Int64.toInt_add, periods, part, toInt_eq_of_inI64 fits.base,
    toInt_eq_of_inI64 fits.total]

theorem slotTimestampMs_eq (one : 1 ≤ p.threadCount.toNat) (fits : InI64 (castPeriod s * p.t0Ms.toInt))
    (fromPeriod toPeriod : UInt64) : slotTimestampMs (timing p fromPeriod toPeriod) s =
      p.genesisTimestampMs.toInt + castPeriod s * p.t0Ms.toInt +
        s.thread.toNat * p.t0Ms.toInt.tdiv p.threadCount.toNat := by
  obtain ⟨low, high⟩ := fits
  have kept : saturateI64 (castPeriod s * p.t0Ms.toInt) = castPeriod s * p.t0Ms.toInt := by
    rw [saturateI64]
    omega
  show p.genesisTimestampMs.toInt + saturateI64 (castPeriod s * p.t0Ms.toInt) +
    s.thread.toNat * p.t0Ms.toInt.tdiv (max p.threadCount.toNat 1 : Nat) = _
  rw [kept, Nat.max_eq_left one]

/-- A slot whose time fits has a period that fits, unless periods take no time. -/
theorem castPeriod_of_fits (below : s.thread.toNat < p.threadCount.toNat) (fits : InI64 (exactMs p s))
    (base : InI64 (p.genesisTimestampMs.toInt + castPeriod s * p.t0Ms.toInt)) :
    p.t0Ms.toInt = 0 ∨ castPeriod s = s.period.toNat := by
  rcases castPeriod_eq s with ⟨same, -⟩ | ⟨wrapped, -⟩
  · exact .inr same
  · refine .inl (Decidable.byContradiction fun some => ?_)
    have less : (share p s).natAbs < p.t0Ms.toInt.natAbs := natAbs_share_lt below some
    rw [wrapped, Int.sub_mul] at base
    obtain ⟨low, high⟩ := base
    obtain ⟨low', high'⟩ := fits
    rw [exactMs] at low' high'
    generalize (s.period.toNat : Int) * p.t0Ms.toInt = product at low high low' high'
    omega

theorem exactMs_of_cast (below : s.thread.toNat < p.threadCount.toNat) (fits : InI64 (exactMs p s))
    (base : InI64 (p.genesisTimestampMs.toInt + castPeriod s * p.t0Ms.toInt)) :
    exactMs p s = p.genesisTimestampMs.toInt + castPeriod s * p.t0Ms.toInt + share p s := by
  rcases castPeriod_of_fits below fits base with free | same
  · rw [exactMs, free, Int.mul_zero, Int.mul_zero]
  · rw [exactMs, same]

theorem share_eq_iff (one : 1 ≤ p.threadCount.toNat) :
    share p s = s.thread.toNat * p.t0Ms.toInt.tdiv p.threadCount.toNat ↔
      s.thread.toNat * (p.t0Ms.toInt.natAbs % p.threadCount.toNat) < p.threadCount.toNat :=
  mul_tdiv_eq_iff _ _ _ one

theorem natAbs_part_le (th k : Nat) (t : Int) (below : th < k) :
    ((th : Int) * t.tdiv k).natAbs ≤ t.natAbs := by
  rw [Int.natAbs_mul, Int.natAbs_tdiv, Int.natAbs_natCast, Int.natAbs_natCast]
  calc th * (t.natAbs / k) ≤ k * (t.natAbs / k) := Nat.mul_le_mul_right _ (Nat.le_of_lt below)
    _ ≤ t.natAbs := Nat.mul_div_le _ _

theorem timesAgree_iff (below : s.thread.toNat < p.threadCount.toNat) (fits : InI64 (exactMs p s))
    (fromPeriod toPeriod : UInt64) : TimesAgree p s fromPeriod toPeriod ↔ Steady p s := by
  have one : 1 ≤ p.threadCount.toNat := by omega
  constructor
  · intro agree
    have same := agree.same
    rw [toInt_slotTsMs one agree.rest, slotTimestampMs_eq one agree.rest.periods] at same
    exact ⟨agree.rest.periods, agree.rest.base, agree.rest.product,
      (share_eq_iff one).mp (Int.add_left_cancel same)⟩
  · intro steady
    have total := fits
    rw [exactMs_of_cast below fits steady.base] at total
    have parts := (share_eq_iff (s := s) one).mpr steady.remainders
    have rest : RestFits p s := ⟨steady.periods, steady.base, steady.product, total⟩
    refine ⟨?_, rest, ⟨steady.periods, steady.base, ?_, parts ▸ total⟩⟩
    · rw [toInt_slotTsMs one rest, slotTimestampMs_eq one steady.periods, parts]
    · have small := natAbs_part_le s.thread.toNat p.threadCount.toNat p.t0Ms.toInt below
      have low := p.t0Ms.le_toInt
      have high := p.t0Ms.toInt_lt
      rw [← parts] at small ⊢
      rcases eq_or_ne p.t0Ms.toInt 0 with free | some
      · have nothing : share p s = 0 := by rw [share, free, Int.mul_zero, Int.zero_tdiv]
        rw [nothing]
        decide
      · have less : (share p s).natAbs < p.t0Ms.toInt.natAbs := natAbs_share_lt below some
        exact ⟨by omega, by omega⟩

/-- With at least a millisecond for each thread, later slots have later times. -/
theorem exactMs_lt {s' : Slot} (below : s.thread.toNat < p.threadCount.toNat)
    (room : (p.threadCount.toNat : Int) ≤ p.t0Ms.toInt) (earlier : s.lt s' = true) :
    exactMs p s < exactMs p s' := by
  obtain ⟨t, period⟩ := Int.eq_ofNat_of_zero_le (a := p.t0Ms.toInt) (by omega)
  have one : 0 < p.threadCount.toNat := by omega
  have shares : ∀ s : Slot, share p s = (s.thread.toNat * t / p.threadCount.toNat : Nat) := by
    intro s
    rw [share, period, ← Int.natCast_mul, ← Int.ofNat_tdiv]
  have wide : p.threadCount.toNat ≤ t := by omega
  have inside : s.thread.toNat * t / p.threadCount.toNat < t := by
    refine (Nat.div_lt_iff_lt_mul one).mpr ?_
    rw [Nat.mul_comm t]
    exact Nat.mul_lt_mul_of_pos_right below (by omega)
  rw [exactMs, exactMs, shares, shares, period]
  rw [Slot.lt_iff] at earlier
  rcases earlier with period' | ⟨period', thread'⟩
  · have periods : (s.period.toNat + 1) * t ≤ s'.period.toNat * t := Nat.mul_le_mul_right _ period'
    rw [Nat.add_mul, Nat.one_mul] at periods
    generalize s.thread.toNat * t / p.threadCount.toNat = q at inside ⊢
    generalize s'.thread.toNat * t / p.threadCount.toNat = q'
    rw [← Int.natCast_mul, ← Int.natCast_mul]
    omega
  · have more : s.thread.toNat * t / p.threadCount.toNat < s'.thread.toNat * t / p.threadCount.toNat := by
      have step : s.thread.toNat * t + p.threadCount.toNat ≤ s'.thread.toNat * t := by
        calc s.thread.toNat * t + p.threadCount.toNat ≤ (s.thread.toNat + 1) * t := by
              rw [Nat.add_mul, Nat.one_mul]
              omega
          _ ≤ s'.thread.toNat * t := Nat.mul_le_mul_right _ thread'
      have next := Nat.div_le_div_right (c := p.threadCount.toNat) step
      rw [Nat.add_div_right _ one] at next
      exact next
    rw [period']
    exact Int.add_lt_add_left (Int.ofNat_lt.mpr more) _

/-- **For a slot whose time fits, the two functions agree without overflow exactly in the steady case; and
between slots of that kind both are strictly increasing when every thread has a millisecond.** -/
theorem slot_times_iff (p : ChainParams) (s : Slot) (fromPeriod toPeriod : UInt64)
    (below : s.thread.toNat < p.threadCount.toNat) (fits : InI64 (exactMs p s)) :
    (TimesAgree p s fromPeriod toPeriod ↔ Steady p s) ∧
      ∀ s', s'.thread.toNat < p.threadCount.toNat → InI64 (exactMs p s') → Steady p s → Steady p s' →
        (p.threadCount.toNat : Int) ≤ p.t0Ms.toInt → s.lt s' = true →
          (slotTsMs s p).toInt < (slotTsMs s' p).toInt ∧
            slotTimestampMs (timing p fromPeriod toPeriod) s <
              slotTimestampMs (timing p fromPeriod toPeriod) s' := by
  refine ⟨timesAgree_iff below fits fromPeriod toPeriod, ?_⟩
  intro s' below' fits' steady steady' room earlier
  have one : 1 ≤ p.threadCount.toNat := by omega
  have agree := (timesAgree_iff below fits fromPeriod toPeriod).mpr steady
  have agree' := (timesAgree_iff below' fits' fromPeriod toPeriod).mpr steady'
  have less := exactMs_lt below room earlier
  rw [exactMs_of_cast below fits steady.base, exactMs_of_cast below' fits' steady'.base,
    ← toInt_slotTsMs one agree.rest, ← toInt_slotTsMs one agree'.rest] at less
  exact ⟨less, by rw [← agree.same, ← agree'.same]; exact less⟩

end Times

/-! ## Mainnet, and seven threads -/

def mainnet : ChainParams := ⟨1705312800000, 16000, 32⟩

theorem slot_times_iff_mainnet : TimesAgree mainnet ⟨3776822, 16⟩ 0 0 ∧
    (slotTsMs ⟨3776822, 16⟩ mainnet).toInt < (slotTsMs ⟨3776822, 17⟩ mainnet).toInt := by
  have steady : ∀ s : Slot, s = ⟨3776822, 16⟩ ∨ s = ⟨3776822, 17⟩ → Steady mainnet s := by
    rintro s (rfl | rfl)
    all_goals exact ⟨by decide, by decide, by decide, by decide⟩
  have both := slot_times_iff mainnet ⟨3776822, 16⟩ 0 0 (by decide) (by decide)
  exact ⟨both.1.mpr (steady _ (.inl rfl)),
    (both.2 ⟨3776822, 17⟩ (by decide) (by decide) (steady _ (.inl rfl)) (steady _ (.inr rfl)) (by decide)
      (by decide)).1⟩

/-- **With seven threads in sixteen seconds the last one's slot has two times**: 16000 / 7 leaves 5, and six
such remainders make more than four milliseconds. -/
theorem slot_times_differ : InI64 (exactMs ⟨0, 16000, 7⟩ ⟨0, 6⟩) ∧
    (slotTsMs ⟨0, 6⟩ ⟨0, 16000, 7⟩).toInt = 13714 ∧
      slotTimestampMs (timing ⟨0, 16000, 7⟩ 0 0) ⟨0, 6⟩ = 13710 :=
  ⟨by decide, by decide, by decide⟩

end MassaIndexer.Laws.SlotTimes
