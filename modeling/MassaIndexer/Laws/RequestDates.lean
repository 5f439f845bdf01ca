/-
# Laws.RequestDates -- the request clock is the Gregorian calendar

`calendar n` is the date `n` days after the first of January 1970, by the rule for the day after a day.
`epoch_to_utc_exact` says that the divisions of `epoch_to_utc` give that date, and the time of day, for as
long as years fit in 32 bits. The proof follows the days: the year of the era and the month are found on one
day (`civil_eq`), and a day on is the next date (`next_civil`), inside a year, over its end and over the end
of an era.
-/
import Mathlib.Algebra.GroupWithZero.Nat
import MassaIndexer.Repair.RequestClock
import MassaIndexer.Theory.Calendar

namespace MassaIndexer.Laws.RequestDates

open MassaIndexer.Theory.Calendar MassaIndexer.Repair.RequestClock

set_option autoImplicit false

def calendar (n : Nat) : Date := Date.after ⟨1970, 1, 1⟩ n

/-- The date of a day counted from the first of March of year 0. -/
def civil (z : Nat) : Date :=
  let doe := z % eraLength
  dateIn (yearOf doe + z / eraLength * 400) (doe - daysBefore (yearOf doe))

/-- The date of the `doy`-th day of the `y`-th year of an era. -/
theorem civil_eq (era : Nat) {y doy : Nat} (year : y < 400) (inside : doy < yearLength y) :
    civil (era * eraLength + (daysBefore y + doy)) = dateIn (y + era * 400) doy := by
  have ending := daysBefore_end year
  have small : daysBefore y + doy < eraLength := by omega
  have rest : (era * eraLength + (daysBefore y + doy)) % eraLength = daysBefore y + doy := by
    rw [Nat.mul_add_mod_self_right, Nat.mod_eq_of_lt small]
  have eras : (era * eraLength + (daysBefore y + doy)) / eraLength = era := by
    rw [Nat.mul_comm, Nat.mul_add_div (by decide), Nat.div_eq_of_lt small, Nat.add_zero]
  have found : yearOf (daysBefore y + doy) = y := yearOf_eq year (Nat.le_add_right _ _) (by omega)
  rw [civil, rest, eras, found, Nat.add_sub_cancel_left]

/-- The rule of 400: the years of every era are as long as those of the first. -/
theorem leap_of_era (y era : Nat) : Leap (y + era * 400 + 1) ↔ Leap (y + 1) := by
  unfold Leap
  omega

theorem yearLength_era (y era : Nat) : yearLength y = if Leap (y + era * 400 + 1) then 366 else 365 := by
  rw [yearLength]
  simp only [leap_of_era]

/-- Every day is some day of some year of some era. -/
theorem exists_day (z : Nat) : ∃ era y doy, y < 400 ∧ doy < yearLength y ∧
    z = era * eraLength + (daysBefore y + doy) := by
  obtain ⟨y, year, first, last⟩ := exists_year (Nat.mod_lt z (by decide : 0 < eraLength))
  refine ⟨z / eraLength, y, z % eraLength - daysBefore y, year, by omega, ?_⟩
  rw [Nat.add_sub_cancel' first, Nat.mul_comm, Nat.div_add_mod]

theorem next_civil (z : Nat) : civil (z + 1) = (civil z).next := by
  obtain ⟨era, y, doy, year, inside, rfl⟩ := exists_day z
  rw [civil_eq era year inside]
  have length := yearLength_era y era
  by_cases more : doy + 1 < yearLength y
  · have same : era * eraLength + (daysBefore y + doy) + 1 = era * eraLength + (daysBefore y + (doy + 1)) := by
      omega
    rw [next_dateIn (length ▸ more), ← civil_eq era year more, same]
  · have last : doy = (if Leap (y + era * 400 + 1) then 366 else 365) - 1 := by omega
    rw [last, next_dateIn_last, ← last]
    have ended : doy + 1 = yearLength y := by omega
    rcases Nat.lt_or_eq_of_le (Nat.le_of_lt_succ year) with before | rfl
    · have first : civil (era * eraLength + (daysBefore (y + 1) + 0)) = dateIn (y + 1 + era * 400) 0 :=
        civil_eq era (by omega) (Nat.lt_of_lt_of_le (by decide) (yearLength_pos _).1)
      have same : era * eraLength + (daysBefore y + doy) + 1 = era * eraLength + (daysBefore (y + 1) + 0) := by
        rw [daysBefore_succ before, ← ended]
        omega
      rw [show y + era * 400 + 1 = y + 1 + era * 400 by omega, ← first, same]
    · have first : civil ((era + 1) * eraLength + (daysBefore 0 + 0)) = dateIn (0 + (era + 1) * 400) 0 :=
        civil_eq (era + 1) (by decide) (by decide)
      have total := daysBefore_last
      have same : era * eraLength + (daysBefore 399 + doy) + 1 =
          (era + 1) * eraLength + (daysBefore 0 + 0) := by
        rw [Nat.add_mul, Nat.one_mul, ← total, ← ended, show daysBefore 0 = 0 from rfl]
        omega
      rw [show 399 + era * 400 + 1 = 0 + (era + 1) * 400 by omega, ← first, same]

theorem civil_eq_calendar (n : Nat) : civil (n + 719468) = calendar n := by
  induction n with
  | zero => decide +kernel
  | succ n ih =>
      rw [Nat.add_right_comm, next_civil, ih]
      rfl

/-- Years go by at most every 366 days. -/
theorem year_civil (z : Nat) : z < 366 * ((civil z).year + 1) := by
  obtain ⟨era, y, doy, year, inside, rfl⟩ := exists_day z
  have long := yearLength_pos y
  rw [civil_eq era year inside]
  have least : y + era * 400 ≤ (dateIn (y + era * 400) doy).year := by
    unfold dateIn
    dsimp only
    split <;> omega
  unfold daysBefore eraLength
  omega

/-! ## The code -/

/-- The divisions of the code are those of `civil`. -/
theorem epochToUtc_eq {secs : Nat} (small : secs < 2 ^ 63) :
    let date := civil (secs / 86400 + 719468)
    epochToUtc (Int64.ofNat secs) =
      ⟨Int32.ofInt date.year, UInt32.ofNat date.month, UInt32.ofNat date.day,
        UInt32.ofNat (secs % 86400 / 3600), UInt32.ofNat (secs % 86400 / 60 % 60),
        UInt32.ofNat (secs % 86400 % 60)⟩ := by
  intro date
  have start : (max (Int64.ofNat secs).toInt 0).toNat = secs := by
    rw [Int64.toInt_ofNat_of_lt small]
    omega
  have days : ((secs / 86400 : Nat) : Int) + 719468 = (secs / 86400 + 719468 : Nat) := by
    omega
  have era : (if ((secs / 86400 + 719468 : Nat) : Int) ≥ 0 then ((secs / 86400 + 719468 : Nat) : Int)
      else ((secs / 86400 + 719468 : Nat) : Int) - 146096).tdiv 146097 =
        ((secs / 86400 + 719468) / eraLength : Nat) := by
    rw [if_pos (Int.natCast_nonneg _)]
    exact (Int.ofNat_tdiv _ _).symm
  have doe : (((secs / 86400 + 719468 : Nat) : Int) -
      (((secs / 86400 + 719468) / eraLength : Nat) : Int) * 146097).toNat =
        (secs / 86400 + 719468) % eraLength := by
    unfold eraLength
    omega
  unfold epochToUtc
  simp only [start, days, era, doe]
  rw [Utc.mk.injEq]
  refine ⟨congrArg Int32.ofInt ?_, rfl, rfl, rfl, rfl, rfl⟩
  show _ = ((civil (secs / 86400 + 719468)).year : Int)
  rw [civil]
  generalize (secs / 86400 + 719468) / eraLength = e
  generalize (secs / 86400 + 719468) % eraLength = d
  show (if monthOf (d - daysBefore (yearOf d)) ≤ 2 then ((yearOf d : Nat) : Int) + e * 400 + 1
    else (yearOf d : Nat) + e * 400) = ((dateIn (yearOf d + e * 400) (d - daysBefore (yearOf d))).year : Nat)
  unfold dateIn
  dsimp only
  split
  · omega
  · omega

/-- The date of a result. -/
def dateOf (u : Utc) : Date := ⟨u.year.toInt.toNat, u.month.toNat, u.day.toNat⟩

theorem valid_calendar (n : Nat) : (calendar n).Valid :=
  Date.valid_after ⟨⟨by decide, by decide⟩, by decide, by decide⟩ n

/-- A year that fits leaves the seconds far from 64 bits. -/
theorem secs_lt {secs : Nat} (fits : (calendar (secs / 86400)).year < 2 ^ 31) : secs < 2 ^ 63 := by
  have years := year_civil (secs / 86400 + 719468)
  rw [civil_eq_calendar] at years
  omega

theorem monthLength_le (leap : Bool) (m : Nat) : monthLength leap m ≤ 31 := by
  unfold monthLength
  split
  · split <;> decide
  all_goals decide

theorem dateOf_epochToUtc {secs : Nat} (fits : (calendar (secs / 86400)).year < 2 ^ 31) :
    0 ≤ (epochToUtc (Int64.ofNat secs)).year.toInt ∧
      dateOf (epochToUtc (Int64.ofNat secs)) = calendar (secs / 86400) := by
  have valid := valid_calendar (secs / 86400)
  have short := monthLength_le (Leap (calendar (secs / 86400)).year) (calendar (secs / 86400)).month
  have month := valid.month
  have day := valid.day
  rw [epochToUtc_eq (secs_lt fits), civil_eq_calendar]
  have year : (Int32.ofInt (calendar (secs / 86400)).year).toInt = (calendar (secs / 86400)).year := by
    rw [Int32.toInt_ofInt, show Int32.size = 2 ^ 32 from rfl]
    exact Int.bmod_eq_of_le (by omega) (by omega)
  refine ⟨by rw [year]; exact Int.natCast_nonneg _, ?_⟩
  show Date.mk (Int32.ofInt (calendar (secs / 86400)).year).toInt.toNat
    (UInt32.ofNat (calendar (secs / 86400)).month).toNat
    (UInt32.ofNat (calendar (secs / 86400)).day).toNat = _
  rw [year, UInt32.toNat_ofNat', UInt32.toNat_ofNat', Int.toNat_natCast, Nat.mod_eq_of_lt (by omega),
    Nat.mod_eq_of_lt (by omega)]

/-- **For every number of seconds since the epoch whose year fits in 32 bits the result is the date of the
Gregorian calendar, a valid one, with the time of day; and a day later it is the next date.** -/
theorem epoch_to_utc_exact (secs : Nat) (fits : (calendar (secs / 86400)).year < 2 ^ 31) :
    let u := epochToUtc (Int64.ofNat secs)
    0 ≤ u.year.toInt ∧ dateOf u = calendar (secs / 86400) ∧ (dateOf u).Valid ∧
      u.hour.toNat < 24 ∧ u.minute.toNat < 60 ∧ u.second.toNat < 60 ∧
      (u.hour.toNat * 60 + u.minute.toNat) * 60 + u.second.toNat = secs % 86400 ∧
      ((calendar (secs / 86400 + 1)).year < 2 ^ 31 →
        dateOf (epochToUtc (Int64.ofNat (secs + 86400))) = (dateOf u).next) := by
  intro u
  obtain ⟨nonneg, date⟩ := dateOf_epochToUtc fits
  have hour : u.hour.toNat = secs % 86400 / 3600 := by
    show (epochToUtc (Int64.ofNat secs)).hour.toNat = _
    rw [epochToUtc_eq (secs_lt fits), UInt32.toNat_ofNat']
    omega
  have minute : u.minute.toNat = secs % 86400 / 60 % 60 := by
    show (epochToUtc (Int64.ofNat secs)).minute.toNat = _
    rw [epochToUtc_eq (secs_lt fits), UInt32.toNat_ofNat']
    omega
  have second : u.second.toNat = secs % 86400 % 60 := by
    show (epochToUtc (Int64.ofNat secs)).second.toNat = _
    rw [epochToUtc_eq (secs_lt fits), UInt32.toNat_ofNat']
    omega
  refine ⟨nonneg, date, date ▸ valid_calendar _, by omega, by omega, by omega, by omega, ?_⟩
  intro fits'
  have days : (secs + 86400) / 86400 = secs / 86400 + 1 := Nat.add_div_right _ (by decide)
  rw [(dateOf_epochToUtc (days ▸ fits')).2, days, date]
  rfl

/-- The last second of a February with a leap day, and the second after it. -/
theorem epoch_to_utc_exact_leap : dateOf (epochToUtc (Int64.ofNat 951868799)) = ⟨2000, 2, 29⟩ ∧
    dateOf (epochToUtc (Int64.ofNat (951868799 + 86400))) = ⟨2000, 3, 1⟩ := by
  have today : calendar (951868799 / 86400) = ⟨2000, 2, 29⟩ := by
    rw [← civil_eq_calendar]
    decide +kernel
  have tomorrow : calendar (951868799 / 86400 + 1) = ⟨2000, 3, 1⟩ := by
    show (calendar (951868799 / 86400)).next = _
    rw [today]
    decide
  have exact := epoch_to_utc_exact 951868799 (by rw [today]; decide)
  have date := exact.2.1
  have later := exact.2.2.2.2.2.2.2 (by rw [tomorrow]; decide)
  rw [today] at date
  rw [date] at later
  exact ⟨date, later.trans (by decide)⟩

end MassaIndexer.Laws.RequestDates
