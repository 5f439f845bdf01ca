/-
# Theory.Calendar -- the Gregorian calendar, day by day

A date is a year, a month and a day; `next` is the day after it, by the lengths of the months and the rule
of 4, 100 and 400. A calendar that counts days from a first date is the iteration of `next`.

The other half is the count of days inside an era of 400 years whose years begin in March, so that the leap
day comes last: `daysBefore` are the days of an era before its `y`-th year and `yearOf` finds the year of a
day by divisions alone. `yearOf_eq` says that it does. `monthOf` and `dayOf` split a year of this kind.
-/
import Mathlib.Tactic.Common

namespace MassaIndexer.Theory.Calendar

set_option autoImplicit false

/-! ## Dates -/

structure Date where
  year : Nat
  month : Nat
  day : Nat
deriving DecidableEq

def Leap (y : Nat) : Prop := y % 4 = 0 ∧ (y % 100 ≠ 0 ∨ y % 400 = 0)

instance (y : Nat) : Decidable (Leap y) := inferInstanceAs (Decidable (_ ∧ _))

def monthLength (leap : Bool) : Nat → Nat
  | 2 => if leap then 29 else 28
  | 4 | 6 | 9 | 11 => 30
  | _ => 31

namespace Date

structure Valid (d : Date) : Prop where
  month : 1 ≤ d.month ∧ d.month ≤ 12
  day : 1 ≤ d.day ∧ d.day ≤ monthLength (Leap d.year) d.month

/-- The day after. -/
def next (d : Date) : Date :=
  if d.day < monthLength (Leap d.year) d.month then ⟨d.year, d.month, d.day + 1⟩
  else if d.month < 12 then ⟨d.year, d.month + 1, 1⟩
  else ⟨d.year + 1, 1, 1⟩

theorem monthLength_pos (leap : Bool) (m : Nat) : 1 ≤ monthLength leap m := by
  unfold monthLength
  split
  · split <;> decide
  all_goals decide

theorem Valid.next {d : Date} (valid : Valid d) : Valid d.next := by
  obtain ⟨⟨low, high⟩, first, last⟩ := valid
  unfold Date.next
  split
  · next inside => exact ⟨⟨low, high⟩, Nat.le_add_left 1 _, inside⟩
  · split
    · next before => exact ⟨⟨Nat.le_add_left 1 _, before⟩, Nat.le_refl 1, monthLength_pos _ _⟩
    · exact ⟨⟨Nat.le_refl 1, Nat.le_add_left 1 11⟩, Nat.le_refl 1, monthLength_pos _ _⟩

/-- The date `n` days after `start`. -/
def after (start : Date) : Nat → Date
  | 0 => start
  | n + 1 => (after start n).next

theorem valid_after {start : Date} (valid : Valid start) (n : Nat) : Valid (after start n) := by
  induction n with
  | zero => exact valid
  | succ n ih => exact ih.next

end Date

/-! ## Years that begin in March -/

/-- The days of an era before its `y`-th year. -/
def daysBefore (y : Nat) : Nat := 365 * y + y / 4 - y / 100

/-- A year that begins in March is as long as the February in it says. -/
def yearLength (y : Nat) : Nat := if Leap (y + 1) then 366 else 365

def eraLength : Nat := 146097

theorem daysBefore_succ {y : Nat} (inside : y < 399) : daysBefore (y + 1) = daysBefore y + yearLength y := by
  unfold daysBefore yearLength
  by_cases leap : Leap (y + 1)
  · rw [if_pos leap]
    unfold Leap at leap
    omega
  · rw [if_neg leap]
    unfold Leap at leap
    omega

theorem daysBefore_last : daysBefore 399 + yearLength 399 = eraLength := by decide

/-- The days that were not leap days, nearly. -/
def plainDays (d : Nat) : Nat := d - d / 1460 + d / 36524 - d / 146096

/-- The year of a day of an era. -/
def yearOf (d : Nat) : Nat := plainDays d / 365

theorem plainDays_mono {d d' : Nat} (le : d ≤ d') (inside : d' < eraLength) :
    plainDays d ≤ plainDays d' := by
  unfold plainDays
  unfold eraLength at inside
  omega

/-- On the first and the last day of every year the divisions are right. -/
theorem plainDays_ends : ∀ y < 400, 365 * y ≤ plainDays (daysBefore y) ∧
    plainDays (daysBefore y + yearLength y - 1) < 365 * (y + 1) := by
  decide +kernel

theorem yearLength_pos (y : Nat) : 365 ≤ yearLength y ∧ yearLength y ≤ 366 := by
  unfold yearLength
  split <;> omega

theorem daysBefore_end {y : Nat} (inside : y < 400) : daysBefore y + yearLength y ≤ eraLength := by
  rcases Nat.lt_or_eq_of_le (Nat.le_of_lt_succ inside) with before | rfl
  · rw [← daysBefore_succ before]
    unfold daysBefore eraLength
    omega
  · exact Nat.le_of_eq daysBefore_last

/-- A day between the first and the last of a year is of that year. -/
theorem yearOf_eq {y d : Nat} (inside : y < 400) (first : daysBefore y ≤ d)
    (last : d < daysBefore y + yearLength y) : yearOf d = y := by
  have ending := daysBefore_end inside
  obtain ⟨low, high⟩ := plainDays_ends y inside
  have above := plainDays_mono first (by omega)
  have below : plainDays d ≤ plainDays (daysBefore y + yearLength y - 1) :=
    plainDays_mono (by omega) (by omega)
  rw [yearOf]
  omega

/-- Every day of an era is in one of its years. -/
theorem exists_year {d : Nat} (inside : d < eraLength) :
    ∃ y < 400, daysBefore y ≤ d ∧ d < daysBefore y + yearLength y := by
  have upTo : ∀ n ≤ 399, d < daysBefore n + yearLength n →
      ∃ y ≤ n, daysBefore y ≤ d ∧ d < daysBefore y + yearLength y := by
    intro n
    induction n with
    | zero => exact fun _ last => ⟨0, Nat.le_refl 0, Nat.zero_le d, last⟩
    | succ n ih =>
        intro small last
        by_cases first : daysBefore (n + 1) ≤ d
        · exact ⟨n + 1, Nat.le_refl _, first, last⟩
        · rw [daysBefore_succ (by omega)] at first
          obtain ⟨y, le, both⟩ := ih (by omega) (by omega)
          exact ⟨y, by omega, both⟩
  obtain ⟨y, le, both⟩ := upTo 399 (Nat.le_refl _) (by rw [daysBefore_last]; exact inside)
  exact ⟨y, by omega, both⟩

/-! ## Months that begin in March -/

/-- The place of a day's month, counted from March. -/
def monthPlace (doy : Nat) : Nat := (5 * doy + 2) / 153

def monthOf (doy : Nat) : Nat := if monthPlace doy < 10 then monthPlace doy + 3 else monthPlace doy - 9

def dayOf (doy : Nat) : Nat := doy - (153 * monthPlace doy + 2) / 5 + 1

/-- The date of a day of a year that began in the March of year `y`. -/
def dateIn (y doy : Nat) : Date := ⟨if monthOf doy ≤ 2 then y + 1 else y, monthOf doy, dayOf doy⟩

/-- From one day of a year to the next the day of the month grows, or the next month begins. -/
def Steps (leap : Bool) (doy : Nat) : Prop :=
  (dayOf doy < monthLength leap (monthOf doy) ∧ monthOf (doy + 1) = monthOf doy ∧
      dayOf (doy + 1) = dayOf doy + 1) ∨
    (¬ dayOf doy < monthLength leap (monthOf doy) ∧ dayOf (doy + 1) = 1 ∧
      ((monthOf doy < 12 ∧ monthOf (doy + 1) = monthOf doy + 1 ∧ (monthOf (doy + 1) ≤ 2 ↔ monthOf doy ≤ 2)) ∨
        (monthOf doy = 12 ∧ monthOf (doy + 1) = 1)))

instance (leap : Bool) (doy : Nat) : Decidable (Steps leap doy) := inferInstanceAs (Decidable (_ ∨ _))

theorem month_step : ∀ leap : Bool, ∀ doy < 365, (doy + 1 < if leap then 366 else 365) → Steps leap doy := by
  decide +kernel

/-- From March on the length of a month does not depend on the year. -/
theorem monthLength_of_march (leap leap' : Bool) {m : Nat} (late : ¬ m ≤ 2) :
    monthLength leap m = monthLength leap' m := by
  unfold monthLength
  split
  · omega
  all_goals rfl

theorem next_dateIn {y doy : Nat} (inside : doy + 1 < if Leap (y + 1) then 366 else 365) :
    (dateIn y doy).next = dateIn y (doy + 1) := by
  have bound : doy < 365 := by
    split at inside <;> omega
  have length : monthLength (Leap (dateIn y doy).year) (monthOf doy) =
      monthLength (Leap (y + 1)) (monthOf doy) := by
    unfold dateIn
    dsimp only
    split
    · rfl
    · next late => exact monthLength_of_march _ _ late
  have step := month_step (Leap (y + 1)) doy bound (by simpa using inside)
  unfold Date.next
  rw [show (dateIn y doy).month = monthOf doy from rfl, show (dateIn y doy).day = dayOf doy from rfl, length]
  rcases step with ⟨grows, same, day⟩ | ⟨ends, day, ⟨before, month, sameYear⟩ | ⟨december, january⟩⟩
  · rw [if_pos grows, dateIn, dateIn, same, day]
  · rw [if_neg ends, if_pos before, dateIn, dateIn, day, month]
    simp only [← month, sameYear]
  · rw [if_neg ends, if_neg (by omega), dateIn, dateIn, day, january, december]
    rfl

/-- The last day of February is followed by the first of March. -/
theorem next_dateIn_last (y : Nat) :
    (dateIn y ((if Leap (y + 1) then 366 else 365) - 1)).next = dateIn (y + 1) 0 := by
  unfold Date.next dateIn
  split
  · next leap => simp [monthOf, dayOf, monthPlace, monthLength, leap]
  · next plain => simp [monthOf, dayOf, monthPlace, monthLength, plain]

end MassaIndexer.Theory.Calendar
