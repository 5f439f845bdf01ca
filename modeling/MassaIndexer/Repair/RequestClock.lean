/-
# Repair.RequestClock -- the date a signed request to the archive carries

`epoch_to_utc` turns seconds since the epoch into a date and a time of day. The days are counted from the
first of March of year 0 and cut into eras of 400 years.
-/
import Mathlib.Tactic.Common

namespace MassaIndexer.Repair.RequestClock

set_option autoImplicit false

structure Utc where
  year : Int32
  month : UInt32
  day : UInt32
  hour : UInt32
  minute : UInt32
  second : UInt32
deriving DecidableEq

/-- A time before the epoch counts as the epoch. -/
def epochToUtc (secs : Int64) : Utc :=
  let s := (max secs.toInt 0).toNat
  let day : Int := (s / 86400 : Nat)
  let r := s % 86400
  let z := day + 719468
  let era := (if z ≥ 0 then z else z - 146096).tdiv 146097
  let doe := (z - era * 146097).toNat
  let yoe := (doe - doe / 1460 + doe / 36524 - doe / 146096) / 365
  let y : Int := yoe + era * 400
  let doy := doe - (365 * yoe + yoe / 4 - yoe / 100)
  let mp := (5 * doy + 2) / 153
  let d := doy - (153 * mp + 2) / 5 + 1
  let m := if mp < 10 then mp + 3 else mp - 9
  let y := if m ≤ 2 then y + 1 else y
  { year := Int32.ofInt y
    month := UInt32.ofNat m
    day := UInt32.ofNat d
    hour := UInt32.ofNat (r / 3600)
    minute := UInt32.ofNat (r / 60 % 60)
    second := UInt32.ofNat (r % 60) }

example : epochToUtc 951782400 = ⟨2000, 2, 29, 0, 0, 0⟩ := by decide +kernel

end MassaIndexer.Repair.RequestClock
