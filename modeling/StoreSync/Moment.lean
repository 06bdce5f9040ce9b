import StoreSync.Number.Binary64

/-!
Points in time, counted in microseconds from 1970-01-01. A moment with a zone and one without
cannot be ordered.
-/
namespace StoreSync

open Number

inductive Moment where
  | zoned (micros : Int)
  | unzoned (micros : Int)
  deriving DecidableEq

inductive ClockFault where
  | notANumber
  | beyondClock
  | beyondCalendar
  | year (year : Int)
  deriving DecidableEq

namespace ClockFault

def message : ClockFault → String
  | notANumber => "Invalid value NaN (not a number)"
  | beyondClock => "timestamp out of range for platform time_t"
  | beyondCalendar => "[Errno 75] Value too large for defined data type"
  | year y => s!"year {y} is out of range"

end ClockFault

namespace Moment

def before? : Moment → Moment → Option Bool
  | zoned a, zoned b => some (a < b)
  | unzoned a, unzoned b => some (a < b)
  | _, _ => none

/-- The year of the Gregorian calendar in which a day lies, counting days from 1970-01-01. -/
def yearOfDay (day : Int) : Int :=
  let z := day + 719468
  let era := Int.fdiv z 146097
  let doe := z - era * 146097
  let yoe := (doe - doe / 1460 + doe / 36524 - doe / 146096) / 365
  let doy := doe - (365 * yoe + yoe / 4 - yoe / 100)
  let march := (5 * doy + 2) / 153
  yoe + era * 400 + (if march ≥ 10 then 1 else 0)

/-- Years are shown as numbers of 32 bits. -/
def shownYear (year : Int) : Int := Int.bmod year (twoPow 32)

def ofParts (seconds micros : Int) : Except ClockFault Moment :=
  if seconds < -(twoPow 63 : Int) ∨ (twoPow 63 : Int) ≤ seconds then .error .beyondClock
  else
    let y := yearOfDay (Int.fdiv seconds 86400)
    if y - 1900 < -(twoPow 31 : Int) ∨ (twoPow 31 : Int) ≤ y - 1900 then .error .beyondCalendar
    else if y < 1 ∨ 9999 < y then .error (.year (shownYear y))
    else .ok (.zoned (seconds * 1000000 + micros))

/-- Whole seconds toward zero, and the rest in microseconds: the rest times a million is a
floating-point number, which is then rounded to a whole number. -/
def ofSeconds : Binary64 → Except ClockFault Moment
  | .nan => .error .notANumber
  | .infinite _ => .error .beyondClock
  | .finite s e =>
      let (num, den) := Binary64.ratio s e
      let whole := Int.tdiv num den
      let micros : Int := match Binary64.mulRatio (num - whole * den, den) (1000000, 1) with
        | .finite t f =>
            let (n, d) := Binary64.ratio t f
            Rounding.halfEvenInt n d
        | _ => 0
      if 1000000 ≤ micros then ofParts (whole + 1) (micros - 1000000)
      else if micros < 0 then ofParts (whole - 1) (micros + 1000000)
      else ofParts whole micros

/-- The floating-point number nearest to a billionth, a quotient with a power of two below. -/
def nanosecond : Int × Nat :=
  match Binary64.round 1 (tenPow 9) with
  | .finite s e => Binary64.ratio s e
  | _ => (0, 1)

/-- The time of a file is kept in microseconds and read as a floating-point number of seconds. -/
def ofFileTime (micros : Int) : Except ClockFault Moment :=
  let seconds := Int.fdiv micros 1000000
  let nanos := (micros - seconds * 1000000) * 1000
  match Binary64.mulRatio (nanos, 1) nanosecond with
  | .finite s e => ofSeconds (Binary64.addRatio (seconds, 1) (Binary64.ratio s e))
  | _ => .error .notANumber

end Moment

end StoreSync
