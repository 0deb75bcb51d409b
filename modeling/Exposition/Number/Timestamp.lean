import Exposition.Number.Nearest
import Exposition.Number.Notation

/-!
# Timestamps

Metrics carry integral milliseconds; OpenMetrics writes seconds.  Both directions go through a
double: the milliseconds are converted and divided by a thousand, the seconds are multiplied by a
thousand, rounded to the nearest integer (a half away from zero) and clamped to 64 bits.
-/

namespace Exposition

/-- The seconds that are written for a timestamp in milliseconds. -/
def secondsOfMillis (t : Int64) : Binary64 := (Binary64.ofInt t.toInt).divNat 1000

/-- The integer moved into the range of 64-bit integers. -/
def clampInt64 (i : Int) : Int64 :=
  Int64.ofInt (max Int64.minValue.toInt (min Int64.maxValue.toInt i))

/-- The timestamp in milliseconds that a number of seconds stands for. -/
def millisOfSeconds (seconds : Binary64) : Int64 :=
  match seconds.mulNat 1000 with
  | .infinity negative => if negative then Int64.minValue else Int64.maxValue
  | x => clampInt64 (x.roundHalfAway.getD 0)

end Exposition
