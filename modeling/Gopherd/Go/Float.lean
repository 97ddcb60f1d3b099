import Mathlib.Algebra.Order.Floor.Ring
import Mathlib.Data.Rat.Floor

/-!
64-bit floats as far as the daemon computes with them: every operation is exact
and then rounded to the nearest float, to the even one in the middle.
-/

namespace Gopherd

inductive Float64 where
  -- without the sign of zero
  | finite (value : Rat)
  | infinite (negative : Bool)
  | nan
  deriving DecidableEq, Inhabited

namespace Go

def pow2 : Int → Rat
  | .ofNat n => 2 ^ n
  | .negSucc n => 1 / 2 ^ (n + 1)

def roundHalfEven (q : Rat) : Int :=
  let below := q.floor
  if q - below < 1 / 2 then below
  else if 1 / 2 < q - below then below + 1
  else if below % 2 = 0 then below
  else below + 1

/-- The exponent of the leading binary digit of a number other than zero. -/
def binaryExponent (q : Rat) : Int :=
  let guess : Int := q.num.natAbs.log2 - q.den.log2
  if pow2 guess ≤ |q| then guess else guess - 1

/-- The nearest float. Below the smallest normal number the distance of the
floats no longer shrinks. -/
def roundFloat64 (q : Rat) : Float64 :=
  if q = 0 then .finite 0
  else
    let ulp := pow2 (max (binaryExponent q) (-1022) - 52)
    let value := roundHalfEven (q / ulp) * ulp
    if |value| < pow2 1024 then .finite value else .infinite (q < 0)

end Go

/-- An operation with a positive constant, which keeps what is not finite. -/
def Float64.apply (f : Rat → Rat) : Float64 → Float64
  | .finite value => Go.roundFloat64 (f value)
  | x => x

namespace Go

/-- `math.Round`: away from zero in the middle. -/
def roundAway (q : Rat) : Int :=
  if 0 ≤ q then (q + 1 / 2).floor else -(-q + 1 / 2).floor

/-- `int64(x)` truncates; out of range it is what the processor makes of it. -/
def toInt64 (q : Rat) : Int :=
  let truncated := if 0 ≤ q then q.floor else -(-q).floor
  if -9223372036854775808 ≤ truncated ∧ truncated ≤ 9223372036854775807 then truncated
  else -9223372036854775808

/-- `strconv.ParseFloat` on digits with an optional fraction; too large is an
error. -/
def parseDecimal (s : List Char) : Option Rat :=
  let digits := s.filter Char.isDigit
  let places := ((s.dropWhile (· ≠ '.')).drop 1).length
  let value := digits.foldl (fun value c => 10 * value + (c.toNat - '0'.toNat)) 0
  match roundFloat64 ((value : Rat) / 10 ^ places) with
  | .finite value => some value
  | _ => none

end Go

end Gopherd
