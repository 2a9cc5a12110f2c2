/-!
The shortest decimal of a binary number: of all decimals that round to it, one with the fewest
digits, and of those the nearest. The search takes ever finer decimal grids; on each grid only
the two neighbours of the number can be nearest, and the first grid that has one of them in the
rounding interval decides. A number midway between two such neighbours takes the upper one.
-/
namespace JetTape.Decimal

/-- The number `digits * 10 ^ exponent`. -/
structure Digits where
  digits : Nat
  exponent : Int
  deriving DecidableEq, Repr

/-- How many decimal digits `n` has; none for zero. -/
def length (n : Nat) : Nat := if n = 0 then 0 else (Nat.toDigits 10 n).length

/-- A positive ratio `num / den` with its rounding interval from `low / den` to `high / den`,
whose ends belong to it if `closed`. -/
structure Interval where
  num : Nat
  den : Nat
  low : Nat
  high : Nat
  closed : Bool

namespace Interval

/-- The interval of `significand * 2 ^ exponent`: half a gap to each side. -/
def ofBinary (significand : Nat) (exponent : Int) (isPowerStep : Bool) : Interval :=
  let scale := 1 <<< exponent.toNat
  { num := 4 * significand * scale
    den := 4 <<< (-exponent).toNat
    low := (4 * significand - if isPowerStep then 1 else 2) * scale
    high := (4 * significand + 2) * scale
    closed := significand % 2 = 0 }

/-- The exponent of ten of the leading digit. -/
def magnitude (v : Interval) : Int :=
  if v.den ≤ v.num then (length (v.num / v.den) : Int) - 1
  else -(length ((v.den - 1) / v.num) : Int)

/-- Whether `c * 10 ^ k` lies in the interval. -/
def mem (v : Interval) (c : Nat) (k : Int) : Bool :=
  let x := c * v.den * Nat.pow 10 k.toNat
  let s := Nat.pow 10 (-k).toNat
  if v.closed then v.low * s ≤ x && x ≤ v.high * s else v.low * s < x && x < v.high * s

/-- The number's neighbours on the grid of multiples of `10 ^ k`, the nearer one that lies in
the interval. -/
def nearest? (v : Interval) (k : Int) : Option Nat :=
  let n := v.num * Nat.pow 10 (-k).toNat
  let d := v.den * Nat.pow 10 k.toNat
  let c := n / d
  match v.mem c k, v.mem (c + 1) k with
  | true, true => some (if 2 * (n % d) < d then c else c + 1)
  | true, false => some c
  | false, true => some (c + 1)
  | false, false => none

/-- Tries the grid of `10 ^ k` and then finer ones. -/
def search (v : Interval) : Nat → Int → Digits
  | 0, k => ⟨v.num * Nat.pow 10 (-k).toNat / (v.den * Nat.pow 10 k.toNat), k⟩
  | n + 1, k =>
    match v.nearest? k with
    | some c => ⟨c, k⟩
    | none => v.search n (k - 1)

end Interval

/-- Moves trailing zeros into the exponent. -/
def trim : Nat → Digits → Digits
  | 0, d => d
  | n + 1, d =>
    if d.digits ≠ 0 ∧ d.digits % 10 = 0 then trim n ⟨d.digits / 10, d.exponent + 1⟩ else d

/-- The shortest decimal of `significand * 2 ^ exponent`. Seventeen digits tell all double
precision numbers apart. -/
def shortest (significand : Nat) (exponent : Int) (isPowerStep : Bool) : Digits :=
  if significand = 0 then ⟨0, 0⟩
  else
    let v := Interval.ofBinary significand exponent isPowerStep
    trim 20 (v.search 17 v.magnitude)

end JetTape.Decimal
