import JetTape.Scalar.Binary
import JetTape.Scalar.Decimal

/-!
Numbers in traces. Both forms write the shortest decimal. The plain form is always positional
and writes a whole number without a point; the full form keeps a decimal place and turns to an
exponent outside of the range from `10 ^ -4` up to `10 ^ 16`.
-/
namespace JetTape

open Decimal (Digits)

/-- How a number is written. -/
structure NumberFormat where
  /-- Decimal places that a whole number keeps. -/
  places : Nat
  /-- The exponents of the leading digit that are written positionally; all, if absent. -/
  positional : Option (Int × Int)

namespace NumberFormat

def plain : NumberFormat := ⟨0, none⟩

def full : NumberFormat := ⟨1, some (-4, 15)⟩

/-- The digits around a point, with at least `places` of them after it. -/
def positionalText (places : Nat) (d : Digits) : String :=
  let ds := toString d.digits
  let zeros (n : Nat) := "".pushn '0' n
  if 0 ≤ d.exponent then
    let whole := ds ++ zeros d.exponent.toNat
    if places = 0 then whole else whole ++ "." ++ zeros places
  else
    let k := (-d.exponent).toNat
    let padded := zeros (k + 1 - ds.length) ++ ds
    let cut := padded.length - k
    (padded.take cut).toString ++ "." ++ (padded.drop cut).toString

/-- The first digit, the others after a point, and the exponent of ten. -/
def exponentText (d : Digits) : String :=
  let ds := toString d.digits
  let e := d.exponent + (ds.length - 1 : Nat)
  let rest := (ds.drop 1).toString
  (ds.take 1).toString ++ (if rest.isEmpty then "" else "." ++ rest) ++ "e" ++ toString e

def magnitude (fmt : NumberFormat) (d : Digits) : String :=
  let e := d.exponent + (Decimal.length d.digits : Int) - 1
  match fmt.positional with
  | some (low, high) =>
    if d.digits = 0 ∨ (low ≤ e ∧ e ≤ high) then positionalText fmt.places d else exponentText d
  | none => positionalText fmt.places d

def text (fmt : NumberFormat) : Binary.Parts → String
  | .nan => "NaN"
  | .infinite negative => if negative then "-inf" else "inf"
  | .finite negative m e step =>
    (if negative then "-" else "") ++ fmt.magnitude (Decimal.shortest m e step)

end NumberFormat

/-- The plain form of a coefficient. -/
def plainText {F : Type} [Binary F] (x : F) : String := NumberFormat.plain.text (Binary.parts x)

/-- The full form of a coefficient. -/
def fullText {F : Type} [Binary F] (x : F) : String := NumberFormat.full.text (Binary.parts x)

end JetTape
