import Checkup.Decimal.Round

/-!
# Numbers as text

* `shortestText`: the fewest digits that read back. From `10 ^ (-5)` up to `10 ^ 16` the number stands in positional
  form with at least one digit behind the point, else one digit stands before the point and the exponent has a sign.
* `fixedText`: a given number of digits behind the point.
-/

namespace Checkup.Decimal

/-- The digits of `n`, at least `width` of them. -/
def padded (width n : Nat) : String :=
  let digits := Nat.toDigits 10 n
  String.ofList (List.replicate (width - digits.length) '0' ++ digits)

/-- `n · 10 ^ (-places)` in positional form. -/
def positional (n places : Nat) : String :=
  if places = 0 then toString n else s!"{n / pow10 places}.{padded places (n % pow10 places)}"

/-- The digits of `k` with a point behind the first one, if more follow. -/
def pointAfterFirst (k : Nat) : String :=
  match Nat.toDigits 10 k with
  | [] => ""
  | [d] => String.ofList [d]
  | d :: more => String.ofList (d :: '.' :: more)

/-- The text of `k · 10 ^ p`. -/
def digitsText (k : Nat) (p : Int) : String :=
  let size := (Nat.toDigits 10 k).length
  let exponent := p + size - 1
  if exponent < -5 then s!"{pointAfterFirst k}e-{exponent.natAbs}"
  else if 16 ≤ exponent then s!"{pointAfterFirst k}e+{exponent.natAbs}"
  else if 0 ≤ p then s!"{k * pow10 p.toNat}.0"
  else positional k p.natAbs

/-- The shortest text of a finite number that reads back as the same double. -/
def shortestText (x : Float) : String :=
  let d := Dyadic.ofFloat x
  let sign := if d.negative then "-" else ""
  if d.m = 0 then s!"{sign}0.0"
  else
    let digits := d.shortest
    s!"{sign}{digitsText digits.1 digits.2}"

/-- The text of a finite number with `places` digits behind the point. -/
def fixedText (x : Float) (places : Nat) : String :=
  let d := Dyadic.ofFloat x
  let sign := if d.negative then "-" else ""
  s!"{sign}{positional (d.fixed places) places}"

end Checkup.Decimal
