import Checkup.Decimal.Power

/-!
# Rounding to a decimal grid

A finite double is `m · 2 ^ q`; `Dyadic` holds it with its sign. Two ways to write it down in decimal:

* `Dyadic.shortest`: the point with the fewest digits among those that read back as the same double, the nearest
  one if there are two, the even one on a tie.
* `Dyadic.fixed`: the nearest multiple of `10 ^ (-places)`, the even one on a tie.

`Dyadic.nearest` is the nearest natural number, the greater one on a tie.
-/

namespace Checkup.Decimal

/-- `num / den` rounded to the nearest natural number, half to even. -/
def roundHalfEven (num den : Nat) : Nat :=
  let k := num / den
  let twice := 2 * (num % den)
  if twice < den then k else if den < twice then k + 1 else if k % 2 = 0 then k else k + 1

/-- The number `± m · 2 ^ q`, with the spacing of the doubles around it: `isEdge` if the next double towards zero is
only half as far away as the next one away from zero. -/
structure Dyadic where
  negative : Bool
  m : Nat
  q : Int
  isEdge : Bool

namespace Dyadic

/-- The finite double with these bits. -/
def ofBits (bits : Nat) : Dyadic :=
  let fraction := bits % pow2 52
  let exponent := bits / pow2 52 % pow2 11
  { negative := bits / pow2 63 % 2 = 1
    m := if exponent = 0 then fraction else fraction + pow2 52
    q := (max exponent 1 : Nat) - (1075 : Int)
    isEdge := fraction = 0 && 1 < exponent }

/-- The double as a dyadic number. Only finite doubles have one; the others are cut off. -/
def ofFloat (x : Float) : Dyadic := ofBits x.toBits.toNat

/-- The denominator of the value, in units of which `scaled` counts. -/
def scale (d : Dyadic) (p : Int) : Nat := pow2 (2 - d.q).toNat * pow10 p.toNat

/-- `quarters · 2 ^ (q - 2)` as a multiple of `10 ^ p / scale`. -/
def scaled (d : Dyadic) (quarters : Nat) (p : Int) : Nat := quarters * pow2 (d.q - 2).toNat * pow10 (-p).toNat

/-- Whether `k · 10 ^ p` lies in the interval of the reals that round to the value. -/
def readsBack (d : Dyadic) (k : Nat) (p : Int) : Bool :=
  let low := d.scaled (4 * d.m - if d.isEdge then 1 else 2) p
  let high := d.scaled (4 * d.m + 2) p
  let point := k * d.scale p
  if d.m % 2 = 0 then low ≤ point && point ≤ high else low < point && point < high

/-- The point of the grid `10 ^ p` that reads back, the nearest if both neighbours of the value do. -/
def onGrid? (d : Dyadic) (p : Int) : Option Nat :=
  let num := d.scaled (4 * d.m) p
  let den := d.scale p
  let k := num / den
  match 0 < k && d.readsBack k p, d.readsBack (k + 1) p with
  | true, true => some (roundHalfEven num den)
  | true, false => some k
  | false, true => some (k + 1)
  | false, false => none

/-- The first grid, from `10 ^ p` down through `fuel` finer ones, on which a point reads back. -/
def coarsest (d : Dyadic) (p : Int) : Nat → Nat × Int
  | 0 => (d.m, p)
  | fuel + 1 =>
    match d.onGrid? p with
    | some k => (k, p)
    | none => d.coarsest (p - 1) fuel

/-- The shortest decimal `k · 10 ^ p` that reads back as the value, which is not zero. No double reaches `10 ^ 309`
and all are multiples of `10 ^ (-1074)`. -/
def shortest (d : Dyadic) : Nat × Int := d.coarsest 309 1384

/-- The multiple of `10 ^ (-places)` nearest to the absolute value. -/
def fixed (d : Dyadic) (places : Nat) : Nat :=
  roundHalfEven (d.scaled (4 * d.m) (-places)) (d.scale (-places))

/-- The natural number nearest to the absolute value, the greater one if there are two. -/
def nearest (d : Dyadic) : Nat := (2 * (d.m * pow2 d.q.toNat) + pow2 (-d.q).toNat) / (2 * pow2 (-d.q).toNat)

end Dyadic

end Checkup.Decimal
