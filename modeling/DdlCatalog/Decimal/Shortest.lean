import DdlCatalog.Decimal.Binary64

/-! # Shortest decimals
The shortest decimal that rounds to a given floating point number, and of those the nearest one. -/

namespace DdlCatalog.Decimal

structure Ratio where
  num : Nat
  den : Nat
deriving DecidableEq, Repr

namespace Ratio

def scaled (n : Nat) (exponent : Int) : Ratio :=
  if 0 ≤ exponent then ⟨n * twoTo exponent.toNat, 1⟩ else ⟨n, twoTo (-exponent).toNat⟩

/-- The number of steps of size `10 ^ exponent` that fit into a ratio. -/
def stepsOf (r : Ratio) (exponent : Int) : Nat :=
  if 0 ≤ exponent then r.num / (r.den * tenTo exponent.toNat)
  else r.num * tenTo (-exponent).toNat / r.den

def compareSteps (n : Nat) (exponent : Int) (r : Ratio) : Ordering :=
  if 0 ≤ exponent then compare (n * tenTo exponent.toNat * r.den) r.num
  else compare (n * r.den) (r.num * tenTo (-exponent).toNat)

end Ratio

/-- The numbers that round to a value, given in quarters of the unit of its significand. -/
structure Rounding where
  value : Ratio
  low : Ratio
  high : Ratio
  closed : Bool
deriving Repr

namespace Rounding

/-- The interval of a positive finite number. Below a power of two the neighbour is nearer, and a
bound belongs to the interval if the significand is even. -/
def ofMagnitude (magnitude : Nat) : Rounding :=
  let exponent := magnitude / twoTo 52
  let fraction := magnitude % twoTo 52
  let significand := if exponent = 0 then fraction else twoTo 52 + fraction
  let quarter : Int := (max exponent 1 : Nat) - 1075 - 2
  let below := if fraction = 0 ∧ 1 < exponent then 1 else 2
  { value := .scaled (4 * significand) quarter
    low := .scaled (4 * significand - below) quarter
    high := .scaled (4 * significand + 2) quarter
    closed := significand % 2 = 0 }

def contains (r : Rounding) (n : Nat) (exponent : Int) : Bool :=
  let low := Ratio.compareSteps n exponent r.low
  let high := Ratio.compareSteps n exponent r.high
  (low = .gt || (r.closed && low = .eq)) && (high = .lt || (r.closed && high = .eq))

/-- The multiple of `10 ^ exponent` in the interval that is nearest to the value, the even one of
two that are equally near. -/
def nearest? (r : Rounding) (exponent : Int) : Option Nat :=
  let lower := r.value.stepsOf exponent
  match r.contains lower exponent, r.contains (lower + 1) exponent with
  | false, false => none
  | true, false => some lower
  | false, true => some (lower + 1)
  | true, true =>
    let middle : Ratio := ⟨2 * r.value.num, r.value.den⟩
    match Ratio.compareSteps (2 * lower + 1) exponent middle with
    | .gt => some lower
    | .lt => some (lower + 1)
    | .eq => some (lower + lower % 2)

end Rounding

def leadingExponent (r : Ratio) : Int := (digitCount (r.stepsOf (-400)) : Int) - 1 - 400

def trimZeros (fuel : Nat) (d : Decimal) : Decimal :=
  match fuel with
  | 0 => d
  | fuel + 1 =>
    if d.digits % 10 = 0 then trimZeros fuel ⟨d.digits / 10, d.exponent + 1⟩ else d

/-- The shortest decimal for a positive finite magnitude; seventeen digits always suffice. -/
def shortest (magnitude : Nat) : Decimal :=
  let r := Rounding.ofMagnitude magnitude
  let leading := leadingExponent r.value
  let candidates := (List.range 17).findSome? fun (n : Nat) =>
    (r.nearest? (leading - n)).map fun digits => (⟨digits, leading - n⟩ : Decimal)
  trimZeros 17 (candidates.getD ⟨0, 0⟩)

end DdlCatalog.Decimal
