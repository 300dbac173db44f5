import DdlCatalog.Decimal.Basic

/-! # Binary floating point numbers of 64 bits
A number is its word of bits: a sign, eleven bits of exponent and fifty-two of significand. Decimals
are rounded to the nearest number, ties to the even significand. -/

namespace DdlCatalog

structure Binary64 where
  bits : UInt64
deriving DecidableEq, Repr

namespace Binary64

/-- The exponent with all bits set, over a significand of zero. -/
def infinityBits : Nat := 0x7FF0000000000000

def signBit : Nat := 0x8000000000000000

def ofMagnitude (negative : Bool) (magnitude : Nat) : Binary64 :=
  ⟨UInt64.ofNat (if negative then signBit + magnitude else magnitude)⟩

def isNegative (x : Binary64) : Bool := signBit ≤ x.bits.toNat

/-- All bits but the sign. -/
def magnitude (x : Binary64) : Nat := x.bits.toNat % signBit

def isFinite (x : Binary64) : Bool := x.magnitude < infinityBits

/-- The quotient rounded to the nearest integer, ties to the even one. -/
def roundDiv (num den : Nat) : Nat :=
  let quotient := num / den
  let doubled := 2 * (num % den)
  if doubled < den then quotient
  else if den < doubled then quotient + 1
  else quotient + quotient % 2

/-- The bits of the magnitude nearest to `num / den`. Its unit is a power of two not below the
smallest one, chosen such that the significand has fifty-three bits where it can. -/
def roundMagnitude (num den : Nat) : Nat :=
  let estimate : Int := (num.log2 : Int) - den.log2
  let reached :=
    if 0 ≤ estimate then den * twoTo estimate.toNat ≤ num else den ≤ num * twoTo (-estimate).toNat
  let leading := if reached then estimate else estimate - 1
  let unit := max (leading - 52) (-1074)
  let significand :=
    if 0 ≤ unit then roundDiv num (den * twoTo unit.toNat)
    else roundDiv (num * twoTo (-unit).toNat) den
  (unit + 1074).toNat * twoTo 52 + significand

/-- The number nearest to a decimal. Decimals beyond the range go to infinity or zero before any
large power is formed. -/
def ofDecimal (negative : Bool) (d : Decimal) : Binary64 :=
  let leading := d.exponent + Decimal.digitCount d.digits
  if d.digits = 0 ∨ leading < -330 then ofMagnitude negative 0
  else if 310 < leading then ofMagnitude negative infinityBits
  else
    let magnitude :=
      if 0 ≤ d.exponent then roundMagnitude (d.digits * tenTo d.exponent.toNat) 1
      else roundMagnitude d.digits (tenTo (-d.exponent).toNat)
    ofMagnitude negative (min magnitude infinityBits)

end Binary64

end DdlCatalog
