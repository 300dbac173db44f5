/-! # Decimal literals
An unsigned decimal is a natural number times a power of ten. Literals have an optional fraction
and an optional exponent. -/

namespace DdlCatalog

def twoTo (n : Nat) : Nat := Nat.pow 2 n

def tenTo (n : Nat) : Nat := Nat.pow 10 n

/-- The number `digits * 10 ^ exponent`. -/
structure Decimal where
  digits : Nat
  exponent : Int
deriving DecidableEq, Repr

namespace Decimal

/-- The value of a run of decimal digits. -/
def digitsValue (cs : List Char) : Nat :=
  cs.foldl (fun n c => 10 * n + (c.toNat - '0'.toNat)) 0

/-- The number of decimal digits of `n`, which is one for zero. -/
def digitCount (n : Nat) : Nat := (Nat.toDigits 10 n).length

/-- A non-empty run of digits. -/
def natural? (cs : List Char) : Option Nat :=
  if cs ≠ [] ∧ cs.all Char.isDigit then some (digitsValue cs) else none

/-- The exponent of a literal, from its mark on. -/
def exponent? : List Char → Option Int
  | [] => some 0
  | _ :: '-' :: cs => (natural? cs).map fun n => -(n : Int)
  | _ :: '+' :: cs => (natural? cs).map fun n => (n : Int)
  | _ :: cs => (natural? cs).map fun n => (n : Int)

def isExponentMark (c : Char) : Bool := c = 'e' || c = 'E'

/-- Reads digits with an optional point, at least one digit beside it, and an optional exponent. -/
def ofLiteral? (cs : List Char) : Option Decimal := do
  let mantissa := cs.takeWhile (!isExponentMark ·)
  let exponent ← exponent? (cs.dropWhile (!isExponentMark ·))
  let whole := mantissa.takeWhile (· ≠ '.')
  let fraction := (mantissa.dropWhile (· ≠ '.')).drop 1
  let digits ← natural? (whole ++ fraction)
  return ⟨digits, exponent - fraction.length⟩

end Decimal

end DdlCatalog
