import DdlCatalog.Json.Basic

/-! # Printed JSON
Objects and arrays are written over several lines with an indentation of two blanks, empty ones on
one line. Strings escape quotes, backslashes and control characters only. -/

namespace DdlCatalog.Json

def hexDigit (n : Nat) : Char := (Nat.toDigits 16 n).headD '0'

def escapeChar (c : Char) : List Char :=
  if c = '"' then ['\\', '"']
  else if c = '\\' then ['\\', '\\']
  else if c = '\x08' then ['\\', 'b']
  else if c = '\x0c' then ['\\', 'f']
  else if c = '\n' then ['\\', 'n']
  else if c = '\r' then ['\\', 'r']
  else if c = '\t' then ['\\', 't']
  else if c.toNat < 32 then
    ['\\', 'u', '0', '0', hexDigit (c.toNat / 16), hexDigit (c.toNat % 16)]
  else [c]

def quote (cs : List Char) : List Char := '"' :: cs.flatMap escapeChar ++ ['"']

/-- Where numbers are written without an exponent: from this power of ten of the leading digit up
to that one. -/
structure NumberFormat where
  firstPlain : Int
  lastPlain : Int

/-- Numbers with a leading digit between the fifth place after the point and the sixteenth place
before it are written without an exponent. -/
def numberFormat : NumberFormat := ⟨-5, 15⟩

def zeros (n : Nat) : List Char := List.replicate n '0'

/-- Digits with a point after the first `whole` of them, and a zero after the point if none is
left. -/
def withPoint (digits : List Char) (whole : Nat) : List Char :=
  let fraction := digits.drop whole
  digits.take whole ++ '.' :: (if fraction = [] then ['0'] else fraction)

def formatDecimal (format : NumberFormat) (d : Decimal) : List Char :=
  let digits := Nat.toDigits 10 d.digits
  let leading := d.exponent + digits.length - 1
  if format.firstPlain ≤ leading ∧ leading ≤ format.lastPlain then
    if 0 ≤ d.exponent then withPoint (digits ++ zeros d.exponent.toNat) (leading.toNat + 1)
    else if 0 ≤ leading then withPoint digits (leading.toNat + 1)
    else '0' :: '.' :: zeros (-leading - 1).toNat ++ digits
  else
    let significand := if digits.length = 1 then digits else withPoint digits 1
    let sign := if leading < 0 then '-' else '+'
    significand ++ 'e' :: sign :: Nat.toDigits 10 leading.natAbs

/-- The shortest decimal that reads back; what is not finite has no number. -/
def formatFloat (x : Binary64) : List Char :=
  if !x.isFinite then "null".toList
  else
    let sign := if x.isNegative then ['-'] else []
    if x.magnitude = 0 then sign ++ "0.0".toList
    else sign ++ formatDecimal numberFormat (Decimal.shortest x.magnitude)

def formatInteger (n : Int) : List Char :=
  if n < 0 then '-' :: Nat.toDigits 10 n.natAbs else Nat.toDigits 10 n.natAbs

def newline (depth : Nat) : List Char := '\n' :: List.replicate (2 * depth) ' '

mutual

/-- The text of a value whose first line starts at the given depth. -/
def format (depth : Nat) : Json → List Char
  | null => "null".toList
  | bool true => "true".toList
  | bool false => "false".toList
  | integer n => formatInteger n
  | float x => formatFloat x
  | string s => quote s.toList
  | array [] => "[]".toList
  | array (item :: items) =>
    '[' :: newline (depth + 1) ++ format (depth + 1) item ++ formatItems (depth + 1) items ++
      newline depth ++ [']']
  | object [] => ['{', '}']
  | object ((key, value) :: members) =>
    '{' :: newline (depth + 1) ++ quote key.toList ++ ':' :: ' ' :: format (depth + 1) value ++
      formatMembers (depth + 1) members ++ newline depth ++ ['}']

def formatItems (depth : Nat) : List Json → List Char
  | [] => []
  | item :: items =>
    ',' :: newline depth ++ format depth item ++ formatItems depth items

def formatMembers (depth : Nat) : List (String × Json) → List Char
  | [] => []
  | (key, value) :: members =>
    ',' :: newline depth ++ quote key.toList ++ ':' :: ' ' :: format depth value ++
      formatMembers depth members

end

def pretty (value : Json) : String := String.ofList (format 0 value)

end DdlCatalog.Json
