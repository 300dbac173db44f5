import DdlCatalog.Json.Basic

/-! # JSON symbols
A JSON text is read as a sequence of symbols. The syntax is strict: no comments, no control
characters inside strings, no spare zeros in front of a number. -/

namespace DdlCatalog.Json

inductive Symbol where
  | openObject
  | closeObject
  | openArray
  | closeArray
  | colon
  | comma
  | null
  | bool (b : Bool)
  | number
  /-- A string; one with an unpaired surrogate has no text. -/
  | string (text : Option String)
deriving DecidableEq, Repr

namespace Symbol

def hexValue? (c : Char) : Option Nat :=
  if c.isDigit then some (c.toNat - '0'.toNat)
  else if 'a' ≤ c ∧ c ≤ 'f' then some (c.toNat - 'a'.toNat + 10)
  else if 'A' ≤ c ∧ c ≤ 'F' then some (c.toNat - 'A'.toNat + 10)
  else none

def hexQuad? (a b c d : Char) : Option Nat := do
  return ((← hexValue? a) * 16 + (← hexValue? b)) * 256 + (← hexValue? c) * 16 + (← hexValue? d)

def isHighSurrogate (n : Nat) : Bool := 0xD800 ≤ n && n < 0xDC00

def isLowSurrogate (n : Nat) : Bool := 0xDC00 ≤ n && n < 0xE000

/-- The character of a surrogate pair. -/
def pair (high low : Nat) : Char :=
  Char.ofNat (0x10000 + (high - 0xD800) * 0x400 + (low - 0xDC00))

def unescape? (c : Char) : Option Char :=
  if c = '"' ∨ c = '\\' ∨ c = '/' then some c
  else if c = 'b' then some '\x08'
  else if c = 'f' then some '\x0c'
  else if c = 'n' then some '\n'
  else if c = 'r' then some '\r'
  else if c = 't' then some '\t'
  else none

/-- The content of a string, if it has no unpaired surrogate, and the characters taken for it. -/
structure Content where
  text : Option (List Char)
  length : Nat

namespace Content

def cons (c : Char) (n : Nat) (content : Content) : Content :=
  ⟨content.text.map (c :: ·), n + content.length⟩

/-- Content with an unpaired surrogate in front. -/
def unpaired (n : Nat) (content : Content) : Content := ⟨none, n + content.length⟩

end Content

/-- The surrogate that an escape in front of `cs` stands for. -/
def lowSurrogate? : List Char → Option Nat
  | '\\' :: 'u' :: a :: b :: c :: d :: _ => (hexQuad? a b c d).filter isLowSurrogate
  | _ => none

/-- A string after its opening quote, closing quote included. -/
def content? : List Char → Option Content
  | [] => none
  | c :: rest =>
    if c = '"' then some ⟨some [], 1⟩
    else if c = '\\' then
      match rest with
      | [] => none
      | e :: rest =>
        if e = 'u' then
          match rest with
          | h₁ :: h₂ :: h₃ :: h₄ :: rest =>
            match hexQuad? h₁ h₂ h₃ h₄ with
            | none => none
            | some n =>
              if isHighSurrogate n then
                match lowSurrogate? rest with
                | some low =>
                  match rest with
                  | _ :: _ :: _ :: _ :: _ :: _ :: rest =>
                    (content? rest).map (·.cons (pair n low) 12)
                  | _ => none
                | none => (content? rest).map (·.unpaired 6)
              else if isLowSurrogate n then (content? rest).map (·.unpaired 6)
              else (content? rest).map (·.cons (Char.ofNat n) 6)
          | _ => none
        else
          match unescape? e with
          | some c => (content? rest).map (·.cons c 2)
          | none => none
    else if c.toNat < 32 then none
    else (content? rest).map (·.cons c 1)

def digitsLength (cs : List Char) : Nat := (cs.takeWhile Char.isDigit).length

/-- The length of an optional part that, once begun, needs a digit. -/
def needed (lead digits : Nat) : Option Nat := if digits = 0 then none else some (lead + digits)

def fractionLength? (cs : List Char) : Option Nat :=
  match cs with
  | '.' :: rest => needed 1 (digitsLength rest)
  | _ => some 0

def exponentLength? (cs : List Char) : Option Nat :=
  match cs with
  | [] => some 0
  | c :: rest =>
    if c = 'e' ∨ c = 'E' then
      match rest with
      | '+' :: rest => needed 2 (digitsLength rest)
      | '-' :: rest => needed 2 (digitsLength rest)
      | _ => needed 1 (digitsLength rest)
    else
      some 0

/-- The length of an unsigned number. A leading zero is the whole integer part. -/
def unsignedLength? (cs : List Char) : Option Nat := do
  let whole ← match cs with
    | '0' :: _ => some 1
    | _ => needed 0 (digitsLength cs)
  let fraction ← fractionLength? (cs.drop whole)
  let exponent ← exponentLength? (cs.drop (whole + fraction))
  return whole + fraction + exponent

def numberLength? (cs : List Char) : Option Nat :=
  match cs with
  | '-' :: rest => (unsignedLength? rest).map (· + 1)
  | _ => unsignedLength? cs

def isBlank (c : Char) : Bool := c = ' ' || c = '\t' || c = '\n' || c = '\r'

/-- The symbol that starts with `c`, and the number of characters it has after `c`. -/
def scan (c : Char) (rest : List Char) : Option (Symbol × Nat) :=
  if c = '\x7b' then some (openObject, 0)
  else if c = '\x7d' then some (closeObject, 0)
  else if c = '[' then some (openArray, 0)
  else if c = ']' then some (closeArray, 0)
  else if c = ':' then some (colon, 0)
  else if c = ',' then some (comma, 0)
  else if c = '"' then
    (content? rest).map fun content => (string (content.text.map String.ofList), content.length)
  else if "rue".toList.isPrefixOf rest && c = 't' then some (bool true, 3)
  else if "alse".toList.isPrefixOf rest && c = 'f' then some (bool false, 4)
  else if "ull".toList.isPrefixOf rest && c = 'n' then some (null, 3)
  else if c = '-' || c.isDigit then (numberLength? (c :: rest)).map fun n => (number, n - 1)
  else none

/-- The symbols of a text without anything else but blanks. -/
def ofText? : List Char → Option (List Symbol)
  | [] => some []
  | c :: rest =>
    if isBlank c then ofText? rest
    else
      match scan c rest with
      | some (symbol, n) => (ofText? (rest.drop n)).map (symbol :: ·)
      | none => none
termination_by cs => cs.length
decreasing_by all_goals simp only [List.length_cons, List.length_drop]; omega

end Symbol

end DdlCatalog.Json
