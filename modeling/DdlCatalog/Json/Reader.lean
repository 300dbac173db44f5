import DdlCatalog.Json.Symbol

/-! # Reading values from symbols
A reader takes a value from the front of a sequence of symbols. Records may be written as objects or
as arrays of their fields; what is missing keeps its default, and unknown members are skipped. -/

namespace DdlCatalog.Json

abbrev Reader (α : Type) := List Symbol → Option (α × List Symbol)

/-- What a value is inside of. -/
inductive Frame where
  | array
  | object
deriving DecidableEq, Repr

mutual

/-- Passes over one value and over what is left of the values around it. -/
def skipValue (around : List Frame) : List Symbol → Option (List Symbol)
  | [] => none
  | .openArray :: .closeArray :: rest => skipRest around rest
  | .openArray :: rest => skipValue (.array :: around) rest
  | .openObject :: .closeObject :: rest => skipRest around rest
  | .openObject :: .string _ :: .colon :: rest => skipValue (.object :: around) rest
  | .null :: rest => skipRest around rest
  | .bool _ :: rest => skipRest around rest
  | .number :: rest => skipRest around rest
  | .string _ :: rest => skipRest around rest
  | _ => none

def skipRest : List Frame → List Symbol → Option (List Symbol)
  | [], rest => some rest
  | .array :: around, .comma :: rest => skipValue (.array :: around) rest
  | .array :: around, .closeArray :: rest => skipRest around rest
  | .object :: around, .comma :: .string _ :: .colon :: rest => skipValue (.object :: around) rest
  | .object :: around, .closeObject :: rest => skipRest around rest
  | _, _ => none

end

namespace Reader

def string : Reader String
  | .string (some s) :: rest => some (s, rest)
  | _ => none

def bool : Reader Bool
  | .bool b :: rest => some (b, rest)
  | _ => none

def stringItems : Reader (List String)
  | .closeArray :: rest => some ([], rest)
  | .comma :: .string (some s) :: rest =>
    (stringItems rest).map fun (items, rest) => (s :: items, rest)
  | _ => none

def strings : Reader (List String)
  | .openArray :: .closeArray :: rest => some ([], rest)
  | .openArray :: .string (some s) :: rest =>
    (stringItems rest).map fun (items, rest) => (s :: items, rest)
  | _ => none

/-- A field of a record: its name and how its value changes the record. -/
structure RecordField (ρ : Type) where
  name : String
  read : ρ → Reader ρ

/-- The field of a name among those that may still be given, and the others. -/
def RecordField.take? {ρ : Type} (name : String) :
    List (RecordField ρ) → Option (RecordField ρ × List (RecordField ρ))
  | [] => none
  | f :: fields =>
    if f.name = name then some (f, fields)
    else (take? name fields).map fun (found, others) => (found, f :: others)

variable {ρ : Type}

/-- Reads the members of an object from the first key on. `remaining` holds the fields not given
yet and `known` all of them; there are at most as many members as `limit`. -/
def members (known : List (RecordField ρ)) : Nat → List (RecordField ρ) → ρ → Reader ρ
  | 0, _, _, _ => none
  | limit + 1, remaining, record, symbols =>
    match symbols with
    | .string (some name) :: .colon :: rest =>
      let after : Option ((ρ × List (RecordField ρ)) × List Symbol) :=
        match RecordField.take? name remaining with
        | some (f, others) => (f.read record rest).map fun (r, rest) => ((r, others), rest)
        | none =>
          if known.any (·.name = name) then none
          else (skipValue [] rest).map fun rest => ((record, remaining), rest)
      match after with
      | some ((record, _), .closeObject :: rest) => some (record, rest)
      | some ((record, remaining), .comma :: rest) => members known limit remaining record rest
      | _ => none
    | _ => none

def items : List (RecordField ρ) → ρ → Reader ρ
  | _, record, .closeArray :: rest => some (record, rest)
  | f :: fields, record, .comma :: rest => do
    let (record, rest) ← f.read record rest
    items fields record rest
  | _, _, _ => none

/-- A record whose fields start from the given values. -/
def record (fields : List (RecordField ρ)) (start : ρ) : Reader ρ
  | .openObject :: .closeObject :: rest => some (start, rest)
  | .openObject :: rest => members fields rest.length fields start rest
  | .openArray :: .closeArray :: rest => some (start, rest)
  | .openArray :: rest =>
    match fields with
    | [] => none
    | f :: fields => do
      let (record, rest) ← f.read start rest
      items fields record rest
  | _ => none

def ofText? (read : Reader ρ) (text : String) : Option ρ := do
  let symbols ← Symbol.ofText? text.toList
  match read symbols with
  | some (value, []) => some value
  | _ => none

end Reader

end DdlCatalog.Json
