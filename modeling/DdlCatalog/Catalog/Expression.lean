import DdlCatalog.Decimal.Binary64

/-! # Expressions
Expressions are kept as source text and never evaluated. A few forms have a value that a reader of
the catalog can use directly. -/

namespace DdlCatalog

/-- A value that the database takes from its clock, its session or a generator. -/
inductive Sentinel where
  | currentTimestamp
  | currentDate
  | currentTime
  | localTimestamp
  | localTime
  | currentUser
  | sessionUser
  | randomUuid
deriving DecidableEq, Repr

namespace Sentinel

def ofWord? (word : String) : Option Sentinel :=
  match word with
  | "current_timestamp" => some currentTimestamp
  | "current_date" => some currentDate
  | "current_time" => some currentTime
  | "localtimestamp" => some localTimestamp
  | "localtime" => some localTime
  | "current_user" => some currentUser
  | "user" => some currentUser
  | "session_user" => some sessionUser
  | _ => none

def ofCall? (function : String) : Option Sentinel :=
  match function with
  | "now" => some currentTimestamp
  | "transaction_timestamp" => some currentTimestamp
  | "statement_timestamp" => some currentTimestamp
  | "gen_random_uuid" => some randomUuid
  | "uuid_generate_v4" => some randomUuid
  | _ => none

end Sentinel

inductive Literal where
  | integer (n : Int64)
  | float (x : Binary64)
  | string (s : String)
  | boolean (b : Bool)
  | null
  | sentinel (s : Sentinel)
deriving DecidableEq, Repr

namespace Literal

def fitsInt64 (n : Int) : Bool := Int64.minValue.toInt ≤ n && n ≤ Int64.maxValue.toInt

/-- The value of a number in its source spelling. Whole numbers in the range of 64 bits stay exact;
all others are rounded to floating point. -/
def ofNumber? (negative : Bool) (text : String) : Option Literal :=
  let digits := text.toList.filter (· ≠ '_')
  let whole := (Decimal.natural? digits).map fun n => if negative then -(n : Int) else n
  match whole.filter fitsInt64 with
  | some n => some (integer (Int64.ofInt n))
  | none => (Decimal.ofLiteral? digits).map fun d => float (Binary64.ofDecimal negative d)

end Literal

structure Expression where
  /-- The source text. -/
  text : String
  /-- The value, if the whole text is a literal or a sentinel. -/
  literal : Option Literal
  /-- The names used as values, each once, in order of first use. -/
  references : List String
deriving DecidableEq, Repr, Inhabited

namespace Expression

def isLiteral (e : Expression) : Bool := e.literal.isSome

def mentions (e : Expression) (name : String) : Bool := e.references.contains name

instance : ToString Expression := ⟨Expression.text⟩

end Expression

end DdlCatalog
