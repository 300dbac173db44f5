import DdlCatalog.Decimal.Shortest

/-! # JSON values
Members of an object keep their order. Numbers are integers or binary floating point numbers. -/

namespace DdlCatalog

inductive Json where
  | null
  | bool (b : Bool)
  | integer (n : Int)
  | float (x : Binary64)
  | string (s : String)
  | array (items : List Json)
  | object (members : List (String × Json))
deriving Inhabited

namespace Json

def ofNat (n : Nat) : Json := integer n

def ofOption {α : Type} (f : α → Json) : Option α → Json
  | some a => f a
  | none => null

def ofList {α : Type} (f : α → Json) (as : List α) : Json := array (as.map f)

def strings (ss : List String) : Json := ofList string ss

def optionalString (s : Option String) : Json := ofOption string s

/-- An object with one member, which names the alternative taken by a value. -/
def tagged (tag : String) (content : Json) : Json := object [(tag, content)]

end Json

end DdlCatalog
