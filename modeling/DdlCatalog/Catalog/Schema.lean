import DdlCatalog.Catalog.EnumType
import DdlCatalog.Catalog.Relation
import DdlCatalog.Catalog.Routine
import DdlCatalog.Error
import DdlCatalog.OrderedMap

/-! # Schemas
A schema is a name space. Tables, views and enums share their names; routines are grouped by name,
one entry for each overload. -/

namespace DdlCatalog

structure Schema where
  name : String
  enums : OrderedMap String EnumType
  relations : OrderedMap String Relation
  functions : OrderedMap String (List StoredFunction)
  procedures : OrderedMap String (List StoredProcedure)
  prepared : OrderedMap String PreparedStatement
deriving DecidableEq, Repr

namespace Schema

def ofName (name : String) : Schema := ⟨name, ∅, ∅, ∅, ∅, ∅⟩

def views (s : Schema) : List Relation := s.relations.values.filter (·.isView)

def functionsNamed (s : Schema) (name : String) : List StoredFunction :=
  (s.functions.get? name).getD []

def allFunctions (s : Schema) : List StoredFunction := s.functions.values.flatten

def proceduresNamed (s : Schema) (name : String) : List StoredProcedure :=
  (s.procedures.get? name).getD []

/-- The overload of a procedure that was declared first. -/
def procedure? (s : Schema) (name : String) : Option StoredProcedure :=
  (s.proceduresNamed name).head?

def allProcedures (s : Schema) : List StoredProcedure := s.procedures.values.flatten

def isEmpty (s : Schema) : Bool :=
  s.enums.isEmpty && s.relations.isEmpty && s.functions.isEmpty && s.procedures.isEmpty &&
    s.prepared.isEmpty

/-- What a name shared by tables, views and enums stands for. -/
def relationKind? (s : Schema) (name : String) : Option ObjectKind :=
  if s.enums.contains name then some .type
  else (s.relations.get? name).map fun r => if r.isView then .view else .table

def insertEnum (s : Schema) (e : EnumType) : Schema :=
  { s with enums := s.enums.insert e.name.name e }

def insertRelation (s : Schema) (r : Relation) : Schema :=
  { s with relations := s.relations.insert r.name.name r }

def modifyRelation (s : Schema) (name : String) (f : Relation → Relation) : Schema :=
  { s with relations := s.relations.modify name f }

/-- Puts a routine in the place of the overload that satisfies a condition, or after all. -/
def putOverload {α : Type} (same : α → Bool) (a : α) : List α → List α
  | [] => [a]
  | b :: bs => if same b then a :: bs else b :: putOverload same a bs

def insertFunction (s : Schema) (f : StoredFunction) : Schema :=
  let same (g : StoredFunction) := g.routine.sameSignature f.routine
  { s with functions := s.functions.alter f.routine.name.name fun overloads =>
      putOverload same f (overloads.getD []) }

def insertProcedure (s : Schema) (p : StoredProcedure) : Schema :=
  let same (q : StoredProcedure) := q.routine.sameSignature p.routine
  { s with procedures := s.procedures.alter p.routine.name.name fun overloads =>
      putOverload same p (overloads.getD []) }

def insertPrepared (s : Schema) (p : PreparedStatement) : Schema :=
  { s with prepared := s.prepared.insert p.name.name p }

end Schema

end DdlCatalog
