/-! # Names of catalog objects
An object lives in a schema. Statements may leave the schema out. -/

namespace DdlCatalog

/-- A name with its schema. -/
structure QualifiedName where
  schema : String
  name : String
deriving DecidableEq, Repr, Inhabited

namespace QualifiedName

/-- Reads a name for a look-up. The schema stands before the first dot, and without a dot it is
the default one. Quotes mean nothing here. -/
def ofText (text defaultSchema : String) : QualifiedName :=
  let cs := text.toList
  match cs.dropWhile (· ≠ '.') with
  | [] => ⟨defaultSchema, text⟩
  | _ :: rest => ⟨String.ofList (cs.takeWhile (· ≠ '.')), String.ofList rest⟩

instance : ToString QualifiedName where
  toString n := n.schema ++ "." ++ n.name

end QualifiedName

/-- A name as written in a statement. -/
structure ObjectName where
  schema : Option String
  name : String
deriving DecidableEq, Repr, Inhabited

namespace ObjectName

def qualify (n : ObjectName) (defaultSchema : String) : QualifiedName :=
  ⟨n.schema.getD defaultSchema, n.name⟩

instance : ToString ObjectName where
  toString n :=
    match n.schema with
    | some schema => schema ++ "." ++ n.name
    | none => n.name

end ObjectName

end DdlCatalog
