import DdlCatalog.Naming
import DdlCatalog.Json.Printer
import DdlCatalog.Json.Reader
import DdlCatalog.Text.LetterCase

/-! # Configuration
How a catalog is built: where names without a schema go, how names are generated, which further base
types there are, and whether a source may declare several schemas. -/

namespace DdlCatalog

structure Config where
  defaultSchema : String
  naming : Naming
  /-- Base types accepted beside the built-in ones. -/
  extraTypes : List String
  /-- A source declares at most one schema, and all names that it qualifies belong to it. -/
  singleSchemaPerSource : Bool
deriving DecidableEq, Repr

namespace Config

def default : Config := ⟨"public", Naming.default, [], false⟩

/-- Accepts a further base type, whose name is folded to lower case. -/
def addExtraType (c : Config) (name : String) : Config :=
  { c with extraTypes := c.extraTypes ++ [Text.lower name] }

open Json.Reader (RecordField)

def namingJson (n : Naming) : Json :=
  .object [("primary_key", .string n.primaryKey), ("unique", .string n.unique),
    ("foreign_key", .string n.foreignKey), ("check", .string n.check),
    ("exclusion", .string n.exclusion), ("index", .string n.index)]

def toJson (c : Config) : Json :=
  .object [("default_schema", .string c.defaultSchema), ("naming", namingJson c.naming),
    ("extra_types", .strings c.extraTypes),
    ("single_schema_per_source", .bool c.singleSchemaPerSource)]

/-- A field set by the value that a reader finds. -/
def field {ρ α : Type} (name : String) (read : Json.Reader α) (set : ρ → α → ρ) : RecordField ρ :=
  ⟨name, fun r symbols => (read symbols).map fun (a, rest) => (set r a, rest)⟩

def namingFields : List (RecordField Naming) :=
  [field "primary_key" Json.Reader.string fun n s => { n with primaryKey := s },
   field "unique" Json.Reader.string fun n s => { n with unique := s },
   field "foreign_key" Json.Reader.string fun n s => { n with foreignKey := s },
   field "check" Json.Reader.string fun n s => { n with check := s },
   field "exclusion" Json.Reader.string fun n s => { n with exclusion := s },
   field "index" Json.Reader.string fun n s => { n with index := s }]

def fields : List (RecordField Config) :=
  [field "default_schema" Json.Reader.string fun c s => { c with defaultSchema := s },
   field "naming" (Json.Reader.record namingFields Naming.default) fun c n =>
     { c with naming := n },
   field "extra_types" Json.Reader.strings fun c ts => { c with extraTypes := ts },
   field "single_schema_per_source" Json.Reader.bool fun c b =>
     { c with singleSchemaPerSource := b }]

def ofJson? (text : String) : Option Config :=
  Json.Reader.ofText? (Json.Reader.record fields default) text

end Config

end DdlCatalog
