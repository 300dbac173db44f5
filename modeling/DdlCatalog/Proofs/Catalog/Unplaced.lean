import DdlCatalog.Proofs.Catalog.Keys
import DdlCatalog.Proofs.OrderedMap

/-! # Catalogs without texts and places
The text of a statement and the place of a constraint are kept to be shown. What a catalog answers and
how it is changed depends on neither of them. -/

namespace DdlCatalog

open Text (Location)

namespace Error

mutual

/-- An error without its place. -/
def unplaced : Error → Error
  | lex _ message => lex default message
  | unsupportedStatement _ construct => unsupportedStatement default construct
  | typeSyntax _ message => typeSyntax default message
  | parse _ message => parse default message
  | duplicateDefinition _ kind name => duplicateDefinition default kind name
  | unresolvedReference _ table column => unresolvedReference default table column
  | unknownTable _ table => unknownTable default table
  | unknownType _ typeName => unknownType default typeName
  | finalize issues => finalize (allUnplaced issues)
  | snapshot message => snapshot message

def allUnplaced : List Error → List Error
  | [] => []
  | e :: rest => unplaced e :: allUnplaced rest

end

@[simp] theorem allUnplaced_eq (issues : List Error) : allUnplaced issues = issues.map unplaced := by
  induction issues with
  | nil => rfl
  | cons e rest ih => rw [allUnplaced, ih, List.map_cons]

end Error

namespace Constraint

def unplaced (k : Constraint) : Constraint := { k with location := default }

variable (k : Constraint)

@[simp] theorem unplaced_name : k.unplaced.name = k.name := rfl

@[simp] theorem unplaced_columns : k.unplaced.columns = k.columns := rfl

@[simp] theorem unplaced_location : k.unplaced.location = default := rfl

@[simp] theorem foreignKey?_unplaced : k.unplaced.foreignKey? = k.foreignKey? := rfl

theorem unplaced_modifyForeignKey (f : ForeignKey → ForeignKey) :
    (k.modifyForeignKey f).unplaced = k.unplaced.modifyForeignKey f := by
  obtain ⟨name, explicit, columns, kind, l⟩ := k
  cases kind <;> rfl

end Constraint

namespace Relation

/-- A relation without its text and the places of its constraints. -/
def unplaced (r : Relation) : Relation :=
  { r with constraints := r.constraints.map (·.unplaced), ddl := "" }

variable (r : Relation)

@[simp] theorem unplaced_name : r.unplaced.name = r.name := rfl

@[simp] theorem isView_unplaced : r.unplaced.isView = r.isView := rfl

@[simp] theorem hasColumn_unplaced (name : String) : r.unplaced.hasColumn name = r.hasColumn name := rfl

theorem constraint?_unplaced (name : String) :
    r.unplaced.constraint? name = (r.constraint? name).map (·.unplaced) :=
  List.find?_map ..

@[simp] theorem primaryKeyColumns_unplaced : r.unplaced.primaryKeyColumns = r.primaryKeyColumns := by
  have hkey : r.unplaced.primaryKey? = r.primaryKey?.map (·.unplaced) := List.find?_map ..
  unfold primaryKeyColumns
  rw [hkey]
  cases r.primaryKey? <;> rfl

/-- What is changed alike before and after a function is the same after it. -/
theorem map_modifyFirst_of_commute {α β : Type} {p : α → Bool} {p' : β → Bool} {f : α → α} {f' : β → β}
    {g : α → β} (hp : ∀ a, p' (g a) = p a) (hf : ∀ a, g (f a) = f' (g a)) (as : List α) :
    (modifyFirst p f as).map g = modifyFirst p' f' (as.map g) := by
  induction as with
  | nil => rfl
  | cons a as ih =>
    rw [List.map_cons, modifyFirst, modifyFirst, hp]
    split
    · rw [List.map_cons, hf]
    · rw [List.map_cons, ih]

theorem unplaced_modifyConstraint (name : String) {f : Constraint → Constraint}
    (hf : ∀ k, (f k).unplaced = f k.unplaced) :
    (r.modifyConstraint name f).unplaced = r.unplaced.modifyConstraint name f := by
  have hconstraints : (modifyFirst (·.name = name) f r.constraints).map (·.unplaced) =
      modifyFirst (·.name = name) f (r.constraints.map (·.unplaced)) := by
    apply map_modifyFirst_of_commute
    · exact fun k => congrArg (decide <| · = name) k.unplaced_name
    · exact hf
  exact congrArg (fun constraints => { r with constraints, ddl := "" }) hconstraints

end Relation

namespace Schema

def unplaced (s : Schema) : Schema := { s with relations := s.relations.mapValues (·.unplaced) }

variable (s : Schema)

theorem unplaced_insertRelation (r : Relation) :
    (s.insertRelation r).unplaced = s.unplaced.insertRelation r.unplaced :=
  congrArg (fun relations => { s with relations }) (OrderedMap.mapValues_insert ..)

theorem unplaced_modifyRelation (name : String) {f : Relation → Relation}
    (hf : ∀ r, (f r).unplaced = f r.unplaced) :
    (s.modifyRelation name f).unplaced = s.unplaced.modifyRelation name f :=
  congrArg (fun relations => { s with relations }) (OrderedMap.mapValues_modify _ hf)

end Schema

namespace Catalog

/-- A catalog without the texts of its relations and the places of their constraints. -/
def unplaced (c : Catalog) : Catalog := { c with schemas := c.schemas.mapValues (·.unplaced) }

variable (c : Catalog)

theorem schema?_unplaced (name : String) : c.unplaced.schema? name = (c.schema? name).map (·.unplaced) :=
  OrderedMap.get?_mapValues ..

@[simp] theorem relation?_unplaced (q : QualifiedName) :
    c.unplaced.relation? q = (c.relation? q).map (·.unplaced) := by
  rw [relation?_eq_bind, relation?_eq_bind, schema?_unplaced]
  cases c.schema? q.schema with
  | none => rfl
  | some s => exact OrderedMap.get?_mapValues ..

theorem unplaced_insertRelation (r : Relation) :
    (c.insertRelation r).unplaced = c.unplaced.insertRelation r.unplaced := by
  have hschemas : (c.modifySchema r.name.schema (·.insertRelation r)).unplaced =
      c.unplaced.modifySchema r.name.schema (·.insertRelation r.unplaced) := by
    refine congrArg (fun schemas => { c with schemas }) (OrderedMap.mapValues_alter _ fun s => ?_)
    cases s with
    | none => exact Schema.unplaced_insertRelation ..
    | some s => exact s.unplaced_insertRelation r
  unfold insertRelation
  simp only [relation?_unplaced, Relation.unplaced_name, Option.isSome_map, ← hschemas]
  split <;> rfl

theorem unplaced_modifyForeignKey (owner : QualifiedName) (name : String) (f : ForeignKey → ForeignKey) :
    (c.modifyForeignKey owner name f).unplaced = c.unplaced.modifyForeignKey owner name f := by
  refine congrArg (fun schemas => { c with schemas }) (OrderedMap.mapValues_modify _ fun s => ?_)
  exact s.unplaced_modifyRelation _ fun r => r.unplaced_modifyConstraint name fun k =>
    k.unplaced_modifyForeignKey f

theorem foreignKey?_unplaced (owner : QualifiedName) (name : String) :
    c.unplaced.foreignKey? owner name =
      (c.foreignKey? owner name).map fun found => (found.1.unplaced, found.2) := by
  unfold foreignKey?
  rw [relation?_unplaced]
  cases c.relation? owner with
  | none => rfl
  | some r =>
    show (r.unplaced.constraint? name).bind _ = ((r.constraint? name).bind _).map _
    rw [r.constraint?_unplaced]
    cases r.constraint? name with
    | none => rfl
    | some k =>
      show (k.unplaced.foreignKey?).bind _ = ((k.foreignKey?).bind _).map _
      rw [k.foreignKey?_unplaced]
      cases k.foreignKey? <;> rfl

theorem referencedColumns_unplaced (target : Relation) (key : ForeignKey) (columns : List String)
    (l : Location) : referencedColumns target.unplaced key columns default =
      (referencedColumns target key columns l).mapError Error.unplaced := by
  unfold referencedColumns
  rw [target.primaryKeyColumns_unplaced]
  dsimp only
  split
  · split
    · rfl
    · split <;> rfl
  · rfl

/-- The check of a key answers the same, but for the places of errors. -/
theorem checkReference_unplaced (key : ForeignKey) (columns : List String) (l : Location) :
    c.unplaced.checkReference key columns default =
      (c.checkReference key columns l).mapError (·.map (·.unplaced)) := by
  unfold checkReference
  rw [relation?_unplaced]
  cases c.relation? key.referencedTable with
  | none => rfl
  | some target =>
    dsimp only [Option.map_some]
    rw [referencedColumns_unplaced target key columns l, target.isView_unplaced]
    split
    · rfl
    · cases referencedColumns target key columns l with
      | error e => rfl
      | ok referenced =>
        dsimp only [Except.mapError, Relation.hasColumn_unplaced]
        cases referenced.filter (!target.hasColumn ·) with
        | nil => rfl
        | cons name more =>
          show Except.error _ = Except.error _
          rw [List.map_map]
          rfl

theorem keyIssues_unplaced (id : KeyId) :
    c.unplaced.keyIssues id = (c.keyIssues id).map (·.unplaced) := by
  unfold keyIssues
  rw [foreignKey?_unplaced]
  cases c.foreignKey? id.1 id.2 with
  | none => rfl
  | some found =>
    obtain ⟨k, key⟩ := found
    dsimp only [Option.map_some]
    unfold referenceIssues
    rw [k.foreignKey?_unplaced]
    cases k.foreignKey? with
    | none => rfl
    | some key =>
      dsimp only
      rw [k.unplaced_columns, k.unplaced_location, c.checkReference_unplaced key k.columns k.location]
      cases c.checkReference key k.columns k.location <;> rfl

theorem unplaced_linkKey (id : KeyId) : (c.linkKey id).unplaced = c.unplaced.linkKey id := by
  unfold linkKey
  rw [foreignKey?_unplaced]
  cases c.foreignKey? id.1 id.2 with
  | none => rfl
  | some found =>
    obtain ⟨k, key⟩ := found
    dsimp only [Option.map_some]
    rw [k.unplaced_columns, k.unplaced_location, c.checkReference_unplaced key k.columns k.location]
    cases c.checkReference key k.columns k.location with
    | error issues => rfl
    | ok referenced => exact c.unplaced_modifyForeignKey id.1 id.2 (·.linkedTo referenced)

end Catalog

end DdlCatalog
