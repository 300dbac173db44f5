import DdlCatalog.Catalog.Basic

/-! # What changes of a catalog do to look-ups
A change of one schema or relation answers under its own name and leaves all other answers alone. -/

namespace DdlCatalog

namespace Schema

variable (s : Schema)

@[simp] theorem get?_relations_modifyRelation (key other : String) (f : Relation → Relation) :
    (s.modifyRelation key f).relations.get? other =
      if key = other then (s.relations.get? key).map f else s.relations.get? other :=
  s.relations.get?_modify key other f

@[simp] theorem get?_relations_insertRelation (r : Relation) (other : String) :
    (s.insertRelation r).relations.get? other =
      if r.name.name = other then some r else s.relations.get? other :=
  s.relations.get?_insert r.name.name other r

@[simp] theorem get?_enums_insertEnum (e : EnumType) (other : String) :
    (s.insertEnum e).enums.get? other = if e.name.name = other then some e else s.enums.get? other :=
  s.enums.get?_insert e.name.name other e

@[simp] theorem get?_prepared_insertPrepared (p : PreparedStatement) (other : String) :
    (s.insertPrepared p).prepared.get? other =
      if p.name.name = other then some p else s.prepared.get? other :=
  s.prepared.get?_insert p.name.name other p

theorem get?_functions_insertFunction (f : StoredFunction) (name : String) :
    (s.insertFunction f).functions.get? name =
      if f.routine.name.name = name then
        some (putOverload (fun g => g.routine.sameSignature f.routine) f (s.functionsNamed name))
      else s.functions.get? name := by
  refine (s.functions.get?_alter f.routine.name.name name _).trans ?_
  split
  · next h => subst h; rfl
  · rfl

theorem functionsNamed_insertFunction (f : StoredFunction) (name : String) :
    (s.insertFunction f).functionsNamed name =
      if f.routine.name.name = name then
        putOverload (fun g => g.routine.sameSignature f.routine) f (s.functionsNamed name)
      else s.functionsNamed name := by
  rw [functionsNamed, get?_functions_insertFunction]
  split <;> rfl

theorem get?_procedures_insertProcedure (p : StoredProcedure) (name : String) :
    (s.insertProcedure p).procedures.get? name =
      if p.routine.name.name = name then
        some (putOverload (fun q => q.routine.sameSignature p.routine) p (s.proceduresNamed name))
      else s.procedures.get? name := by
  refine (s.procedures.get?_alter p.routine.name.name name _).trans ?_
  split
  · next h => subst h; rfl
  · rfl

theorem proceduresNamed_insertProcedure (p : StoredProcedure) (name : String) :
    (s.insertProcedure p).proceduresNamed name =
      if p.routine.name.name = name then
        putOverload (fun q => q.routine.sameSignature p.routine) p (s.proceduresNamed name)
      else s.proceduresNamed name := by
  rw [proceduresNamed, get?_procedures_insertProcedure]
  split <;> rfl

end Schema

namespace Catalog

variable (c : Catalog)

theorem schema?_ensureSchema (name other : String) :
    (c.ensureSchema name).schema? other =
      if name = other then some ((c.schema? name).getD (Schema.ofName name))
      else c.schema? other := by
  unfold ensureSchema hasSchema OrderedMap.contains
  cases h : c.schemas.get? name with
  | some s =>
    by_cases hn : name = other
    · subst hn
      simp [schema?, h]
    · simp [schema?, hn]
  | none => simp [schema?, h, OrderedMap.get?_insert]

theorem schema?_modifySchema (name other : String) (f : Schema → Schema) :
    (c.modifySchema name f).schema? other =
      if name = other then some (f ((c.schema? name).getD (Schema.ofName name)))
      else c.schema? other :=
  c.schemas.get?_alter name other _

theorem schema?_insertRelation (r : Relation) (name : String) :
    (c.insertRelation r).schema? name =
      if r.name.schema = name then
        some (((c.schema? name).getD (Schema.ofName name)).insertRelation r)
      else c.schema? name := by
  have h : (c.insertRelation r).schema? name =
      (c.modifySchema r.name.schema (·.insertRelation r)).schema? name := by
    unfold insertRelation
    split <;> rfl
  rw [h, schema?_modifySchema]
  split
  · next hn => subst hn; rfl
  · rfl

theorem schema?_modifyRelation (q : QualifiedName) (f : Relation → Relation) (name : String) :
    (c.modifyRelation q f).schema? name =
      if q.schema = name then (c.schema? name).map (·.modifyRelation q.name f)
      else c.schema? name := by
  refine (c.schemas.get?_modify q.schema name _).trans ?_
  split
  · next h => rw [h]; rfl
  · rfl

theorem ensureSchema_of_schema? {c : Catalog} {name : String} {s : Schema}
    (h : c.schema? name = some s) : c.ensureSchema name = c := by
  have hs : c.hasSchema name = true := Option.isSome_iff_exists.2 ⟨s, h⟩
  unfold ensureSchema
  rw [if_pos hs]

theorem modifySchema_ensureSchema (name : String) (f : Schema → Schema) :
    (c.ensureSchema name).modifySchema name f = c.modifySchema name f := by
  cases h : c.schema? name with
  | some s => rw [ensureSchema_of_schema? h]
  | none =>
    have hs : c.hasSchema name = false := by
      unfold hasSchema OrderedMap.contains
      rw [show c.schemas.get? name = none from h]
      rfl
    have hget : c.schemas.get? name = none := h
    unfold ensureSchema modifySchema OrderedMap.alter
    simp [hs, hget, OrderedMap.get?_insert, OrderedMap.insert_insert]

theorem relation?_eq_bind (q : QualifiedName) :
    c.relation? q = (c.schema? q.schema).bind (·.relations.get? q.name) := rfl

theorem enum?_eq_bind (q : QualifiedName) :
    c.enum? q = (c.schema? q.schema).bind (·.enums.get? q.name) := rfl

/-- A schema that does not exist yet has no relations. -/
theorem get?_relations_schemaOrNew (q : QualifiedName) :
    ((c.schema? q.schema).getD (Schema.ofName q.schema)).relations.get? q.name = c.relation? q := by
  rw [relation?_eq_bind]
  cases c.schema? q.schema <;> rfl

theorem get?_enums_schemaOrNew (q : QualifiedName) :
    ((c.schema? q.schema).getD (Schema.ofName q.schema)).enums.get? q.name = c.enum? q := by
  rw [enum?_eq_bind]
  cases c.schema? q.schema <;> rfl

@[simp] theorem relation?_ensureSchema (name : String) (q : QualifiedName) :
    (c.ensureSchema name).relation? q = c.relation? q := by
  rw [relation?_eq_bind, schema?_ensureSchema, relation?_eq_bind]
  split
  · next h =>
    subst h
    cases c.schema? q.schema <;> rfl
  · rfl

@[simp] theorem enum?_ensureSchema (name : String) (q : QualifiedName) :
    (c.ensureSchema name).enum? q = c.enum? q := by
  rw [enum?_eq_bind, schema?_ensureSchema, enum?_eq_bind]
  split
  · next h =>
    subst h
    cases c.schema? q.schema <;> rfl
  · rfl

/-- A change of a schema that keeps its relations keeps those of the catalog. -/
theorem relation?_modifySchema {f : Schema → Schema} (hf : ∀ s, (f s).relations = s.relations)
    (name : String) (q : QualifiedName) :
    (c.modifySchema name f).relation? q = c.relation? q := by
  rw [relation?_eq_bind, schema?_modifySchema, relation?_eq_bind]
  split
  · next h =>
    subst h
    rw [Option.bind_some, hf]
    cases c.schema? q.schema <;> rfl
  · rfl

theorem enum?_modifySchema {f : Schema → Schema} (hf : ∀ s, (f s).enums = s.enums)
    (name : String) (q : QualifiedName) : (c.modifySchema name f).enum? q = c.enum? q := by
  rw [enum?_eq_bind, schema?_modifySchema, enum?_eq_bind]
  split
  · next h =>
    subst h
    rw [Option.bind_some, hf]
    cases c.schema? q.schema <;> rfl
  · rfl

theorem enum?_insertEnum (e : EnumType) (q : QualifiedName) :
    (c.modifySchema e.name.schema (·.insertEnum e)).enum? q =
      if e.name = q then some e else c.enum? q := by
  rw [enum?_eq_bind, schema?_modifySchema, enum?_eq_bind]
  by_cases hs : e.name.schema = q.schema
  · by_cases hn : e.name.name = q.name
    · have h : e.name = q := by
        cases hq : e.name; cases q; simp_all
      simp [h]
    · have h : e.name ≠ q := fun h => hn (h ▸ rfl)
      rw [if_pos hs, if_neg h, Option.bind_some, Schema.get?_enums_insertEnum, if_neg hn, hs]
      cases c.schema? q.schema <;> rfl
  · have h : e.name ≠ q := fun h => hs (h ▸ rfl)
    rw [if_neg hs, if_neg h]

theorem relation?_insertRelation (r : Relation) (q : QualifiedName) :
    (c.insertRelation r).relation? q = if r.name = q then some r else c.relation? q := by
  rw [relation?_eq_bind, schema?_insertRelation, relation?_eq_bind]
  by_cases hs : r.name.schema = q.schema
  · by_cases hn : r.name.name = q.name
    · have h : r.name = q := by
        cases hq : r.name; cases q; simp_all
      simp [h]
    · have h : r.name ≠ q := fun h => hn (h ▸ rfl)
      rw [if_pos hs, if_neg h, Option.bind_some, Schema.get?_relations_insertRelation, if_neg hn]
      cases c.schema? q.schema <;> rfl
  · have h : r.name ≠ q := fun h => hs (h ▸ rfl)
    rw [if_neg hs, if_neg h]

@[simp] theorem enum?_insertRelation (r : Relation) (q : QualifiedName) :
    (c.insertRelation r).enum? q = c.enum? q := by
  rw [enum?_eq_bind, schema?_insertRelation, enum?_eq_bind]
  split
  · cases c.schema? q.schema <;> rfl
  · rfl

theorem relation?_modifyRelation (name : QualifiedName) (f : Relation → Relation)
    (q : QualifiedName) :
    (c.modifyRelation name f).relation? q =
      if name = q then (c.relation? q).map f else c.relation? q := by
  rw [relation?_eq_bind, schema?_modifyRelation, relation?_eq_bind]
  by_cases hs : name.schema = q.schema
  · rw [if_pos hs]
    cases hq : c.schema? q.schema with
    | none => simp
    | some s =>
      by_cases hn : name.name = q.name
      · have h : name = q := by
          cases name; cases q; simp_all
        simp [h]
      · have h : name ≠ q := fun h => hn (h ▸ rfl)
        simp [hn, h]
  · have h : name ≠ q := fun h => hs (h ▸ rfl)
    rw [if_neg hs, if_neg h]

@[simp] theorem enum?_modifyRelation (name : QualifiedName) (f : Relation → Relation)
    (q : QualifiedName) : (c.modifyRelation name f).enum? q = c.enum? q := by
  rw [enum?_eq_bind, schema?_modifyRelation, enum?_eq_bind]
  split
  · cases c.schema? q.schema <;> rfl
  · rfl

@[simp] theorem relationOrder_ensureSchema (name : String) :
    (c.ensureSchema name).relationOrder = c.relationOrder := by
  unfold ensureSchema
  split <;> rfl

@[simp] theorem relationOrder_modifyRelation (name : QualifiedName) (f : Relation → Relation) :
    (c.modifyRelation name f).relationOrder = c.relationOrder := rfl

theorem relationOrder_insertRelation (r : Relation) :
    (c.insertRelation r).relationOrder =
      if (c.relation? r.name).isSome then c.relationOrder else c.relationOrder ++ [r.name] := by
  unfold insertRelation
  split <;> rfl

/-- A new relation creates its schema. -/
theorem insertRelation_ensureSchema (r : Relation) :
    (c.ensureSchema r.name.schema).insertRelation r = c.insertRelation r := by
  unfold insertRelation
  rw [modifySchema_ensureSchema, relation?_ensureSchema, relationOrder_ensureSchema]

theorem relationKind?_eq_none_iff (q : QualifiedName) :
    c.relationKind? q = none ↔ c.enum? q = none ∧ c.relation? q = none := by
  rw [enum?_eq_bind, relation?_eq_bind]
  unfold relationKind?
  cases c.schema? q.schema with
  | none => simp
  | some s =>
    cases he : s.enums.get? q.name <;> cases hr : s.relations.get? q.name <;>
      simp [Schema.relationKind?, OrderedMap.contains, he, hr]

theorem relation?_of_relationKind?_view {q : QualifiedName} (h : c.relationKind? q = some .view) :
    ∃ r, c.relation? q = some r ∧ r.isView = true := by
  unfold relationKind? at h
  rw [relation?_eq_bind]
  cases hs : c.schema? q.schema with
  | none => simp [hs] at h
  | some s =>
    simp only [hs, Option.bind_eq_bind, Option.bind_some, Schema.relationKind?] at h
    split at h
    · cases h
    · cases hr : s.relations.get? q.name with
      | none => simp [hr] at h
      | some r =>
        refine ⟨r, hr, ?_⟩
        cases hv : r.isView with
        | true => rfl
        | false => simp [hr, hv] at h

end Catalog

end DdlCatalog
