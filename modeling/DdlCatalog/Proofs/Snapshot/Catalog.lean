import DdlCatalog.Build.Builder
import DdlCatalog.Proofs.Snapshot.Codec
import DdlCatalog.Snapshot.Catalog

/-! # Catalogs read back from their snapshots
A catalog is found at the front of its snapshot, whatever follows, and a snapshot that is cut off is
refused. Each type of the catalog is read back because its parts are; the only numbers without a width
of their own are those of locations. -/

namespace DdlCatalog

/-- The numbers of a location fit into a machine word. -/
def Text.Location.FitsWord (l : Text.Location) : Prop :=
  l.offset < 2 ^ 64 ∧ l.line < 2 ^ 64 ∧ l.column < 2 ^ 64

instance (l : Text.Location) : Decidable l.FitsWord := by
  unfold Text.Location.FitsWord
  infer_instance

def Relation.locations (r : Relation) : List Text.Location :=
  r.location :: (r.constraints.map (·.location) ++ r.indexes.map (·.location))

def Schema.locations (s : Schema) : List Text.Location :=
  s.enums.values.map (·.location) ++ s.relations.values.flatMap (·.locations) ++
    s.allFunctions.map (·.routine.location) ++ s.allProcedures.map (·.routine.location) ++
    s.prepared.values.map (·.location)

/-- Where the objects of a catalog are declared. -/
def Catalog.locations (c : Catalog) : List Text.Location := c.schemas.values.flatMap (·.locations)

namespace Snapshot

open Codec
open Text (Location)

theorem location_faithful {l : Location} (h : l.FitsWord) : location.Faithful l :=
  .iso rfl <| (string_faithful _).pair <| (natural_faithful h.1).pair <|
    (natural_faithful h.2.1).pair (natural_faithful h.2.2)

theorem text?_faithful (text? : Option String) : string.option.Faithful text? :=
  .option fun s _ => string_faithful s

theorem texts_faithful (texts : List String) : string.list.Faithful texts :=
  .list fun s _ => string_faithful s

theorem qualifiedName_faithful (n : QualifiedName) : qualifiedName.Faithful n :=
  .iso rfl <| (string_faithful _).pair (string_faithful _)

theorem size?_faithful (size? : Option UInt32) : word32.option.Faithful size? :=
  .option fun n _ => word32_faithful n

theorem typeRef_faithful (t : TypeRef) : typeRef.Faithful t :=
  .iso rfl <| (text?_faithful _).pair <| (string_faithful _).pair <| (size?_faithful _).pair <|
    (size?_faithful _).pair (.list fun size? _ => size?_faithful size?)

theorem sentinel_faithful (s : Sentinel) : sentinel.Faithful s :=
  enumeration_faithful (by decide) (by cases s <;> decide)

theorem literal_faithful (l : Literal) : literal.Faithful l := by
  refine variants_faithful (by decide)
    ⟨Variant.of_faithful ?_, Variant.of_faithful ?_, Variant.of_faithful ?_, Variant.of_faithful ?_,
      Variant.constant_faithful _ _, Variant.of_faithful ?_⟩
    (by cases l <;> simp [Variant.of, Variant.constant])
  all_goals
    intro b hb
    cases l <;> cases hb
  · exact ⟨rfl, integer_faithful _⟩
  · exact ⟨rfl, binary64_faithful _⟩
  · exact ⟨rfl, string_faithful _⟩
  · exact ⟨rfl, bool_faithful _⟩
  · exact ⟨rfl, sentinel_faithful _⟩

theorem expression_faithful (e : Expression) : expression.Faithful e :=
  .iso rfl <| (string_faithful _).pair <|
    (Faithful.option fun l _ => literal_faithful l).pair (texts_faithful _)

theorem expression?_faithful (e? : Option Expression) : expression.option.Faithful e? :=
  .option fun e _ => expression_faithful e

theorem enumPragma_faithful (p : EnumPragma) : enumPragma.Faithful p :=
  .iso rfl <| (text?_faithful _).pair <|
    (Faithful.option fun t _ => typeRef_faithful t).pair (text?_faithful _)

theorem enumType_faithful {e : EnumType} (h : e.location.FitsWord) : enumType.Faithful e :=
  .iso rfl <| (qualifiedName_faithful _).pair <| (texts_faithful _).pair <|
    (Faithful.option fun p _ => enumPragma_faithful p).pair (location_faithful h)

theorem generatedColumn_faithful (g : GeneratedColumn) : generatedColumn.Faithful g :=
  .iso rfl <| (expression_faithful _).pair <|
    enumeration_faithful (by decide) (by cases g.storage <;> decide)

theorem identity_faithful (i : Identity) : identity.Faithful i :=
  .iso rfl <| Faithful.pair (enumeration_faithful (by decide) (by cases i.kind <;> decide))
    (text?_faithful _)

theorem column_faithful (c : Column) : column.Faithful c :=
  .iso rfl <| (string_faithful _).pair <| (text?_faithful _).pair <|
    (Faithful.option fun t _ => typeRef_faithful t).pair <|
    (Faithful.option fun n _ => qualifiedName_faithful n).pair <| (bool_faithful _).pair <|
    (expression?_faithful _).pair <|
    (Faithful.option fun g _ => generatedColumn_faithful g).pair <|
    (Faithful.option fun i _ => identity_faithful i).pair (text?_faithful _)

theorem referentialAction_faithful (a : ReferentialAction) : referentialAction.Faithful a :=
  enumeration_faithful (by decide) (by cases a <;> decide)

theorem matchType_faithful (t : MatchType) : matchType.Faithful t :=
  enumeration_faithful (by decide) (by cases t <;> decide)

theorem foreignKey_faithful (k : ForeignKey) : foreignKey.Faithful k :=
  .iso rfl <| (qualifiedName_faithful _).pair <| (texts_faithful _).pair <|
    (Faithful.option fun a _ => referentialAction_faithful a).pair <|
    (Faithful.option fun a _ => referentialAction_faithful a).pair <|
    (Faithful.option fun t _ => matchType_faithful t).pair <|
    (bool_faithful _).pair <| (bool_faithful _).pair <| (bool_faithful _).pair (bool_faithful _)

theorem exclusionElement_faithful (e : ExclusionElement) : exclusionElement.Faithful e :=
  .iso rfl <| (expression_faithful _).pair <| (text?_faithful _).pair (string_faithful _)

theorem exclusion_faithful (e : Exclusion) : exclusion.Faithful e :=
  .iso rfl <| (text?_faithful _).pair <|
    (Faithful.list fun e _ => exclusionElement_faithful e).pair (expression?_faithful _)

theorem constraintKind_faithful (k : ConstraintKind) : constraintKind.Faithful k := by
  refine variants_faithful (by decide)
    ⟨Variant.constant_faithful _ _, Variant.of_faithful ?_, Variant.of_faithful ?_,
      Variant.of_faithful ?_, Variant.of_faithful ?_⟩
    (by cases k <;> simp [Variant.of, Variant.constant])
  all_goals
    intro b hb
    cases k <;> cases hb
  · exact ⟨rfl, bool_faithful _⟩
  · exact ⟨rfl, expression_faithful _⟩
  · exact ⟨rfl, foreignKey_faithful _⟩
  · exact ⟨rfl, exclusion_faithful _⟩

theorem constraint_faithful {c : Constraint} (h : c.location.FitsWord) : constraint.Faithful c :=
  .iso rfl <| (string_faithful _).pair <| (bool_faithful _).pair <| (texts_faithful _).pair <|
    (constraintKind_faithful _).pair (location_faithful h)

theorem indexElement_faithful (e : IndexElement) : indexElement.Faithful e :=
  .iso rfl <| (expression_faithful _).pair <| (text?_faithful _).pair <|
    (text?_faithful _).pair <| (text?_faithful _).pair <|
    Faithful.pair
      (.option fun order _ => enumeration_faithful (by decide) (by cases order <;> decide))
      (.option fun nulls _ => enumeration_faithful (by decide) (by cases nulls <;> decide))

theorem index_faithful {i : Index} (h : i.location.FitsWord) : index.Faithful i :=
  .iso rfl <| (string_faithful _).pair <| (bool_faithful _).pair <|
    (qualifiedName_faithful _).pair <| (bool_faithful _).pair <| (text?_faithful _).pair <|
    (Faithful.list fun e _ => indexElement_faithful e).pair <| (texts_faithful _).pair <|
    (expression?_faithful _).pair <| (bool_faithful _).pair <| (bool_faithful _).pair
    (location_faithful h)

theorem relationKind_faithful (k : RelationKind) : relationKind.Faithful k := by
  refine variants_faithful (by decide)
    ⟨Variant.constant_faithful _ _, Variant.of_faithful ?_⟩
    (by cases k <;> simp [Variant.of, Variant.constant])
  intro b hb
  cases k <;> cases hb
  exact ⟨rfl, (bool_faithful _).pair (bool_faithful _)⟩

theorem onCommit_faithful (o : OnCommit) : onCommit.Faithful o :=
  enumeration_faithful (by decide) (by cases o <;> decide)

theorem relation_faithful {r : Relation} (h : ∀ l ∈ r.locations, l.FitsWord) :
    relation.Faithful r := by
  simp only [Relation.locations, List.forall_mem_cons, List.forall_mem_append,
    List.forall_mem_map] at h
  obtain ⟨hown, hconstraints, hindexes⟩ := h
  exact .iso rfl <| (qualifiedName_faithful _).pair <| (relationKind_faithful _).pair <|
    (Faithful.list fun c _ => column_faithful c).pair <|
    (Faithful.list fun c hc => constraint_faithful (hconstraints c hc)).pair <|
    (Faithful.list fun i hi => index_faithful (hindexes i hi)).pair <|
    (bool_faithful _).pair <| (bool_faithful _).pair <|
    (Faithful.option fun o _ => onCommit_faithful o).pair <| (text?_faithful _).pair <|
    (string_faithful _).pair (location_faithful hown)

theorem parameterMode_faithful (m : ParameterMode) : parameterMode.Faithful m :=
  enumeration_faithful (by decide) (by cases m <;> decide)

theorem parameter_faithful (p : Parameter) : parameter.Faithful p :=
  .iso rfl <| (parameterMode_faithful _).pair <| (text?_faithful _).pair <|
    (typeRef_faithful _).pair (expression?_faithful _)

theorem returns_faithful (r : Returns) : returns.Faithful r := by
  refine variants_faithful (by decide)
    ⟨Variant.of_faithful ?_, Variant.of_faithful ?_, Variant.of_faithful ?_⟩
    (by cases r <;> simp [Variant.of])
  all_goals
    intro b hb
    cases r <;> cases hb
  · exact ⟨rfl, typeRef_faithful _⟩
  · exact ⟨rfl, typeRef_faithful _⟩
  · exact ⟨rfl, .list fun c _ => (string_faithful c.1).pair (typeRef_faithful c.2)⟩

theorem volatility_faithful (v : Volatility) : volatility.Faithful v :=
  enumeration_faithful (by decide) (by cases v <;> decide)

theorem bodyKind_faithful (k : BodyKind) : bodyKind.Faithful k := by
  refine variants_faithful (by decide)
    ⟨Variant.of_faithful ?_, Variant.constant_faithful _ _, Variant.constant_faithful _ _⟩
    (by cases k <;> simp [Variant.of, Variant.constant])
  intro b hb
  cases k <;> cases hb
  exact ⟨rfl, string_faithful _⟩

theorem routineBody_faithful (b : RoutineBody) : routineBody.Faithful b :=
  .iso rfl <| (bodyKind_faithful _).pair <| (string_faithful _).pair (string_faithful _)

theorem routine_faithful {r : Routine} (h : r.location.FitsWord) : routine.Faithful r :=
  .iso rfl <| (qualifiedName_faithful _).pair <|
    (Faithful.list fun p _ => parameter_faithful p).pair <| (text?_faithful _).pair <|
    (routineBody_faithful _).pair <| (bool_faithful _).pair <| (bool_faithful _).pair <|
    (string_faithful _).pair (location_faithful h)

theorem storedFunction_faithful {f : StoredFunction} (h : f.routine.location.FitsWord) :
    storedFunction.Faithful f :=
  .iso rfl <| (routine_faithful h).pair <| (Faithful.option fun r _ => returns_faithful r).pair <|
    (Faithful.option fun v _ => volatility_faithful v).pair <| (bool_faithful _).pair <|
    (bool_faithful _).pair <| (text?_faithful _).pair <| (text?_faithful _).pair (text?_faithful _)

theorem storedProcedure_faithful {p : StoredProcedure} (h : p.routine.location.FitsWord) :
    storedProcedure.Faithful p :=
  .iso rfl (routine_faithful h)

theorem preparedParameters_faithful (p : PreparedParameters) : preparedParameters.Faithful p := by
  refine variants_faithful (by decide)
    ⟨Variant.constant_faithful _ _, Variant.of_faithful ?_, Variant.of_faithful ?_⟩
    (by cases p <;> simp [Variant.of, Variant.constant])
  all_goals
    intro b hb
    cases p <;> cases hb
  · exact ⟨rfl, texts_faithful _⟩
  · exact ⟨rfl, .list fun n _ => word32_faithful n⟩

theorem preparedStatement_faithful {p : PreparedStatement} (h : p.location.FitsWord) :
    preparedStatement.Faithful p :=
  .iso rfl <| (qualifiedName_faithful _).pair <|
    (Faithful.list fun t _ => typeRef_faithful t).pair <| (preparedParameters_faithful _).pair <|
    (string_faithful _).pair (location_faithful h)

theorem schema_faithful {s : Schema} (h : ∀ l ∈ s.locations, l.FitsWord) : schema.Faithful s := by
  simp only [Schema.locations, List.forall_mem_append, List.forall_mem_map,
    List.forall_mem_flatMap] at h
  obtain ⟨⟨⟨⟨henums, hrelations⟩, hfunctions⟩, hprocedures⟩, hprepared⟩ := h
  have hoverloads : ∀ fs ∈ s.functions.values, storedFunction.list.Faithful fs := fun fs hfs =>
    .list fun f hf => storedFunction_faithful (hfunctions f (List.mem_flatten_of_mem hfs hf))
  have hvariants : ∀ ps ∈ s.procedures.values, storedProcedure.list.Faithful ps := fun ps hps =>
    .list fun p hp => storedProcedure_faithful (hprocedures p (List.mem_flatten_of_mem hps hp))
  exact .iso rfl <| (string_faithful _).pair <|
    (Faithful.map fun e he => enumType_faithful (henums e he)).pair <|
    (Faithful.map fun r hr => relation_faithful (hrelations r hr)).pair <|
    (Faithful.map hoverloads).pair <| (Faithful.map hvariants).pair <|
    .map fun p hp => preparedStatement_faithful (hprepared p hp)

theorem catalog_faithful {c : Catalog} (h : ∀ l ∈ c.locations, l.FitsWord) :
    catalog.Faithful c := by
  rw [Catalog.locations, List.forall_mem_flatMap] at h
  exact .iso rfl <| (string_faithful _).pair <|
    (Faithful.map fun s hs => schema_faithful (h s hs)).pair
    (.list fun n _ => qualifiedName_faithful n)

end Snapshot

namespace Catalog

/-- A catalog is read back from its snapshot, whatever follows, and not from a part of it. Its locations
and the length of the snapshot are machine words. -/
theorem ofBytes_toBytes {c : Catalog} (hlocations : ∀ l ∈ c.locations, l.FitsWord)
    (hlength : c.toBytes.length < 2 ^ 64) :
    (∀ rest, ofBytes (c.toBytes ++ rest) = .ok c) ∧
      ∀ part, part <+: c.toBytes → part ≠ c.toBytes →
        ∃ message, ofBytes part = .error (.snapshot message) := by
  have hreads : Snapshot.Reads Snapshot.catalog.read c.toBytes c :=
    (Snapshot.catalog_faithful hlocations).reads hlength
  constructor
  · intro rest
    rw [ofBytes, hreads.whole]
  · intro part hpart hne
    have hshorter : part.length < c.toBytes.length :=
      lt_of_le_of_ne hpart.length_le fun he => hne (hpart.eq_of_length he)
    refine ⟨Snapshot.Fault.endOfInput.message, ?_⟩
    rw [List.prefix_iff_eq_take.1 hpart, ofBytes, hreads.part _ hshorter]

/-- A catalog with an enum, a float, a constraint and an index. -/
def moodCatalog : Catalog :=
  ((Builder.ofConfig Config.default).addSource "a.sql"
    ("create type mood as enum ('é'); create table t (m mood, x float default 1.5 unique);" ++
      " create index on t (x)")).2.draft.catalog

theorem ofBytes_moodCatalog :
    moodCatalog.locations.length = 4 ∧
      (∀ rest, ofBytes (moodCatalog.toBytes ++ rest) = .ok moodCatalog) ∧
      ∀ part, part <+: moodCatalog.toBytes → part ≠ moodCatalog.toBytes →
        ∃ message, ofBytes part = .error (.snapshot message) := by
  have hwords : moodCatalog.locations.length = 4 ∧ (∀ l ∈ moodCatalog.locations, l.FitsWord) ∧
      moodCatalog.toBytes.length < 2 ^ 64 := by decide +kernel
  exact ⟨hwords.1, ofBytes_toBytes hwords.2.1 hwords.2.2⟩

end Catalog

end DdlCatalog
