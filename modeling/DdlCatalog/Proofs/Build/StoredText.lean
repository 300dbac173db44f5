import DdlCatalog.Proofs.Build.History
import DdlCatalog.Proofs.Build.Resolution
import DdlCatalog.Proofs.Grammar.Reparse

/-! # The texts of objects
Tables, views and routines keep the text of the statement that has declared them. Parsed once more, it
is the statement that they have been built from. -/

namespace DdlCatalog

open Grammar (ReadsAs)

variable {config : Config} {p : ParsedStatement} {ps ps' : List ParsedStatement}
  {scope scope' : Scope} {d mid : Draft} {found : NewTable}

/-- The relation is that of the statement, but for its indexes and the state of its keys. -/
inductive Relation.StoredBy (config : Config) (p : ParsedStatement) (r : Relation) : Prop where
  | table {s before t after} (said : p.statement = .createTable s)
      (placed : s.name.qualify config.defaultSchema = r.name)
      (built : DraftM.Runs (DraftM.buildTable config r.name s p.text p.location) before t after)
      (unlinked : r.unlinked = { t with indexes := r.indexes }.unlinked)
  | view {s} (said : p.statement = .createView s)
      (placed : s.name.qualify config.defaultSchema = r.name)
      (drawn : r = { s.view r.name p.text p.location with indexes := r.indexes })

namespace Relation.StoredBy

variable {r r' : Relation}

theorem ddl_eq (h : r.StoredBy config p) : r.ddl = p.text := by
  cases h with
  | table _ _ built unlinked => exact (congrArg Relation.ddl unlinked :).trans built.table_text.1
  | view _ _ drawn => exact (congrArg Relation.ddl drawn :)

theorem of_indexes (h : r.StoredBy config p) (hr : r' = { r with indexes := r'.indexes }) :
    r'.StoredBy config p := by
  have hname : r'.name = r.name := (congrArg Relation.name hr :)
  cases h with
  | table said placed built unlinked =>
    refine .table said (placed.trans hname.symm) (hname.symm ▸ built) ?_
    rw [hr]
    exact congrArg (fun r : Relation => { r with indexes := r'.indexes }) unlinked
  | view said placed drawn =>
    refine .view said (placed.trans hname.symm) ?_
    rw [hname, hr]
    exact congrArg (fun r : Relation => { r with indexes := r'.indexes }) drawn

/-- The state of keys does not matter. -/
theorem of_unlinked (h : r.StoredBy config p) (hr : r'.unlinked = r.unlinked) :
    r'.StoredBy config p := by
  have hname : r'.name = r.name := (congrArg Relation.name hr :)
  have hindexes : r'.indexes = r.indexes := (congrArg Relation.indexes hr :)
  cases h with
  | table said placed built unlinked =>
    refine .table said (placed.trans hname.symm) (hname.symm ▸ built) ?_
    rw [hr, hindexes]
    exact unlinked
  | view said placed drawn =>
    have hconstraints : r'.constraints = r.constraints := by
      have hks : r'.constraints.map Constraint.unlinked = r.constraints.map Constraint.unlinked :=
        congrArg Relation.constraints hr
      have hnone : r.constraints = [] := (congrArg Relation.constraints drawn :)
      rw [hnone] at hks ⊢
      exact List.map_eq_nil_iff.1 hks
    have hsame : r' = r := by
      have hfull := congrArg (fun s : Relation => { s with constraints := r'.constraints }) hr
      rw [hconstraints] at hfull
      exact Eq.trans (congrArg (fun ks => { r' with constraints := ks }) hconstraints) hfull
    rw [hsame]
    exact .view said placed drawn

end Relation.StoredBy

def StoredFunction.StoredBy (config : Config) (p : ParsedStatement) (f : StoredFunction) : Prop :=
  ∃ s, p.statement = .createFunction s ∧
    f = s.function (s.name.qualify config.defaultSchema) p.text p.location

def StoredProcedure.StoredBy (config : Config) (p : ParsedStatement) (r : StoredProcedure) :
    Prop :=
  ∃ s, p.statement = .createProcedure s ∧
    r = s.procedure (s.name.qualify config.defaultSchema) p.text p.location

/-- All routines of a schema have been stored by statements. -/
structure Schema.RoutinesStored (config : Config) (ps : List ParsedStatement) (s : Schema) :
    Prop where
  functions : ∀ name, ∀ f ∈ s.functionsNamed name, ∃ p ∈ ps, f.StoredBy config p
  procedures : ∀ name, ∀ r ∈ s.proceduresNamed name, ∃ p ∈ ps, r.StoredBy config p

namespace Schema.RoutinesStored

variable {s s' : Schema}

theorem ofName (config : Config) (ps : List ParsedStatement) (name : String) :
    (Schema.ofName name).RoutinesStored config ps :=
  ⟨fun _ _ h => (nomatch h), fun _ _ h => (nomatch h)⟩

theorem mono (h : s.RoutinesStored config ps) (hps : ps ⊆ ps') : s.RoutinesStored config ps' where
  functions name f hf := by
    obtain ⟨p, hp, hs⟩ := h.functions name f hf
    exact ⟨p, hps hp, hs⟩
  procedures name r hr := by
    obtain ⟨p, hp, hs⟩ := h.procedures name r hr
    exact ⟨p, hps hp, hs⟩

/-- Nothing else of a schema matters. -/
theorem congr (h : s.RoutinesStored config ps) (hfunctions : s'.functions = s.functions)
    (hprocedures : s'.procedures = s.procedures) : s'.RoutinesStored config ps := by
  refine ⟨fun name f hf => ?_, fun name r hr => ?_⟩
  · rw [Schema.functionsNamed, hfunctions] at hf
    exact h.functions name f hf
  · rw [Schema.proceduresNamed, hprocedures] at hr
    exact h.procedures name r hr

theorem insertFunction (h : s.RoutinesStored config ps) {f : StoredFunction} (hp : p ∈ ps)
    (hf : f.StoredBy config p) : (s.insertFunction f).RoutinesStored config ps where
  functions name g hg := by
    rw [Schema.functionsNamed_insertFunction] at hg
    split at hg
    · rcases mem_putOverload hg with rfl | hg
      · exact ⟨p, hp, hf⟩
      · exact h.functions name g hg
    · exact h.functions name g hg
  procedures := h.procedures

theorem insertProcedure (h : s.RoutinesStored config ps) {r : StoredProcedure} (hp : p ∈ ps)
    (hr : r.StoredBy config p) : (s.insertProcedure r).RoutinesStored config ps where
  functions := h.functions
  procedures name q hq := by
    rw [Schema.proceduresNamed_insertProcedure] at hq
    split at hq
    · rcases mem_putOverload hq with rfl | hq
      · exact ⟨p, hp, hr⟩
      · exact h.procedures name q hq
    · exact h.procedures name q hq

end Schema.RoutinesStored

def Catalog.RoutinesStored (config : Config) (ps : List ParsedStatement) (c : Catalog) : Prop :=
  ∀ n s, c.schema? n = some s → s.RoutinesStored config ps

namespace Catalog.RoutinesStored

variable {c c' : Catalog}

theorem mono (h : c.RoutinesStored config ps) (hps : ps ⊆ ps') : c.RoutinesStored config ps' :=
  fun n s hs => (h n s hs).mono hps

theorem schemaOrNew (h : c.RoutinesStored config ps) (n : String) :
    ((c.schema? n).getD (Schema.ofName n)).RoutinesStored config ps := by
  cases hs : c.schema? n with
  | none => exact .ofName config ps n
  | some s => exact h n s hs

theorem ensureSchema (h : c.RoutinesStored config ps) (n : String) :
    (c.ensureSchema n).RoutinesStored config ps := by
  intro m s hs
  rw [schema?_ensureSchema] at hs
  split at hs
  · cases hs
    exact h.schemaOrNew n
  · exact h m s hs

theorem modifySchema (h : c.RoutinesStored config ps) {n : String} {f : Schema → Schema}
    (hf : ∀ s : Schema, s.RoutinesStored config ps → (f s).RoutinesStored config ps) :
    (c.modifySchema n f).RoutinesStored config ps := by
  intro m s hs
  rw [schema?_modifySchema] at hs
  split at hs
  · cases hs
    exact hf _ (h.schemaOrNew n)
  · exact h m s hs

theorem insertRelation (h : c.RoutinesStored config ps) (r : Relation) :
    (c.insertRelation r).RoutinesStored config ps := by
  intro m s hs
  rw [schema?_insertRelation] at hs
  split at hs
  · cases hs
    exact (h.schemaOrNew m).congr rfl rfl
  · exact h m s hs

/-- Relations do not matter. -/
theorem of_bare (h : c.RoutinesStored config ps)
    (hc : ∀ n, (c'.schema? n).map Schema.bare = (c.schema? n).map Schema.bare) :
    c'.RoutinesStored config ps := by
  intro n s' hs'
  have hbare := hc n
  rw [hs'] at hbare
  obtain ⟨s, hs, he⟩ := Option.map_eq_some_iff.1 hbare.symm
  have hsame : s'.bare = s.bare := he.symm
  exact (h n s hs).congr (congrArg Schema.functions hsame :)
    (congrArg Schema.procedures hsame :)

theorem modifyRelation (h : c.RoutinesStored config ps) (q : QualifiedName)
    (f : Relation → Relation) : (c.modifyRelation q f).RoutinesStored config ps := by
  refine h.of_bare fun n => ?_
  rw [schema?_modifyRelation]
  split
  · cases c.schema? n <;> rfl
  · rfl

end Catalog.RoutinesStored

/-- An accepted statement stores at most the routine that it declares. -/
theorem Step.routinesStored (step : Step config p scope d scope' found mid)
    (h : d.catalog.RoutinesStored config ps) :
    mid.catalog.RoutinesStored config (ps ++ [p]) := by
  have hbefore := h.mono (List.subset_append_left ps [p])
  have hp : p ∈ ps ++ [p] := List.mem_append_right ps (List.mem_singleton_self p)
  cases step with
  | schema | tableSkipped | viewSkipped => exact hbefore.ensureSchema _
  | indexUnplaced | indexSkipped => exact hbefore
  | index => exact hbefore.modifyRelation _ _
  | table | view => exact (hbefore.ensureSchema _).insertRelation _
  | enum | prepared =>
    exact (hbefore.ensureSchema _).modifySchema fun _ hs => hs.congr rfl rfl
  | function said placed =>
    refine (hbefore.ensureSchema _).modifySchema fun _ hs => hs.insertFunction hp ⟨_, said, ?_⟩
    rw [Scope.qualify_eq placed]
  | procedure said placed =>
    refine (hbefore.ensureSchema _).modifySchema fun _ hs => hs.insertProcedure hp ⟨_, said, ?_⟩
    rw [Scope.qualify_eq placed]

/-- All that a catalog holds a text of has been stored by statements. -/
structure Catalog.Stored (config : Config) (ps : List ParsedStatement) (c : Catalog) : Prop where
  relations : ∀ q r, c.relation? q = some r → ∃ p ∈ ps, r.StoredBy config p
  routines : c.RoutinesStored config ps

/-- The state of keys does not matter. -/
theorem Catalog.Stored.relink {c c' : Catalog} (h : c.Stored config ps) (hc : c.Relinked c') :
    c'.Stored config ps where
  relations q r' hr' := by
    obtain ⟨r, hr, hunlinked⟩ := hc.toSameUpTo.symm.exists_relation? hr'
    obtain ⟨p, hp, hs⟩ := h.relations q r hr
    exact ⟨p, hp, hs.of_unlinked hunlinked.symm⟩
  routines := h.routines.of_bare hc.schemas

theorem Relation.Stored.storedBy {q : QualifiedName} {r : Relation}
    (h : Relation.Stored config p d found q r)
    (hd : ∀ q r, d.catalog.relation? q = some r → ∃ p ∈ ps, r.StoredBy config p) :
    ∃ p' ∈ ps ++ [p], r.StoredBy config p' := by
  have hp : p ∈ ps ++ [p] := List.mem_append_right ps (List.mem_singleton_self p)
  cases h with
  | kept before same =>
    obtain ⟨p', hp', hs⟩ := hd _ _ before
    exact ⟨p', List.mem_append_left [p] hp', hs.of_indexes same⟩
  | table said placed built =>
    have hname := built.table.1.name_eq
    exact ⟨p, hp, .table said (placed.trans hname.symm) (hname.symm ▸ built) rfl⟩
  | view said placed drawn =>
    have hname : r.name = q := (congrArg Relation.name drawn :)
    refine ⟨p, hp, .view said (placed.trans hname.symm) ?_⟩
    rw [hname, drawn]

theorem DraftM.Runs.stored_catalog
    (declared : Runs (declare config scope p) d (scope', found) mid)
    (h : d.catalog.Stored config ps) :
    (mid.registerDeclared found).catalog.Stored config (ps ++ [p]) := by
  have hmid : mid.catalog.Stored config (ps ++ [p]) :=
    ⟨fun _ _ hr => (declared.stored hr).storedBy h.relations,
      declared.step.routinesStored h.routines⟩
  exact hmid.relink (mid.advances_registerDeclared found).toRelinked

/-- Each text in a catalog is that of an accepted statement which has declared the object, and it parses
to this statement. -/
structure Catalog.TextsRead (config : Config) (ps : List ParsedStatement) (c : Catalog) :
    Prop where
  relations : ∀ s ∈ c.schemas.values, ∀ r ∈ s.relations.values,
    ∃ p ∈ ps, r.StoredBy config p ∧ ReadsAs r.ddl p.statement
  functions : ∀ s ∈ c.schemas.values, ∀ f ∈ s.allFunctions,
    ∃ p ∈ ps, f.StoredBy config p ∧ ReadsAs f.routine.ddl p.statement
  procedures : ∀ s ∈ c.schemas.values, ∀ r ∈ s.allProcedures,
    ∃ p ∈ ps, r.StoredBy config p ∧ ReadsAs r.routine.ddl p.statement

theorem Schema.exists_functionsNamed {s : Schema} {f : StoredFunction} (h : f ∈ s.allFunctions) :
    ∃ name, f ∈ s.functionsNamed name := by
  obtain ⟨overloads, hvalue, hf⟩ := List.mem_flatten.1 h
  obtain ⟨name, hname⟩ := OrderedMap.exists_get?_of_mem_values hvalue
  refine ⟨name, ?_⟩
  rw [functionsNamed, hname]
  exact hf

theorem Schema.exists_proceduresNamed {s : Schema} {r : StoredProcedure}
    (h : r ∈ s.allProcedures) : ∃ name, r ∈ s.proceduresNamed name := by
  obtain ⟨overloads, hvalue, hr⟩ := List.mem_flatten.1 h
  obtain ⟨name, hname⟩ := OrderedMap.exists_get?_of_mem_values hvalue
  refine ⟨name, ?_⟩
  rw [proceduresNamed, hname]
  exact hr

theorem Catalog.Stored.textsRead {c : Catalog} (h : c.Stored config ps)
    (hps : ∀ p ∈ ps, Grammar.Parsed p) : c.TextsRead config ps where
  relations s hs r hr := by
    obtain ⟨n, hn⟩ := OrderedMap.exists_get?_of_mem_values hs
    obtain ⟨m, hm⟩ := OrderedMap.exists_get?_of_mem_values hr
    have hfound : c.relation? ⟨n, m⟩ = some r := by
      rw [relation?_eq_bind, schema?, hn]
      exact hm
    obtain ⟨p, hp, hstored⟩ := h.relations _ r hfound
    exact ⟨p, hp, hstored, hstored.ddl_eq ▸ (hps p hp).readsAs⟩
  functions s hs f hf := by
    obtain ⟨n, hn⟩ := OrderedMap.exists_get?_of_mem_values hs
    obtain ⟨name, hname⟩ := Schema.exists_functionsNamed hf
    obtain ⟨p, hp, hstored⟩ := (h.routines n s hn).functions name f hname
    refine ⟨p, hp, hstored, ?_⟩
    obtain ⟨-, -, rfl⟩ := hstored
    exact (hps p hp).readsAs
  procedures s hs r hr := by
    obtain ⟨n, hn⟩ := OrderedMap.exists_get?_of_mem_values hs
    obtain ⟨name, hname⟩ := Schema.exists_proceduresNamed hr
    obtain ⟨p, hp, hstored⟩ := (h.routines n s hn).procedures name r hname
    refine ⟨p, hp, hstored, ?_⟩
    obtain ⟨-, -, rfl⟩ := hstored
    exact (hps p hp).readsAs

namespace Builder

variable {b : Builder}

theorem Accepts.stored (h : Accepts config b ps) : b.draft.catalog.Stored config ps :=
  h.history (P := fun ps d => d.catalog.Stored config ps)
    ⟨fun _ _ hr => (nomatch hr), fun _ _ hs => (nomatch hs)⟩ (fun h => h)
    fun _ _ declared h => declared.stored_catalog h

/-- A statement that has been parsed from some text is the one that its own text parses to. So every text
in the catalog of a builder, finished or not, parses to the statement that its object has been built
from. -/
theorem readsAs_text :
    (∀ source text statements, Grammar.parseSource source text = .ok statements →
      ∀ p ∈ statements, ReadsAs p.text p.statement) ∧
    ∀ config b, Reachable config b → (∃ ps, Accepts config b ps) ∧
      ∀ ps, Accepts config b ps → b.draft.catalog.TextsRead config ps ∧
        ∀ c, b.finish = .ok c → c.TextsRead config ps := by
  constructor
  · intro source text statements h p hp
    exact (Grammar.parsed_of_parseSource h p hp).readsAs
  · intro config b h
    refine ⟨exists_accepts h, fun ps hps => ⟨hps.stored.textsRead hps.parsed, fun c hf => ?_⟩⟩
    obtain ⟨-, rfl⟩ := finish_eq_ok_iff.1 hf
    exact (hps.stored.relink b.draft.advances_settle.toRelinked).textsRead hps.parsed

/-- Statements that touch comments and semicolons. -/
def commentedText : String :=
  "create table t(a int check(a>=-1));--x\ncreate view v as select a from t/**/;" ++
    "create function f(a int) returns int return a+1;create procedure p() language sql return 1"

def commentedBuilder : { b // Reachable Config.default b } :=
  ⟨((Builder.ofConfig Config.default).addSource "a.sql" commentedText).2, .addSource .start _ _⟩

theorem readsAs_commentedText :
    ∃ statements c, Grammar.parseSource "a.sql" commentedText = .ok statements ∧
      commentedBuilder.1.finish = .ok c ∧
      statements.map (·.text) =
        ["create table t(a int check(a>=-1))", "create view v as select a from t",
          "create function f(a int) returns int return a+1",
          "create procedure p() language sql return 1"] ∧
      c.schemas.values.map (fun s => (s.relations.values.length, s.allFunctions.length,
        s.allProcedures.length)) = [(2, 1, 1)] ∧
      (∀ p ∈ statements, ReadsAs p.text p.statement) ∧
      (∃ ps, Accepts Config.default commentedBuilder ps) ∧
      ∀ ps, Accepts Config.default commentedBuilder ps →
        commentedBuilder.1.draft.catalog.TextsRead Config.default ps ∧
          c.TextsRead Config.default ps := by
  have hparsed : (Grammar.parseSource "a.sql" commentedText).toOption.map (·.map (·.text)) =
      some ["create table t(a int check(a>=-1))", "create view v as select a from t",
        "create function f(a int) returns int return a+1",
        "create procedure p() language sql return 1"] := by decide +kernel
  have hruns : commentedBuilder.1.draft.settle.issues.isEmpty = true ∧
      commentedBuilder.1.draft.settle.catalog.schemas.values.map (fun s =>
        (s.relations.values.length, s.allFunctions.length, s.allProcedures.length)) =
          [(2, 1, 1)] := by decide +kernel
  have hf : commentedBuilder.1.finish = .ok commentedBuilder.1.draft.settle.catalog :=
    finish_eq_ok_iff.2 ⟨List.isEmpty_iff.1 hruns.1, rfl⟩
  obtain ⟨statements, hs, htexts⟩ := Option.map_eq_some_iff.1 hparsed
  have hs : Grammar.parseSource "a.sql" commentedText = .ok statements := by
    generalize Grammar.parseSource "a.sql" commentedText = parsed at hs ⊢
    cases parsed <;> cases hs
    rfl
  obtain ⟨hhistory, hread⟩ := readsAs_text.2 Config.default commentedBuilder commentedBuilder.2
  exact ⟨statements, _, hs, hf, htexts, hruns.2, readsAs_text.1 _ _ statements hs, hhistory,
    fun ps hps => ⟨(hread ps hps).1, (hread ps hps).2 _ hf⟩⟩

end Builder

end DdlCatalog
