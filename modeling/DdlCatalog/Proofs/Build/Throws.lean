import DdlCatalog.Proofs.Build.Step
import DdlCatalog.Proofs.Statement.Relocated

/-! # Where construction fails
An error of construction is located where the statement is that cannot be registered, or one of its
columns or constraints. -/

namespace DdlCatalog

open Text (Location)

/-- The error is located at one of the given places. -/
def Error.LocatedAt (L : List Location) (e : Error) : Prop := ∃ l ∈ L, e.location? = some l

namespace DraftM

/-- The errors of the step are located at the given places. -/
def Throws {α : Type} (L : List Location) (m : DraftM α) : Prop :=
  ∀ d e, (m.run.run d).1 = .error e → e.LocatedAt L

namespace Throws

variable {α β : Type} {L L' : List Location}

theorem mono {m : DraftM α} (h : Throws L m) (hL : L ⊆ L') : Throws L' m := by
  intro d e he
  obtain ⟨l, hl, hloc⟩ := h d e he
  exact ⟨l, hL hl, hloc⟩

/-- A step that always succeeds. -/
theorem of_runs {m : DraftM α} (h : ∀ d, ∃ a d', Runs m d a d') : Throws L m := by
  intro d e he
  obtain ⟨a, d', hrun⟩ := h d
  rw [hrun] at he
  cases he

theorem pure (a : α) : Throws L (Pure.pure a) := of_runs fun _ => ⟨_, _, runs_pure.2 ⟨rfl, rfl⟩⟩

theorem catalog : Throws L catalog := of_runs fun _ => ⟨_, _, runs_catalog.2 ⟨rfl, rfl⟩⟩

theorem note (e : Event) : Throws L (note e) := of_runs fun _ => ⟨(), _, runs_note.2 rfl⟩

theorem report (e : Error) : Throws L (report e) := of_runs fun _ => ⟨(), _, runs_report.2 rfl⟩

theorem change (f : Catalog → Catalog) : Throws L (change f) :=
  of_runs fun _ => ⟨(), _, runs_change.2 rfl⟩

theorem throw {e : Error} (h : e.LocatedAt L) : Throws L (throw e : DraftM α) := by
  intro d e he
  cases he
  exact h

theorem lift {x : Except Error α} (h : ∀ e, x = .error e → e.LocatedAt L) : Throws L (liftM x) := by
  cases x with
  | ok a => exact pure a
  | error e => exact throw (h e rfl)

/-- Goes on with the values that a step can have. -/
theorem bind_runs {m : DraftM α} {f : α → DraftM β} (hm : Throws L m)
    (hf : ∀ d a d', Runs m d a d' → Throws L (f a)) : Throws L (m >>= f) := by
  intro d e he
  rw [run_bind] at he
  rcases hrun : m.run.run d with ⟨e' | a, mid⟩ <;> rw [hrun] at he
  · cases he
    exact hm d e (congrArg Prod.fst hrun)
  · exact hf d a mid hrun mid e he

theorem bind {m : DraftM α} {f : α → DraftM β} (hm : Throws L m) (hf : ∀ a, Throws L (f a)) :
    Throws L (m >>= f) :=
  hm.bind_runs fun _ a _ _ => hf a

theorem discard {m : DraftM α} (hm : Throws L m) : Throws L (Functor.discard m) := by
  have hmap : Functor.discard m = m >>= fun _ => (Pure.pure () : DraftM Unit) :=
    map_eq_pure_bind (fun _ => ()) m
  rw [hmap]
  exact hm.bind fun _ => pure ()

theorem foldlM {f : β → α → DraftM β} {as : List α} (hf : ∀ a ∈ as, ∀ b, Throws L (f b a)) (b : β) :
    Throws L (as.foldlM f b) := by
  induction as generalizing b with
  | nil => exact pure b
  | cons a as ih =>
    rw [List.foldlM_cons]
    obtain ⟨ha, has⟩ := List.forall_mem_cons.1 hf
    exact (ha b).bind fun b => ih has b

end Throws

variable {config : Config} {scope : Scope} {l : Location} {L : List Location}

theorem throws_place (hl : l ∈ L) (name : ObjectName) : Throws L (place config scope name l) := by
  refine (Throws.lift fun e he => ?_).bind fun _ => (Throws.change _).bind fun _ => .pure _
  unfold Scope.qualify at he
  dsimp only at he
  split at he
  · split at he <;> cases he
    exact ⟨l, hl, rfl⟩
  · cases he
    exact ⟨l, hl, rfl⟩
  · cases he

theorem throws_createSchema (hl : l ∈ L) (name : String) :
    Throws L (createSchema config scope name l) := by
  refine (Throws.lift fun e he => ?_).bind fun _ => Throws.catalog.bind fun c => ?_
  · unfold Scope.declare at he
    split at he
    · split at he
      · split at he <;> cases he
        exact ⟨l, hl, rfl⟩
      · cases he
    · cases he
  · split
    · exact (Throws.note _).bind fun _ => (Throws.change _).bind fun _ => .pure _
    · exact (Throws.change _).bind fun _ => .pure _

theorem throws_resolveTypes (schema : String) (ts : List TypeRef) :
    Throws L (resolveTypes config schema l ts) :=
  .of_runs fun _ => ⟨(), _, runs_resolveTypes.2 rfl⟩

theorem throws_createEnum (hl : l ∈ L) (s : CreateEnum) :
    Throws L (createEnum config scope s l) := by
  refine (throws_place hl s.name).bind fun name => Throws.catalog.bind fun c => ?_
  split
  · exact .throw ⟨l, hl, rfl⟩
  · exact (throws_resolveTypes _ _).bind fun _ => .change _

theorem throws_addColumn {d : ColumnDef} (hd : d.location ∈ L) (table : QualifiedName)
    (columns : List Column) : Throws L (addColumn config table columns d) := by
  unfold addColumn
  split
  · exact .throw ⟨d.location, hd, rfl⟩
  · split
    · exact (Throws.of_runs fun _ => ⟨_, _, runs_resolveType.2 ⟨rfl, rfl⟩⟩).bind fun _ => .pure _
    · exact .pure _

theorem throws_addConstraint {k : TableConstraint} (hk : k.location ∈ L) (table : QualifiedName)
    (columns : List Column) (constraints : List Constraint) :
    Throws L (addConstraint config table columns constraints k) := by
  refine (Throws.of_runs fun _ => ⟨(), _, runs_forM_report.2 rfl⟩).bind fun _ =>
    (Throws.lift fun e he => ?_).bind fun kind => (Throws.lift fun e he => ?_).bind fun _ => .pure _
  · unfold constraintKind at he
    split at he <;> try cases he
    split at he <;> cases he
    exact ⟨k.location, hk, rfl⟩
  · unfold constraintName at he
    dsimp only at he
    split at he
    · split at he <;> cases he
      exact ⟨k.location, hk, rfl⟩
    · cases he

theorem throws_buildTable {s : CreateTable} (hs : s.locations ⊆ L) (name : QualifiedName)
    (ddl : String) : Throws L (buildTable config name s ddl l) := by
  obtain ⟨hcolumns, hconstraints⟩ := List.append_subset.1 hs
  refine (Throws.foldlM (fun d hd columns => ?_) _).bind fun columns =>
    (Throws.foldlM (fun k hk constraints => ?_) _).bind fun _ => .pure _
  · exact throws_addColumn (hcolumns (List.mem_map_of_mem hd)) name columns
  · exact throws_addConstraint (hconstraints (List.mem_map_of_mem hk)) name columns constraints

theorem throws_createTable (hl : l ∈ L) {s : CreateTable} (hs : s.locations ⊆ L) (ddl : String) :
    Throws L (createTable config scope s ddl l) := by
  refine (throws_place hl s.name).bind fun name => Throws.catalog.bind fun c => ?_
  split
  · split
    · exact .note _
    · exact .throw ⟨l, hl, rfl⟩
  · exact (throws_buildTable hs name ddl).bind fun t => (Throws.change _).bind fun _ =>
      .of_runs fun _ => ⟨(), _, runs_registerForeignKeys.2 rfl⟩

theorem throws_insertView (hl : l ∈ L) (name : QualifiedName) (s : CreateView) (ddl : String) :
    Throws L (insertView name s ddl l) := by
  unfold insertView
  split
  · exact .throw ⟨l, hl, rfl⟩
  · exact .change _

theorem throws_createView (hl : l ∈ L) (s : CreateView) (ddl : String) :
    Throws L (createView config scope s ddl l) := by
  refine (throws_place hl s.name).bind fun name => Throws.catalog.bind fun c => ?_
  split
  · exact throws_insertView hl name s ddl
  · split
    · exact (Throws.note _).bind fun _ => throws_insertView hl name s ddl
    · split
      · exact .note _
      · exact .throw ⟨l, hl, rfl⟩

theorem throws_createIndex (hl : l ∈ L) (s : CreateIndex) : Throws L (createIndex config s l) := by
  have insert (table : QualifiedName) (target : Relation) (name : String) :
      Throws L (insertIndex table target s name l) :=
    .of_runs fun _ => ⟨(), _, runs_insertIndex.2 rfl⟩
  refine Throws.catalog.bind fun c => ?_
  split
  · exact .report _
  · split
    · exact .throw ⟨l, hl, rfl⟩
    · split
      · split
        · split
          · exact .note _
          · exact .throw ⟨l, hl, rfl⟩
        · exact insert _ _ _
      · exact insert _ _ _

theorem throws_checkClash {r : Routine} (hr : r.location ∈ L) (kind : ObjectKind) :
    Throws L (checkClash r kind) := by
  refine Throws.catalog.bind fun c => ?_
  split
  · exact .pure _
  · split
    · exact .note _
    · exact .throw ⟨r.location, hr, rfl⟩

/-- Puts a routine together and goes on with what fails where the routine is. -/
theorem throws_buildRoutine (hl : l ∈ L) {name : QualifiedName} {parameters : List Parameter}
    {attributes : RoutineAttributes} {body : RoutineBody} {orReplace : Bool} {ddl : String}
    {f : Routine → DraftM Unit} (hf : ∀ r, r.location ∈ L → Throws L (f r)) :
    Throws L (buildRoutine config name parameters attributes body orReplace ddl l >>= f) := by
  refine Throws.bind_runs ((throws_resolveTypes _ _).bind fun _ => .pure _) fun d r d' hr => ?_
  unfold buildRoutine at hr
  simp only [runs_bind, runs_pure] at hr
  obtain ⟨-, -, -, rfl, -⟩ := hr
  exact hf _ hl

theorem throws_createFunction (hl : l ∈ L) (s : CreateFunction) (ddl : String) :
    Throws L (createFunction config scope s ddl l) :=
  (throws_place hl s.name).bind fun _ => (throws_resolveTypes _ _).bind fun _ =>
    throws_buildRoutine hl fun _ hr => (throws_checkClash hr .function).bind fun _ => .change _

theorem throws_createProcedure (hl : l ∈ L) (s : CreateProcedure) (ddl : String) :
    Throws L (createProcedure config scope s ddl l) :=
  (throws_place hl s.name).bind fun _ =>
    throws_buildRoutine hl fun _ hr => (throws_checkClash hr .procedure).bind fun _ => .change _

theorem throws_prepare (hl : l ∈ L) (s : Prepare) : Throws L (prepare config scope s l) := by
  refine (throws_place hl s.name).bind fun name => Throws.catalog.bind fun c => ?_
  split
  · exact .throw ⟨l, hl, rfl⟩
  · exact (throws_resolveTypes _ _).bind fun _ => .change _

theorem throws_accumulate (p : ParsedStatement) (scope : Scope) :
    Throws p.locations (accumulate config scope p) := by
  have hl : p.location ∈ p.locations := List.mem_cons_self ..
  refine (Throws.note _).bind fun _ => ?_
  split
  · exact throws_createSchema hl _
  · exact (throws_createEnum hl _).bind fun _ => .pure _
  · next s said =>
    have hs : s.locations ⊆ p.locations := by
      unfold ParsedStatement.locations
      rw [said]
      exact List.subset_cons_self _ _
    exact (throws_createTable hl hs p.text).bind fun _ => .pure _
  · exact (throws_createView hl _ p.text).bind fun _ => .pure _
  · exact (throws_createIndex hl _).bind fun _ => .pure _
  · exact (throws_createFunction hl _ p.text).bind fun _ => .pure _
  · exact (throws_createProcedure hl _ p.text).bind fun _ => .pure _
  · exact (throws_prepare hl _).bind fun _ => .pure _

theorem throws_accumulateAll (ps : List ParsedStatement) :
    Throws (ps.flatMap (·.locations)) (accumulateAll config ps) := by
  refine (Throws.foldlM (fun p hp scope => (throws_accumulate p scope).mono ?_) none).discard
  exact fun l hl => List.mem_flatMap.2 ⟨p, hp, hl⟩

end DraftM

end DdlCatalog
