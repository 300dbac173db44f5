import DdlCatalog.Build.Builder
import DdlCatalog.Proofs.Build.Runs

/-! # Steps that only append issues
No step of construction removes or reorders issues, whether it succeeds or fails, and none looks at the
log. So a source that fails can be undone by cutting the issues to their former number. -/

namespace DdlCatalog

open Text (Location)

/-- The drafts differ at most in their logs. -/
structure Draft.SameButLog (d d' : Draft) : Prop where
  catalog_eq : d'.catalog = d.catalog
  pending_eq : d'.pending = d.pending
  issues_eq : d'.issues = d.issues

namespace Draft

/-- Where issues have only been appended, going back undoes everything but the log. -/
theorem restore_checkpoint {d d' : Draft} (h : d.issues <+: d'.issues) :
    d'.restore d.checkpoint = { d with log := d'.log } := by
  obtain ⟨added, hadded⟩ := h
  unfold restore checkpoint
  rw [← hadded, List.take_left]

end Draft

namespace DraftM

/-- The step keeps all issues at their places, and its outcome does not depend on the log. -/
structure Appending {α : Type} (m : DraftM α) : Prop where
  issues : ∀ d, d.issues <+: (m.run.run d).2.issues
  same : ∀ {d d'}, Draft.SameButLog d d' →
    (m.run.run d').1 = (m.run.run d).1 ∧ (m.run.run d).2.SameButLog (m.run.run d').2

namespace Appending

variable {α β : Type}

theorem pure (a : α) : Appending (Pure.pure a) where
  issues _ := List.prefix_rfl
  same h := ⟨rfl, h⟩

theorem throw (e : Error) : Appending (throw e : DraftM α) where
  issues _ := List.prefix_rfl
  same h := ⟨rfl, h⟩

theorem lift (x : Except Error α) : Appending (liftM x) := by
  cases x with
  | ok a => exact pure a
  | error e => exact throw e

theorem bind {m : DraftM α} {f : α → DraftM β} (hm : Appending m) (hf : ∀ a, Appending (f a)) :
    Appending (m >>= f) where
  issues d := by
    have hissues := hm.issues d
    rw [run_bind]
    revert hissues
    rcases m.run.run d with ⟨e | a, mid⟩ <;> intro hissues
    · exact hissues
    · exact hissues.trans ((hf a).issues mid)
  same {d d'} h := by
    obtain ⟨hresult, hdraft⟩ := hm.same h
    rw [run_bind, run_bind]
    revert hresult hdraft
    rcases m.run.run d with ⟨e | a, mid⟩ <;> rcases m.run.run d' with ⟨e' | a', mid'⟩ <;>
      intro hresult hdraft <;> cases hresult
    · exact ⟨rfl, hdraft⟩
    · exact (hf a).same hdraft

theorem map {m : DraftM α} (hm : Appending m) (f : α → β) : Appending (f <$> m) := by
  rw [map_eq_pure_bind]
  exact hm.bind fun a => pure (f a)

theorem discard {m : DraftM α} (hm : Appending m) : Appending (Functor.discard m) := hm.map _

theorem catalog : Appending catalog where
  issues _ := List.prefix_rfl
  same h := ⟨congrArg Except.ok h.catalog_eq, h⟩

theorem note (e : Event) : Appending (note e) where
  issues _ := List.prefix_rfl
  same h := ⟨rfl, h.catalog_eq, h.pending_eq, h.issues_eq⟩

theorem report (e : Error) : Appending (report e) where
  issues _ := List.prefix_append _ _
  same h := ⟨rfl, h.catalog_eq, h.pending_eq, congrArg (· ++ [e]) h.issues_eq⟩

theorem change (f : Catalog → Catalog) : Appending (change f) where
  issues _ := List.prefix_rfl
  same h := ⟨rfl, congrArg f h.catalog_eq, h.pending_eq, h.issues_eq⟩

theorem park (target : QualifiedName) (r : PendingReference) : Appending (park target r) where
  issues _ := List.prefix_rfl
  same h := ⟨rfl, h.catalog_eq,
    congrArg (OrderedMap.alter · target fun rs => rs.getD [] ++ [r]) h.pending_eq, h.issues_eq⟩

theorem forM {f : α → DraftM Unit} (hf : ∀ a, Appending (f a)) (as : List α) :
    Appending (forM as f) := by
  induction as with
  | nil => exact pure ()
  | cons a as ih =>
    rw [List.forM_cons]
    exact (hf a).bind fun _ => ih

theorem foldlM {f : β → α → DraftM β} (hf : ∀ b a, Appending (f b a)) (as : List α) (b : β) :
    Appending (as.foldlM f b) := by
  induction as generalizing b with
  | nil => exact pure b
  | cons a as ih =>
    rw [List.foldlM_cons]
    exact (hf b a).bind ih

end Appending

variable (config : Config) (scope : Scope) (l : Location)

theorem appending_place (name : ObjectName) : Appending (place config scope name l) :=
  (Appending.lift _).bind fun _ => (Appending.change _).bind fun _ => .pure _

theorem appending_createSchema (name : String) : Appending (createSchema config scope name l) := by
  refine (Appending.lift _).bind fun _ => Appending.catalog.bind fun c => ?_
  split
  · exact (Appending.note _).bind fun _ => (Appending.change _).bind fun _ => .pure _
  · exact (Appending.change _).bind fun _ => .pure _

theorem appending_resolveType (schema : String) (t : TypeRef) :
    Appending (resolveType config schema l t) := by
  refine Appending.catalog.bind fun c => ?_
  split
  · exact .pure _
  · exact (Appending.report _).bind fun _ => .pure _
  · exact .pure _

theorem appending_resolveTypes (schema : String) (ts : List TypeRef) :
    Appending (resolveTypes config schema l ts) :=
  Appending.forM (fun t => (appending_resolveType config l schema t).discard) ts

theorem appending_createEnum (s : CreateEnum) : Appending (createEnum config scope s l) := by
  refine (appending_place config scope l s.name).bind fun name => Appending.catalog.bind fun c => ?_
  split
  · exact .throw _
  · exact (appending_resolveTypes config l _ _).bind fun _ => .change _

theorem appending_addColumn (table : QualifiedName) (columns : List Column) (d : ColumnDef) :
    Appending (addColumn config table columns d) := by
  unfold addColumn
  split
  · exact .throw _
  · split
    · exact (appending_resolveType config d.location _ _).bind fun _ => .pure _
    · exact .pure _

theorem appending_addConstraint (table : QualifiedName) (columns : List Column)
    (constraints : List Constraint) (d : TableConstraint) :
    Appending (addConstraint config table columns constraints d) :=
  (Appending.forM (fun _ => .report _) _).bind fun _ =>
    (Appending.lift _).bind fun _ => (Appending.lift _).bind fun _ => .pure _

theorem appending_buildTable (name : QualifiedName) (s : CreateTable) (ddl : String) :
    Appending (buildTable config name s ddl l) :=
  (Appending.foldlM (appending_addColumn config name) _ _).bind fun columns =>
    (Appending.foldlM (appending_addConstraint config name columns) _ _).bind fun _ => .pure _

theorem appending_linkForeignKey (owner : QualifiedName) (name : String) :
    Appending (linkForeignKey owner name) := by
  refine Appending.catalog.bind fun c => ?_
  split
  · exact .pure _
  · refine Appending.catalog.bind fun c => ?_
    split
    · exact .change _
    · exact Appending.forM (fun _ => .report _) _

theorem appending_registerForeignKey (owner : QualifiedName) (k : Constraint) (key : ForeignKey) :
    Appending (registerForeignKey owner k key) := by
  refine Appending.catalog.bind fun c => ?_
  split
  · exact appending_linkForeignKey owner k.name
  · exact (Appending.note _).bind fun _ => (Appending.change _).bind fun _ => .park _ _

theorem appending_registerForeignKeys (owner : QualifiedName) (ks : List Constraint) :
    Appending (registerForeignKeys owner ks) := by
  refine Appending.forM (fun k => ?_) ks
  split
  · exact appending_registerForeignKey owner k _
  · exact .pure _

theorem appending_createTable (s : CreateTable) (ddl : String) :
    Appending (createTable config scope s ddl l) := by
  refine (appending_place config scope l s.name).bind fun name => Appending.catalog.bind fun c => ?_
  split
  · split
    · exact .note _
    · exact .throw _
  · exact (appending_buildTable config l name s ddl).bind fun t =>
      (Appending.change _).bind fun _ => appending_registerForeignKeys name t.constraints

theorem appending_insertView (name : QualifiedName) (s : CreateView) (ddl : String) :
    Appending (insertView name s ddl l) := by
  unfold insertView
  split
  · exact .throw _
  · exact .change _

theorem appending_createView (s : CreateView) (ddl : String) :
    Appending (createView config scope s ddl l) := by
  refine (appending_place config scope l s.name).bind fun name => Appending.catalog.bind fun c => ?_
  split
  · exact appending_insertView l name s ddl
  · split
    · exact (Appending.note _).bind fun _ => appending_insertView l name s ddl
    · split
      · exact .note _
      · exact .throw _

theorem appending_insertIndex (table : QualifiedName) (target : Relation) (s : CreateIndex)
    (name : String) : Appending (insertIndex table target s name l) :=
  (Appending.forM (fun _ => .report _) _).bind fun _ => .change _

theorem appending_createIndex (s : CreateIndex) : Appending (createIndex config s l) := by
  refine Appending.catalog.bind fun c => ?_
  split
  · exact .report _
  · split
    · exact .throw _
    · split
      · split
        · split
          · exact .note _
          · exact .throw _
        · exact appending_insertIndex l _ _ s _
      · exact appending_insertIndex l _ _ s _

theorem appending_buildRoutine (name : QualifiedName) (parameters : List Parameter)
    (attributes : RoutineAttributes) (body : RoutineBody) (orReplace : Bool) (ddl : String) :
    Appending (buildRoutine config name parameters attributes body orReplace ddl l) :=
  (appending_resolveTypes config l _ _).bind fun _ => .pure _

theorem appending_checkClash (r : Routine) (kind : ObjectKind) : Appending (checkClash r kind) := by
  refine Appending.catalog.bind fun c => ?_
  split
  · exact .pure _
  · split
    · exact .note _
    · exact .throw _

theorem appending_createFunction (s : CreateFunction) (ddl : String) :
    Appending (createFunction config scope s ddl l) :=
  (appending_place config scope l s.name).bind fun name =>
    (appending_resolveTypes config l _ _).bind fun _ =>
      (appending_buildRoutine config l name _ _ _ _ ddl).bind fun r =>
        (appending_checkClash r .function).bind fun _ => .change _

theorem appending_createProcedure (s : CreateProcedure) (ddl : String) :
    Appending (createProcedure config scope s ddl l) :=
  (appending_place config scope l s.name).bind fun name =>
    (appending_buildRoutine config l name _ _ _ _ ddl).bind fun r =>
      (appending_checkClash r .procedure).bind fun _ => .change _

theorem appending_prepare (s : Prepare) : Appending (prepare config scope s l) := by
  refine (appending_place config scope l s.name).bind fun name => Appending.catalog.bind fun c => ?_
  split
  · exact .throw _
  · exact (appending_resolveTypes config l _ _).bind fun _ => .change _

theorem appending_accumulate (p : ParsedStatement) : Appending (accumulate config scope p) := by
  refine (Appending.note _).bind fun _ => ?_
  split
  · exact appending_createSchema config scope p.location _
  · exact (appending_createEnum config scope p.location _).bind fun _ => .pure _
  · exact (appending_createTable config scope p.location _ p.text).bind fun _ => .pure _
  · exact (appending_createView config scope p.location _ p.text).bind fun _ => .pure _
  · exact (appending_createIndex config p.location _).bind fun _ => .pure _
  · exact (appending_createFunction config scope p.location _ p.text).bind fun _ => .pure _
  · exact (appending_createProcedure config scope p.location _ p.text).bind fun _ => .pure _
  · exact (appending_prepare config scope p.location _).bind fun _ => .pure _

theorem appending_accumulateAll (ps : List ParsedStatement) :
    Appending (accumulateAll config ps) :=
  (Appending.foldlM (appending_accumulate config) ps none).discard

end DraftM

end DdlCatalog
