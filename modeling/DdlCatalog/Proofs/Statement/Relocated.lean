import DdlCatalog.Proofs.Catalog.Relation
import DdlCatalog.Statement.Basic

/-! # Statements at other places
Statements that differ in the locations of columns and constraints only. How the locations are related
is left open: they may be any, the same, or those of one text in another. -/

namespace DdlCatalog

open Text (Location)

variable {L : Location → Location → Prop} {f g : Location → Location}

namespace ColumnDef

def withoutLocation (d : ColumnDef) : ColumnDef := { d with location := default }

def relocate (f : Location → Location) (d : ColumnDef) : ColumnDef :=
  { d with location := f d.location }

structure Relocated (L : Location → Location → Prop) (d d' : ColumnDef) : Prop where
  column : d.column = d'.column
  location : L d.location d'.location

theorem Relocated.relocate_eq {d d' : ColumnDef} (h : d.Relocated L d')
    (hfg : ∀ l l', L l l' → f l = g l') : d.relocate f = d'.relocate g := by
  rw [relocate, relocate, h.column, hfg _ _ h.location]

end ColumnDef

namespace TableConstraint

def withoutLocation (c : TableConstraint) : TableConstraint := { c with location := default }

def relocate (f : Location → Location) (k : TableConstraint) : TableConstraint :=
  { k with location := f k.location }

structure Relocated (L : Location → Location → Prop) (k k' : TableConstraint) : Prop where
  name : k.name = k'.name
  columns : k.columns = k'.columns
  kind : k.kind = k'.kind
  inColumn : k.inColumn = k'.inColumn
  location : L k.location k'.location

theorem Relocated.relocate_eq {k k' : TableConstraint} (h : k.Relocated L k')
    (hfg : ∀ l l', L l l' → f l = g l') : k.relocate f = k'.relocate g := by
  rw [relocate, relocate, h.name, h.columns, h.kind, h.inColumn, hfg _ _ h.location]

end TableConstraint

namespace CreateTable

def withoutLocations (s : CreateTable) : CreateTable :=
  { s with
    columns := s.columns.map (·.withoutLocation)
    constraints := s.constraints.map (·.withoutLocation) }

def relocate (f : Location → Location) (s : CreateTable) : CreateTable :=
  { s with columns := s.columns.map (·.relocate f), constraints := s.constraints.map (·.relocate f) }

def locations (s : CreateTable) : List Location :=
  s.columns.map (·.location) ++ s.constraints.map (·.location)

structure Relocated (L : Location → Location → Prop) (s s' : CreateTable) : Prop where
  columns : List.Forall₂ (ColumnDef.Relocated L) s.columns s'.columns
  constraints : List.Forall₂ (TableConstraint.Relocated L) s.constraints s'.constraints
  others : s = { s' with columns := s.columns, constraints := s.constraints }

variable {s s' : CreateTable}

theorem Relocated.relocate_eq (h : s.Relocated L s') (hfg : ∀ l l', L l l' → f l = g l') :
    s.relocate f = s'.relocate g := by
  have hcolumns : s.columns.map (·.relocate f) = s'.columns.map (·.relocate g) :=
    map_eq_map_of_forall₂ h.columns fun _ _ hd => hd.relocate_eq hfg
  have hconstraints : s.constraints.map (·.relocate f) = s'.constraints.map (·.relocate g) :=
    map_eq_map_of_forall₂ h.constraints fun _ _ hk => hk.relocate_eq hfg
  unfold relocate
  rw [hcolumns, hconstraints, h.others]

theorem Relocated.related (h : s.Relocated L s') {l : Location} (hl : l ∈ s.locations) :
    ∃ l', L l l' := by
  rcases List.mem_append.1 hl with hl | hl
  · obtain ⟨d, hd, rfl⟩ := List.mem_map.1 hl
    obtain ⟨d', -, hd⟩ := exists_of_mem_forall₂ h.columns.flip hd
    exact ⟨d'.location, hd.location⟩
  · obtain ⟨k, hk, rfl⟩ := List.mem_map.1 hl
    obtain ⟨k', -, hk⟩ := exists_of_mem_forall₂ h.constraints.flip hk
    exact ⟨k'.location, hk.location⟩

end CreateTable

namespace Statement

/-- A statement in which every location is the same one. -/
def withoutLocations : Statement → Statement
  | createTable s => createTable s.withoutLocations
  | s => s

def relocate (f : Location → Location) : Statement → Statement
  | createTable s => createTable (s.relocate f)
  | s => s

/-- Only tables have locations. -/
def locations : Statement → List Location
  | createTable s => s.locations
  | _ => []

inductive Relocated (L : Location → Location → Prop) : Statement → Statement → Prop where
  | createTable {s s' : CreateTable} (h : s.Relocated L s') :
    Relocated L (.createTable s) (.createTable s')
  | other {s : Statement} (h : s.locations = []) : Relocated L s s

variable {s s' : Statement}

theorem relocate_of_locations (h : s.locations = []) : s.relocate f = s := by
  cases s with
  | createTable s =>
    obtain ⟨name, optional, temporary, unlogged, action, columns, constraints⟩ := s
    obtain ⟨hcolumns, hconstraints⟩ := List.append_eq_nil_iff.1 h
    obtain rfl : columns = [] := List.map_eq_nil_iff.1 hcolumns
    obtain rfl : constraints = [] := List.map_eq_nil_iff.1 hconstraints
    rfl
  | _ => rfl

theorem Relocated.relocate_eq (h : s.Relocated L s') (hfg : ∀ l l', L l l' → f l = g l') :
    s.relocate f = s'.relocate g := by
  cases h with
  | createTable h => exact congrArg Statement.createTable (h.relocate_eq hfg)
  | other h => rw [relocate_of_locations h, relocate_of_locations h]

theorem relocate_id (s : Statement) : s.relocate id = s := by
  cases s with
  | createTable s =>
    have hcolumns : s.columns.map (·.relocate id) = s.columns := List.map_id _
    have hconstraints : s.constraints.map (·.relocate id) = s.constraints := List.map_id _
    rw [relocate, CreateTable.relocate, hcolumns, hconstraints]
  | _ => rfl

theorem withoutLocations_eq (s : Statement) : s.withoutLocations = s.relocate fun _ => default := by
  cases s <;> rfl

theorem Relocated.withoutLocations_eq (h : s.Relocated L s') :
    s.withoutLocations = s'.withoutLocations := by
  rw [Statement.withoutLocations_eq, Statement.withoutLocations_eq]
  exact h.relocate_eq fun _ _ _ => rfl

theorem Relocated.related (h : s.Relocated L s') {l : Location} (hl : l ∈ s.locations) :
    ∃ l', L l l' := by
  cases h with
  | createTable h => exact h.related hl
  | other h =>
    rw [h] at hl
    cases hl

end Statement

namespace ParsedStatement

def relocate (f : Location → Location) (p : ParsedStatement) : ParsedStatement :=
  { p with statement := p.statement.relocate f, location := f p.location }

/-- The location of the statement and those within it. -/
def locations (p : ParsedStatement) : List Location := p.location :: p.statement.locations

structure Relocated (L : Location → Location → Prop) (p p' : ParsedStatement) : Prop where
  statement : p.statement.Relocated L p'.statement
  text : p.text = p'.text
  location : L p.location p'.location

variable {p p' : ParsedStatement}

theorem Relocated.relocate_eq (h : p.Relocated L p') (hfg : ∀ l l', L l l' → f l = g l') :
    p.relocate f = p'.relocate g := by
  rw [relocate, relocate, h.statement.relocate_eq hfg, h.text, hfg _ _ h.location]

theorem relocate_id (p : ParsedStatement) : p.relocate id = p := by
  rw [relocate, Statement.relocate_id]
  rfl

theorem Relocated.related (h : p.Relocated L p') {l : Location} (hl : l ∈ p.locations) :
    ∃ l', L l l' := by
  rcases List.mem_cons.1 hl with rfl | hl
  · exact ⟨p'.location, h.location⟩
  · exact h.statement.related hl

end ParsedStatement

def TableConstraint.unplaced (k : TableConstraint) : TableConstraint :=
  { k with inColumn := false, location := default }

/-- A column that admits nulls. -/
def ColumnDef.relaxed (d : ColumnDef) : ColumnDef := { d with column := { d.column with nullable := true } }

/-- The tables differ in where constraints are written. Where columns have the same name, other columns
may admit nulls. -/
structure CreateTable.Restates (s s' : CreateTable) : Prop where
  others : s' = { s with columns := s'.columns, constraints := s'.constraints }
  constraints_eq : s'.constraints.map (·.unplaced) = s.constraints.map (·.unplaced)
  columns_eq : s'.columns = s.columns ∨
    (s'.columns.map (·.relaxed) = s.columns.map (·.relaxed) ∧ ¬ (s.columns.map (·.column.name)).Nodup)

end DdlCatalog
