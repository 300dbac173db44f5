import DdlCatalog.Proofs.Build.Resolution

/-! # Integrity of finished catalogs
What refers to something that is missing leaves an issue. A catalog without issues has every column,
enum and table that is named in it. -/

namespace DdlCatalog

/-- All columns that a constraint names. An exclusion names them in its elements, too. -/
def Constraint.namedColumns (k : Constraint) : List String :=
  k.columns ++ (k.exclusion?.map fun e => e.elements.filterMap (·.column)).getD []

theorem Constraint.namedColumns_unlinked (k : Constraint) :
    k.unlinked.namedColumns = k.namedColumns := by
  unfold namedColumns unlinked
  rw [modifyForeignKey_columns]
  unfold exclusion? modifyForeignKey
  cases hk : k.kind <;> simp [hk]

/-- Constraints and indexes of a relation name columns of its own. -/
structure Relation.NamesOwn (r : Relation) : Prop where
  constraints : ∀ k ∈ r.constraints, ∀ name ∈ k.namedColumns, r.hasColumn name = true
  indexes : ∀ i ∈ r.indexes, i.table = r.name ∧ r.isIndexable = true ∧
    ∀ name ∈ i.keyColumns ++ i.included, r.hasColumn name = true

theorem Relation.NamesOwn.relink {r r' : Relation} (h : r.NamesOwn)
    (hr : r'.unlinked = r.unlinked) : r'.NamesOwn := by
  have hcolumns : r'.columns = r.columns := (congrArg Relation.columns hr :)
  have hcolumn (name : String) : r'.hasColumn name = r.hasColumn name := by
    unfold hasColumn column?
    rw [hcolumns]
  have hname : r'.name = r.name := (congrArg Relation.name hr :)
  have hindexable : r'.isIndexable = r.isIndexable := (congrArg Relation.isIndexable hr :)
  have hindexes : r'.indexes = r.indexes := (congrArg Relation.indexes hr :)
  have hconstraints : r'.constraints.map Constraint.unlinked =
      r.constraints.map Constraint.unlinked := (congrArg Relation.constraints hr :)
  refine ⟨fun k' hk' name hm => ?_, fun i hi => ?_⟩
  · have hmem : k'.unlinked ∈ r.constraints.map Constraint.unlinked := by
      rw [← hconstraints]
      exact List.mem_map_of_mem hk'
    obtain ⟨k, hk, hkk⟩ := List.mem_map.1 hmem
    rw [← k'.namedColumns_unlinked, ← hkk, k.namedColumns_unlinked] at hm
    rw [hcolumn]
    exact h.constraints k hk name hm
  · rw [hindexes] at hi
    obtain ⟨htable, hi', hall⟩ := h.indexes i hi
    exact ⟨htable.trans hname.symm, hindexable.trans hi', fun name hm => by
      rw [hcolumn]; exact hall name hm⟩

/-- The enum of a column is one of the catalog and has the name of its type. -/
def Column.EnumKnown (c : Catalog) (col : Column) : Prop :=
  ∀ e, col.enumType = some e →
    (∃ t, col.dataType = some t ∧ e.name = t.name) ∧ (c.enum? e).isSome = true

namespace Catalog

/-- Names inside relations stand for something, up to the targets of keys. -/
def Consistent (c : Catalog) : Prop :=
  ∀ q r, c.relation? q = some r → r.NamesOwn ∧ ∀ col ∈ r.columns, col.EnumKnown c

namespace Consistent

variable {c c' : Catalog}

/-- Relations that stay as they are stay consistent while enums are added. -/
theorem frame (h : c.Consistent) (hrelation : ∀ q, c'.relation? q = c.relation? q)
    (henum : ∀ e, (c.enum? e).isSome = true → (c'.enum? e).isSome = true) : c'.Consistent := by
  intro q r hr
  rw [hrelation] at hr
  obtain ⟨hown, hcolumns⟩ := h q r hr
  refine ⟨hown, fun col hcol e he => ?_⟩
  obtain ⟨ht, hknown⟩ := hcolumns col hcol e he
  exact ⟨ht, henum e hknown⟩

theorem insertRelation (h : c.Consistent) {r : Relation} (hown : r.NamesOwn)
    (hcolumns : ∀ col ∈ r.columns, col.EnumKnown c) : (c.insertRelation r).Consistent := by
  have hknown {col : Column} (hcol : col.EnumKnown c) : col.EnumKnown (c.insertRelation r) := by
    intro e he
    rw [enum?_insertRelation]
    exact hcol e he
  intro q r' hr'
  rw [relation?_insertRelation] at hr'
  split at hr'
  · cases hr'
    exact ⟨hown, fun col hcol => hknown (hcolumns col hcol)⟩
  · obtain ⟨hown', hcolumns'⟩ := h q r' hr'
    exact ⟨hown', fun col hcol => hknown (hcolumns' col hcol)⟩

theorem addIndex (h : c.Consistent) {q : QualifiedName} {r : Relation} {i : Index}
    (hr : c.relation? q = some r) (htable : i.table = r.name) (hindexable : r.isIndexable = true)
    (hi : ∀ name ∈ i.keyColumns ++ i.included, r.hasColumn name = true) :
    (c.modifyRelation q fun r => { r with indexes := r.indexes ++ [i] }).Consistent := by
  intro q' r' hr'
  rw [relation?_modifyRelation] at hr'
  have hknown {col : Column} (hcol : col.EnumKnown c) :
      col.EnumKnown (c.modifyRelation q fun r => { r with indexes := r.indexes ++ [i] }) := by
    intro e he
    rw [enum?_modifyRelation]
    exact hcol e he
  split at hr'
  · next hq =>
    subst hq
    rw [hr] at hr'
    cases hr'
    obtain ⟨hown, hcolumns⟩ := h q r hr
    refine ⟨⟨hown.constraints, fun i' hi' => ?_⟩, fun col hcol => hknown (hcolumns col hcol)⟩
    rcases List.mem_append.1 hi' with hi' | hi'
    · exact hown.indexes i' hi'
    · rw [List.mem_singleton.1 hi']
      exact ⟨htable, hindexable, hi⟩
  · obtain ⟨hown, hcolumns⟩ := h q' r' hr'
    exact ⟨hown, fun col hcol => hknown (hcolumns col hcol)⟩

theorem relink (h : c.Consistent) (hc : c.Relinked c') : c'.Consistent := by
  intro q r' hr'
  obtain ⟨r, hr, hrr⟩ := hc.symm.exists_relation? hr'
  obtain ⟨hown, hcolumns⟩ := h q r hr
  have hsame : r'.columns = r.columns := (congrArg Relation.columns hrr :).symm
  refine ⟨hown.relink hrr.symm, fun col hcol e he => ?_⟩
  rw [hc.enum?_eq]
  exact hcolumns col (hsame ▸ hcol) e he

end Consistent

end Catalog

section Tables

variable {config : Config} {c : Catalog} {q : QualifiedName} {s : CreateTable} {t : Relation}

theorem meaningOfNames_eq_enum {names : List QualifiedName} {e : QualifiedName}
    (h : c.meaningOfNames names = .enum e) : e ∈ names ∧ (c.enum? e).isSome = true := by
  induction names with
  | nil => cases h
  | cons name names ih =>
    unfold Catalog.meaningOfNames at h
    split at h
    · next hname =>
      cases h
      exact ⟨List.mem_cons_self .., hname⟩
    · split at h
      · cases h
      · obtain ⟨hm, hknown⟩ := ih h
        exact ⟨List.mem_cons_of_mem _ hm, hknown⟩

/-- A type can only name an enum of its own name. -/
theorem namedEnum?_eq_some {schema : String} {ty : TypeRef} {e : QualifiedName}
    (h : c.namedEnum? config schema ty = some e) :
    e.name = ty.name ∧ (c.enum? e).isSome = true := by
  unfold Catalog.namedEnum? at h
  split at h
  · next name hmeaning =>
    cases h
    unfold Catalog.typeMeaning at hmeaning
    dsimp only at hmeaning
    split at hmeaning
    · cases hmeaning
    · split at hmeaning
      · cases hmeaning
      · split at hmeaning
        · obtain ⟨hm, hknown⟩ := meaningOfNames_eq_enum hmeaning
          rw [List.mem_singleton.1 hm] at hknown ⊢
          exact ⟨rfl, hknown⟩
        · obtain ⟨hm, hknown⟩ := meaningOfNames_eq_enum hmeaning
          simp only [List.mem_cons, List.not_mem_nil, or_false] at hm
          rcases hm with rfl | rfl
          · exact ⟨rfl, hknown⟩
          · exact ⟨rfl, hknown⟩
  · cases h

theorem Drawn.enumKnown (h : Drawn config c q s t) (hs : s.WellWritten) :
    ∀ col ∈ t.columns, col.EnumKnown c := by
  intro col hcol e he
  rw [h.columns_eq] at hcol
  obtain ⟨d, hd, rfl⟩ := List.mem_map.1 hcol
  unfold Catalog.resolvedColumn at he ⊢
  split at he
  · next ty hty =>
    obtain ⟨hname, hknown⟩ := namedEnum?_eq_some he
    simp only [hty]
    exact ⟨⟨ty, rfl, hname⟩, hknown⟩
  · rw [hs.no_enum d hd] at he
    cases he

theorem Declares.mem_namedColumns {table : QualifiedName} {d : TableConstraint} {k : Constraint}
    (h : Declares config table d k) (hd : d.ExcludesOwn) {name : String}
    (hm : name ∈ k.namedColumns) : name ∈ d.columns := by
  rcases List.mem_append.1 hm with hm | hm
  · rwa [← h.columns_eq]
  · have hkind := h.kind_eq
    unfold Constraint.exclusion? at hm
    generalize k.kind = kind at hkind hm
    cases kind with
    | exclusion e =>
      have hexclusion : d.kind = .exclusion e := by
        unfold DraftM.constraintKind at hkind
        cases hk : d.kind with
        | exclusion e' =>
          simp only [hk] at hkind
          cases hkind
          rfl
        | foreignKey r =>
          simp only [hk] at hkind
          split at hkind <;> cases hkind
        | _ =>
          simp only [hk] at hkind
          cases hkind
      rw [hd e hexclusion]
      simpa using hm
    | _ => simp at hm

theorem Drawn.namesOwn (h : Drawn config c q s t) (hs : s.WellWritten)
    (hissues : tableIssues config c q s = []) : t.NamesOwn := by
  have hcolumn (name : String) : t.hasColumn name = true ↔ name ∈ s.columns.map (·.column.name) := by
    rw [Relation.hasColumn_iff, h.columns_eq, List.map_map]
    simp
  refine ⟨fun k hk name hm => ?_, fun i hi => ?_⟩
  · obtain ⟨d, hd, hdeclares⟩ := h.exists_declares hk
    have hname := hdeclares.mem_namedColumns (hs.exclusion_columns d hd) hm
    have hmissing : DraftM.missingColumns (s.columns.map (c.resolvedColumn config q.schema)) d = [] := by
      have hall := List.flatMap_eq_nil_iff.1 (List.append_eq_nil_iff.1 hissues).2 d hd
      exact List.map_eq_nil_iff.1 hall
    rw [hcolumn]
    unfold DraftM.missingColumns at hmissing
    cases hkind : d.kind with
    | check e => exact hs.check_columns d hd e hkind name hname
    | _ =>
      simp only [hkind] at hmissing
      have hany := List.filter_eq_nil_iff.1 hmissing name hname
      simpa using hany
  · rw [h.indexes_eq] at hi
    cases hi

end Tables

section Statements

variable {config : Config} {p : ParsedStatement} {scope scope' : Scope} {d d' : Draft}
  {found : NewTable}

theorem Step.consistent (hp : Grammar.Parsed p) (step : Step config p scope d scope' found d')
    (hc : d.catalog.WellFormed) (h : d.catalog.Consistent) (hissues : d'.issues = d.issues) :
    d'.catalog.Consistent := by
  have hplaced (name : String) : (d.catalog.ensureSchema name).Consistent := by
    refine h.frame (d.catalog.relation?_ensureSchema name) fun e he => ?_
    rwa [Catalog.enum?_ensureSchema]
  cases step with
  | schema | tableSkipped | viewSkipped => exact hplaced _
  | indexUnplaced | indexSkipped => exact h
  | @enum s q _ _ _ _ =>
    refine (hplaced q.schema).frame (Catalog.relation?_modifySchema _ (by exact fun _ => rfl) _)
      fun e he => ?_
    have hinserted := Catalog.enum?_insertEnum (d.catalog.ensureSchema q.schema)
      ⟨q, s.labels, s.pragma, p.location⟩ e
    apply (congrArg Option.isSome hinserted).trans
    split
    · rfl
    · exact he
  | function | procedure | prepared =>
    refine (hplaced _).frame (Catalog.relation?_modifySchema _ (by exact fun _ => rfl) _)
      fun e he => ?_
    exact (congrArg Option.isSome
      (Catalog.enum?_modifySchema _ (by exact fun _ => rfl) _ e)).trans he
  | table said _ _ drawn =>
    have hs := hp.wellWritten said
    refine (hplaced _).insertRelation (drawn.namesOwn hs ?_) (drawn.enumKnown hs)
    exact List.append_right_eq_self.1 hissues
  | view =>
    refine (hplaced _).insertRelation ⟨fun k hk => (nomatch hk), fun i hi => (nomatch hi)⟩ ?_
    intro col hcol e he
    obtain ⟨name, -, rfl⟩ := List.mem_map.1 hcol
    cases he
  | @index s log target name _ known indexable =>
    refine h.addIndex known (hc.relation known).1.symm indexable fun column hm => ?_
    have hmissing := List.map_eq_nil_iff.1 (List.append_right_eq_self.1 hissues)
    simpa using List.filter_eq_nil_iff.1 hmissing column hm

end Statements

/-- A key lists no columns or as many as its constraint. -/
def ForeignKey.Fits (key : ForeignKey) (columns : List String) : Prop :=
  key.referencedColumns = [] ∨ key.referencedColumns.length = columns.length

namespace Catalog

variable {c c' : Catalog}

def KeysFit (c : Catalog) : Prop :=
  ∀ q name k key, c.foreignKey? q name = some (k, key) → key.Fits k.columns

theorem fits_completedKey {columns : List String} {l : Text.Location} {key : ForeignKey}
    (h : key.Fits columns) : (c.completedKey columns l key).Fits columns := by
  unfold completedKey
  cases hcheck : c.checkReference key columns l with
  | error issues => exact h
  | ok referenced =>
    obtain ⟨target, -, -, hr, -⟩ := checkReference_eq_ok_iff.1 hcheck
    rcases referencedColumns_eq_ok_iff.1 hr with ⟨-, -, -, hlength⟩ | ⟨-, rfl⟩
    · exact .inr hlength
    · exact h

theorem KeysFit.linkKey (h : c.KeysFit) (id : KeyId) : (c.linkKey id).KeysFit := by
  intro q name k key hk
  rw [foreignKey?_linkKey] at hk
  split at hk
  · obtain ⟨⟨k₀, key₀⟩, hk₀, he⟩ := Option.map_eq_some_iff.1 hk
    cases he
    rw [show (c.completed k₀).columns = k₀.columns from k₀.modifyForeignKey_columns]
    exact fits_completedKey (h q name k₀ key₀ hk₀)
  · exact h q name k key hk

theorem KeysFit.addedLater (h : c.KeysFit) (owner : QualifiedName) (n : String) :
    (c.modifyForeignKey owner n (·.addedLater)).KeysFit := by
  intro q name k key hk
  rw [foreignKey?_modifyForeignKey] at hk
  split at hk
  · obtain ⟨⟨k₀, key₀⟩, hk₀, he⟩ := Option.map_eq_some_iff.1 hk
    cases he
    rw [k₀.modifyForeignKey_columns]
    exact h q name k₀ key₀ hk₀
  · exact h q name k key hk

theorem KeysFit.congr (h : c.KeysFit)
    (hsame : ∀ q, (c'.relation? q).map (·.constraints) = (c.relation? q).map (·.constraints)) :
    c'.KeysFit := by
  intro q name k key hk
  rw [foreignKey?_congr (hsame q)] at hk
  exact h q name k key hk

theorem KeysFit.insertRelation (h : c.KeysFit) {r : Relation}
    (hr : ∀ k ∈ r.constraints, ∀ key, k.foreignKey? = some key → key.Fits k.columns) :
    (c.insertRelation r).KeysFit := by
  intro q name k key hk
  obtain ⟨r', hr', hk, hkey⟩ := foreignKey?_eq_some_iff.1 hk
  rw [relation?_insertRelation] at hr'
  split at hr'
  · cases hr'
    exact hr k (List.mem_of_find?_eq_some hk) key hkey
  · exact h q name k key (foreignKey?_eq_some_iff.2 ⟨r', hr', hk, hkey⟩)

end Catalog

section Statements

variable {config : Config} {p : ParsedStatement} {scope scope' : Scope} {d d' : Draft}
  {found : NewTable}

theorem Step.keysFit (step : Step config p scope d scope' found d') (h : d.catalog.KeysFit) :
    d'.catalog.KeysFit := by
  have hplaced (name : String) : (d.catalog.ensureSchema name).KeysFit :=
    h.congr fun q => by rw [Catalog.relation?_ensureSchema]
  cases step with
  | schema | tableSkipped | viewSkipped => exact hplaced _
  | indexUnplaced | indexSkipped => exact h
  | enum | function | procedure | prepared =>
    exact (hplaced _).congr fun q => congrArg (Option.map (·.constraints))
      (Catalog.relation?_modifySchema _ (by exact fun _ => rfl) _ q)
  | table _ _ _ drawn =>
    refine (hplaced _).insertRelation fun k hk key hkey => ?_
    obtain ⟨_, -, hdeclares⟩ := drawn.exists_declares hk
    exact (hdeclares.foreignKey hkey).2
  | view => exact (hplaced _).insertRelation fun k hk => nomatch hk
  | index =>
    refine h.congr fun q => ?_
    dsimp only
    rw [Catalog.relation?_modifyRelation]
    split
    · rw [Option.map_map]
      rfl
    · rfl

namespace Draft

theorem keysFit_register (h : d.catalog.KeysFit) (owner : QualifiedName) (k : Constraint) :
    (d.register owner k).catalog.KeysFit := by
  unfold register
  split
  · split
    · exact h.linkKey _
    · exact h.addedLater _ _
  · exact h

theorem keysFit_registerDeclared (h : d.catalog.KeysFit) (found : NewTable) :
    (d.registerDeclared found).catalog.KeysFit := by
  cases found with
  | none => exact h
  | some table =>
    rcases table with ⟨owner, ks⟩
    unfold registerDeclared
    dsimp only
    induction ks generalizing d with
    | nil => exact h
    | cons k ks ih => exact ih (keysFit_register h owner k)

theorem keysFit_settle (h : d.catalog.KeysFit) : d.settle.catalog.KeysFit := by
  have hall (ws : List (QualifiedName × PendingReference)) (d : Draft) (h : d.catalog.KeysFit) :
      (ws.foldl resolve d).catalog.KeysFit := by
    induction ws generalizing d with
    | nil => exact h
    | cons w ws ih =>
      apply ih _
      unfold resolve
      split
      · exact h.linkKey _
      · exact h
  rw [settle_eq]
  exact hall _ _ h

end Draft

end Statements

/-- A key that has found what it refers to. -/
structure Catalog.KeyResolved (c : Catalog) (k : Constraint) (key : ForeignKey) : Prop where
  resolved : key.resolved = true
  columns_ne_nil : key.referencedColumns ≠ []
  length_eq : key.referencedColumns.length = k.columns.length
  target : ∃ t, c.relation? key.referencedTable = some t ∧ t.isView = false ∧
    ∀ name ∈ key.referencedColumns, t.hasColumn name = true

namespace Builder

variable {config : Config} {b : Builder} {trace : Trace} {c : Catalog}

theorem Traced.keysFit (h : Traced config b trace) : b.draft.catalog.KeysFit :=
  h.invariant (P := fun d => d.catalog.KeysFit) (fun _ _ _ _ hk => nomatch hk) (fun h => h)
    (fun _ step h => step.keysFit h) fun found h => Draft.keysFit_registerDeclared h found

theorem Traced.consistent (h : Traced config b trace) (hissues : b.draft.issues = []) :
    b.draft.catalog.Consistent := by
  have hinv := h.invariant
    (P := fun d => d.catalog.WellFormed ∧ (d.issues = [] → d.catalog.Consistent))
    ⟨Catalog.WellFormed.ofDefaultSchema _, fun _ _ _ hr => nomatch hr⟩ (fun h => h) ?_ ?_
  · exact hinv.2 hissues
  · rintro p scope d scope' found mid hp step ⟨hc, hd⟩
    refine ⟨step.wellFormed hp hc, fun hnone => ?_⟩
    rcases step.exists_issues with ⟨own, hown⟩
    have hd' : d.issues = [] := (List.append_eq_nil_iff.1 (hown ▸ hnone)).1
    exact step.consistent hp hc (hd hd') (hnone.trans hd'.symm)
  · rintro d found ⟨hc, hd⟩
    have hrelinked := (d.advances_registerDeclared found).toRelinked
    refine ⟨hc.relink hrelinked, fun hnone => ?_⟩
    obtain ⟨keys, hkeys⟩ := d.exists_issues_registerDeclared found
    exact (hd (List.append_eq_nil_iff.1 (hkeys ▸ hnone)).1).relink hrelinked

theorem Traced.keyResolved (h : Traced config b trace) (hf : b.finish = .ok c) {q : QualifiedName}
    {r : Relation} (hr : c.relation? q = some r) {k : Constraint} (hk : k ∈ r.constraints)
    {key : ForeignKey} (hkey : k.foreignKey? = some key) : c.KeyResolved k key := by
  rcases h.ledger with ⟨hc, closed, late, -, hledger⟩
  obtain ⟨-, hvalid⟩ := h.exists_finish_iff.1 ⟨c, hf⟩
  obtain ⟨-, rfl⟩ := finish_eq_ok_iff.1 hf
  have hid := Catalog.foreignKey?_of_mem hc hr hk hkey
  have hmem : (r, k) ∈ b.draft.settle.catalog.constraints := by
    refine List.mem_flatMap.2 ⟨r, ?_, List.mem_map_of_mem hk⟩
    rw [hc.mem_relations, (hc.relation hr).1]
    exact hr
  obtain ⟨referenced, hcheck⟩ := hvalid r k key hmem hkey
  have hsettled := hledger.settled_all hc hid k key hid
  rw [hcheck] at hsettled
  rcases hsettled with ⟨hresolved, rfl⟩
  obtain ⟨t, ht, hv, hcolumns, hall⟩ := Catalog.checkReference_eq_ok_iff.1 hcheck
  have hne : key.referencedColumns ≠ [] := by
    rcases Catalog.referencedColumns_eq_ok_iff.1 hcolumns with ⟨-, -, hne, -⟩ | ⟨hne, -⟩
    · exact hne
    · exact hne
  have hfits := Draft.keysFit_settle h.keysFit q k.name k key hid
  exact ⟨hresolved, hne, hfits.resolve_left hne, t, ht, hv, hall⟩

/-- Referential integrity: in a finished catalog keys refer to columns of base tables, constraints and
indexes to columns of their own relation, and columns to enums by the names of their types. -/
theorem integrity_of_finish (h : Reachable config b) (hf : b.finish = .ok c) {q : QualifiedName}
    {r : Relation} (hr : c.relation? q = some r) :
    r.name = q ∧
      (∀ k ∈ r.constraints, ∀ key, k.foreignKey? = some key → c.KeyResolved k key) ∧
      r.NamesOwn ∧ ∀ col ∈ r.columns, col.EnumKnown c := by
  obtain ⟨trace, ht⟩ := exists_traced h
  obtain ⟨hnone, hcatalog⟩ := finish_eq_ok_iff.1 hf
  rcases ht.keyIssues_perm with ⟨late, hissues, -⟩
  have hconsistent : c.Consistent := by
    rw [hcatalog]
    have hnone' := List.append_eq_nil_iff.1 (hissues ▸ hnone)
    exact (ht.consistent hnone'.1).relink b.draft.advances_settle.toRelinked
  have hwf : c.WellFormed := by
    rw [hcatalog]
    exact ht.wellFormed.relink b.draft.advances_settle.toRelinked
  obtain ⟨hown, hcolumns⟩ := hconsistent q r hr
  exact ⟨(hwf.relation hr).1, fun k hk key hkey => ht.keyResolved hf hr hk hkey, hown, hcolumns⟩

/-- A key to a later table, an index and a column of an enum. -/
def shopBuilder : Builder :=
  ((Builder.ofConfig Config.default).addSource "shop.sql"
    "create type m as enum ('x'); create table a (b int references c, d m);
     create index on a (b); create table c (b int primary key)").2

theorem integrity_shopBuilder :
    ∃ c r, shopBuilder.finish = .ok c ∧ c.relation? ⟨"public", "a"⟩ = some r ∧
      (r.constraints.length = 1 ∧ r.indexes.length = 1) ∧
      r.name = ⟨"public", "a"⟩ ∧
      (∀ k ∈ r.constraints, ∀ key, k.foreignKey? = some key → c.KeyResolved k key) ∧
      r.NamesOwn ∧ ∀ col ∈ r.columns, col.EnumKnown c := by
  have hruns : shopBuilder.draft.settle.issues.isEmpty = true ∧
      (shopBuilder.draft.settle.catalog.relation? ⟨"public", "a"⟩).any
        (fun r => r.constraints.length = 1 ∧ r.indexes.length = 1) = true := by decide +kernel
  obtain ⟨r, hr, hcount⟩ := (Option.any_eq_true _ _).1 hruns.2
  have hf : shopBuilder.finish = .ok shopBuilder.draft.settle.catalog :=
    finish_eq_ok_iff.2 ⟨List.isEmpty_iff.1 hruns.1, rfl⟩
  exact ⟨_, r, hf, hr, by simpa using hcount,
    integrity_of_finish (.addSource (.start : Reachable Config.default _) _ _) hf hr⟩

end Builder

end DdlCatalog
