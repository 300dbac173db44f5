import DdlCatalog.Grammar.Statement
import DdlCatalog.Proofs.Catalog.Relation
import DdlCatalog.Proofs.Grammar.Yields

/-! # Tables as they are written
A parsed table has at most one primary key, whose columns admit no nulls, and checks and exclusions
name columns of their own. -/

namespace DdlCatalog

/-- The columns of an exclusion are those among its elements. -/
def TableConstraint.ExcludesOwn (k : TableConstraint) : Prop :=
  ∀ e, k.kind = .exclusion e → k.columns = e.elements.filterMap (·.column)

/-- What the grammar makes sure of in a table. -/
structure CreateTable.WellWritten (s : CreateTable) : Prop where
  one_key : (s.constraints.filter (·.isPrimaryKey)).length ≤ 1
  key_notNull : ∀ k ∈ s.constraints, k.isPrimaryKey = true → ∀ name ∈ k.columns,
    ∀ d ∈ s.columns.find? (·.column.name = name), d.column.nullable = false
  check_columns : ∀ k ∈ s.constraints, ∀ e, k.kind = .check e →
    ∀ name ∈ k.columns, name ∈ s.columns.map (·.column.name)
  exclusion_columns : ∀ k ∈ s.constraints, k.ExcludesOwn
  no_enum : ∀ d ∈ s.columns, d.column.enumType = none

namespace Grammar

/-- What a column keeps while its clauses are read. -/
structure ColumnDraft.Keeps (name : String) (d : ColumnDraft) : Prop where
  name_eq : d.column.name = name
  no_enum : d.column.enumType = none
  columns_eq : ∀ k ∈ d.constraints, k.columns = [name]
  no_exclusion : ∀ k ∈ d.constraints, ∀ e, k.kind ≠ .exclusion e

namespace ColumnDraft.Keeps

variable {name : String} {d : ColumnDraft}

theorem withColumn (h : d.Keeps name) {c : Column} (hn : c.name = d.column.name)
    (he : c.enumType = d.column.enumType) (pending : Option String) :
    Keeps name { d with column := c, pendingName := pending } :=
  ⟨hn.trans h.name_eq, he.trans h.no_enum, h.columns_eq, h.no_exclusion⟩

theorem modify (h : d.Keeps name) {f : Column → Column} (hn : (f d.column).name = d.column.name)
    (he : (f d.column).enumType = d.column.enumType) : Keeps name (d.modify f) :=
  h.withColumn hn he d.pendingName

theorem setNullable (h : d.Keeps name) (nullable : Bool) : Keeps name (d.setNullable nullable) :=
  h.withColumn (c := { d.column with nullable }) rfl rfl none

theorem constrain (h : d.Keeps name) {kind : ConstraintDef} (hk : ∀ e, kind ≠ .exclusion e)
    (l : Text.Location) : Keeps name (d.constrain kind l) where
  name_eq := h.name_eq
  no_enum := h.no_enum
  columns_eq := by
    intro k hm
    rcases List.mem_append.1 hm with hm | hm
    · exact h.columns_eq k hm
    · rw [List.mem_singleton.1 hm, h.name_eq]
  no_exclusion := by
    intro k hm
    rcases List.mem_append.1 hm with hm | hm
    · exact h.no_exclusion k hm
    · rw [List.mem_singleton.1 hm]
      exact hk

end ColumnDraft.Keeps

namespace Parser

theorem yields_generated (c : Column) :
    Yields (generated c) fun c' => c'.name = c.name ∧ c'.enumType = c.enumType := by
  unfold generated
  refine yields_next fun kind => yields_next fun _ => yields_next fun identity => ?_
  refine yields_ite (yields_next fun _ => yields_pure ⟨rfl, rfl⟩) (yields_ite yields_error ?_)
  exact yields_next fun _ => yields_next fun _ => yields_pure ⟨rfl, rfl⟩

theorem yields_columnClause {name : String} {d : ColumnDraft} (h : d.Keeps name) (word : Token) :
    Yields (columnClause d word) fun o => ∀ d' ∈ o, d'.Keeps name := by
  intro ctx ts hts o
  unfold columnClause
  dsimp only
  generalize ctx.locate word = l
  refine (?_ : Yields _ fun o => ∀ d' ∈ o, d'.Keeps name) ctx ts hts o
  split
  · exact yields_none
  · exact yields_none
  · exact yields_none
  · exact yields_next fun _ => yields_some (h.withColumn rfl rfl _)
  · exact yields_next fun _ => yields_some (h.setNullable false)
  · exact yields_some (h.setNullable true)
  · exact yields_next fun _ => yields_some (h.modify rfl rfl)
  · exact yields_next fun _ => yields_some ((h.modify rfl rfl).constrain (by simp) l)
  · exact yields_next fun _ => yields_some (h.constrain (by simp) l)
  · exact yields_next fun _ => yields_some (h.constrain (by simp) l)
  · exact yields_next fun _ => yields_some (h.constrain (by simp) l)
  · exact yields_bind (yields_generated d.column) fun c hc =>
      yields_some (h.withColumn hc.1 hc.2 d.pendingName)
  · exact yields_next fun _ => yields_some (h.modify rfl rfl)
  · exact yields_next fun _ => yields_some (h.modify rfl rfl)
  · exact yields_errorAt

/-- What an element of a table says about itself. -/
structure WellPlaced (e : TableElement) : Prop where
  no_enum : ∀ d ∈ e.1, d.column.enumType = none
  exclusion_columns : ∀ k ∈ e.2, k.ExcludesOwn
  check_columns : ∀ k ∈ e.2, ∀ c, k.kind = .check c →
    k.inColumn = true → ∀ name ∈ k.columns, name ∈ e.1.map (·.column.name)

theorem yields_columnDef : Yields columnDef fun e => WellPlaced ([e.1], e.2) := by
  unfold columnDef
  refine yields_next fun l => yields_next fun name => yields_next fun t => ?_
  have hstart : ColumnDraft.Keeps name ⟨Column.named name (some t), [], none⟩ :=
    ⟨rfl, rfl, by simp, by simp⟩
  refine yields_bind (yields_clauses (fun d word h => yields_columnClause h word) hstart) ?_
  intro d h
  refine yields_pure ⟨?_, ?_, ?_⟩
  · simpa using h.no_enum
  · exact fun k hk e he => absurd he (h.no_exclusion k hk e)
  · intro k hk _ _ _ other hm
    rw [h.columns_eq k hk] at hm
    simpa [h.name_eq] using hm

theorem yields_tableConstraintKind :
    Yields tableConstraintKind fun r => ∀ e, r.2 = .exclusion e →
      r.1 = e.elements.filterMap (·.column) := by
  unfold tableConstraintKind
  refine yields_next fun primary => yields_ite ?_ (yields_next fun unique => yields_ite ?_
    (yields_next fun check => yields_ite ?_ (yields_next fun foreign => yields_ite ?_
      (yields_next fun exclude => yields_ite ?_ yields_expected))))
  · exact yields_next fun _ => yields_next fun _ => yields_pure (by simp)
  · exact yields_next fun _ => yields_next fun _ => yields_pure (by simp)
  · exact yields_next fun _ => yields_pure (by simp)
  · exact yields_next fun _ => yields_next fun _ => yields_next fun _ => yields_next fun _ =>
      yields_pure (by simp)
  · refine yields_next fun e => yields_pure fun e' he => ?_
    cases he
    rfl

theorem yields_tableConstraint :
    Yields tableConstraint fun k => k.ExcludesOwn ∧ k.inColumn = false := by
  unfold tableConstraint
  refine yields_next fun _ => yields_next fun _ => ?_
  exact yields_bind yields_tableConstraintKind fun r hr => yields_pure ⟨hr, rfl⟩

theorem yields_tableElement : Yields tableElement WellPlaced := by
  unfold tableElement
  refine yields_next fun t => yields_ite ?_ ?_
  · refine yields_bind yields_tableConstraint fun k hk => yields_pure ⟨by simp, ?_, ?_⟩
    · simpa using hk.1
    · intro k' hm _ _ hin
      rw [List.mem_singleton.1 hm, hk.2] at hin
      cases hin
  · exact yields_bind yields_columnDef fun e he => yields_pure he

theorem yields_tableElements : Yields tableElements fun es => ∀ e ∈ es, WellPlaced e := by
  unfold tableElements
  have close (es : List TableElement) (hes : ∀ e ∈ es, WellPlaced e) :
      Yields (do expect .rightParen; return es) fun es => ∀ e ∈ es, WellPlaced e :=
    yields_next fun _ => yields_pure hes
  refine yields_next fun _ => yields_next fun atEnd => yields_ite ?_ ?_
  · exact yields_bind (yields_pure (by simp)) close
  · exact yields_bind (yields_commaList yields_tableElement) close

end Parser

theorem markNotNull_names (columns : List ColumnDef) (name : String) :
    (markNotNull columns name).map (·.column.name) = columns.map (·.column.name) :=
  Relation.map_modifyFirst fun _ => rfl

theorem markNotNull_enums (columns : List ColumnDef) (name : String) :
    (markNotNull columns name).map (·.column.enumType) = columns.map (·.column.enumType) :=
  Relation.map_modifyFirst fun _ => rfl

def NotNull (columns : List ColumnDef) (name : String) : Prop :=
  ∀ d ∈ columns.find? (·.column.name = name), d.column.nullable = false

theorem notNull_markNotNull_self (columns : List ColumnDef) (name : String) :
    NotNull (markNotNull columns name) name := by
  intro d hd
  have hfind : (markNotNull columns name).find? (·.column.name = name) =
      (columns.find? (·.column.name = name)).map
        fun d => { d with column := d.column.notNull } :=
    Relation.find?_modifyFirst fun _ => rfl
  rw [hfind] at hd
  obtain ⟨d₀, -, rfl⟩ := Option.map_eq_some_iff.1 hd
  rfl

theorem notNull_markNotNull {columns : List ColumnDef} {name : String}
    (h : NotNull columns name) (other : String) : NotNull (markNotNull columns other) name := by
  by_cases hn : other = name
  · subst hn
    exact notNull_markNotNull_self columns other
  · intro d hd
    unfold markNotNull at hd
    rw [Relation.find?_modifyFirst_of_disjoint] at hd
    · exact h d hd
    · intro a ha
      have ha : a.column.name = other := by simpa using ha
      simp [ha, hn, Column.notNull]

theorem notNull_foldl {names : List String} {columns : List ColumnDef} {name : String}
    (h : NotNull columns name) : NotNull (names.foldl markNotNull columns) name := by
  induction names generalizing columns with
  | nil => exact h
  | cons other names ih => exact ih (notNull_markNotNull h other)

theorem notNull_foldl_of_mem {names : List String} {columns : List ColumnDef} {name : String}
    (h : name ∈ names) : NotNull (names.foldl markNotNull columns) name := by
  induction names generalizing columns with
  | nil => cases h
  | cons other names ih =>
    rw [List.foldl_cons]
    rcases List.mem_cons.1 h with rfl | hm
    · exact notNull_foldl (notNull_markNotNull_self columns name)
    · exact ih hm

theorem foldl_markNotNull_map {β : Type} {g : ColumnDef → β}
    (h : ∀ columns name, (markNotNull columns name).map g = columns.map g) (names : List String)
    (columns : List ColumnDef) : (names.foldl markNotNull columns).map g = columns.map g := by
  induction names generalizing columns with
  | nil => rfl
  | cons name names ih => rw [List.foldl_cons, ih, h]

theorem markKeys_names (columns : List ColumnDef) (ks : List TableConstraint) :
    (markKeys columns ks).map (·.column.name) = columns.map (·.column.name) :=
  foldl_markNotNull_map markNotNull_names _ columns

theorem markKeys_enums (columns : List ColumnDef) (ks : List TableConstraint) :
    (markKeys columns ks).map (·.column.enumType) = columns.map (·.column.enumType) :=
  foldl_markNotNull_map markNotNull_enums _ columns

theorem notNull_markKeys {columns : List ColumnDef} {ks : List TableConstraint} {k : TableConstraint}
    {name : String} (hk : k ∈ ks) (hkey : k.isPrimaryKey = true) (hname : name ∈ k.columns) :
    NotNull (markKeys columns ks) name :=
  notNull_foldl_of_mem (List.mem_flatMap.2 ⟨k, List.mem_filter.2 ⟨hk, hkey⟩, hname⟩)

theorem completeCheck_isPrimaryKey (columns : List ColumnDef) (k : TableConstraint) :
    (completeCheck columns k).isPrimaryKey = k.isPrimaryKey := by
  unfold completeCheck TableConstraint.isPrimaryKey
  split
  · next h =>
    split
    · rfl
    · simp [h]
  · rfl

theorem completeCheck_of_not_check {columns : List ColumnDef} {k : TableConstraint}
    (h : ∀ e, k.kind ≠ .check e) : completeCheck columns k = k := by
  unfold completeCheck
  split
  · next e he => exact absurd he (h e)
  · rfl

theorem completeCheck_kind (columns : List ColumnDef) (k : TableConstraint) :
    (completeCheck columns k).kind = k.kind := by
  unfold completeCheck
  split
  · split <;> rfl
  · rfl

/-- A check at the table mentions columns of the table only. -/
theorem mem_names_of_completeCheck {columns : List ColumnDef} {k : TableConstraint} {e : Expression}
    {name : String} (hkind : k.kind = .check e)
    (hown : k.inColumn = true → name ∈ k.columns → name ∈ columns.map (·.column.name))
    (hname : name ∈ (completeCheck columns k).columns) : name ∈ columns.map (·.column.name) := by
  unfold completeCheck at hname
  rw [hkind] at hname
  dsimp only at hname
  split at hname
  · next hin => exact hown hin hname
  · obtain ⟨-, hany⟩ := List.mem_filter.1 hname
    simpa using hany

theorem filter_isPrimaryKey_completeCheck (columns : List ColumnDef) (ks : List TableConstraint) :
    ((ks.map (completeCheck columns)).filter (·.isPrimaryKey)).length =
      (ks.filter (·.isPrimaryKey)).length := by
  have hsame : (fun k : TableConstraint => k.isPrimaryKey) ∘ completeCheck columns = (·.isPrimaryKey) :=
    funext fun k => completeCheck_isPrimaryKey columns k
  rw [List.filter_map, List.length_map, hsame]

/-- A table of well-placed elements is well written once its keys are marked and its checks
completed. -/
theorem wellWritten_of_elements {es : List TableElement} (hes : ∀ e ∈ es, Parser.WellPlaced e)
    (hone : ((es.flatMap Prod.snd).filter (·.isPrimaryKey)).length ≤ 1) (name : ObjectName)
    (ifNotExists temporary unlogged : Bool) (onCommit : Option OnCommit) :
    CreateTable.WellWritten
      ⟨name, ifNotExists, temporary, unlogged, onCommit,
        markKeys (es.flatMap Prod.fst) (es.flatMap Prod.snd),
        (es.flatMap Prod.snd).map
          (completeCheck (markKeys (es.flatMap Prod.fst) (es.flatMap Prod.snd)))⟩ where
  one_key := by rwa [filter_isPrimaryKey_completeCheck]
  key_notNull := by
    rintro _ hm hkey other hother
    obtain ⟨k, hk, rfl⟩ := List.mem_map.1 hm
    rw [completeCheck_isPrimaryKey] at hkey
    have hkind : k.kind = .primaryKey := by simpa [TableConstraint.isPrimaryKey] using hkey
    rw [completeCheck_of_not_check (by simp [hkind])] at hother
    exact notNull_markKeys hk hkey hother
  check_columns := by
    rintro _ hm c hc other hother
    obtain ⟨k, hk, rfl⟩ := List.mem_map.1 hm
    rw [completeCheck_kind] at hc
    refine mem_names_of_completeCheck hc (fun hin hother => ?_) hother
    obtain ⟨e, he, hke⟩ := List.mem_flatMap.1 hk
    have hown := (hes e he).check_columns k hke c hc hin other hother
    rw [markKeys_names, List.map_flatMap]
    exact List.mem_flatMap.2 ⟨e, he, hown⟩
  exclusion_columns := by
    rintro _ hm e he
    obtain ⟨k, hk, rfl⟩ := List.mem_map.1 hm
    rw [completeCheck_kind] at he
    rw [completeCheck_of_not_check (by simp [he])]
    obtain ⟨el, hel, hke⟩ := List.mem_flatMap.1 hk
    exact (hes el hel).exclusion_columns k hke e he
  no_enum := by
    intro d hd
    have hmem := List.mem_map_of_mem (f := (·.column.enumType)) hd
    rw [markKeys_enums] at hmem
    obtain ⟨d', hd', heq⟩ := List.mem_map.1 hmem
    obtain ⟨el, hel, hde⟩ := List.mem_flatMap.1 hd'
    exact heq.symm.trans ((hes el hel).no_enum d' hde)

namespace Parser

theorem yields_createTable (temporary unlogged : Bool) :
    Yields (createTable temporary unlogged) CreateTable.WellWritten := by
  unfold createTable
  refine yields_next fun _ => yields_next fun optional => yields_next fun name => ?_
  refine yields_bind yields_tableElements fun es hes => yields_next fun action => ?_
  dsimp only
  split
  · exact yields_errorAt
  · next hone =>
    refine yields_pure (wellWritten_of_elements hes ?_ ..)
    match hk : (es.flatMap Prod.snd).filter (·.isPrimaryKey) with
    | [] => rw [hk]; simp
    | [_] => rw [hk]; simp
    | first :: second :: rest => exact absurd hk (hone first second rest)

/-- If a statement is a table, it is well written. -/
def TableWellWritten (s : Statement) : Prop := ∀ t, s = .createTable t → t.WellWritten

theorem yields_unlessModified {G : Ground} {P : Statement → Prop} {modifier : String}
    {present : Bool} {p : Parser Statement} (hp : YieldsOn G p P) :
    YieldsOn G (unlessModified modifier present p) P :=
  yields_ite (yields_next fun _ => yields_error) hp

theorem yields_otherStatement {α : Type} {p : Parser α} {make : α → Statement}
    (h : ∀ a t, make a ≠ .createTable t) :
    Yields (do return make (← p)) TableWellWritten :=
  yields_next fun a => yields_pure fun t ht => absurd ht (h a t)

theorem yields_unsupported {α : Type} {G : Ground} {P : α → Prop}
    {construct : Context → List Token → String} :
    YieldsOn G (fun ctx ts => unsupported (construct ctx ts) ctx ts) P := by
  intro ctx ts _ o ho
  cases ho

theorem yields_created (m : Modifiers) : Yields (created m) TableWellWritten := by
  unfold created
  refine yields_next fun t => ?_
  cases t.kind with
  | keyword k =>
    cases k with
    | SCHEMA => exact yields_unlessModified (yields_otherStatement (by simp))
    | TYPE => exact yields_unlessModified (yields_otherStatement (by simp))
    | TABLE =>
      refine yields_unlessModified (yields_unlessModified ?_)
      refine yields_bind (yields_createTable m.temporary m.unlogged) fun s hs => ?_
      refine yields_pure fun t ht => ?_
      cases ht
      exact hs
    | VIEW | MATERIALIZED | RECURSIVE =>
      exact yields_unlessModified (yields_otherStatement (by simp))
    | INDEX => exact yields_unlessModified (yields_otherStatement (by simp))
    | FUNCTION => exact yields_unlessModified (yields_otherStatement (by simp))
    | PROCEDURE => exact yields_unlessModified (yields_otherStatement (by simp))
    | _ => exact yields_unsupported
  | _ => exact yields_unsupported

theorem yields_anyStatement : Yields anyStatement TableWellWritten := by
  unfold anyStatement
  refine yields_next fun t => ?_
  cases t.kind with
  | keyword k =>
    cases k with
    | CREATE => exact yields_next fun _ => yields_next fun m => yields_created m
    | PREPARE => exact yields_otherStatement (by simp)
    | _ => exact yields_unsupported
  | _ => exact yields_unsupported

theorem yields_statement : Yields statement TableWellWritten := by
  unfold statement
  refine yields_bind yields_anyStatement fun s hs => ?_
  refine yields_next fun atEnd => yields_ite (yields_pure hs) ?_
  exact yields_next fun _ => yields_error

end Parser

/-- A statement of some text. -/
def Parsed (p : ParsedStatement) : Prop :=
  ∃ source text statements, parseSource source text = .ok statements ∧ p ∈ statements

theorem parsed_of_parseSource {source text : String} {statements : List ParsedStatement}
    (h : parseSource source text = .ok statements) : ∀ p ∈ statements, Parsed p :=
  fun _ hp => ⟨source, text, statements, h, hp⟩

/-- A run of which something is known to come out. -/
theorem exists_ok_of_map_toOption {ε α β : Type} {x : Except ε α} {f : α → β} {b : β}
    (h : x.toOption.map f = some b) : ∃ a, x = .ok a ∧ f a = b := by
  cases x with
  | error e => cases h
  | ok a => exact ⟨a, rfl, Option.some.inj h⟩

theorem mapM_eq_ok_iff {α β : Type} {f : α → Except Error β} {as : List α} {bs : List β} :
    as.mapM f = .ok bs ↔ List.Forall₂ (fun a b => f a = .ok b) as bs := by
  induction as generalizing bs with
  | nil =>
    refine ⟨fun h => ?_, fun h => ?_⟩ <;> cases h
    · exact .nil
    · rfl
  | cons a as ih =>
    rw [List.mapM_cons]
    constructor
    · intro h
      cases ha : f a with
      | error e =>
        rw [ha] at h
        cases h
      | ok b =>
        cases has : as.mapM f with
        | error e =>
          rw [ha, has] at h
          cases h
        | ok more =>
          rw [ha, has] at h
          cases h
          exact .cons ha (ih.1 has)
    · rintro (_ | ⟨hb, hmore⟩)
      rw [hb, ih.2 hmore]
      rfl

theorem exists_of_mapM_error {α β : Type} {f : α → Except Error β} {as : List α} {e : Error}
    (h : as.mapM f = .error e) : ∃ a ∈ as, f a = .error e := by
  induction as with
  | nil => cases h
  | cons a as ih =>
    rw [List.mapM_cons] at h
    cases ha : f a with
    | error e' =>
      rw [ha] at h
      cases h
      exact ⟨a, List.mem_cons_self .., ha⟩
    | ok b =>
      cases has : as.mapM f with
      | error e' =>
        rw [ha, has] at h
        cases h
        obtain ⟨a', ha', hf⟩ := ih has
        exact ⟨a', List.mem_cons_of_mem _ ha', hf⟩
      | ok bs =>
        rw [ha, has] at h
        cases h

theorem parseSource_eq_ok_iff {source text : String} {statements : List ParsedStatement} :
    parseSource source text = .ok statements ↔
      ∃ raws, splitText source text.toList = .ok raws ∧
        List.Forall₂ (fun raw p => parseRaw source text.toList raw = .ok p) raws statements := by
  unfold parseSource
  cases hraws : splitText source text.toList with
  | error e => exact ⟨nofun, fun ⟨_, h, _⟩ => nomatch h⟩
  | ok raws =>
    constructor
    · exact fun h => ⟨raws, rfl, mapM_eq_ok_iff.1 h⟩
    · rintro ⟨raws, ⟨⟩, h⟩
      exact mapM_eq_ok_iff.2 h

theorem tableWellWritten_of_parseRaw {source : String} {text : List Char} {raw : RawStatement}
    {p : ParsedStatement} (h : parseRaw source text raw = .ok p) :
    Parser.TableWellWritten p.statement := by
  unfold parseRaw parseTokens Parser.run at h
  generalize Context.ofTokens source text (raw.tokens ++ [raw.stop]) = ctx at h
  dsimp only at h
  cases ho : Parser.statement ctx ctx.tokens with
  | error e =>
    rw [ho] at h
    cases h
  | ok o =>
    rw [ho] at h
    cases h
    exact Parser.yields_statement _ _ trivial o ho

theorem Parsed.wellWritten {p : ParsedStatement} (h : Parsed p) {s : CreateTable}
    (said : p.statement = .createTable s) : s.WellWritten := by
  obtain ⟨source, text, statements, hs, hp⟩ := h
  obtain ⟨raws, -, hs⟩ := parseSource_eq_ok_iff.1 hs
  obtain ⟨raw, -, hraw⟩ := exists_of_mem_forall₂ hs hp
  exact tableWellWritten_of_parseRaw hraw s said

end Grammar

end DdlCatalog
