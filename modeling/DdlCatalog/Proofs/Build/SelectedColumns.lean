import DdlCatalog.Proofs.Build.Accumulation
import DdlCatalog.Proofs.Build.Reachable
import DdlCatalog.Proofs.Catalog.Lookup
import DdlCatalog.Proofs.Grammar.SelectList

/-! # Columns of views
A view without a list of columns is kept with the names that its select list gives. -/

namespace DdlCatalog

open Text (Location)
open Token (Kind)

variable {config : Config} {b b' : Builder}

namespace DraftM

theorem firstRepeated?_of_nodup {seen names : List String} (h : names.Nodup)
    (hseen : ∀ name ∈ names, name ∉ seen) : firstRepeated? seen names = none := by
  induction names generalizing seen with
  | nil => rfl
  | cons name names ih =>
    obtain ⟨hname, hnodup⟩ := List.nodup_cons.1 h
    rw [firstRepeated?, if_neg (hseen name (List.mem_cons_self ..))]
    refine ih hnodup fun other hother => ?_
    rw [List.mem_cons, not_or]
    exact ⟨fun h => hname (h ▸ hother), hseen other (List.mem_cons_of_mem _ hother)⟩

theorem runs_createView_of_free {s : CreateView} {d : Draft} (ddl : String) (l : Location)
    (hschema : s.name.schema = none)
    (hfree : d.catalog.relationKind? (s.name.qualify config.defaultSchema) = none)
    (hdistinct : s.columns.Nodup) :
    Runs (createView config none s ddl l) d ()
      { d with
        catalog := (d.catalog.ensureSchema (s.name.qualify config.defaultSchema).schema).insertRelation
          (s.view (s.name.qualify config.defaultSchema) ddl l) } := by
  have hplaced : Scope.qualify config none s.name l =
      .ok (s.name.qualify config.defaultSchema) := by
    unfold Scope.qualify
    rw [hschema]
    cases config.singleSchemaPerSource <;> rfl
  refine runs_bind.2 ⟨_, _, runs_place.2 ⟨hplaced, rfl⟩, runs_catalog_bind.2 ?_⟩
  rw [Catalog.relationKind?_ensureSchema, hfree]
  exact runs_insertView.2 ⟨firstRepeated?_of_nodup hdistinct (by simp), rfl⟩

theorem exists_runs_createView {s : CreateView} {p : ParsedStatement} {d : Draft}
    (hs : p.statement = .createView s) (hschema : s.name.schema = none)
    (hfree : d.catalog.relationKind? (s.name.qualify config.defaultSchema) = none)
    (hdistinct : s.columns.Nodup) : ∃ d', Runs (accumulate config none p) d none d' := by
  have hview := runs_createView_of_free
    (d := { d with log := d.log ++ [.statement p.statement.kind p.location] }) p.text p.location
    hschema hfree hdistinct
  have haccumulate : accumulate config none p = (do
      note (.statement p.statement.kind p.location)
      createView config none s p.text p.location
      return none) := by
    unfold accumulate
    rw [hs]
  rw [haccumulate]
  exact ⟨_, runs_bind.2 ⟨(), _, runs_note.2 rfl, runs_bind.2 ⟨(), _, hview, runs_pure.2 ⟨rfl, rfl⟩⟩⟩⟩

end DraftM

theorem Steps.createView_inv {p : ParsedStatement} {s : CreateView} {scope scope' : Scope}
    {d d' : Draft} {trace : Trace} (h : Steps config [p] scope d scope' d' trace)
    (hs : p.statement = .createView s) (hoptional : s.ifNotExists = false)
    (hreplace : s.orReplace = false) :
    d.catalog.relationKind? (s.name.qualify config.defaultSchema) = none ∧ s.columns.Nodup ∧
      d'.catalog.relation? (s.name.qualify config.defaultSchema) =
        some (s.view (s.name.qualify config.defaultSchema) p.text p.location) := by
  cases h with
  | cons declared own_eq keys_eq rest =>
    cases rest
    cases declared.step with
    | view said placed free distinct =>
      cases hs.symm.trans said
      obtain rfl := Scope.qualify_eq placed
      rw [Catalog.relationKind?_ensureSchema] at free
      refine ⟨free.resolve_right (fun h => nomatch hreplace.symm.trans h.2), distinct, ?_⟩
      show ((d.catalog.ensureSchema _).insertRelation _).relation? _ = _
      rw [Catalog.relation?_insertRelation]
      exact if_pos rfl
    | viewSkipped said placed taken optional kept =>
      cases hs.symm.trans said
      cases hoptional.symm.trans optional
    | schema said | enum said | tableSkipped said | table said | indexUnplaced said
      | indexSkipped said | index said | function said | procedure said | prepared said =>
      cases hs.symm.trans said

namespace Builder

/-- A view that must be new is accepted if it is, and if its columns differ. Then it is kept as its
statement says. -/
theorem addSource_createView {source text : String} {p : ParsedStatement} {s : CreateView}
    (hparsed : Grammar.parseSource source text = .ok [p]) (hs : p.statement = .createView s)
    (hschema : s.name.schema = none) (hoptional : s.ifNotExists = false)
    (hreplace : s.orReplace = false) (b : Builder) :
    ((b.addSource source text).1 = .ok () ↔
      b.draft.catalog.relationKind? (s.name.qualify b.config.defaultSchema) = none ∧
        s.columns.Nodup) ∧
      ((b.addSource source text).1 = .ok () →
        (b.addSource source text).2.draft.catalog.relation? (s.name.qualify b.config.defaultSchema) =
          some (s.view (s.name.qualify b.config.defaultSchema) p.text p.location)) := by
  rw [addSource_of_ok hparsed, addParsed_eq]
  have hsteps (h : (b.draft.addStatements b.config source [p]).1 = .ok ()) :=
    (Draft.exists_steps (Prod.ext h rfl)).choose_spec.choose_spec.createView_inv hs hoptional hreplace
  refine ⟨⟨fun h => ⟨(hsteps h).1, (hsteps h).2.1⟩, fun ⟨hfree, hdistinct⟩ => ?_⟩,
    fun h => (hsteps h).2.2⟩
  obtain ⟨d', hd'⟩ := DraftM.exists_runs_createView
    (d := { b.draft with log := b.draft.log ++ [.accumulate source 1] }) hs hschema hfree hdistinct
  have hall : DraftM.Runs (DraftM.accumulateAll b.config [p])
      { b.draft with log := b.draft.log ++ [.accumulate source 1] } () d' :=
    DraftM.runs_accumulateAll.2
      ⟨none, DraftM.runs_foldlM_cons.2 ⟨none, d', hd', DraftM.runs_foldlM_nil.2 ⟨rfl, rfl⟩⟩⟩
  exact congrArg Prod.fst (Draft.addStatements_ok_iff.2 hall)

end Builder

namespace Grammar

theorem exists_createView_of_hasKinds {text name table : String} {v t : Kind}
    {items : List (List Token)} (source : String) (hitems : SelectList .round items)
    (hv : v.name? = some name) (hif : v ≠ .keyword .IF) (ht : t.name? = some table)
    (htext : HasKinds text (selectViewKinds v t (items.map (·.map (·.kind))))) :
    ∃ p, parseSource source text = .ok [p] ∧ ∃ query, p.statement = .createView
      ⟨⟨none, name⟩, false, false, false, false, false, items.filterMap selectItemName?, query⟩ := by
  obtain ⟨ts, stop, htokens, hkinds, hstop, heof⟩ := htext.exists_tokens source
  obtain ⟨c, _, rfl, hc, hkinds⟩ := List.map_eq_cons_iff.1 hkinds
  obtain ⟨w, _, rfl, hw, hkinds⟩ := List.map_eq_cons_iff.1 hkinds
  obtain ⟨n, _, rfl, hn, hkinds⟩ := List.map_eq_cons_iff.1 hkinds
  obtain ⟨a, _, rfl, ha, hkinds⟩ := List.map_eq_cons_iff.1 hkinds
  obtain ⟨s, _, rfl, hs, hkinds⟩ := List.map_eq_cons_iff.1 hkinds
  obtain ⟨row, _, rfl, hrow, hkinds⟩ := List.map_eq_append_iff.1 hkinds
  obtain ⟨f, _, rfl, hf, hkinds⟩ := List.map_eq_cons_iff.1 hkinds
  obtain ⟨x, _, rfl, hx, hkinds⟩ := List.map_eq_cons_iff.1 hkinds
  obtain rfl := List.map_eq_nil_iff.1 hkinds
  have hselect : s.kind.word? = some "select" := by rw [hs, Kind.word?_ofWord]
  have hfrom : f.kind.word? = some "from" := by rw [hf, Kind.word?_ofWord]
  have hname : n.name? = some name := by rw [Token.name?, hn, hv]
  have hquery : ∀ u ∈ s :: (row ++ [f, x]), u.kind ≠ .eof := fun u hu =>
    heof u (by simp only [List.mem_cons] at hu ⊢; tauto)
  have hrowEof : ∀ u ∈ row, u.kind ≠ .eof := fun u hu => hquery u (by simp [hu])
  have hitems' : ∀ ks ∈ items.map (·.map (·.kind)), SelectItem .round ks := by
    simpa using hitems.item
  obtain ⟨htogether, hdepth⟩ := staysTogether_row hitems' hrow hrowEof
  have hcolumns (stop : Token) : selectColumns (s :: (row ++ [f, x]) ++ [stop]) =
      items.filterMap selectItemName? := by
    have hrowStop : row ++ [f, x] ++ [stop] = row ++ f :: [x, stop] := by simp
    rw [List.cons_append, hrowStop, selectColumns_row hitems hrow hselect hfrom]
  have hall : StaysTogether 0 (c :: w :: n :: a :: s :: (row ++ [f, x])) := by
    have htable : StaysTogether 0 [f, x] :=
      .cons_name (by rw [hf, Kind.isSome_name?_ofWord]) (.cons_name (by rw [hx, ht]; rfl) trivial)
    refine .cons_name (by rw [hc]; rfl) (.cons_name (by rw [hw]; rfl) (.cons_name (by rw [hn, hv]; rfl)
      (.cons_name (by rw [ha]; rfl) (.cons_name (by rw [hs, Kind.isSome_name?_ofWord]) ?_))))
    exact htogether.append (hdepth.symm ▸ htable)
  refine parseSource_single_ok
    (P := fun s => ∃ query, s = .createView
      ⟨⟨none, name⟩, false, false, false, false, false, items.filterMap selectItemName?, query⟩)
    htokens hstop (by simp) hall fun stop hstop => ?_
  refine ⟨_, Parser.run_selectView hstop hc hw hname (by rwa [hn]) ha hquery, ?_⟩
  rw [hcolumns]
  exact ⟨_, rfl⟩

end Grammar

namespace Builder

open Grammar

/-- The columns of a view are the names of the items of its select list, if their commas stand only
inside of parentheses. The view is accepted if it is new and its columns differ. -/
theorem columns_of_selectList {text name table : String} {v t : Kind} {items : List (List Token)}
    (source : String) (hitems : SelectList .round items) (hv : v.name? = some name)
    (hif : v ≠ .keyword .IF) (ht : t.name? = some table)
    (htext : HasKinds text (selectViewKinds v t (items.map (·.map (·.kind))))) :
    ∃ p s, parseSource source text = .ok [p] ∧ p.statement = .createView s ∧
      s.columns = items.filterMap selectItemName? ∧ ∀ b : Builder,
        ((b.addSource source text).1 = .ok () ↔
          b.draft.catalog.relationKind? ⟨b.config.defaultSchema, name⟩ = none ∧
            (items.filterMap selectItemName?).Nodup) ∧
          ((b.addSource source text).1 = .ok () →
            ∃ r, (b.addSource source text).2.draft.catalog.relation?
                ⟨b.config.defaultSchema, name⟩ = some r ∧
              r.columns.map (·.name) = items.filterMap selectItemName?) := by
  obtain ⟨p, hp, query, hs⟩ :=
    exists_createView_of_hasKinds source hitems hv hif ht htext
  refine ⟨p, _, hp, hs, rfl, fun b => ?_⟩
  obtain ⟨haccepted, hkept⟩ := addSource_createView hp hs rfl rfl rfl b
  refine ⟨haccepted, fun h => ⟨_, hkept h, ?_⟩⟩
  show ((items.filterMap selectItemName?).map (Column.named · none)).map (·.name) = _
  rw [List.map_map]
  exact List.map_id _

/-- A view of a column, of a call with a name of its own, and of items without a name. -/
def selectText : String := "create view v as select t.a, f(a, (b)) as x, count(*), c[1] from t"

def selectedItems : List (List Token) :=
  [[.identifier "t", .dot, .identifier "a"],
    [.identifier "f", .leftParen, .identifier "a", .comma, .leftParen, .identifier "b", .rightParen,
      .rightParen, .keyword .AS, .identifier "x"],
    [.identifier "count", .leftParen, .operator "*", .rightParen],
    [.identifier "c", .leftBracket, .number "1", .rightBracket]].map
      (·.map fun kind => ⟨kind, ⟨0, 0⟩, 1, 1⟩)

theorem selectList_selectedItems : SelectList .round selectedItems where
  ne_nil := by decide
  item := by
    have hcall : SelectItem .round [.leftParen, .identifier "a", .comma, .leftParen, .identifier "b",
        .rightParen, .rightParen, .keyword .AS, .identifier "x"] :=
      @SelectItem.pair .round .leftParen .rightParen [.identifier "a", .comma, .leftParen,
        .identifier "b", .rightParen] [.keyword .AS, .identifier "x"] rfl rfl rfl (by decide)
        (.plain rfl rfl rfl (.plain rfl rfl rfl .nil))
    have hall : SelectItem .round [.leftParen, .operator "*", .rightParen] :=
      @SelectItem.pair .round .leftParen .rightParen [.operator "*"] [] rfl rfl rfl (by decide) .nil
    simp only [selectedItems, List.map_cons, List.map_nil, List.forall_mem_cons]
    exact ⟨.plain rfl rfl rfl (.plain rfl rfl rfl (.plain rfl rfl rfl .nil)), .plain rfl rfl rfl hcall,
      .plain rfl rfl rfl hall,
      .plain rfl rfl rfl (.plain rfl rfl rfl (.plain rfl rfl rfl (.plain rfl rfl rfl .nil))), nofun⟩
  not_distinct := by decide

theorem columns_of_selectText :
    HasKinds selectText (selectViewKinds (.identifier "v") (.identifier "t")
        (selectedItems.map (·.map (·.kind)))) ∧
      selectedItems.filterMap selectItemName? = ["a", "x"] ∧
      ((ofConfig Config.default).addSource "t.sql" selectText).1 = .ok () ∧
      ∃ r, ((ofConfig Config.default).addSource "t.sql" selectText).2.draft.catalog.relation?
        ⟨"public", "v"⟩ = some r ∧ r.columns.map (·.name) = ["a", "x"] := by
  have hkinds : HasKinds selectText (selectViewKinds (.identifier "v") (.identifier "t")
      (selectedItems.map (·.map (·.kind)))) := by decide +kernel
  have hnames : selectedItems.filterMap selectItemName? = ["a", "x"] := by decide
  obtain ⟨p, s, hp, hs, hcolumns, hadded⟩ := columns_of_selectList "t.sql"
    selectList_selectedItems rfl (by decide) rfl hkinds
  obtain ⟨haccepted, hkept⟩ := hadded (ofConfig Config.default)
  have hok := haccepted.2 ⟨by decide +kernel, by rw [hnames]; decide⟩
  rw [hnames] at hkept
  exact ⟨hkinds, hnames, hok, hkept hok⟩

/-- A view of an array, whose comma stands between square brackets. -/
def arrayText : String := "CREATE VIEW v AS SELECT ARRAY[t.a, t.b] FROM t"

def arrayItems : List (List Token) :=
  [[.keyword .ARRAY, .leftBracket, .identifier "t", .dot, .identifier "a", .comma, .identifier "t",
    .dot, .identifier "b", .rightBracket].map fun kind => ⟨kind, ⟨0, 0⟩, 1, 1⟩]

/-- An item is cut at a comma between square brackets, and what is left of it gets a name. -/
theorem not_columns_of_arrayText :
    SelectList .proper arrayItems ∧
      HasKinds arrayText (selectViewKinds (.identifier "v") (.identifier "t")
        (arrayItems.map (·.map (·.kind)))) ∧
      arrayItems.filterMap selectItemName? = [] ∧
      (parseSource "t.sql" arrayText).toOption.map (·.map (·.statement)) =
        some [.createView ⟨⟨none, "v"⟩, false, false, false, false, false, ["a"],
          "SELECT ARRAY[t.a, t.b] FROM t"⟩] ∧
      ((ofConfig Config.default).addSource "t.sql" arrayText).1.isOk = true ∧
      (((ofConfig Config.default).addSource "t.sql" arrayText).2.draft.catalog.relation?
        ⟨"public", "v"⟩).map (·.columns.map (·.name)) = some ["a"] := by
  have hbrackets : SelectItem .proper [.leftBracket, .identifier "t", .dot, .identifier "a", .comma,
      .identifier "t", .dot, .identifier "b", .rightBracket] :=
    @SelectItem.pair .proper .leftBracket .rightBracket [.identifier "t", .dot, .identifier "a", .comma,
      .identifier "t", .dot, .identifier "b"] [] rfl rfl rfl (by decide) .nil
  have hitems : SelectList .proper arrayItems := by
    refine ⟨by decide, ?_, by decide⟩
    simp only [arrayItems, List.map_cons, List.map_nil, List.forall_mem_cons]
    exact ⟨.plain rfl rfl rfl hbrackets, nofun⟩
  exact ⟨hitems, by decide +kernel, by decide, by decide +kernel, by decide +kernel, by decide +kernel⟩

end Builder

end DdlCatalog
