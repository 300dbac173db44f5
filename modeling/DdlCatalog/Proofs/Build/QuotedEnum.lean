import DdlCatalog.Proofs.Build.Accumulation
import DdlCatalog.Proofs.Build.Reachable
import DdlCatalog.Proofs.Catalog.Lookup
import DdlCatalog.Proofs.Grammar.Single
import DdlCatalog.Proofs.Token.Spelling

/-! # Quoted names and labels
Whatever the names and labels of an enum are, the catalog of its declaration holds them as they are. -/

namespace DdlCatalog

open Token (Kind Keyword Spells doubled breaks_mark)
open Text (Location)

namespace Grammar

/-- A text between two marks, in which the mark is written twice. -/
def quoted (mark : Char) (text : String) : String :=
  String.ofList (mark :: (doubled mark text.toList ++ [mark]))

/-- The declaration of an enum with quoted names. -/
def enumText (schema name : String) (labels : List String) : String :=
  "CREATE TYPE " ++ quoted '"' schema ++ "." ++ quoted '"' name ++ " AS ENUM (" ++
    ", ".intercalate (labels.map (quoted '\'')) ++ ")"

def labelKinds (labels : List String) : List Kind := [.comma].intercalate (labels.map ([.string ·]))

def enumKinds (schema name : String) (labels : List String) : List Kind :=
  .keyword .CREATE :: .keyword .TYPE :: .quotedIdentifier schema :: .dot :: .quotedIdentifier name ::
    .keyword .AS :: .keyword .ENUM :: .leftParen :: (labelKinds labels ++ [.rightParen])

variable {schema name : String} {labels : List String} {rest left : List Char} {us : List Kind}

theorem labelKinds_cons_cons (l l' : String) (ls : List String) :
    labelKinds (l :: l' :: ls) = .string l :: .comma :: labelKinds (l' :: ls) :=
  List.intercalate_cons_cons

theorem labelKinds_ne_nil (h : labels ≠ []) : labelKinds labels ≠ [] := by
  match labels with
  | [_] => exact List.cons_ne_nil _ _
  | l :: l' :: ls =>
    rw [labelKinds_cons_cons]
    exact List.cons_ne_nil _ _

theorem mem_labelKinds {k : Kind} (h : k ∈ labelKinds labels) : k = .comma ∨ ∃ l, k = .string l := by
  induction labels with
  | nil => cases h
  | cons l ls ih =>
    cases ls with
    | nil => exact .inr ⟨l, List.mem_singleton.1 h⟩
    | cons l' ls =>
      rw [labelKinds_cons_cons] at h
      rcases List.mem_cons.1 h with rfl | h
      · exact .inr ⟨l, rfl⟩
      · rcases List.mem_cons.1 h with rfl | h
        · exact .inl rfl
        · exact ih h

theorem toList_quoted (mark : Char) (text : String) (rest : List Char) :
    (quoted mark text).toList ++ rest = mark :: (doubled mark text.toList ++ mark :: rest) := by
  simp [quoted]

theorem spells_quotedLabel (l : String) (hrest : rest.head? ≠ some '\'')
    (more : Spells rest us left) : Spells ((quoted '\'' l).toList ++ rest) (.string l :: us) left := by
  have hspells : Spells ('\'' :: (doubled '\'' l.toList ++ '\'' :: rest))
      (.string (String.ofList l.toList) :: us) left := .string hrest more
  rw [String.ofList_toList] at hspells
  rwa [toList_quoted]

theorem spells_quotedName (hne : name ≠ "") (hrest : rest.head? ≠ some '"')
    (more : Spells rest us left) :
    Spells ((quoted '"' name).toList ++ rest) (.quotedIdentifier name :: us) left := by
  have hcs : name.toList ≠ [] := by simpa using hne
  have hspells : Spells ('"' :: (doubled '"' name.toList ++ '"' :: rest))
      (.quotedIdentifier (String.ofList name.toList) :: us) left := .quotedIdentifier hcs hrest more
  rw [String.ofList_toList] at hspells
  rwa [toList_quoted]

theorem spells_labels (hne : labels ≠ []) (hrest : rest.head? ≠ some '\'')
    (more : Spells rest us left) :
    Spells ((", ".intercalate (labels.map (quoted '\''))).toList ++ rest) (labelKinds labels ++ us)
      left := by
  induction labels with
  | nil => exact absurd rfl hne
  | cons l ls ih =>
    cases ls with
    | nil =>
      rw [List.map_singleton, String.intercalate_singleton]
      exact spells_quotedLabel l hrest more
    | cons l' ls =>
      have hmore := (ih (by simp)).of_blank (by simp [labelKinds_ne_nil])
      rw [List.map_cons, List.map_cons, String.intercalate_cons_cons, labelKinds_cons_cons]
      have hcomma := Spells.mark (c := ',') rfl (by decide) hmore
      have hspells := spells_quotedLabel l (by simp) hcomma
      simpa using hspells

theorem spells_enumText (hschema : schema ≠ "") (hname : name ≠ "") (hlabels : labels ≠ []) :
    Spells (enumText schema name labels).toList (enumKinds schema name labels) [] := by
  have hdisplay : Keyword.CREATE.display = "CREATE" ∧ Keyword.TYPE.display = "TYPE" ∧
      Keyword.AS.display = "AS" ∧ Keyword.ENUM.display = "ENUM" := by decide +kernel
  obtain ⟨hcreate, htype, has, henum⟩ := hdisplay
  have hbreaks (cs : List Char) := breaks_mark (c := ' ') (by decide) cs
  have hlist := spells_labels hlabels (by simp) (Spells.mark (c := ')') rfl (by decide) (.done []))
  have hbody := Spells.keyword (k := .ENUM) (hbreaks _) (by decide +kernel)
    ((Spells.mark (c := '(') rfl (by decide) hlist).of_blank (by simp))
  have hsecond := spells_quotedName hname (by simp) ((Spells.keyword (k := .AS) (hbreaks _)
    (by decide +kernel) (hbody.of_blank (by simp))).of_blank (by simp))
  have hpoint := Spells.point (by rw [toList_quoted]; rintro d ⟨⟩; rfl) hsecond
  have hkind := Spells.keyword (k := .TYPE) (hbreaks _) (by decide +kernel)
    ((spells_quotedName hschema (by simp) hpoint).of_blank (by simp))
  have hwhole := Spells.keyword (k := .CREATE) (hbreaks _) (by decide +kernel)
    (hkind.of_blank (by simp))
  rw [hcreate, htype, has, henum] at hwhole
  -- `simp` is slow to unfold an appended text
  delta enumText
  simpa [enumKinds] using hwhole

namespace Parser

variable {ctx : Context} {ts us : List Token} {t r : Token}

theorem run_enumLabel {l : String} (h : t.kind = .string l) :
    enumLabel.run ctx (t :: us) = .ok (l, us) := by
  have hcurrent : (ctx.current (t :: us)).kind = .string l := h
  rw [enumLabel, run_bind_of_ok run_current, hcurrent]
  rfl

theorem run_commaList_labels (hlabels : labels ≠ []) (hts : ts.map (·.kind) = labelKinds labels)
    (hr : r.kind = .rightParen) :
    (commaList enumLabel).run ctx (ts ++ r :: us) = .ok (labels, r :: us) := by
  induction labels generalizing ts with
  | nil => exact absurd rfl hlabels
  | cons l ls ih =>
    cases ls with
    | nil =>
      obtain ⟨t, _, rfl, ht, hnil⟩ := List.map_eq_cons_iff.1 hts
      obtain rfl := List.map_eq_nil_iff.1 hnil
      rw [List.singleton_append, run_commaList, run_enumLabel ht]
      exact if_neg (by simp [hr])
    | cons l' ls =>
      rw [labelKinds_cons_cons] at hts
      obtain ⟨t, _, rfl, ht, hts⟩ := List.map_eq_cons_iff.1 hts
      obtain ⟨c, ts, rfl, hc, hts⟩ := List.map_eq_cons_iff.1 hts
      rw [List.cons_append, List.cons_append, run_commaList, run_enumLabel ht]
      refine (if_pos hc).trans ?_
      rw [ih (by simp) hts]
      rfl

theorem run_enumLabels {l : Token} (hlabels : labels ≠ []) (hl : l.kind = .leftParen)
    (hts : ts.map (·.kind) = labelKinds labels) (hr : r.kind = .rightParen) :
    enumLabels.run ctx (l :: (ts ++ [r])) = .ok (labels, []) := by
  have hfirst : (ctx.current (ts ++ [r])).kind ≠ .rightParen := by
    cases ts with
    | nil => exact absurd hts.symm (labelKinds_ne_nil hlabels)
    | cons t ts =>
      intro (h : t.kind = _)
      have hmem : t.kind ∈ labelKinds labels := hts ▸ List.mem_cons_self ..
      rcases mem_labelKinds hmem with hk | ⟨_, hk⟩ <;> exact Kind.noConfusion (h.symm.trans hk)
  rw [enumLabels, run_choice_of_eq hl]
  refine (run_choice_of_ne hfirst).trans ?_
  rw [run_bind_of_ok (run_commaList_labels hlabels hts hr), run_bind_of_ok (run_expect_of_eq hr)]
  rfl

theorem run_objectName_qualified {s d n : Token} (hs : s.name? = some schema) (hd : d.kind = .dot)
    (hn : n.name? = some name) :
    objectName.run ctx (s :: d :: n :: us) = .ok (⟨some schema, name⟩, us) := by
  rw [objectName, run_bind_of_ok (run_name_of_some hs), run_choice_of_eq hd,
    run_bind_of_ok (run_name_of_some hn)]
  rfl

theorem enumFault?_of_labels (name : ObjectName) (hlabels : labels ≠ []) :
    enumFault? name labels EnumPragma.empty = none := by
  have hempty : labels.isEmpty = false := by simpa using hlabels
  simp [enumFault?, EnumPragma.empty, hempty]

/-- The labels are those of the tokens, in their order. -/
theorem run_statement_enum (hstop : ctx.stop.kind = .eof) (hlabels : labels ≠ [])
    (hts : ts.map (·.kind) = enumKinds schema name labels) :
    statement.run ctx ts = .ok (.createEnum ⟨⟨some schema, name⟩, labels, none⟩, []) := by
  obtain ⟨c, _, rfl, hc, hts⟩ := List.map_eq_cons_iff.1 hts
  obtain ⟨w, _, rfl, hw, hts⟩ := List.map_eq_cons_iff.1 hts
  obtain ⟨s, _, rfl, hs, hts⟩ := List.map_eq_cons_iff.1 hts
  obtain ⟨d, _, rfl, hd, hts⟩ := List.map_eq_cons_iff.1 hts
  obtain ⟨n, _, rfl, hn, hts⟩ := List.map_eq_cons_iff.1 hts
  obtain ⟨a, _, rfl, ha, hts⟩ := List.map_eq_cons_iff.1 hts
  obtain ⟨e, _, rfl, he, hts⟩ := List.map_eq_cons_iff.1 hts
  obtain ⟨l, _, rfl, hl, hts⟩ := List.map_eq_cons_iff.1 hts
  obtain ⟨row, _, rfl, hrow, hts⟩ := List.map_eq_append_iff.1 hts
  obtain ⟨r, _, rfl, hr, hts⟩ := List.map_eq_cons_iff.1 hts
  obtain rfl := List.map_eq_nil_iff.1 hts
  have hname : objectName.run ctx (s :: d :: n :: a :: e :: l :: (row ++ [r])) =
      .ok (⟨some schema, name⟩, a :: e :: l :: (row ++ [r])) :=
    run_objectName_qualified (by rw [Token.name?, hs]; rfl) hd (by rw [Token.name?, hn]; rfl)
  have hpragma : enumPragma.run ctx [] = .ok (none, []) :=
    run_choice_of_ne fun h => Kind.noConfusion (hstop.symm.trans h)
  have hplace : location.run ctx [] = .ok (ctx.locate ctx.stop, []) := rfl
  have hcreate : createEnum.run ctx (w :: s :: d :: n :: a :: e :: l :: (row ++ [r])) =
      .ok (⟨⟨some schema, name⟩, labels, none⟩, []) := by
    rw [createEnum, run_bind_of_ok (run_expectKeyword_of_eq hw), run_bind_of_ok hname,
      run_bind_of_ok (run_expectKeyword_of_eq ha)]
    refine (run_choice_of_eq he).trans ?_
    rw [run_bind_of_ok (run_enumLabels hlabels hl hrow hr), run_bind_of_ok hplace,
      run_bind_of_ok hpragma]
    simp only [Option.getD_none, enumFault?_of_labels _ hlabels]
    rfl
  have hcreated : (created ⟨false, false, false, false⟩).run ctx
      (w :: s :: d :: n :: a :: e :: l :: (row ++ [r])) =
        .ok (.createEnum ⟨⟨some schema, name⟩, labels, none⟩, []) := by
    have hkind : (ctx.current (w :: s :: d :: n :: a :: e :: l :: (row ++ [r]))).kind =
        .keyword .TYPE := hw
    rw [created, run_bind_of_ok run_current, hkind]
    exact run_bind_of_ok hcreate
  refine (run_statement_created_iff hstop hc fun k hk hkind => ?_).2 hcreated
  cases Kind.keyword.inj (hkind.symm.trans hw)
  simp at hk

end Parser

theorem parseSource_enumText (source : String) (hschema : schema ≠ "") (hname : name ≠ "")
    (hlabels : labels ≠ []) :
    ∃ p, parseSource source (enumText schema name labels) = .ok [p] ∧
      p.statement = .createEnum ⟨⟨some schema, name⟩, labels, none⟩ := by
  obtain ⟨ts, stop, htokens, hts, hstop, heof⟩ :=
    (spells_enumText hschema hname hlabels).exists_tokenize source
  have hsemicolon : ∀ k ∈ enumKinds schema name labels, k ≠ .semicolon := by
    simp only [enumKinds, List.forall_mem_cons, List.forall_mem_append]
    refine ⟨nofun, nofun, nofun, nofun, nofun, nofun, nofun, nofun, fun k hk => ?_, nofun, nofun⟩
    rcases mem_labelKinds hk with rfl | ⟨_, rfl⟩ <;> nofun
  refine parseSource_single_ok (P := (· = .createEnum ⟨⟨some schema, name⟩, labels, none⟩)) htokens
    hstop ?_ (.of_forall (fun t ht => ⟨heof t ht, ?_⟩) 0)
    fun stop hstop => ⟨_, Parser.run_statement_enum hstop hlabels hts, rfl⟩
  · rintro rfl
    cases hts
  · exact hsemicolon _ (hts ▸ List.mem_map_of_mem ht)

end Grammar

namespace DraftM

variable {config : Config}

theorem exists_runs_createEnum {p : ParsedStatement} {schema name : String} {labels : List String}
    {d : Draft} (hs : p.statement = .createEnum ⟨⟨some schema, name⟩, labels, none⟩)
    (hsingle : config.singleSchemaPerSource = false)
    (hfree : d.catalog.relationKind? ⟨schema, name⟩ = none) :
    ∃ log, Runs (accumulate config none p) d none
      { d with
        catalog := (d.catalog.ensureSchema schema).modifySchema schema
          (·.insertEnum ⟨⟨schema, name⟩, labels, none, p.location⟩)
        log } := by
  have haccumulate : accumulate config none p = (do
      note (.statement p.statement.kind p.location)
      createEnum config none ⟨⟨some schema, name⟩, labels, none⟩ p.location
      return none) := by
    unfold accumulate
    rw [hs]
  have hplaced : Scope.qualify config none ⟨some schema, name⟩ p.location = .ok ⟨schema, name⟩ := by
    unfold Scope.qualify
    rw [hsingle]
    rfl
  have henum (d : Draft) (hfree : d.catalog.relationKind? ⟨schema, name⟩ = none) :
      Runs (createEnum config none ⟨⟨some schema, name⟩, labels, none⟩ p.location) d ()
        { d with
          catalog := (d.catalog.ensureSchema schema).modifySchema schema
            (·.insertEnum ⟨⟨schema, name⟩, labels, none, p.location⟩) } := by
    refine runs_bind.2 ⟨_, _, runs_place.2 ⟨hplaced, rfl⟩, runs_catalog_bind.2 ?_⟩
    rw [Catalog.relationKind?_ensureSchema, hfree]
    exact runs_bind.2 ⟨(), _, runs_pure.2 ⟨rfl, rfl⟩, runs_change.2 rfl⟩
  rw [haccumulate]
  exact ⟨_, runs_bind.2 ⟨(), _, runs_note.2 rfl,
    runs_bind.2 ⟨(), _, henum _ hfree, runs_pure.2 ⟨rfl, rfl⟩⟩⟩⟩

end DraftM

namespace Catalog

/-- The catalog of one enum, whose schema holds nothing else. -/
def ofEnum (defaultSchema : String) (e : EnumType) : Catalog :=
  { ofDefaultSchema defaultSchema with
    schemas := OrderedMap.empty.insert e.name.schema ((Schema.ofName e.name.schema).insertEnum e) }

theorem enums_ofEnum (defaultSchema : String) (e : EnumType) :
    (ofEnum defaultSchema e).enums = [e] := rfl

theorem insertEnum_ofDefaultSchema (defaultSchema : String) (e : EnumType) :
    ((ofDefaultSchema defaultSchema).ensureSchema e.name.schema).modifySchema e.name.schema
      (·.insertEnum e) = ofEnum defaultSchema e := by
  have hschemas : (OrderedMap.empty.insert e.name.schema (Schema.ofName e.name.schema)).alter
      e.name.schema (fun s => (s.getD (Schema.ofName e.name.schema)).insertEnum e) =
        OrderedMap.empty.insert e.name.schema ((Schema.ofName e.name.schema).insertEnum e) :=
    OrderedMap.ext_entries (by
      simp [OrderedMap.alter, OrderedMap.insert, OrderedMap.empty, OrderedMap.get?, OrderedMap.put,
        OrderedMap.lookup])
  exact congrArg (fun schemas => { ofDefaultSchema defaultSchema with schemas }) hschemas

/-- The declaration of an enum with quoted names gives the catalog that holds the enum and nothing else,
whatever characters there are in the names and the labels. -/
theorem ofText_enumText {schema name : String} {labels : List String} (hschema : schema ≠ "")
    (hname : name ≠ "") (hlabels : labels ≠ []) :
    ∃ c l, ofText (Grammar.enumText schema name labels) = .ok c ∧
      c.enums = [⟨⟨schema, name⟩, labels, none, l⟩] := by
  obtain ⟨p, hparsed, hs⟩ :=
    Grammar.parseSource_enumText Grammar.anonymousSource hschema hname hlabels
  refine ⟨ofEnum "public" ⟨⟨schema, name⟩, labels, none, p.location⟩, p.location, ?_, enums_ofEnum ..⟩
  let d := Draft.ofConfig Config.default
  have hsingle : Config.default.singleSchemaPerSource = false := rfl
  obtain ⟨log, hruns⟩ := DraftM.exists_runs_createEnum
    (d := { d with log := d.log ++ [.accumulate Grammar.anonymousSource 1] }) hs hsingle rfl
  have hall : DraftM.Runs (DraftM.accumulateAll Config.default [p])
      { d with log := d.log ++ [.accumulate Grammar.anonymousSource 1] } ()
      { d with catalog := ofEnum "public" ⟨⟨schema, name⟩, labels, none, p.location⟩, log } :=
    DraftM.runs_accumulateAll.2 ⟨none, DraftM.runs_foldlM_cons.2 ⟨none, _,
      insertEnum_ofDefaultSchema "public" ⟨⟨schema, name⟩, labels, none, p.location⟩ ▸ hruns,
      DraftM.runs_foldlM_nil.2 ⟨rfl, rfl⟩⟩⟩
  have hadded := Draft.addStatements_ok_iff.2 hall
  rw [ofText, Builder.addSource_of_ok hparsed, Builder.addParsed_eq]
  dsimp only [Builder.ofConfig]
  rw [hadded]
  rfl

theorem ofText_enumText_marks :
    let labels := ["it's", "\\ /* ;", "", "it's"]
    Grammar.enumText "a\"b" "n;\n'" labels =
      "CREATE TYPE \"a\"\"b\".\"n;\n'\" AS ENUM ('it''s', '\\ /* ;', '', 'it''s')" ∧
    ∃ c l, ofText (Grammar.enumText "a\"b" "n;\n'" labels) = .ok c ∧
      c.enums = [⟨⟨"a\"b", "n;\n'"⟩, labels, none, l⟩] :=
  ⟨by decide +kernel, ofText_enumText (by decide) (by decide) (by decide)⟩

end Catalog

end DdlCatalog
