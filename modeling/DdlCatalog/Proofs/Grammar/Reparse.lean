import DdlCatalog.Proofs.Grammar.Stable
import DdlCatalog.Proofs.Grammar.Table
import DdlCatalog.Proofs.Statement.Relocated
import DdlCatalog.Proofs.Statement.Split

/-! # Statements parsed again
The text of a parsed statement parses to the statement it was taken from. Only the locations of
columns and constraints, which are counted from the start of a text, are others. -/

namespace DdlCatalog

namespace Grammar

open Text (byteLength)

namespace ColumnDraft

/-- Drafts that differ in the locations of constraints only. -/
structure Relocated (L : Text.Location → Text.Location → Prop) (d d' : ColumnDraft) : Prop where
  column : d.column = d'.column
  constraints : List.Forall₂ (TableConstraint.Relocated L) d.constraints d'.constraints
  pendingName : d.pendingName = d'.pendingName

variable {L : Text.Location → Text.Location → Prop} {d d' : ColumnDraft} {l l' : Text.Location}

theorem Relocated.modify (h : d.Relocated L d') (f : Column → Column) :
    Relocated L (d.modify f) (d'.modify f) :=
  ⟨congrArg f h.column, h.constraints, h.pendingName⟩

theorem Relocated.constrain (h : d.Relocated L d') (kind : ConstraintDef) (hl : L l l') :
    Relocated L (d.constrain kind l) (d'.constrain kind l') := by
  refine ⟨h.column, List.rel_append h.constraints (.cons ?_ .nil), rfl⟩
  exact ⟨h.pendingName, congrArg (fun c => [c.name]) h.column, rfl, rfl, hl⟩

theorem Relocated.setNullable (h : d.Relocated L d') (nullable : Bool) :
    Relocated L (d.setNullable nullable) (d'.setNullable nullable) :=
  ⟨congrArg (fun c => { c with nullable := nullable }) h.column, h.constraints, rfl⟩

end ColumnDraft

variable {C : Cut}

namespace Parser

open Cut

instance stable_identityOptions : C.Stable identityOptions := by
  unfold identityOptions
  infer_instance

instance stable_generatedStorage : C.Stable generatedStorage := by
  unfold generatedStorage
  infer_instance

instance stable_identityKind : C.Stable identityKind := by
  unfold identityKind
  infer_instance

instance stable_generated (column : Column) : C.Stable (generated column) := by
  unfold generated
  infer_instance

theorem agree_some {d d' : ColumnDraft} (h : d.Relocated C.Places d') :
    C.Agree (Option.Rel (ColumnDraft.Relocated C.Places)) (pure (some d)) (pure (some d')) :=
  agree_pure (.some h)

theorem agree_columnClause {d d' : ColumnDraft} (hd : d.Relocated C.Places d') {t u : Token}
    (h : C.Moves t u) :
    C.Agree (Option.Rel (ColumnDraft.Relocated C.Places)) (columnClause d t)
      (columnClause d' u) := by
  intro ts us hts
  unfold run columnClause
  dsimp only
  have hl : C.Places (C.whole.locate t) (C.part.locate u) := ⟨t, u, h, rfl, rfl⟩
  generalize C.whole.locate t = l, C.part.locate u = l' at hl ⊢
  rw [h.kind]
  refine (?_ : C.Agree _ _ _) hts
  split
  · exact agree_pure .none
  · exact agree_pure .none
  · exact agree_pure .none
  · exact agree_after _ fun name => agree_some ⟨hd.column, hd.constraints, rfl⟩
  · exact agree_after _ fun _ => agree_some (hd.setNullable false)
  · exact agree_some (hd.setNullable true)
  · exact agree_after _ fun e => agree_some (hd.modify _)
  · exact agree_after _ fun _ => agree_some ((hd.modify _).constrain _ hl)
  · exact agree_after _ fun nulls => agree_some (hd.constrain _ hl)
  · exact agree_after _ fun e => agree_some (hd.constrain _ hl)
  · exact agree_after _ fun r => agree_some (hd.constrain _ hl)
  · rw [hd.column]
    exact agree_after _ fun c => agree_some ⟨rfl, hd.constraints, hd.pendingName⟩
  · exact agree_after _ fun collation => agree_some (hd.modify _)
  · exact agree_after _ fun secondName => agree_some (hd.modify _)
  · exact agree_errorAt hl.faces ..

end Parser

/-- Elements of tables that differ in locations only. -/
structure TableElement.Relocated (L : Text.Location → Text.Location → Prop)
    (e e' : TableElement) : Prop where
  columns : List.Forall₂ (ColumnDef.Relocated L) e.1 e'.1
  constraints : List.Forall₂ (TableConstraint.Relocated L) e.2 e'.2

namespace Parser

open Cut

theorem failsAtEnd_columnDef : FailsAtEnd columnDef := by
  rintro ⟨source, text, tokens, ⟨kind, span, line, column⟩⟩ ⟨⟩
  exact ⟨_, rfl⟩

theorem failsAtEnd_tableConstraint : FailsAtEnd tableConstraint := by
  rintro ⟨source, text, tokens, ⟨kind, span, line, column⟩⟩ ⟨⟩
  exact ⟨_, rfl⟩

theorem agree_columnDef :
    C.Agree (fun e e' => TableElement.Relocated C.Places ([e.1], e.2) ([e'.1], e'.2)) columnDef
      columnDef := by
  refine agree_location_before failsAtEnd_columnDef failsAtEnd_columnDef fun l l' hl => ?_
  refine agree_after _ fun name => agree_after _ fun t => ?_
  refine agree_bind (agree_clauses (fun d d' t u hd h => agree_columnClause hd h)
    ⟨rfl, .nil, rfl⟩) fun d d' hd => ?_
  exact agree_pure ⟨.cons ⟨hd.column, hl⟩ .nil, hd.constraints⟩

theorem agree_tableConstraint :
    C.Agree (TableConstraint.Relocated C.Places) tableConstraint tableConstraint := by
  refine agree_location_before failsAtEnd_tableConstraint failsAtEnd_tableConstraint
    fun l l' hl => ?_
  exact agree_after _ fun name => agree_after _ fun kind => agree_pure ⟨rfl, rfl, rfl, rfl, hl⟩

theorem agree_tableElement :
    C.Agree (TableElement.Relocated C.Places) tableElement tableElement := by
  refine agree_front fun t u h => ?_
  have hstarts : startsTableConstraint t = startsTableConstraint u := by
    rw [startsTableConstraint, h.kind, startsTableConstraint]
  rw [hstarts]
  split
  · exact agree_bind agree_tableConstraint fun k k' hk => agree_pure ⟨.nil, .cons hk .nil⟩
  · exact agree_bind agree_columnDef fun e e' he => agree_pure he

theorem agree_tableElements :
    C.Agree (List.Forall₂ (TableElement.Relocated C.Places)) tableElements tableElements := by
  unfold tableElements
  have close {es es' : List TableElement} (h : List.Forall₂ (TableElement.Relocated C.Places) es es') :
      C.Agree (List.Forall₂ (TableElement.Relocated C.Places)) (do expect .rightParen; return es)
        (do expect .rightParen; return es') :=
    agree_after _ fun _ => agree_pure h
  refine agree_after _ fun _ => agree_after _ fun atEnd => ?_
  split
  · exact agree_bind (agree_pure .nil) fun _ _ => close
  · exact agree_bind (agree_commaList agree_tableElement) fun _ _ => close

instance stable_onCommitAction : C.Stable onCommitAction := by
  unfold onCommitAction
  infer_instance

instance stable_onCommit (temporary : Bool) : C.Stable (onCommit temporary) := by
  unfold onCommit
  refine ⟨agree_after _ fun present => ?_⟩
  split
  · refine agree_location fun l l' hl => agree_after _ fun action => ?_
    split
    · exact Stable.agree
    · exact agree_errorAt hl ..
  · exact Stable.agree

end Parser

section Relocated

variable {L : Text.Location → Text.Location → Prop} {ds ds' : List ColumnDef}
  {ks ks' : List TableConstraint}

theorem filter_isPrimaryKey_relocated (h : List.Forall₂ (TableConstraint.Relocated L) ks ks') :
    List.Forall₂ (TableConstraint.Relocated L) (ks.filter (·.isPrimaryKey))
      (ks'.filter (·.isPrimaryKey)) :=
  List.rel_filter (fun k k' hk => by simp only [TableConstraint.isPrimaryKey, hk.kind]) h

theorem markKeys_relocated (hds : List.Forall₂ (ColumnDef.Relocated L) ds ds')
    (hks : List.Forall₂ (TableConstraint.Relocated L) ks ks') :
    List.Forall₂ (ColumnDef.Relocated L) (markKeys ds ks) (markKeys ds' ks') := by
  have hkeys : (ks.filter (·.isPrimaryKey)).flatMap (·.columns) =
      (ks'.filter (·.isPrimaryKey)).flatMap (·.columns) := by
    rw [List.flatMap_def, List.flatMap_def,
      map_eq_map_of_forall₂ (filter_isPrimaryKey_relocated hks) fun _ _ hk => hk.columns]
  unfold markKeys
  rw [hkeys]
  generalize (ks'.filter (·.isPrimaryKey)).flatMap (·.columns) = names
  induction names generalizing ds ds' with
  | nil => exact hds
  | cons name names ih =>
    rw [List.foldl_cons, List.foldl_cons]
    refine ih (Relation.rel_modifyFirst hds (fun d d' hd => ?_) fun d d' hd => ?_)
    · rw [hd.column]
    · exact ⟨congrArg Column.notNull hd.column, hd.location⟩

theorem completeCheck_relocated (hds : List.Forall₂ (ColumnDef.Relocated L) ds ds')
    {k k' : TableConstraint} (hk : k.Relocated L k') :
    (completeCheck ds k).Relocated L (completeCheck ds' k') := by
  have hany (name : String) : ds.any (·.column.name = name) = ds'.any (·.column.name = name) := by
    induction hds with
    | nil => rfl
    | cons hd _ ih => rw [List.any_cons, List.any_cons, hd.column, ih]
  unfold completeCheck
  simp only [← hk.kind, ← hk.inColumn, hany]
  split
  · split
    · exact hk
    · exact ⟨hk.name, rfl, rfl, rfl, hk.location⟩
  · exact hk

theorem flatMap_relocated {es es' : List TableElement}
    (h : List.Forall₂ (TableElement.Relocated L) es es') :
    TableElement.Relocated L (es.flatMap Prod.fst, es.flatMap Prod.snd)
      (es'.flatMap Prod.fst, es'.flatMap Prod.snd) :=
  ⟨List.rel_flatMap h fun _ _ he => he.columns, List.rel_flatMap h fun _ _ he => he.constraints⟩

end Relocated

namespace Parser

open Cut

theorem agree_createTable (temporary unlogged : Bool) :
    C.Agree (CreateTable.Relocated C.Places) (createTable temporary unlogged)
      (createTable temporary unlogged) := by
  unfold createTable
  refine agree_after _ fun _ => agree_after _ fun optional => agree_after _ fun name => ?_
  refine agree_bind agree_tableElements fun es es' hes => agree_after _ fun action => ?_
  obtain ⟨hcolumns, hconstraints⟩ := flatMap_relocated hes
  dsimp only at hcolumns hconstraints ⊢
  generalize es.flatMap Prod.fst = ds, es'.flatMap Prod.fst = ds' at hcolumns ⊢
  generalize es.flatMap Prod.snd = ks, es'.flatMap Prod.snd = ks' at hconstraints ⊢
  have hdone : C.Agree (CreateTable.Relocated C.Places)
      (pure ⟨name, optional, temporary, unlogged, action, markKeys ds ks,
        ks.map (completeCheck (markKeys ds ks))⟩)
      (pure ⟨name, optional, temporary, unlogged, action, markKeys ds' ks',
        ks'.map (completeCheck (markKeys ds' ks'))⟩) := by
    have hmarked := markKeys_relocated hcolumns hconstraints
    refine agree_pure ⟨hmarked, ?_, rfl⟩
    exact List.rel_map (fun _ _ hk => completeCheck_relocated hmarked hk) hconstraints
  have hkeys := filter_isPrimaryKey_relocated hconstraints
  generalize ks.filter (·.isPrimaryKey) = keys, ks'.filter (·.isPrimaryKey) = keys' at hkeys ⊢
  cases hkeys with
  | nil => exact hdone
  | cons _ more =>
    cases more with
    | nil => exact hdone
    | cons hsecond _ => exact agree_errorAt hsecond.location.faces ..

instance stable_orReplace : C.Stable orReplace := by
  unfold orReplace
  infer_instance

instance stable_temporary : C.Stable temporary := by
  unfold temporary
  infer_instance

instance stable_modifiers : C.Stable modifiers := by
  unfold modifiers
  infer_instance

instance stable_createSchema : C.Stable createSchema := by
  unfold createSchema
  infer_instance

theorem agree_unlessModified {modifier : String} {present : Bool} {p : Parser Statement}
    (hp : C.Agree (Statement.Relocated C.Places) p p) :
    C.Agree (Statement.Relocated C.Places) (unlessModified modifier present p)
      (unlessModified modifier present p) := by
  unfold unlessModified
  split
  · exact agree_error_front ..
  · exact hp

theorem agree_otherStatement {α : Type} (p : Parser α) [C.Stable p] {make : α → Statement}
    (hmake : ∀ a, (make a).locations = []) :
    C.Agree (Statement.Relocated C.Places) (do return make (← p)) (do return make (← p)) :=
  agree_after p fun _ => agree_pure (.other (hmake _))

theorem agree_created (m : Modifiers) : C.Agree (Statement.Relocated C.Places) (created m) (created m) := by
  unfold created
  refine agree_front fun t u h => ?_
  rw [h.kind]
  cases u.kind with
  | keyword k =>
    cases k with
    | SCHEMA => exact agree_unlessModified (agree_otherStatement createSchema fun _ => rfl)
    | TYPE => exact agree_unlessModified (agree_otherStatement createEnum fun _ => rfl)
    | TABLE =>
      refine agree_unlessModified (agree_unlessModified ?_)
      refine agree_bind (agree_createTable m.temporary m.unlogged) fun s s' hs => ?_
      exact agree_pure (.createTable hs)
    | VIEW | MATERIALIZED | RECURSIVE =>
      exact agree_unlessModified (agree_otherStatement (createView _ _) fun _ => rfl)
    | INDEX => exact agree_unlessModified (agree_otherStatement (createIndex _) fun _ => rfl)
    | FUNCTION =>
      exact agree_unlessModified (agree_otherStatement (createFunction _) fun _ => rfl)
    | PROCEDURE =>
      exact agree_unlessModified (agree_otherStatement (createProcedure _) fun _ => rfl)
    | _ => exact agree_unsupported ..
  | _ => exact agree_unsupported ..

theorem agree_anyStatement : C.Agree (Statement.Relocated C.Places) anyStatement anyStatement := by
  unfold anyStatement
  refine agree_front fun t u h => ?_
  rw [h.kind]
  cases u.kind with
  | keyword k =>
    cases k with
    | CREATE => exact agree_after _ fun _ => agree_after _ fun m => agree_created m
    | PREPARE => exact agree_otherStatement prepare fun _ => rfl
    | _ => exact agree_unsupported ..
  | _ => exact agree_unsupported ..

theorem agree_statement : C.Agree (Statement.Relocated C.Places) statement statement := by
  unfold statement
  refine agree_bind agree_anyStatement fun s s' hs => agree_after _ fun atEnd => ?_
  split
  · exact agree_pure hs
  · exact agree_error_front ..

end Parser

theorem Context.ofTokens_of_eof {stop : Token} (h : stop.kind = .eof) (source : String)
    (text : List Char) (tokens : List Token) :
    ofTokens source text (tokens ++ [stop]) = ⟨source, text, tokens, stop⟩ := by
  rw [ofTokens, List.getLast?_concat]
  dsimp only
  rw [if_pos h, List.dropLast_concat]

/-- A statement that ends where it should is parsed in the context of its tokens. -/
theorem parseRaw_eq {raw : RawStatement} (h : raw.stop.kind = .eof) (source : String)
    (text : List Char) :
    parseRaw source text raw =
      (Parser.statement.run ⟨source, text, raw.tokens, raw.stop⟩ raw.tokens).map fun o =>
        ⟨o.1, String.ofList (raw.text text), raw.first.location source⟩ := by
  unfold parseRaw parseTokens
  rw [Context.ofTokens_of_eof h]
  dsimp only
  cases Parser.statement.run _ raw.tokens <;> rfl

theorem text_of_parseRaw {raw : RawStatement} {source : String} {text : List Char}
    {p : ParsedStatement} (hstop : raw.stop.kind = .eof) (h : parseRaw source text raw = .ok p) :
    p.text = String.ofList (raw.text text) := by
  rw [parseRaw_eq hstop] at h
  generalize Parser.statement.run _ raw.tokens = x at h
  cases x <;> cases h
  rfl

def Cut.ofMoves {raw raw' : RawStatement} {text front part back : List Char}
    (htext : text = front ++ part ++ back)
    (h : raw.Moves (byteLength front) (byteLength part) raw') (source source' : String) : Cut where
  whole := ⟨source, text, raw.tokens, raw.stop⟩
  part := ⟨source', part, raw'.tokens, raw'.stop⟩
  front := front
  back := back
  text_eq := htext
  moves := h.tokens
  stop_whole := h.stop
  stop_part := h.stop'

/-- What parsing a statement gives in both texts: errors at the same place, or the same statement up
to locations. -/
inductive Cut.Gives (C : Cut) :
    Except Error ParsedStatement → Except Error ParsedStatement → Prop where
  | error {e e' : Error} (faults : C.Faults e e') : Gives C (.error e) (.error e')
  | ok {p p' : ParsedStatement} (relocated : p.Relocated C.Places p') : Gives C (.ok p) (.ok p')

theorem gives_ofMoves {raw raw' : RawStatement} {text front part back : List Char}
    (htext : text = front ++ part ++ back)
    (h : raw.Moves (byteLength front) (byteLength part) raw') (source source' : String) :
    (Cut.ofMoves htext h source source').Gives (parseRaw source text raw)
      (parseRaw source' part raw') := by
  have hrows := (Cut.ofMoves htext h source source').rows
  have hplaces : (Cut.ofMoves htext h source source').Places (raw.first.location source)
      (raw'.first.location source') := by
    cases Token.rel_head? hrows with
    | some hmoves => exact ⟨_, _, hmoves, rfl, rfl⟩
  have hmatches := Parser.agree_statement hrows
  rw [parseRaw_eq h.stop, parseRaw_eq h.stop', h.text_eq htext]
  generalize hx : Parser.statement.run _ raw.tokens = x
  generalize hy : Parser.statement.run _ raw'.tokens = y
  replace hmatches : Cut.Matches _ _ x y := hx ▸ hy ▸ hmatches
  cases hmatches with
  | error faults => exact .error faults
  | ok value _ => exact .ok ⟨value, rfl, hplaces⟩

/-- The text is that of a single statement, which is the given one up to locations. -/
def ReadsAs (text : String) (s : Statement) : Prop :=
  ∀ source, ∃ p, parseStatement source text = .ok p ∧
    p.statement.withoutLocations = s.withoutLocations

/-- The text of a statement parses to the statement, whatever the text is called. -/
theorem Parsed.readsAs {p : ParsedStatement} (h : Parsed p) : ReadsAs p.text p.statement := by
  intro source'
  obtain ⟨source, text, statements, hs, hp⟩ := h
  obtain ⟨raws, hraws, hs⟩ := parseSource_eq_ok_iff.1 hs
  obtain ⟨raw, hmem, hraw⟩ := exists_of_mem_forall₂ hs hp
  obtain ⟨front, back, raw', hsplitAt, hmoves, hsplit⟩ := exists_part_of_splitText hraws hmem
  have htext : p.text.toList = raw.text text.toList := by
    rw [text_of_parseRaw hmoves.stop hraw, String.toList_ofList]
  have hgives := gives_ofMoves hsplitAt hmoves source source'
  rw [hraw] at hgives
  generalize hraw' : parseRaw source' _ raw' = x at hgives
  cases hgives with
  | @ok _ p' relocated =>
    have hparsed : parseSource source' p.text = .ok [p'] := by
      rw [parseSource, htext, hsplit source']
      show [raw'].mapM (parseRaw source' (raw.text text.toList)) = _
      rw [List.mapM_cons, List.mapM_nil, hraw']
      rfl
    refine ⟨p', ?_, relocated.statement.withoutLocations_eq.symm⟩
    rw [parseStatement, hparsed]
    rfl

end Grammar

end DdlCatalog
