import DdlCatalog.Proofs.Build.Restates
import DdlCatalog.Proofs.Grammar.Restates

/-! # Keys in columns
A key or a reference of a column may be the last element of the table behind the column or be written in
the column. Both texts are accepted, and every builder comes to the same with them, but for texts and
places. -/

namespace DdlCatalog

open Text (byteLength)

namespace Grammar

/-- Two texts of one table each, the same up to the clauses of a column. The first has a key or a
reference of the column as its last element, and the second has it in the column. -/
structure KeyMove (source front back back' : String) where
  raw : RawStatement
  raw' : RawStatement
  /-- Each text is one statement. -/
  split_eq : splitText source (front ++ back).toList = .ok [raw]
  split_eq' : splitText source (front ++ back').toList = .ok [raw']
  table : TableFront
  comma : Token
  /-- The key as an element of the table. -/
  key : List Token
  close : Token
  /-- The key as clauses of the column. -/
  key' : List Token
  close' : Token
  tokens_eq : raw.tokens = table.tokens ++ comma :: (key ++ [close])
  tokens_eq' : raw'.tokens = table.tokens ++ (key' ++ [close'])
  /-- What the texts share is in front of where they part. -/
  in_front : ∀ t ∈ table.tokens, t.span.stop ≤ byteLength front.toList
  comma_kind : comma.kind = .comma
  close_kind : close.kind = .rightParen
  close_kind' : close'.kind = .rightParen
  /-- The name of the column. -/
  column : String
  /-- The shared tokens are read as a table up to the clauses of the column. -/
  reads : ∃ name es d, table.Reads ⟨source, (front ++ back).toList, raw.tokens, raw.stop⟩
    (comma :: (key ++ [close])) column name es d
  /-- The key is read as the last element. -/
  reads_key : ∃ k, Parser.tableConstraint.run ⟨source, (front ++ back).toList, raw.tokens, raw.stop⟩
    (key ++ [close]) = .ok (k, [close])
  rule : InlineRule column (key.map (·.kind)) (key'.map (·.kind))

namespace Context

theorem textOf_append {front back back' : List Char} {source : String} {row row' ts : List Token}
    {stop stop' : Token} (h : ∀ t ∈ ts, t.span.stop ≤ byteLength front) :
    textOf ⟨source, front ++ back, row, stop⟩ ts = textOf ⟨source, front ++ back', row', stop'⟩ ts := by
  unfold textOf
  cases hlast : ts.getLast? with
  | none => cases ts.head? <;> rfl
  | some last =>
    cases ts.head? with
    | none => rfl
    | some first =>
      have hwithin := h last (List.mem_of_getLast? hlast)
      have hpart (back : List Char) : Text.slice? (front ++ back) first.span.start last.span.stop =
          Text.slice? front first.span.start last.span.stop := by
        have hslice : Text.slice? ([] ++ front ++ back) (byteLength [] + first.span.start)
            (byteLength [] + last.span.stop) = _ := Text.slice?_part hwithin
        simpa using hslice
      dsimp only
      rw [hpart back, hpart back']

end Context

namespace KeyMove

variable {source front back back' : String} (m : KeyMove source front back back')

theorem kinds : ∀ t ∈ m.raw.tokens, t.kind ≠ .eof := by
  obtain ⟨_, _, _, -, htogether, -⟩ := exists_stop_of_splitText m.split_eq (List.mem_singleton_self _)
  exact htogether.kinds

theorem stop_kind : m.raw.stop.kind = .eof := by
  obtain ⟨_, _, _, -, -, hstop⟩ := exists_stop_of_splitText m.split_eq (List.mem_singleton_self _)
  exact hstop.kind_stop

theorem stop_kind' : m.raw'.stop.kind = .eof := by
  obtain ⟨_, _, _, -, -, hstop⟩ := exists_stop_of_splitText m.split_eq' (List.mem_singleton_self _)
  exact hstop.kind_stop

theorem shares : Shares ⟨source, (front ++ back).toList, m.raw.tokens, m.raw.stop⟩
    ⟨source, (front ++ back').toList, m.raw'.tokens, m.raw'.stop⟩ m.table.tokens where
  stop_here := m.stop_kind
  stop_there := m.stop_kind'
  source_eq := rfl
  textOf_eq ts hts := by
    rw [String.toList_append, String.toList_append]
    exact Context.textOf_append fun t ht => m.in_front t (hts ht)

theorem first_eq : m.raw'.first = m.raw.first := by
  have hfirst := congrArg List.head? m.tokens_eq
  have hfirst' := congrArg List.head? m.tokens_eq'
  rw [TableFront.tokens_append] at hfirst hfirst'
  exact (Option.some.inj hfirst').trans (Option.some.inj hfirst).symm

include m in
/-- What the first text declares, the second one declares. -/
theorem exists_restates {statements : List ParsedStatement}
    (h : parseSource source (front ++ back) = .ok statements) :
    ∃ p p', statements = [p] ∧ parseSource source (front ++ back') = .ok [p'] ∧ p.Restates p' := by
  obtain ⟨raws, hraws, hall⟩ := parseSource_eq_ok_iff.1 h
  obtain rfl : [m.raw] = raws := Except.ok.inj (m.split_eq.symm.trans hraws)
  obtain ⟨p, _, hp, hmore, rfl⟩ := List.forall₂_cons_left_iff.1 hall
  obtain rfl := List.forall₂_nil_left_iff.1 hmore
  obtain ⟨name, es, d, hreads⟩ := m.reads
  obtain ⟨k, hk⟩ := m.reads_key
  obtain ⟨hcolumns, -, hcheck, l, l', hhere, hthere⟩ := hreads.run_statements m.shares m.comma_kind
    m.close_kind m.close_kind' m.rule hk
  rw [← m.tokens_eq] at hhere
  rw [← m.tokens_eq'] at hthere
  rw [parseRaw_eq m.stop_kind] at hp
  cases hrun : Parser.statement.run ⟨source, (front ++ back).toList, m.raw.tokens, m.raw.stop⟩ m.raw.tokens with
  | error e =>
    rw [hrun] at hp
    cases hp
  | ok o =>
    obtain ⟨s, rest⟩ := o
    obtain rfl : rest = [] := Parser.rest_of_run_statement m.kinds hrun
    rw [hrun] at hp
    obtain rfl := Except.ok.inj hp
    obtain ⟨hkeys, rfl⟩ := (hhere s).1 hrun
    have hrun' := (hthere (.createTable (tableOf name (keyInColumn es d l k l')))).2
      ⟨(length_primaryKeys es d l l' k).trans_le hkeys, rfl⟩
    let p' : ParsedStatement := ⟨.createTable (tableOf name (keyInColumn es d l k l')),
      String.ofList (m.raw'.text (front ++ back').toList), m.raw'.first.location source⟩
    refine ⟨_, p', rfl, parseSource_eq_ok_iff.2 ⟨[m.raw'], m.split_eq', .cons ?_ .nil⟩, ?_, _, _, rfl, rfl,
      restates_tableOf hcolumns hcheck hkeys⟩
    · rw [parseRaw_eq m.stop_kind', hrun']
      rfl
    · exact congrArg (·.location source) m.first_eq

end KeyMove

end Grammar

/-- A key at the table and the same key in its column mean the same. If the first text is accepted, so is
the second one, and from any builder both are added with the same outcome and leave the same draft, which
is finished as the same catalog, but for texts and places. -/
theorem Builder.addSource_keyMove {source front back back' : String}
    (m : Grammar.KeyMove source front back back') {statements : List ParsedStatement}
    (h : Grammar.parseSource source (front ++ back) = .ok statements) :
    ∃ statements', Grammar.parseSource source (front ++ back') = .ok statements' ∧ ∀ b : Builder,
      let added := b.addSource source (front ++ back)
      let added' := b.addSource source (front ++ back')
      added'.1.mapError Error.unplaced = added.1.mapError Error.unplaced ∧
        added'.2.draft.unplaced = added.2.draft.unplaced ∧
        (added'.2.finish.mapError Error.unplaced).map Catalog.unplaced =
          (added.2.finish.mapError Error.unplaced).map Catalog.unplaced := by
  obtain ⟨p, p', rfl, hparse, hrestates⟩ := m.exists_restates h
  refine ⟨[p'], hparse, fun b => ?_⟩
  dsimp only
  rw [addSource_of_ok h, addSource_of_ok hparse, addParsed_eq, addParsed_eq]
  have hadded := Draft.unplaced_addStatements hrestates b.config source b.draft
  obtain ⟨hresult, hdraft⟩ := DraftM.unplaced_id_eq_iff.1 hadded
  refine ⟨hresult, hdraft, ?_⟩
  dsimp only [finish]
  rw [← Draft.finish_unplaced, ← Draft.finish_unplaced, hdraft]

namespace Grammar

/-- A table up to the default of its last column. -/
def keyFront : String := "CREATE TABLE t (a int, b int DEFAULT 1 + 1"

def keyBehind : String := ", CONSTRAINT k PRIMARY KEY (b))"

def keyWithin : String := " CONSTRAINT k PRIMARY KEY)"

def onFirstLine (kind : Token.Kind) (start stop : Nat) : Token := ⟨kind, ⟨start, stop⟩, 1, start + 1⟩

def keyTable : TableFront where
  create := onFirstLine (.keyword .CREATE) 0 6
  table := onFirstLine (.keyword .TABLE) 7 12
  name := [onFirstLine (.identifier "t") 13 14]
  left := onFirstLine .leftParen 15 16
  elements := [onFirstLine (.identifier "a") 16 17, onFirstLine (.identifier "int") 18 21,
    onFirstLine .comma 21 22]
  column := onFirstLine (.identifier "b") 23 24
  type := [onFirstLine (.identifier "int") 25 28]
  clauses := [onFirstLine (.keyword .DEFAULT) 29 36, onFirstLine (.number "1") 37 38,
    onFirstLine (.operator "+") 39 40, onFirstLine (.number "1") 41 42]

def tokensBehind : List Token :=
  [onFirstLine (.keyword .CONSTRAINT) 44 54, onFirstLine (.identifier "k") 55 56,
    onFirstLine (.keyword .PRIMARY) 57 64, onFirstLine (.keyword .KEY) 65 68,
    onFirstLine .leftParen 69 70, onFirstLine (.identifier "b") 70 71, onFirstLine .rightParen 71 72]

def tokensWithin : List Token :=
  [onFirstLine (.keyword .CONSTRAINT) 43 53, onFirstLine (.identifier "k") 54 55,
    onFirstLine (.keyword .PRIMARY) 56 63, onFirstLine (.keyword .KEY) 64 67]

def keyStatement (rest : List Token) (stop : Nat) : RawStatement :=
  ⟨keyTable.create, keyTable.table :: keyTable.afterTable rest, ⟨.eof, ⟨stop, stop⟩, 1, stop⟩⟩

def restBehind : List Token := onFirstLine .comma 42 43 :: (tokensBehind ++ [onFirstLine .rightParen 72 73])

def restWithin : List Token := tokensWithin ++ [onFirstLine .rightParen 67 68]

def keyContext : Context :=
  ⟨"a.sql", (keyFront ++ keyBehind).toList, (keyStatement restBehind 73).tokens,
    (keyStatement restBehind 73).stop⟩

theorem exists_reads_keyTable : ∃ name es d, keyTable.Reads keyContext restBehind "b" name es d := by
  have hname : (Parser.objectName.run keyContext (keyTable.afterTable restBehind)).toOption.map Prod.snd =
      some (keyTable.left :: keyTable.afterLeft restBehind) := by decide +kernel
  have helement : (Parser.tableElement.run keyContext (keyTable.afterLeft restBehind)).toOption.map Prod.snd =
      some (onFirstLine .comma 21 22 :: keyTable.column :: keyTable.afterColumn restBehind) := by
    decide +kernel
  have htype : (Parser.typeRef.run keyContext (keyTable.afterColumn restBehind)).toOption.map id =
      some (.ofName "int", keyTable.clauses ++ restBehind) := by decide +kernel
  have hdefault : ((Parser.columnClause ⟨Column.named "b" (some (.ofName "int")), [], none⟩
      (onFirstLine (.keyword .DEFAULT) 29 36)).run keyContext
        (keyTable.clauses.tail ++ restBehind)).toOption.map (fun o => (o.1.isSome, o.2)) =
      some (true, restBehind) := by decide +kernel
  obtain ⟨⟨name, _⟩, hname, rfl⟩ := exists_ok_of_map_toOption hname
  obtain ⟨⟨e, _⟩, helement, rfl⟩ := exists_ok_of_map_toOption helement
  obtain ⟨_, htype, rfl⟩ := exists_ok_of_map_toOption htype
  obtain ⟨⟨d, mid⟩, hdefault, hd⟩ := exists_ok_of_map_toOption hdefault
  obtain ⟨hsome, rfl⟩ := Prod.mk.inj hd
  obtain ⟨d, rfl⟩ := Option.isSome_iff_exists.1 hsome
  exact ⟨name, [e], d,
    { create_kind := rfl
      table_kind := rfl
      unconditional := by decide +kernel
      name_read := hname
      left_kind := rfl
      elements_read := .cons helement rfl (.nil _)
      column_kind := rfl
      column_name := rfl
      column_read := ⟨_, htype, .cons hdefault (.nil _ _)⟩
      unnamed := by decide +kernel }⟩

def primaryKeyMove : KeyMove "a.sql" keyFront keyBehind keyWithin where
  raw := keyStatement restBehind 73
  raw' := keyStatement restWithin 68
  split_eq := by
    have hsplit : (splitText "a.sql" (keyFront ++ keyBehind).toList).toOption.map id =
        some [keyStatement restBehind 73] := by decide +kernel
    obtain ⟨_, hsplit, rfl⟩ := exists_ok_of_map_toOption hsplit
    exact hsplit
  split_eq' := by
    have hsplit : (splitText "a.sql" (keyFront ++ keyWithin).toList).toOption.map id =
        some [keyStatement restWithin 68] := by decide +kernel
    obtain ⟨_, hsplit, rfl⟩ := exists_ok_of_map_toOption hsplit
    exact hsplit
  table := keyTable
  comma := onFirstLine .comma 42 43
  key := tokensBehind
  close := onFirstLine .rightParen 72 73
  key' := tokensWithin
  close' := onFirstLine .rightParen 67 68
  tokens_eq := rfl
  tokens_eq' := rfl
  in_front := by decide +kernel
  comma_kind := rfl
  close_kind := rfl
  close_kind' := rfl
  column := "b"
  reads := exists_reads_keyTable
  reads_key := by
    have hkey : (Parser.tableConstraint.run keyContext
        (tokensBehind ++ [onFirstLine .rightParen 72 73])).toOption.map Prod.snd =
        some [onFirstLine .rightParen 72 73] := by decide +kernel
    obtain ⟨⟨k, _⟩, hkey, rfl⟩ := exists_ok_of_map_toOption hkey
    exact ⟨k, hkey⟩
  rule := .named rfl (.primaryKey rfl)

end Grammar

open Grammar (keyFront keyBehind keyWithin) in
/-- Either way the column admits no nulls, keeps its default and is the whole primary key. -/
theorem Builder.addSource_primaryKeyMove :
    let table (text : String) :=
      ((Builder.ofConfig Config.default).addSource "a.sql" text).2.finish.toOption.bind
        (·.relation? ⟨"public", "t"⟩)
    (∃ statements statements',
      Grammar.parseSource "a.sql" (keyFront ++ keyBehind) = .ok statements ∧
      Grammar.parseSource "a.sql" (keyFront ++ keyWithin) = .ok statements' ∧
      ∀ b : Builder,
        let added := b.addSource "a.sql" (keyFront ++ keyBehind)
        let added' := b.addSource "a.sql" (keyFront ++ keyWithin)
        added'.1.mapError Error.unplaced = added.1.mapError Error.unplaced ∧
          added'.2.draft.unplaced = added.2.draft.unplaced ∧
          (added'.2.finish.mapError Error.unplaced).map Catalog.unplaced =
            (added.2.finish.mapError Error.unplaced).map Catalog.unplaced) ∧
    ∀ text ∈ [keyFront ++ keyBehind, keyFront ++ keyWithin], ∃ r, table text = some r ∧
      r.columns.map (fun c => (c.name, c.nullable, c.default.map (·.text))) =
        [("a", true, none), ("b", false, some "1 + 1")] ∧
      r.constraints.map (fun k => (k.name, k.columns, k.kind)) = [("k", ["b"], .primaryKey)] := by
  intro table
  have haccepted : (Grammar.parseSource "a.sql" (keyFront ++ keyBehind)).toOption.map List.length = some 1 := by
    decide +kernel
  obtain ⟨statements, hparse, -⟩ := Grammar.exists_ok_of_map_toOption haccepted
  obtain ⟨statements', hparse', hsame⟩ := addSource_keyMove Grammar.primaryKeyMove hparse
  refine ⟨⟨statements, statements', hparse, hparse', hsame⟩, fun text htext => ?_⟩
  have htable : (table text).map (fun r =>
      (r.columns.map (fun c => (c.name, c.nullable, c.default.map (·.text))),
        r.constraints.map fun k => (k.name, k.columns, k.kind))) =
      some ([("a", true, none), ("b", false, some "1 + 1")], [("k", ["b"], .primaryKey)]) := by
    simp only [List.mem_cons, List.not_mem_nil, or_false] at htext
    set_option synthInstance.maxSize 512 in
    rcases htext with rfl | rfl <;> decide +kernel
  obtain ⟨r, hr, hshown⟩ := Option.map_eq_some_iff.1 htable
  obtain ⟨hcolumns, hconstraints⟩ := Prod.mk.inj hshown
  exact ⟨r, hr, hcolumns, hconstraints⟩

end DdlCatalog
