import DdlCatalog.Proofs.Grammar.Defaults

/-! # Defaults in the text of a table
The text of an expression is captured whole as the default of a column, with the literal and the
references that it has by itself. -/

namespace DdlCatalog

open Token (Kind Fills Ends)
open Text (byteLength slice?)

namespace Grammar

variable {source text e : String} {x : Expression} {ks : List Kind} {us bs : List Token}

theorem exists_tokens_of_parseExpression (hparsed : parseExpression e = .ok x) :
    ∃ us stop, Token.tokenize anonymousSource e.toList = .ok (us ++ [stop]) ∧ stop.kind = .eof ∧
      us ≠ [] ∧ IsExpression us ∧
      x = (Context.mk anonymousSource e.toList us stop).expression us := by
  cases htokens : Token.tokenize anonymousSource e.toList with
  | error fault =>
    unfold parseExpression at hparsed
    rw [htokens] at hparsed
    cases hparsed
  | ok tokens =>
    obtain ⟨us, stop, rfl, hstop⟩ := Token.exists_stop_of_tokenize htokens
    have hrun := (parseExpression_eq_ok_iff htokens hstop).1 (by rwa [String.ofList_toList])
    have hwhole := Parser.isExpression_of_run hrun
    have hne : us ≠ [] := by
      rintro rfl
      cases hrun
    rw [Parser.run_expression hwhole hne] at hrun
    exact ⟨us, stop, rfl, hstop, hne, hwhole, by cases hrun; rfl⟩

/-- A text that is an expression and its tokens, whose kinds are known. -/
theorem exists_expression (hparsed : parseExpression e = .ok x) (hkinds : HasKinds e ks) :
    ∃ us stop, Token.tokenize anonymousSource e.toList = .ok (us ++ [stop]) ∧
      us.map (·.kind) = ks ∧ stop.kind = .eof ∧ us ≠ [] ∧ IsExpression us ∧
      x = (Context.mk anonymousSource e.toList us stop).expression us := by
  obtain ⟨us, stop, htokens, hus, hstop, -⟩ := hkinds.exists_tokens anonymousSource
  obtain ⟨us', stop', htokens', -, hexpression⟩ := exists_tokens_of_parseExpression hparsed
  obtain ⟨rfl, hstops⟩ := List.append_inj' (Except.ok.inj (htokens.symm.trans htokens')) rfl
  obtain rfl := List.singleton_inj.1 hstops
  exact ⟨us, stop, htokens, hus, hstop, hexpression⟩

theorem fills_of_textOf {ctx : Context} {stop : Token}
    (htokens : Token.tokenize source e.toList = .ok (us ++ [stop])) (hne : us ≠ [])
    (htext : ctx.textOf us = e) : Fills e.toList us := by
  obtain ⟨first, hfirst⟩ : ∃ first, us.head? = some first := by
    cases us with
    | nil => exact absurd rfl hne
    | cons first us => exact ⟨first, rfl⟩
  have hlast := List.getLast?_eq_some_getLast hne
  refine .of_tokenize htokens hlast (Nat.le_antisymm ?_ ?_)
  · have hbounds := (Token.tiling_of_tokenize htokens).boundaries (us.getLast hne)
      (List.mem_append_left _ (List.getLast_mem hne))
    exact hbounds.2.le
  · have hle := Text.byteLength_slice?_le ctx.text first.span.start (us.getLast hne).span.stop
    rw [Context.textOf, hfirst, hlast] at htext
    have hwhole := congrArg String.toList htext
    rw [String.toList_ofList] at hwhole
    rwa [hwhole] at hle

def beforeDefault : String := "CREATE TABLE t (c int DEFAULT"

/-- The tokens in front of the default. -/
structure DefaultFront (a w t p c n d : Token) : Prop where
  create : a.kind = .keyword .CREATE
  table : w.kind = .keyword .TABLE
  name : t.kind = .identifier "t"
  opens : p.kind = .leftParen
  column : c.kind = .identifier "c"
  type : n.kind = .identifier "int"
  word : d.kind = .keyword .DEFAULT

theorem exists_fills_beforeDefault : ∃ as, Fills beforeDefault.toList as ∧
    as.map (·.kind) = [.keyword .CREATE, .keyword .TABLE, .identifier "t", .leftParen,
      .identifier "c", .identifier "int", .keyword .DEFAULT] :=
  Fills.exists_of_kinds (by decide +kernel)

theorem exists_defaultFront {as : List Token}
    (h : as.map (·.kind) = [.keyword .CREATE, .keyword .TABLE, .identifier "t", .leftParen,
      .identifier "c", .identifier "int", .keyword .DEFAULT]) :
    ∃ a w t p c n d, as = [a, w, t, p, c, n, d] ∧ DefaultFront a w t p c n d := by
  obtain ⟨a, _, rfl, ha, h⟩ := List.map_eq_cons_iff.1 h
  obtain ⟨w, _, rfl, hw, h⟩ := List.map_eq_cons_iff.1 h
  obtain ⟨t, _, rfl, ht, h⟩ := List.map_eq_cons_iff.1 h
  obtain ⟨p, _, rfl, hp, h⟩ := List.map_eq_cons_iff.1 h
  obtain ⟨c, _, rfl, hc, h⟩ := List.map_eq_cons_iff.1 h
  obtain ⟨n, _, rfl, hn, h⟩ := List.map_eq_cons_iff.1 h
  obtain ⟨d, _, rfl, hd, h⟩ := List.map_eq_cons_iff.1 h
  obtain rfl := List.map_eq_nil_iff.1 h
  exact ⟨a, w, t, p, c, n, d, rfl, ha, hw, ht, hp, hc, hn, hd⟩

namespace DefaultFront

variable {ctx : Context} {a w t p c n d r : Token} {ts : List Token} {column : ColumnDef}

theorem staysTogether (h : DefaultFront a w t p c n d) (hus : Nested .round (us.map (·.kind)))
    (heof : ∀ u ∈ us, u.kind ≠ .eof) (hbs : ∀ b ∈ bs, b.kind ≠ .eof ∧ b.kind ≠ .semicolon) :
    StaysTogether 0 ([a, w, t, p, c, n, d] ++ (us ++ bs)) := by
  have hbehind : StaysTogether 1 (us ++ bs) :=
    ((sheltered_of_nested hus rfl 0).1.staysTogether heof).append (.of_forall hbs _)
  have hinside : StaysTogether (depthAfter 0 p) (c :: n :: d :: (us ++ bs)) := by
    rw [depthAfter, h.opens]
    exact .cons_name (by rw [h.column]; rfl) (.cons_name (by rw [h.type]; rfl)
      (.cons_name (by rw [h.word]; rfl) hbehind))
  have hopens : StaysTogether 0 (p :: c :: n :: d :: (us ++ bs)) :=
    ⟨by simp [h.opens], fun hends => Kind.noConfusion (h.opens.symm.trans hends.1), hinside⟩
  exact .cons_name (by rw [h.create]; rfl) (.cons_name (by rw [h.table]; rfl)
    (.cons_name (by rw [h.name]; rfl) hopens))

theorem run_statement (h : DefaultFront a w t p c n d) (hstop : ctx.stop.kind = .eof)
    (hr : r.kind = .rightParen)
    (helement : Parser.tableElement.run ctx (c :: n :: d :: ts) = .ok (([column], []), [r])) :
    Parser.statement.run ctx (a :: w :: t :: p :: c :: n :: d :: ts) =
      .ok (.createTable ⟨⟨none, "t"⟩, false, false, false, none, [column], []⟩, []) := by
  have hlist : (Parser.commaList Parser.tableElement).run ctx (c :: n :: d :: ts) =
      .ok ([([column], [])], [r]) := by
    rw [Parser.run_commaList, helement]
    exact if_neg (by simp [hr])
  have hexists : Parser.ifNotExists.run ctx (t :: p :: c :: n :: d :: ts) =
      .ok (false, t :: p :: c :: n :: d :: ts) :=
    Parser.run_choice_of_ne fun hif => Kind.noConfusion (h.name.symm.trans hif)
  have hname : Parser.objectName.run ctx (t :: p :: c :: n :: d :: ts) =
      .ok (⟨none, "t"⟩, p :: c :: n :: d :: ts) := by
    rw [Parser.objectName,
      Parser.run_bind_of_ok (Parser.run_name_of_some (by rw [Token.name?, h.name]; rfl))]
    exact Parser.run_choice_of_ne fun hdot => Kind.noConfusion (h.opens.symm.trans hdot)
  have hfirst : c.kind ≠ .rightParen := fun hclose => Kind.noConfusion (h.column.symm.trans hclose)
  exact (Parser.run_statement_table hstop h.create h.table hexists hname
    (Parser.run_tableElements h.opens hr hfirst hlist)).2 ⟨Nat.zero_le _, rfl⟩

end DefaultFront

theorem text_of_default (e back : String) : "CREATE TABLE t (c int DEFAULT " ++ e ++ back =
    String.ofList (beforeDefault.toList ++ ' ' :: (e.toList ++ back.toList)) := by
  have hfront : "CREATE TABLE t (c int DEFAULT ".toList = beforeDefault.toList ++ [' '] := rfl
  rw [← String.ofList_toList (s := "CREATE TABLE t (c int DEFAULT " ++ e ++ back),
    String.toList_append, String.toList_append, hfront, List.append_assoc, List.append_assoc]
  rfl

/-- The tokens of `c int DEFAULT` in front of those of a text with tokens of these kinds. -/
structure DefaultRow (ctx : Context) (e : String) (ks : List Kind) (c n w : Token)
    (us : List Token) : Prop where
  column : c.kind = .identifier "c"
  type : n.kind = .identifier "int"
  word : w.kind = .keyword .DEFAULT
  kinds : us.map (·.kind) = ks
  text : ctx.textOf us = e

/-- What a column with the default is read as in front of the closing parenthesis is the column of the
table. -/
theorem parseSource_oneColumn {column : Column} {back : String} (source : String)
    (hparsed : parseExpression e = .ok x) (htext : x.text = e) (hkinds : HasKinds e ks)
    (hplain : PlainDefault ks) (hback : Fills back.toList bs) (hends : Ends back.toList)
    (hhead : back.toList.head? ≠ some '-') (hsemicolon : Kind.semicolon ∉ bs.map (·.kind))
    (hrun : ∀ ctx c n w us bs', DefaultRow ctx e ks c n w us → bs'.map (·.kind) = bs.map (·.kind) →
      ∃ r, r.kind = .rightParen ∧ Parser.tableElement.run ctx (c :: n :: w :: (us ++ bs')) =
        .ok (([⟨column, ctx.locate c⟩], []), [r])) :
    ∃ p l, parseSource source ("CREATE TABLE t (c int DEFAULT " ++ e ++ back) = .ok [p] ∧
      p.statement = .createTable ⟨⟨none, "t"⟩, false, false, false, none, [⟨column, l⟩], []⟩ := by
  obtain ⟨us, stop, htokens, hus, hstop, hne, -, rfl⟩ := exists_expression hparsed hkinds
  obtain ⟨as, has, haskinds⟩ := exists_fills_beforeDefault
  obtain ⟨as', us', bs', hfills, has', hbs', hmoves⟩ :=
    has.row (fills_of_textOf htokens hne htext) hback hne hends fun _ h => absurd h hhead
  have hus' : us'.map (·.kind) = ks := (Token.map_kind_of_moves hmoves).trans hus
  obtain ⟨a, w, t, p, c, n, d, rfl, hfront⟩ := exists_defaultFront (has'.trans haskinds)
  obtain ⟨stop', htokens', hstop'⟩ := hfills.exists_tokenize source
  have htogether : StaysTogether 0 ([a, w, t, p, c, n, d] ++ (us' ++ bs')) := by
    have hkept : Kind.semicolon ∉ bs'.map (·.kind) := hbs' ▸ hsemicolon
    refine hfront.staysTogether (hus' ▸ hplain.nested.round_of_proper) (fun u hu => ?_) fun b hb => ?_
    · exact hfills.kinds u (List.mem_append_right _ (List.mem_append_left _ hu))
    · exact ⟨hfills.kinds b (List.mem_append_right _ (List.mem_append_right _ hb)),
        fun h => hkept (h ▸ List.mem_map_of_mem hb)⟩
  rw [text_of_default]
  obtain ⟨parsed, hparsed, l, hl⟩ := parseSource_single_ok
    (P := fun s => ∃ l, s = .createTable
      ⟨⟨none, "t"⟩, false, false, false, none, [⟨column, l⟩], []⟩)
    (by rwa [String.toList_ofList]) hstop' (by simp) htogether (fun stop' hstop' => by
      rw [String.toList_ofList]
      let C : Cut :=
        ⟨⟨source, beforeDefault.toList ++ ' ' :: (e.toList ++ back.toList), us', stop'⟩,
          ⟨anonymousSource, e.toList, us, stop⟩, beforeDefault.toList ++ [' '], back.toList, by simp,
          hmoves, hstop', hstop⟩
      let ctx : Context := ⟨source, beforeDefault.toList ++ ' ' :: (e.toList ++ back.toList),
        [a, w, t, p, c, n, d] ++ (us' ++ bs'), stop'⟩
      have hcut : ctx.textOf us' = e := C.rows.textOf.trans htext
      obtain ⟨r, hr, hrun⟩ :=
        hrun ctx c n d us' bs' ⟨hfront.column, hfront.type, hfront.word, hus', hcut⟩ hbs'
      exact ⟨_, hfront.run_statement hstop' hr hrun, ctx.locate c, rfl⟩)
  exact ⟨parsed, l, hparsed, hl⟩

/-- Which words a default must not end in, so that `NOT NULL` ends it. -/
theorem last_word (hkinds : HasKinds e ks) (hplain : PlainDefault ks)
    (hparsed : parseExpression e = .ok x) (hlast : ks.getLast? ≠ some (.identifier "is")) :
    ∀ k ∈ ks.getLast?, ∀ word ∈ k.word?, word ≠ "is" ∧ word ≠ "not" := by
  obtain ⟨us, stop, htokens, rfl, -, -, hwhole, -⟩ := exists_expression hparsed hkinds
  have hspelling (k : Token.Keyword) : k.spelling ≠ "is" ∧ (k.spelling = "not" → k = .NOT) := by
    cases k <;> decide
  intro k hk word hword
  rw [List.getLast?_map] at hk hlast
  obtain ⟨t, ht, rfl⟩ := Option.map_eq_some_iff.1 hk
  cases hkind : t.kind with
  | keyword k =>
    rw [hkind] at hword
    obtain rfl : k.spelling = word := Option.some.inj hword
    refine ⟨(hspelling k).1, fun hnot => ?_⟩
    obtain rfl := (hspelling k).2 hnot
    rcases last_outside (hwhole stop) ht with hcloses | houtside
    · rw [hkind] at hcloses
      cases hcloses
    · have hclause := hplain.no_clause _ houtside
      rw [hkind] at hclause
      cases hclause
  | identifier name =>
    rw [hkind] at hword
    obtain rfl : name = word := Option.some.inj hword
    refine ⟨?_, ?_⟩
    · rintro rfl
      exact hlast (by rw [ht, Option.map_some, hkind])
    · rintro rfl
      obtain ⟨front, e, u, after, heq, hreads, -⟩ := Token.exists_reads_of_tokenize htokens
      obtain ⟨rfl, -⟩ := List.append_inj' heq rfl
      have hnone := hreads.ofWord?_of_identifier t (List.mem_of_getLast? ht) hkind
      exact absurd hnone (by decide)
  | _ =>
    rw [hkind] at hword
    cases hword

namespace DefaultRow

variable {ctx : Context} {c n w neg null close : Token} {rest : List Token}

theorem expression_eq (h : DefaultRow ctx e ks c n w us) (hkinds : HasKinds e ks)
    (hparsed : parseExpression e = .ok x) (htext : x.text = e) :
    us ≠ [] ∧ IsExpression us ∧ ctx.expression us = x := by
  obtain ⟨vs, stop, -, hvs, -, hne, hwhole, rfl⟩ := exists_expression hparsed hkinds
  have hsame : vs.map (·.kind) = us.map (·.kind) := hvs.trans h.kinds.symm
  refine ⟨?_, hwhole.congr hsame, (expression_congr (htext.trans h.text.symm) hsame).symm⟩
  rintro rfl
  exact hne (List.map_eq_nil_iff.1 hsame)

/-- In front of the end of its column the default is read whole. -/
theorem run_tableElement (h : DefaultRow ctx e ks c n w us) (hkinds : HasKinds e ks)
    (hplain : PlainDefault ks) (hparsed : parseExpression e = .ok x) (htext : x.text = e)
    (hclose : close.kind = .comma ∨ close.kind = .rightParen) :
    Parser.tableElement.run ctx (c :: n :: w :: (us ++ close :: rest)) =
      .ok (([⟨Parser.defaultColumn x true, ctx.locate c⟩], []), close :: rest) := by
  obtain ⟨hne, hwhole, rfl⟩ := h.expression_eq hkinds hparsed htext
  exact Parser.run_tableElement_default (h.kinds ▸ hplain) hwhole hne h.column h.type h.word hclose

/-- In front of `NOT NULL` it is as well, unless it ends in `IS`. -/
theorem run_tableElement_notNull (h : DefaultRow ctx e ks c n w us) (hkinds : HasKinds e ks)
    (hplain : PlainDefault ks) (hparsed : parseExpression e = .ok x) (htext : x.text = e)
    (hlast : ks.getLast? ≠ some (.identifier "is")) (hneg : neg.kind = .keyword .NOT)
    (hnull : null.kind = .keyword .NULL) (hclose : close.kind = .comma ∨ close.kind = .rightParen) :
    Parser.tableElement.run ctx (c :: n :: w :: (us ++ neg :: null :: close :: rest)) =
      .ok (([⟨Parser.defaultColumn x false, ctx.locate c⟩], []), close :: rest) := by
  obtain ⟨hne, hwhole, rfl⟩ := h.expression_eq hkinds hparsed htext
  refine Parser.run_tableElement_default_notNull (h.kinds ▸ hplain) hwhole hne h.column h.type
    h.word hneg hnull hclose fun last hmem => ?_
  refine last_word hkinds hplain hparsed hlast _ ?_
  rw [← h.kinds, List.getLast?_map, hmem]
  rfl

end DefaultRow

/-- A plain default is captured whole, as the expression that its text is by itself, and its column
admits nulls. In front of `NOT NULL` it is as well, unless it ends in `IS`, and its column admits none. -/
theorem default_captured (source : String) (hkinds : HasKinds e ks) (hplain : PlainDefault ks)
    (hparsed : parseExpression e = .ok x) (htext : x.text = e) :
    ((∀ ctx c n w us, DefaultRow ctx e ks c n w us → ∀ close rest,
        close.kind = .comma ∨ close.kind = .rightParen →
        Parser.tableElement.run ctx (c :: n :: w :: (us ++ close :: rest)) =
          .ok (([⟨Parser.defaultColumn x true, ctx.locate c⟩], []), close :: rest)) ∧
      ∃ p l, parseSource source ("CREATE TABLE t (c int DEFAULT " ++ e ++ ")") = .ok [p] ∧
        p.statement = .createTable ⟨⟨none, "t"⟩, false, false, false, none,
          [⟨Parser.defaultColumn x true, l⟩], []⟩) ∧
    (ks.getLast? ≠ some (.identifier "is") →
      (∀ ctx c n w us, DefaultRow ctx e ks c n w us → ∀ neg null close rest,
        neg.kind = .keyword .NOT → null.kind = .keyword .NULL →
        close.kind = .comma ∨ close.kind = .rightParen →
        Parser.tableElement.run ctx (c :: n :: w :: (us ++ neg :: null :: close :: rest)) =
          .ok (([⟨Parser.defaultColumn x false, ctx.locate c⟩], []), close :: rest)) ∧
      ∃ p l, parseSource source ("CREATE TABLE t (c int DEFAULT " ++ e ++ " NOT NULL)") = .ok [p] ∧
        p.statement = .createTable ⟨⟨none, "t"⟩, false, false, false, none,
          [⟨Parser.defaultColumn x false, l⟩], []⟩) := by
  refine ⟨⟨fun _ _ _ _ _ h _ _ => h.run_tableElement hkinds hplain hparsed htext, ?_⟩, fun hlast =>
    ⟨fun _ _ _ _ _ h _ _ _ _ => h.run_tableElement_notNull hkinds hplain hparsed htext hlast, ?_⟩⟩
  · obtain ⟨bs, hbs, hkinds'⟩ : ∃ bs, Fills ")".toList bs ∧ bs.map (·.kind) = [.rightParen] :=
      Fills.exists_of_kinds (by decide +kernel)
    refine parseSource_oneColumn source hparsed htext hkinds hplain hbs (.rightParen []) nofun
      (by simp [hkinds']) ?_
    intro ctx c n w us bs' h hbs'
    obtain ⟨r, rs, rfl, hr, hrs⟩ := List.map_eq_cons_iff.1 (hbs'.trans hkinds')
    obtain rfl := List.map_eq_nil_iff.1 hrs
    exact ⟨r, hr, h.run_tableElement hkinds hplain hparsed htext (.inr hr)⟩
  · obtain ⟨bs, hbs, hkinds'⟩ : ∃ bs, Fills " NOT NULL)".toList bs ∧
        bs.map (·.kind) = [.keyword .NOT, .keyword .NULL, .rightParen] :=
      Fills.exists_of_kinds (by decide +kernel)
    refine parseSource_oneColumn source hparsed htext hkinds hplain hbs (.blank (by decide) _) nofun
      (by simp [hkinds']) ?_
    intro ctx c n w us bs' h hbs'
    obtain ⟨neg, rs, rfl, hneg, hrs⟩ := List.map_eq_cons_iff.1 (hbs'.trans hkinds')
    obtain ⟨null, rs, rfl, hnull, hrs⟩ := List.map_eq_cons_iff.1 hrs
    obtain ⟨r, rs, rfl, hr, hrs⟩ := List.map_eq_cons_iff.1 hrs
    obtain rfl := List.map_eq_nil_iff.1 hrs
    exact ⟨r, hr, h.run_tableElement_notNull hkinds hplain hparsed htext hlast hneg hnull (.inr hr)⟩

/-- The word `NOT` and `NULL` inside of brackets, and an array type at the end. -/
def callKinds : List Kind :=
  [.identifier "f", .leftParen, .keyword .NOT, .identifier "x", .comma, .keyword .NULL, .rightParen,
    .doubleColon, .identifier "int", .leftBracket, .rightBracket]

theorem default_captured_call :
    HasKinds "f(not x, NULL)::int[]" callKinds ∧ PlainDefault callKinds ∧
      parseExpression "f(not x, NULL)::int[]" = .ok ⟨"f(not x, NULL)::int[]", none, ["x"]⟩ ∧
      ∃ p l, parseSource "t.sql" "CREATE TABLE t (c int DEFAULT f(not x, NULL)::int[] NOT NULL)" =
          .ok [p] ∧
        p.statement = .createTable ⟨⟨none, "t"⟩, false, false, false, none,
          [⟨Parser.defaultColumn ⟨"f(not x, NULL)::int[]", none, ["x"]⟩ false, l⟩], []⟩ := by
  have hkinds : HasKinds "f(not x, NULL)::int[]" callKinds := by decide +kernel
  have hplain : PlainDefault callKinds := ⟨by decide, by decide, by decide⟩
  have hoption : (parseExpression "f(not x, NULL)::int[]").toOption.map id =
      some ⟨"f(not x, NULL)::int[]", none, ["x"]⟩ := by decide +kernel
  obtain ⟨x, hparsed, rfl⟩ := exists_ok_of_map_toOption hoption
  have hcaptured := (default_captured "t.sql" hkinds hplain hparsed rfl).2 (by decide)
  exact ⟨hkinds, hplain, hparsed, hcaptured.2⟩

/-- `NOT NULL` is part of a default that ends in `IS`. -/
theorem default_captured_is :
    HasKinds "a is" [.identifier "a", .identifier "is"] ∧
      PlainDefault [.identifier "a", .identifier "is"] ∧
      parseExpression "a is" = .ok ⟨"a is", none, ["a"]⟩ ∧
      (parseSource "t.sql" "CREATE TABLE t (c int DEFAULT a is NOT NULL)").toOption.map
          (·.map (·.statement)) =
        some [.createTable ⟨⟨none, "t"⟩, false, false, false, none,
          [⟨Parser.defaultColumn ⟨"a is NOT NULL", none, ["a"]⟩ true, ⟨"t.sql", 16, 1, 17⟩⟩], []⟩] := by
  have hoption : (parseExpression "a is").toOption.map id = some ⟨"a is", none, ["a"]⟩ := by
    decide +kernel
  obtain ⟨x, hparsed, rfl⟩ := exists_ok_of_map_toOption hoption
  exact ⟨by decide +kernel, ⟨by decide, by decide, by decide⟩, hparsed, by decide +kernel⟩

/-- A default is cut off in front of `NULL` behind its first token, even if that leaves an operator
without its second operand. -/
theorem default_cut_before_null :
    HasKinds "1 + NULL" [.number "1", .operator "+", .keyword .NULL] ∧
      parseExpression "1 + NULL" = .ok ⟨"1 + NULL", none, []⟩ ∧
      (parseSource "t.sql" "CREATE TABLE t (c int DEFAULT 1 + NULL)").toOption.map
          (·.map (·.statement)) =
        some [.createTable ⟨⟨none, "t"⟩, false, false, false, none,
          [⟨Parser.defaultColumn ⟨"1 +", none, []⟩ true, ⟨"t.sql", 16, 1, 17⟩⟩], []⟩] := by
  have hoption : (parseExpression "1 + NULL").toOption.map id = some ⟨"1 + NULL", none, []⟩ := by
    decide +kernel
  obtain ⟨x, hparsed, rfl⟩ := exists_ok_of_map_toOption hoption
  exact ⟨by decide +kernel, hparsed, by decide +kernel⟩

end Grammar

end DdlCatalog
