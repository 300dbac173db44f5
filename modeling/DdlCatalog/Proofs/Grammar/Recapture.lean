import DdlCatalog.Proofs.Grammar.Excerpts

/-! # Expressions parsed again
The text of an expression of a statement is an expression by itself, with the same literal and the same
references. -/

namespace DdlCatalog

namespace Grammar

variable {ctx : Context} {us us' rest : List Token} {stop : Token} {text : List Char} {e : Expression}

namespace Parser

theorem run_expressionTokens (h : IsExpression us) (hne : us ≠ []) (ctx : Context) :
    (expressionTokens neverStops).run ctx us = .ok (us, []) := by
  have htaken : (takeMeasured "unbalanced brackets in expression" fun ctx ts =>
      expressionLength neverStops ctx.stop none 0 ts).run ctx us = .ok (us, []) := by
    unfold run takeMeasured
    dsimp only
    rw [h ctx.stop]
    simp [take, Except.map]
  rw [expressionTokens, run_bind, htaken]
  simp [Except.bind, hne]

theorem run_expression (h : IsExpression us) (hne : us ≠ []) (ctx : Context) :
    (expression neverStops).run ctx us = .ok (ctx.expression us, []) := by
  rw [expression, run_bind, run_expressionTokens h hne]
  rfl

theorem isExpression_of_run (h : (expression neverStops).run ctx us = .ok (e, [])) :
    IsExpression us := by
  obtain ⟨taken, mid, htokens, hexpress⟩ := run_bind_ok h
  cases hexpress
  obtain ⟨vs, mid, hmeasured, hmore⟩ := run_bind_ok htokens
  obtain ⟨n, hn, rfl, rfl⟩ := run_takeMeasured hmeasured
  split at hmore
  · cases hmore
  · have hdrop : us.drop n = [] := (congrArg Prod.snd (Except.ok.inj hmore) :)
    intro stop
    obtain ⟨hlength, htake⟩ := expressionLength_take hn stop none
    have hwhole : us.take n = us := by
      have hsplit := List.take_append_drop n us
      rwa [hdrop, List.append_nil] at hsplit
    rw [hwhole] at hlength htake
    rw [htake, hlength]

end Parser

/-- A text is an expression if all of its tokens are. -/
theorem parseExpression_eq_ok_iff
    (htokens : Token.tokenize anonymousSource text = .ok (us ++ [stop])) (hstop : stop.kind = .eof) :
    parseExpression (String.ofList text) = .ok e ↔
      (Parser.expression neverStops).run ⟨anonymousSource, text, us, stop⟩ us = .ok (e, []) := by
  obtain ⟨after, hreads, -⟩ := Token.Reads.of_tokens (Token.tokens_of_tokenize htokens)
  unfold parseExpression
  rw [String.toList_ofList, htokens]
  show Except.bind (Parser.run _ (.ofTokens ..) _) _ = _ ↔ _
  rw [Context.ofTokens_of_eof hstop, Parser.run_bind]
  dsimp only
  generalize hrun : (Parser.expression neverStops).run _ us = x
  cases x with
  | error e => simp [Except.bind]
  | ok o =>
    obtain ⟨e', rest⟩ := o
    cases rest with
    | nil =>
      have hend : Parser.atEnd.run ⟨anonymousSource, text, us, stop⟩ [] = .ok (true, []) := by
        simp [Parser.atEnd, Parser.run_bind, Parser.run_current, Context.current, hstop, Except.bind]
      dsimp only [Except.bind]
      rw [Parser.run_bind, hend]
      show Except.ok e' = .ok e ↔ _
      simp
    | cons t rest =>
      -- no token of the text is an end, so what is left is too much
      have ht : t.kind ≠ .eof :=
        hreads.kinds t ((Parser.suffix_of_run hrun).subset (List.mem_cons_self ..))
      have hend : Parser.atEnd.run ⟨anonymousSource, text, us, stop⟩ (t :: rest) =
          .ok (false, t :: rest) := by
        simp [Parser.atEnd, Parser.run_bind, Parser.run_current, Context.current, ht, Except.bind]
      dsimp only [Except.bind]
      rw [Parser.run_bind, hend]
      constructor <;> intro h <;> cases h

/-- A run that is accepted in the statement is accepted by itself. -/
theorem Cut.Stable.run_ok {C : Cut} {α : Type} {p : Parser α} (hp : C.Stable p) {ts : List Token}
    {a : α} (h : p.run C.whole ts = .ok (a, rest)) (hrows : C.Rows ts us) :
    ∃ rest', p.run C.part us = .ok (a, rest') ∧ C.Rows rest rest' := by
  have hmatches := hp.agree hrows
  rw [h] at hmatches
  generalize p.run C.part us = x at hmatches ⊢
  cases hmatches with
  | ok value hrest => exact ⟨_, value ▸ rfl, hrest⟩

/-- Whether tokens are an expression does not depend on where they stand. -/
theorem IsExpression.of_rows {C : Cut} (h : IsExpression us') (hrows : C.Rows us us') :
    IsExpression us := by
  have hmeasures : C.Measures (expressionLength neverStops C.whole.stop none 0 us)
      (expressionLength neverStops C.part.stop none 0 us') :=
    hrows.expressionLength placeless_neverStops rfl 0
  rw [h C.part.stop] at hmeasures
  generalize hlength : expressionLength neverStops _ none 0 us = x at hmeasures
  cases hmeasures with
  | ok =>
    intro stop
    rw [← hrows.length_eq] at hlength
    have htake := (expressionLength_take hlength stop none).2
    rwa [List.take_length] at htake

theorem IsCall.of_rows {C : Cut} (h : IsCall us) (hrows : C.Rows us us') : IsCall us' := by
  obtain ⟨front, l, inner, rfl, hl, hfront, hinner⟩ := h
  induction front generalizing us' with
  | nil =>
    cases hrows with
    | @cons _ l' _ inner' hl' hinner' =>
      refine ⟨[], l', inner', rfl, hl'.kind ▸ hl, nofun, fun stop => ?_⟩
      have hmeasures := Cut.Rows.groupLength hinner' 0
      rw [hinner C.whole.stop] at hmeasures
      generalize hlength : Parser.groupLength _ 0 inner' = x at hmeasures
      cases hmeasures with
      | ok =>
        rw [hinner'.length_eq] at hlength
        have htake := (Parser.groupLength_take hlength stop).2.1
        rwa [List.take_length] at htake
  | cons t front ih =>
    cases hrows with
    | @cons _ t' _ more ht hmore =>
      obtain ⟨front', l', inner', rfl, hl', hfront', hinner'⟩ :=
        ih hmore fun t ht => hfront t (List.mem_cons_of_mem _ ht)
      refine ⟨t' :: front', l', inner', rfl, hl', ?_, hinner'⟩
      exact List.forall_mem_cons.2 ⟨ht.kind ▸ hfront t (List.mem_cons_self ..), hfront'⟩

/-- The tokens of an excerpt and those of its text. -/
theorem Excerpt.exists_cut (h : Excerpt ctx us) (hctx : ctx.InText) :
    ∃ C : Cut, C.whole = ⟨ctx.source, ctx.text, us, ctx.stop⟩ ∧ C.Rows us C.part.tokens ∧
      C.part.source = anonymousSource ∧
      Token.tokenize anonymousSource C.part.text = .ok (C.part.tokens ++ [C.part.stop]) ∧
      ctx.textOf us = String.ofList C.part.text := by
  obtain ⟨front, part, back, us', hpart, htext⟩ := h.exists_part hctx
  obtain ⟨stop, hstop, htokens⟩ := hpart.tokens_eq
  let C : Cut := ⟨⟨ctx.source, ctx.text, us, ctx.stop⟩, ⟨anonymousSource, part, us', stop⟩, front,
    back, hpart.text_eq, hpart.moves, hctx.stop, hstop⟩
  refine ⟨C, rfl, C.rows, rfl, ?_, htext⟩
  rw [Token.tokenize, htokens]
  rfl

theorem Captured.parseExpression_eq (h : Captured ctx us) (hctx : ctx.InText) :
    parseExpression (ctx.textOf us) = .ok (ctx.expression us) := by
  obtain ⟨C, hwhole, hrows, hsource, htokens, htext⟩ := h.exists_cut hctx
  have hrun : (Parser.expression neverStops).run C.whole us = .ok (ctx.expression us, []) := by
    rw [hwhole]
    exact Parser.run_expression h.whole h.ne_nil _
  obtain ⟨rest, hrun', hrest⟩ := Parser.stable_wholeExpression.run_ok hrun hrows
  obtain rfl := List.forall₂_nil_left_iff.1 hrest
  rw [htext, parseExpression_eq_ok_iff htokens C.stop_part, ← hsource]
  exact hrun'

/-- What is no expression does not parse as one. -/
theorem Excerpt.parseExpression_ne (h : Excerpt ctx us) (hctx : ctx.InText)
    (hnot : ¬ IsExpression us) : parseExpression (ctx.textOf us) ≠ .ok e := by
  obtain ⟨C, -, hrows, -, htokens, htext⟩ := h.exists_cut hctx
  rw [htext]
  intro hparsed
  have hrun := (parseExpression_eq_ok_iff htokens C.stop_part).1 hparsed
  exact hnot ((Parser.isExpression_of_run hrun).of_rows hrows)

theorem Drawn.parseExpression_eq (h : Drawn ctx e) (hctx : ctx.InText) :
    parseExpression e.text = .ok e := by
  obtain ⟨us, hus, rfl⟩ := h
  exact hus.parseExpression_eq hctx

def Calls (text : String) : Prop :=
  ∃ us stop, Token.tokenize anonymousSource text.toList = .ok (us ++ [stop]) ∧
    stop.kind = .eof ∧ IsCall us

theorem Called.calls (h : Called ctx us) (hctx : ctx.InText) : Calls (ctx.textOf us) := by
  obtain ⟨C, -, hrows, -, htokens, htext⟩ := h.exists_cut hctx
  rw [htext]
  exact ⟨C.part.tokens, C.part.stop, by rwa [String.toList_ofList], C.stop_part,
    h.call.of_rows hrows⟩

/-- The expressions that a statement keeps parse to themselves: defaults of columns and parameters, the
expressions of generated columns, checks, elements and predicates of exclusions. So do the keys of an
index, but for calls, which may hold brackets that do not match. -/
theorem parseExpression_of_parseSource {source text : String} {statements : List ParsedStatement}
    (h : parseSource source text = .ok statements) :
    ∀ p ∈ statements, (∀ e ∈ p.statement.expressions, parseExpression e.text = .ok e) ∧
      ∀ e ∈ p.statement.keys, parseExpression e.text = .ok e ∨
        Calls e.text ∧ ∀ e', parseExpression e.text ≠ .ok e' := by
  intro p hp
  obtain ⟨ctx, hctx, hexcerpts⟩ := exists_excerpts h hp
  refine ⟨fun e he => (hexcerpts.expressions e he).parseExpression_eq hctx, fun e he => ?_⟩
  obtain ⟨us, hcaptured | hcalled, rfl⟩ := hexcerpts.keys e he
  · exact .inl (hcaptured.parseExpression_eq hctx)
  · by_cases hwhole : IsExpression us
    · exact .inl (Captured.parseExpression_eq ⟨hcalled.toExcerpt, hwhole⟩ hctx)
    · exact .inr ⟨hcalled.calls hctx, fun e' => hcalled.parseExpression_ne hctx hwhole⟩

/-- Expressions that end at the next clause, at a comma and at a parenthesis, and a call. -/
def capturedText : String :=
  "create table t(a int default -1 not null,b int check(a..b>'é'),c int generated always as(a)stored," ++
    "exclude(a with=)where(a/**/>0));create index on t((a+1),f(]))"

theorem parseExpression_of_capturedText :
    ∃ statements, parseSource "a.sql" capturedText = .ok statements ∧
      statements.map (fun p => (p.statement.expressions ++ p.statement.keys).map (·.text)) =
        [["-1", "a", "a..b>'é'", "a", "a/**/>0"], ["a+1", "f(])"]] ∧
      ∀ p ∈ statements, (∀ e ∈ p.statement.expressions, parseExpression e.text = .ok e) ∧
        ∀ e ∈ p.statement.keys, parseExpression e.text = .ok e ∨
          Calls e.text ∧ ∀ e', parseExpression e.text ≠ .ok e' := by
  have hparsed : (parseSource "a.sql" capturedText).toOption.map
      (·.map fun p => (p.statement.expressions ++ p.statement.keys).map (·.text)) =
        some [["-1", "a", "a..b>'é'", "a", "a/**/>0"], ["a+1", "f(])"]] := by decide +kernel
  obtain ⟨statements, h, htexts⟩ := exists_ok_of_map_toOption hparsed
  exact ⟨statements, h, htexts, parseExpression_of_parseSource h⟩

end Grammar

end DdlCatalog
