import DdlCatalog.Proofs.Grammar.PlainTable
import DdlCatalog.Proofs.Grammar.SelectList
import DdlCatalog.Proofs.Token.Row

/-! # Defaults of columns
A default ends where the next clause of its column begins. What may begin one is part of the default
inside of brackets, and `NULL` is at the start as well. -/

namespace DdlCatalog

namespace Grammar

open Token (Kind)
open Text (byteLength)

variable {ctx : Context} {ks : List Kind} {us rest : List Token} {t u stop next : Token}
  {previous : Option Token} {depth : Nat}

/-- Keywords that begin a clause of a column, other than `NULL`. -/
def beginsClause : Kind → Bool
  | .keyword .CONSTRAINT | .keyword .PRIMARY | .keyword .UNIQUE | .keyword .REFERENCES
  | .keyword .CHECK | .keyword .GENERATED | .keyword .DEFAULT | .keyword .COLLATE
  | .keyword .AS | .keyword .NOT => true
  | _ => false

/-- The kinds that stand outside of all brackets, where so many are open in front. A bracket that opens
stands where it is opened. -/
def outside (depth : Nat) : List Kind → List Kind
  | [] => []
  | k :: ks =>
    if opensBracket k then (if depth = 0 then [k] else []) ++ outside (depth + 1) ks
    else if closesBracket k then outside (depth - 1) ks
    else (if depth = 0 then [k] else []) ++ outside depth ks

/-- Nested brackets, where a clause seems to begin only inside of them, or with `NULL` at the start. -/
structure PlainDefault (ks : List Kind) : Prop where
  nested : Nested .proper ks
  no_clause : ∀ k ∈ outside 0 ks, beginsClause k = false
  null_first : .keyword .NULL ∉ (outside 0 ks).tail

theorem endsDefault_of_plain (hclause : beginsClause t.kind = false)
    (hnull : previous = none ∨ t.kind ≠ .keyword .NULL) : endsDefault previous t next = false := by
  unfold endsDefault
  dsimp only
  rcases hnull with rfl | hnull
  · split <;> simp_all [beginsClause]
  · split <;> simp_all [beginsClause]

/-- `NOT NULL` ends a default that does not end in `IS` or `NOT`. -/
theorem endsDefault_notNull (hkind : t.kind = .keyword .NOT) (hnext : next.kind = .keyword .NULL)
    (hprevious : ∀ word ∈ u.word?, word ≠ "is" ∧ word ≠ "not") :
    endsDefault (some u) t next = true := by
  unfold endsDefault
  simp only [hkind, Token.isKeyword, hnext, decide_true, Bool.true_and, Option.any_some,
    Bool.and_eq_true, decide_eq_true_eq]
  cases hword : u.word? with
  | none => simp
  | some word => simpa using hprevious word hword

theorem Passes.outside_cons {d : Nat} (h : Passes t depth d) (ks : List Kind) :
    outside depth (t.kind :: ks) =
      (if depth = 0 then [t.kind] else []) ++ outside d ks := by
  cases h with
  | opens kind => rw [outside, if_pos kind]
  | @closes depth kind =>
    have hopens : opensBracket t.kind = false := by
      by_contra hopens
      simp [closesBracket_of_opensBracket _ (by simpa using hopens)] at kind
    rw [outside, if_neg (by simp [hopens]), if_pos kind]
    rfl
  | stays not_opens not_closes =>
    rw [outside, if_neg (by simp [not_opens]), if_neg (by simp [not_closes])]

/-- A default goes on behind a token of an expression that begins no clause. -/
theorem Passes.expressionLength_default {d : Nat} (h : Passes t depth d)
    (hclause : depth = 0 → beginsClause t.kind = false)
    (hnull : depth = 0 → previous = none ∨ t.kind ≠ .keyword .NULL) (ts : List Token) :
    expressionLength endsDefault stop previous depth (t :: ts) =
      (expressionLength endsDefault stop (some t) d ts).map (· + 1) :=
  h.expressionLength_of_not_stops fun hdepth _ =>
    endsDefault_of_plain (hclause hdepth) (hnull hdepth)

/-- Behind its first token a default goes on to the end of its expression. -/
theorem expressionLength_default_behind {stop' : Token} {previous' : Option Token}
    (hus : expressionLength neverStops stop' previous' depth us = .ok us.length)
    (hclause : ∀ k ∈ outside depth (us.map (·.kind)), beginsClause k = false)
    (hnull : .keyword .NULL ∉ outside depth (us.map (·.kind)))
    (hrest : expressionLength endsDefault stop (us.getLast?.or previous) 0 rest = .ok 0) :
    expressionLength endsDefault stop previous depth (us ++ rest) = .ok us.length := by
  induction us generalizing depth previous previous' with
  | nil =>
    rw [expressionLength] at hus
    split at hus
    · next hdepth => rw [hdepth]; exact hrest
    · cases hus
  | cons t us ih =>
    rcases expressionLength_cons hus with ⟨hzero, -⟩ | ⟨m, d, hm, hpasses, hmore⟩
    · cases hzero
    · obtain rfl : us.length = m := Nat.succ.inj hm
      rw [List.map_cons, hpasses.outside_cons] at hclause hnull
      rw [List.forall_mem_append] at hclause
      rw [List.mem_append, not_or] at hnull
      have hlast : (t :: us).getLast?.or previous = us.getLast?.or (some t) := by
        rw [List.getLast?_cons]
        cases us.getLast? <;> rfl
      rw [hlast] at hrest
      rw [List.cons_append, hpasses.expressionLength_default, ih hmore hclause.2 hnull.2 hrest]
      · rfl
      · intro hdepth
        exact hclause.1 _ (by simp [hdepth])
      · refine fun hdepth => .inr fun hk => hnull.1 ?_
        simp [hdepth, hk]

theorem PlainDefault.expressionLength_eq (h : PlainDefault (us.map (·.kind)))
    (hus : IsExpression us) (hne : us ≠ [])
    (hrest : ∀ last ∈ us.getLast?, expressionLength endsDefault stop (some last) 0 rest = .ok 0) :
    expressionLength endsDefault stop none 0 (us ++ rest) = .ok us.length := by
  cases us with
  | nil => exact absurd rfl hne
  | cons t us =>
    rcases expressionLength_cons (hus stop) with ⟨hzero, -⟩ | ⟨m, d, hm, hpasses, hmore⟩
    · cases hzero
    · obtain rfl : us.length = m := Nat.succ.inj hm
      have hclause := h.no_clause
      have hnull := h.null_first
      rw [List.map_cons, hpasses.outside_cons, if_pos rfl] at hclause hnull
      obtain ⟨hfirst, hbehind⟩ := List.forall_mem_cons.1 hclause
      have hlast := hrest ((us.getLast?).getD t) (by rw [List.getLast?_cons]; rfl)
      have hlast' : us.getLast?.or (some t) = some ((us.getLast?).getD t) := by
        cases us.getLast? <;> rfl
      rw [List.cons_append, hpasses.expressionLength_default (fun _ => hfirst) (fun _ => .inl rfl),
        expressionLength_default_behind hmore hbehind hnull (hlast' ▸ hlast)]
      rfl

/-- What stands last is outside of all brackets, unless it closes one. -/
theorem last_outside {stop' : Token} {previous' : Option Token}
    (hus : expressionLength neverStops stop' previous' depth us = .ok us.length)
    (hlast : us.getLast? = some t) :
    closesBracket t.kind = true ∨ t.kind ∈ outside depth (us.map (·.kind)) := by
  induction us generalizing depth previous' with
  | nil => cases hlast
  | cons u us ih =>
    rcases expressionLength_cons hus with ⟨hzero, -⟩ | ⟨m, d, hm, hpasses, hmore⟩
    · cases hzero
    · obtain rfl : us.length = m := Nat.succ.inj hm
      rw [List.map_cons, hpasses.outside_cons]
      cases us with
      | nil =>
        obtain rfl : u = t := Option.some.inj hlast
        obtain rfl : d = 0 := by
          by_contra hd
          rw [expressionLength, if_neg hd] at hmore
          cases hmore
        cases hpasses with
        | closes kind => exact .inl kind
        | stays => exact .inr (by simp)
      | cons u' us =>
        exact (ih hmore (by rwa [List.getLast?_cons_cons] at hlast)).imp_right
          (List.mem_append_right _ ·)

theorem Passes.congr {d : Nat} (h : Passes t depth d) (hkind : t.kind = u.kind) :
    Passes u depth d := by
  cases h with
  | opens kind => exact .opens (hkind ▸ kind)
  | closes kind => exact .closes (hkind ▸ kind)
  | stays not_opens not_closes not_eof not_comma =>
    exact .stays (hkind ▸ not_opens) (hkind ▸ not_closes) (hkind ▸ not_eof) (hkind ▸ not_comma)

theorem expressionLength_congr {vs : List Token} {previous' : Option Token} {stop' : Token}
    (h : expressionLength neverStops stop previous depth us = .ok us.length)
    (hkinds : us.map (·.kind) = vs.map (·.kind)) :
    expressionLength neverStops stop' previous' depth vs = .ok vs.length := by
  induction us generalizing depth previous previous' vs with
  | nil =>
    obtain rfl := List.map_eq_nil_iff.1 hkinds.symm
    rw [expressionLength] at h ⊢
    split at h
    · next hdepth => exact if_pos hdepth
    · cases h
  | cons u us ih =>
    obtain ⟨v, vs, rfl, hv, hvs⟩ := List.map_eq_cons_iff.1 hkinds.symm
    rcases expressionLength_cons h with ⟨hzero, -⟩ | ⟨m, d, hm, hpasses, hmore⟩
    · cases hzero
    · obtain rfl : us.length = m := Nat.succ.inj hm
      rw [(hpasses.congr hv.symm).expressionLength_eq, ih hmore hvs.symm]
      rfl

theorem IsExpression.congr {vs : List Token} (h : IsExpression us)
    (hkinds : us.map (·.kind) = vs.map (·.kind)) : IsExpression vs :=
  fun stop => expressionLength_congr (h stop) hkinds

/-- An expression is told by its text and the kinds of its tokens. -/
theorem expression_congr {ctx' : Context} {vs : List Token} (htext : ctx.textOf us = ctx'.textOf vs)
    (hkinds : us.map (·.kind) = vs.map (·.kind)) : ctx.expression us = ctx'.expression vs := by
  have hbare := Token.map_bare_eq hkinds
  rw [Context.expression, Context.expression, htext, ← literalOf?_bare us, hbare, literalOf?_bare,
    ← referencesOf_bare us, hbare, referencesOf_bare]

namespace Parser

variable {c n w close neg null : Token} {d : ColumnDraft} {e : Expression}

theorem run_expression_of_length {stops : StopRule} (hne : us ≠ [])
    (h : expressionLength stops ctx.stop none 0 (us ++ rest) = .ok us.length) :
    (expression stops).run ctx (us ++ rest) = .ok (ctx.expression us, rest) := by
  have htaken : (takeMeasured "unbalanced brackets in expression" fun ctx ts =>
      expressionLength stops ctx.stop none 0 ts).run ctx (us ++ rest) = .ok (us, rest) := by
    unfold run takeMeasured
    dsimp only
    rw [h]
    simp [take, Except.map]
  rw [expression, expressionTokens, run_bind, run_bind_of_ok htaken, if_neg (by simpa using hne)]
  rfl

theorem run_clauses_at_end (hclose : close.kind = .comma ∨ close.kind = .rightParen) :
    (clauses columnClause d).run ctx (close :: rest) = .ok (d, close :: rest) := by
  have hnone : (columnClause d close).run ctx rest = .ok (none, rest) := by
    unfold run columnClause
    rcases hclose with hk | hk <;> rw [hk] <;> rfl
  rw [run_clauses]
  dsimp only
  rw [hnone]
  rfl

theorem run_clauses_default (hw : w.kind = .keyword .DEFAULT)
    (h : (expression endsDefault).run ctx us = .ok (e, rest)) :
    (clauses columnClause d).run ctx (w :: us) =
      (clauses columnClause (d.modify fun c => { c with default := some e })).run ctx rest := by
  have hclause : (columnClause d w).run ctx us =
      .ok (some (d.modify fun c => { c with default := some e }), rest) := by
    unfold run columnClause
    rw [hw]
    exact run_bind_of_ok h
  rw [run_clauses]
  dsimp only
  rw [hclause]
  rfl

theorem run_clauses_notNull (hneg : neg.kind = .keyword .NOT) (hnull : null.kind = .keyword .NULL) :
    (clauses columnClause d).run ctx (neg :: null :: rest) =
      (clauses columnClause (d.setNullable false)).run ctx rest := by
  have hclause : (columnClause d neg).run ctx (null :: rest) =
      .ok (some (d.setNullable false), rest) := by
    unfold run columnClause
    rw [hneg]
    exact run_bind_of_ok (run_expectKeyword_of_eq hnull)
  rw [run_clauses]
  dsimp only
  rw [hclause]
  rfl

theorem run_typeRef_int (hn : n.kind = .identifier "int") (hw : w.kind = .keyword .DEFAULT) :
    typeRef.run ctx (n :: w :: rest) = .ok (.ofName "int", w :: rest) := by
  have hne {k : Kind} (hk : Kind.keyword .DEFAULT ≠ k) : (ctx.current (w :: rest)).kind ≠ k :=
    fun h => hk (hw.symm.trans h)
  have hword : (typeWord "").run ctx (n :: w :: rest) = .ok ("int", w :: rest) := by
    have hname : (ctx.current (n :: w :: rest)).name? = some "int" := by
      show n.kind.name? = _
      rw [hn]
      rfl
    rw [typeWord, run_bind_of_ok run_current, hname]
    rfl
  have hname : typeName.run ctx (n :: w :: rest) = .ok (.ofName "int", w :: rest) := by
    have hquoted : (ctx.current (n :: w :: rest)).word?.isNone = false := by
      show n.kind.word?.isNone = false
      rw [hn]
      rfl
    rw [typeName, run_bind_of_ok run_current, run_bind_of_ok hword, hquoted,
      run_choice_of_ne (hne (k := .dot) (by simp))]
    rfl
  have hmodifiers : (typeModifiers (.ofName "int")).run ctx (w :: rest) =
      .ok (.ofName "int", w :: rest) := run_choice_of_ne (hne (k := .leftParen) (by simp))
  have hdims : arrayDims.run ctx (w :: rest) = .ok ([], w :: rest) := by
    refine (run_choice_of_ne (hne (k := .keyword .ARRAY) (by simp))).trans ?_
    rw [arrayBounds, run_clauses]
    dsimp only
    rw [if_neg (by simp [hw])]
    rfl
  rw [typeRef, run_bind_of_ok hname, run_bind_of_ok hmodifiers]
  exact (run_bind_of_ok rfl).trans (run_bind_of_ok hdims)

def defaultColumn (e : Expression) (nullable : Bool) : Column :=
  { Column.named "c" (some (.ofName "int")) with default := some e, nullable := nullable }

theorem run_tableElement_column (hc : c.kind = .identifier "c") (hn : n.kind = .identifier "int")
    (hw : w.kind = .keyword .DEFAULT)
    (h : (clauses columnClause ⟨Column.named "c" (some (.ofName "int")), [], none⟩).run ctx
      (w :: us) = .ok (d, rest)) :
    tableElement.run ctx (c :: n :: w :: us) =
      .ok (([⟨d.column, ctx.locate c⟩], d.constraints), rest) := by
  have hname : name.run ctx (c :: n :: w :: us) = .ok ("c", n :: w :: us) :=
    run_name_of_some (by rw [Token.name?, hc]; rfl)
  have hdef : columnDef.run ctx (c :: n :: w :: us) =
      .ok ((⟨d.column, ctx.locate c⟩, d.constraints), rest) := by
    have hplace : location.run ctx (c :: n :: w :: us) = .ok (ctx.locate c, c :: n :: w :: us) := rfl
    rw [columnDef, run_bind_of_ok hplace, run_bind_of_ok hname,
      run_bind_of_ok (run_typeRef_int hn hw), run_bind_of_ok h]
    rfl
  have hstart : startsTableConstraint (ctx.current (c :: n :: w :: us)) = false := by
    show startsTableConstraint c = false
    rw [startsTableConstraint, hc]
  rw [tableElement, run_bind_of_ok run_current, hstart]
  exact run_bind_of_ok hdef

theorem run_tableElement_default (h : PlainDefault (us.map (·.kind))) (hus : IsExpression us)
    (hne : us ≠ []) (hc : c.kind = .identifier "c") (hn : n.kind = .identifier "int")
    (hw : w.kind = .keyword .DEFAULT) (hclose : close.kind = .comma ∨ close.kind = .rightParen) :
    tableElement.run ctx (c :: n :: w :: (us ++ close :: rest)) =
      .ok (([⟨defaultColumn (ctx.expression us) true, ctx.locate c⟩], []), close :: rest) := by
  have hlength : expressionLength endsDefault ctx.stop none 0 (us ++ close :: rest) =
      .ok us.length := by
    refine h.expressionLength_eq hus hne fun last _ => ?_
    unfold expressionLength
    rcases hclose with hk | hk <;> rw [hk]
  refine run_tableElement_column
    (d := ⟨defaultColumn (ctx.expression us) true, [], none⟩) hc hn hw ?_
  rw [run_clauses_default hw (run_expression_of_length hne hlength), run_clauses_at_end hclose]
  rfl

/-- A plain default is captured whole in front of `NOT NULL`, unless it ends in `IS`. -/
theorem run_tableElement_default_notNull (h : PlainDefault (us.map (·.kind))) (hus : IsExpression us)
    (hne : us ≠ []) (hc : c.kind = .identifier "c") (hn : n.kind = .identifier "int")
    (hw : w.kind = .keyword .DEFAULT) (hneg : neg.kind = .keyword .NOT)
    (hnull : null.kind = .keyword .NULL)
    (hclose : close.kind = .comma ∨ close.kind = .rightParen)
    (hlast : ∀ last ∈ us.getLast?, ∀ word ∈ last.word?, word ≠ "is" ∧ word ≠ "not") :
    tableElement.run ctx (c :: n :: w :: (us ++ neg :: null :: close :: rest)) =
      .ok (([⟨defaultColumn (ctx.expression us) false, ctx.locate c⟩], []), close :: rest) := by
  have hlength : expressionLength endsDefault ctx.stop none 0 (us ++ neg :: null :: close :: rest) =
      .ok us.length := by
    refine h.expressionLength_eq hus hne fun last hmem => ?_
    have hends : endsDefault (some last) neg null = true :=
      endsDefault_notNull hneg hnull (hlast last hmem)
    unfold expressionLength
    rw [hneg]
    exact if_pos hends
  refine run_tableElement_column
    (d := ⟨defaultColumn (ctx.expression us) false, [], none⟩) hc hn hw ?_
  rw [run_clauses_default hw (run_expression_of_length hne hlength), run_clauses_notNull hneg hnull,
    run_clauses_at_end hclose]
  rfl

end Parser

end Grammar

end DdlCatalog
