import DdlCatalog.Proofs.Grammar.Excerpt
import DdlCatalog.Proofs.Grammar.Reparse

/-! # What statements keep of their text
The expressions of a statement and the bodies between quotes are excerpts of its text. -/

namespace DdlCatalog

def Column.expressions (c : Column) : List Expression :=
  c.default.toList ++ (c.generated.map (·.expression)).toList

def Exclusion.expressions (e : Exclusion) : List Expression :=
  e.elements.map (·.expression) ++ e.predicate.toList

@[simp] def ConstraintDef.expressions : ConstraintDef → List Expression
  | .check e => [e]
  | .exclusion e => e.expressions
  | _ => []

namespace Statement

/-- Defaults of columns and parameters, generated columns, checks and exclusions. -/
def expressions : Statement → List Expression
  | .createTable s =>
    s.columns.flatMap (·.column.expressions) ++ s.constraints.flatMap (·.kind.expressions)
  | .createFunction s => s.parameters.filterMap (·.default)
  | .createProcedure s => s.parameters.filterMap (·.default)
  | _ => []

def keys : Statement → List Expression
  | .createIndex s => s.elements.map (·.expression)
  | _ => []

def predicate? : Statement → Option Expression
  | .createIndex s => s.predicate
  | _ => none

def body? : Statement → Option RoutineBody
  | .createFunction s => some s.body
  | .createProcedure s => some s.body
  | _ => none

end Statement

def RoutineBody.kind? (b : RoutineBody) : Option Token.Kind :=
  match b.kind with
  | .dollarQuoted tag => some (.dollarQuoted tag b.text)
  | .stringLiteral => some (.string b.text)
  | .sqlStandard => none

namespace Grammar

/-- A body between quotes is a token of the statement. -/
def Quoted (ctx : Context) (b : RoutineBody) : Prop :=
  ∀ kind ∈ b.kind?, ∃ t ∈ ctx.tokens, t.kind = kind ∧ b.source = ctx.textOf [t]

/-- The expressions and bodies of a statement are excerpts. -/
structure Excerpts (ctx : Context) (s : Statement) : Prop where
  expressions : ∀ e ∈ s.expressions, Drawn ctx e
  keys : ∀ e ∈ s.keys, ∃ us, (Captured ctx us ∨ Called ctx us) ∧ e = ctx.expression us
  predicate : ∀ e ∈ s.predicate?, ∃ us, Captured ctx us ∧ e = ctx.expression (unwrap us)
  body : ∀ b ∈ s.body?, Quoted ctx b

variable {ctx : Context}

namespace Parser

def ColumnsDrawn (ctx : Context) (columns : List Column) : Prop :=
  ∀ c ∈ columns, ∀ e ∈ c.expressions, Drawn ctx e

def ConstraintsDrawn (ctx : Context) (constraints : List TableConstraint) : Prop :=
  ∀ k ∈ constraints, ∀ e ∈ k.kind.expressions, Drawn ctx e

/-- What a column and its constraints are made of while its clauses are read. -/
structure DraftDrawn (ctx : Context) (d : ColumnDraft) : Prop where
  column : ∀ e ∈ d.column.expressions, Drawn ctx e
  constraints : ConstraintsDrawn ctx d.constraints

namespace DraftDrawn

variable {d : ColumnDraft}

theorem of_column (h : DraftDrawn ctx d) {d' : ColumnDraft}
    (hcolumn : ∀ e ∈ d'.column.expressions, Drawn ctx e) (hconstraints : d'.constraints = d.constraints) :
    DraftDrawn ctx d' :=
  ⟨hcolumn, hconstraints ▸ h.constraints⟩

theorem constrain (h : DraftDrawn ctx d) (kind : ConstraintDef)
    (hkind : ∀ e ∈ kind.expressions, Drawn ctx e) (l : Text.Location) :
    DraftDrawn ctx (d.constrain kind l) := by
  refine ⟨h.column, fun k hk => ?_⟩
  rcases List.mem_append.1 hk with hk | hk
  · exact h.constraints k hk
  · rw [List.mem_singleton.1 hk]
    exact hkind

end DraftDrawn

theorem mem_expressions {c : Column} {e : Expression} : e ∈ c.expressions ↔
    c.default = some e ∨ ∃ g, c.generated = some g ∧ g.expression = e := by
  simp [Column.expressions]

theorem draws_generated (hstop : ctx.stop.kind = .eof) {c : Column}
    (hc : ∀ e ∈ c.expressions, Drawn ctx e) :
    YieldsOn (.within ctx) (generated c) fun c' => ∀ e ∈ c'.expressions, Drawn ctx e := by
  unfold generated
  refine yields_next fun kind => yields_next fun _ => yields_next fun identity => ?_
  refine yields_ite (yields_next fun _ => yields_pure hc) (yields_ite yields_error ?_)
  refine yields_bind (yields_groupedExpression hstop) fun e he => ?_
  refine yields_next fun storage => yields_pure fun e' he' => ?_
  rcases mem_expressions.1 he' with hdefault | ⟨g, ⟨⟩, rfl⟩
  · exact hc e' (mem_expressions.2 (.inl hdefault))
  · exact he

theorem draws_columnClause (hstop : ctx.stop.kind = .eof) {d : ColumnDraft} (h : DraftDrawn ctx d)
    (word : Token) :
    YieldsOn (.within ctx) (columnClause d word) fun o => ∀ d' ∈ o, DraftDrawn ctx d' := by
  intro c ts hts o
  unfold columnClause
  dsimp only
  generalize c.locate word = l
  refine (?_ : YieldsOn (.within ctx) _ fun o => ∀ d' ∈ o, DraftDrawn ctx d') c ts hts o
  split
  · exact yields_none
  · exact yields_none
  · exact yields_none
  · exact yields_next fun _ => yields_some (h.of_column h.column rfl)
  · exact yields_next fun _ => yields_some (h.of_column h.column rfl)
  · exact yields_some (h.of_column h.column rfl)
  · refine yields_bind (yields_expression stopsClear_endsDefault hstop) fun e he => ?_
    refine yields_some (h.of_column (fun e' he' => ?_) rfl)
    rcases mem_expressions.1 he' with ⟨⟨⟩⟩ | hgenerated
    · exact he
    · exact h.column e' (mem_expressions.2 (.inr hgenerated))
  · have hd : DraftDrawn ctx (d.modify Column.notNull) := h.of_column h.column rfl
    exact yields_next fun _ => yields_some (hd.constrain .primaryKey (by simp) l)
  · exact yields_next fun nulls => yields_some (h.constrain (.unique nulls) (by simp) l)
  · refine yields_bind (yields_groupedExpression hstop) fun e he => ?_
    exact yields_some (h.constrain (.check e) (by simpa using he) l)
  · exact yields_next fun r => yields_some (h.constrain (.foreignKey r) (by simp) l)
  · exact yields_bind (draws_generated hstop h.column) fun c hc =>
      yields_some (h.of_column hc rfl)
  · exact yields_next fun _ => yields_some (h.of_column h.column rfl)
  · exact yields_next fun _ => yields_some (h.of_column h.column rfl)
  · exact yields_errorAt

/-- What the columns and constraints of a table are made of. -/
def ElementDrawn (ctx : Context) (e : TableElement) : Prop :=
  ColumnsDrawn ctx (e.1.map (·.column)) ∧ ConstraintsDrawn ctx e.2

theorem draws_columnDef (hstop : ctx.stop.kind = .eof) :
    YieldsOn (.within ctx) columnDef fun e => ElementDrawn ctx ([e.1], e.2) := by
  unfold columnDef
  refine yields_next fun l => yields_next fun name => yields_next fun t => ?_
  have hstart : DraftDrawn ctx ⟨Column.named name (some t), [], none⟩ :=
    ⟨by simp [Column.expressions, Column.named], by simp [ConstraintsDrawn]⟩
  refine yields_bind (yields_clauses (fun d word h => draws_columnClause hstop h word) hstart) ?_
  exact fun d hd => yields_pure ⟨List.forall_mem_singleton.2 hd.column, hd.constraints⟩

theorem draws_exclusionElement (hstop : ctx.stop.kind = .eof) :
    YieldsOn (.within ctx) exclusionElement fun e => Drawn ctx e.expression := by
  unfold exclusionElement
  refine yields_bind (yields_expressionTokens stopsClear_with hstop) fun us hus => ?_
  refine yields_bind (yields_express us) fun e he => ?_
  exact yields_next fun _ => yields_next fun _ => yields_pure ⟨us, hus, he⟩

theorem draws_exclusion (hstop : ctx.stop.kind = .eof) :
    YieldsOn (.within ctx) exclusion fun e => ∀ x ∈ e.expressions, Drawn ctx x := by
  unfold exclusion
  refine yields_next fun method => yields_next fun _ => ?_
  refine yields_bind (yields_commaList (draws_exclusionElement hstop)) fun elements helements => ?_
  have hdone (predicate : Option Expression) (hpredicate : ∀ x ∈ predicate, Drawn ctx x) :
      YieldsOn (.within ctx) (pure (⟨method, elements, predicate⟩ : Exclusion))
        fun e => ∀ x ∈ e.expressions, Drawn ctx x := by
    refine yields_pure fun x hx => ?_
    rcases List.mem_append.1 hx with hx | hx
    · obtain ⟨element, helement, rfl⟩ := List.mem_map.1 hx
      exact helements element helement
    · exact hpredicate x (Option.mem_toList.1 hx)
  refine yields_next fun _ => yields_next fun present => yields_ite ?_ ?_
  · exact yields_bind (yields_map_some (yields_groupedExpression hstop)) hdone
  · exact yields_bind yields_none hdone

theorem draws_tableConstraint (hstop : ctx.stop.kind = .eof) :
    YieldsOn (.within ctx) tableConstraint fun k => ∀ e ∈ k.kind.expressions, Drawn ctx e := by
  have hkind : YieldsOn (.within ctx) tableConstraintKind
      fun r => ∀ e ∈ r.2.expressions, Drawn ctx e := by
    unfold tableConstraintKind
    refine yields_next fun primary => yields_ite ?_ (yields_next fun unique => yields_ite ?_
      (yields_next fun check => yields_ite ?_ (yields_next fun foreign => yields_ite ?_
        (yields_next fun exclude => yields_ite ?_ yields_expected))))
    · exact yields_next fun _ => yields_next fun _ => yields_pure (by simp)
    · exact yields_next fun _ => yields_next fun _ => yields_pure (by simp)
    · exact yields_bind (yields_groupedExpression hstop) fun e he => yields_pure (by simpa using he)
    · exact yields_next fun _ => yields_next fun _ => yields_next fun _ => yields_next fun _ =>
        yields_pure (by simp)
    · exact yields_bind (draws_exclusion hstop) fun e he => yields_pure (by simpa using he)
  exact yields_next fun _ => yields_next fun _ => yields_bind hkind fun r hr => yields_pure hr

theorem draws_tableElements (hstop : ctx.stop.kind = .eof) :
    YieldsOn (.within ctx) tableElements fun es => ∀ e ∈ es, ElementDrawn ctx e := by
  have helement : YieldsOn (.within ctx) tableElement (ElementDrawn ctx) := by
    refine yields_next fun t => yields_ite ?_ ?_
    · refine yields_bind (draws_tableConstraint hstop) fun k hk => yields_pure ⟨?_, ?_⟩
      · simp [ColumnsDrawn]
      · simpa [ConstraintsDrawn] using hk
    · exact yields_bind (draws_columnDef hstop) fun e he => yields_pure he
  have close (es : List TableElement) (hes : ∀ e ∈ es, ElementDrawn ctx e) :
      YieldsOn (.within ctx) (do expect .rightParen; return es) fun es => ∀ e ∈ es, ElementDrawn ctx e :=
    yields_next fun _ => yields_pure hes
  refine yields_next fun _ => yields_next fun atEnd => yields_ite ?_ ?_
  · exact yields_bind (yields_pure (by simp)) close
  · exact yields_bind (yields_commaList helement) close

theorem markKeys_expressions (columns : List ColumnDef) (ks : List TableConstraint) :
    (markKeys columns ks).map (·.column.expressions) = columns.map (·.column.expressions) :=
  foldl_markNotNull_map (fun _ _ => Relation.map_modifyFirst fun _ => rfl) _ columns

theorem draws_createTable (hstop : ctx.stop.kind = .eof) (temporary unlogged : Bool) :
    YieldsOn (.within ctx) (createTable temporary unlogged)
      fun s => ∀ e ∈ (Statement.createTable s).expressions, Drawn ctx e := by
  unfold createTable
  refine yields_next fun _ => yields_next fun optional => yields_next fun name => ?_
  refine yields_bind (draws_tableElements hstop) fun es hes => yields_next fun action => ?_
  dsimp only
  split
  · exact yields_errorAt
  · refine yields_pure fun e he => ?_
    rcases List.mem_append.1 he with hcolumn | hconstraint
    · rw [List.flatMap_def, markKeys_expressions, ← List.flatMap_def] at hcolumn
      simp only [List.mem_flatMap] at hcolumn
      obtain ⟨d, ⟨el, hel, hd⟩, hd'⟩ := hcolumn
      exact (hes el hel).1 _ (List.mem_map_of_mem hd) e hd'
    · simp only [List.flatMap_map, completeCheck_kind, List.mem_flatMap] at hconstraint
      obtain ⟨k, ⟨el, hel, hk⟩, hk'⟩ := hconstraint
      exact (hes el hel).2 k hk e hk'

theorem draws_parameterDefault (hstop : ctx.stop.kind = .eof) :
    YieldsOn (.within ctx) parameterDefault fun o => ∀ e ∈ o, Drawn ctx e := by
  have hexpression := yields_expression stopsClear_neverStops hstop
  refine yields_next fun keyword => yields_ite (yields_map_some hexpression) ?_
  exact yields_next fun sign => yields_ite (yields_map_some hexpression) yields_none

theorem draws_parameters (hstop : ctx.stop.kind = .eof) :
    YieldsOn (.within ctx) parameters fun ps => ∀ e ∈ ps.filterMap (·.default), Drawn ctx e := by
  have hparameter : YieldsOn (.within ctx) parameter fun p => ∀ e ∈ p.default, Drawn ctx e := by
    refine yields_next fun mode => yields_next fun t => ?_
    exact yields_bind (draws_parameterDefault hstop) fun o ho => yields_pure ho
  refine yields_next fun _ => yields_next fun none => yields_ite (yields_pure (by simp)) ?_
  refine yields_bind (yields_commaList hparameter) fun ps hps => ?_
  refine yields_next fun _ => yields_pure fun e he => ?_
  obtain ⟨p, hp, hdefault⟩ := List.mem_filterMap.1 he
  exact hps p hp e hdefault

theorem yields_quotedBody (hstop : ctx.stop.kind = .eof) :
    YieldsOn (.within ctx) quotedBody (Quoted ctx) := by
  rintro ctx ts ⟨rfl, hts⟩ o
  have hbody (kind : BodyKind) (text : String) {k : Token.Kind} (hk : (ctx.current ts).kind = k)
      (hne : k ≠ .eof) (hkind : ∀ source, RoutineBody.kind? ⟨kind, text, source⟩ = some k) :
      YieldsOn (.within ctx)
        (do
          advance
          if ← at? .comma then unsupported "AS 'object file', 'link symbol'"
          else return (⟨kind, text, ctx.textOf [ctx.current ts]⟩ : RoutineBody)) (Quoted ctx) := by
    refine yields_next fun _ => yields_next fun comma => yields_ite ?_ (yields_pure ?_)
    · exact yields_unsupported
    · intro kind' hkind'
      obtain rfl := Option.some.inj ((hkind _).symm.trans hkind')
      refine ⟨ctx.current ts, ?_, hk, rfl⟩
      cases ts with
      | nil => exact absurd (hk.symm.trans hstop) hne
      | cons t ts => exact hts.subset (List.mem_cons_self ..)
  unfold quotedBody
  dsimp only
  split
  · next tag text hk => exact hbody _ text hk (by simp) (fun _ => rfl) ctx ts ⟨rfl, hts⟩ o
  · next text hk => exact hbody _ text hk (by simp) (fun _ => rfl) ctx ts ⟨rfl, hts⟩ o
  · exact fun ho => nomatch ho

theorem yields_expressionBody (word : Token) :
    YieldsOn (.within ctx) (expressionBody word) (Quoted ctx) := by
  intro c ts hts o
  have hnone (source text : String) : Quoted ctx ⟨.sqlStandard, source, text⟩ := by
    simp [Quoted, RoutineBody.kind?]
  exact (yields_next fun taken => yields_pure (hnone _ _) : YieldsOn (.within ctx) _ (Quoted ctx))
    c ts hts o

theorem yields_withBody {d : RoutineDraft} {l : Text.Location} {p : Parser RoutineBody}
    (hp : YieldsOn (.within ctx) p (Quoted ctx)) :
    YieldsOn (.within ctx) (withBody d l p) fun o => ∀ d' ∈ o, ∀ b ∈ d'.body, Quoted ctx b := by
  refine yields_ite yields_errorAt (yields_bind hp fun b hb => yields_some ?_)
  simpa using hb

theorem yields_routineClause (hstop : ctx.stop.kind = .eof) {d : RoutineDraft}
    (h : ∀ b ∈ d.body, Quoted ctx b) (word : Token) :
    YieldsOn (.within ctx) (routineClause d word) fun o => ∀ d' ∈ o, ∀ b ∈ d'.body, Quoted ctx b := by
  intro c ts hts o
  unfold routineClause
  dsimp only
  generalize c.locate word = l
  refine (?_ : YieldsOn (.within ctx) _ fun o => ∀ d' ∈ o, ∀ b ∈ d'.body, Quoted ctx b) c ts hts o
  have hmodify (f : RoutineAttributes → RoutineAttributes) :
      YieldsOn (.within ctx) (pure (some (d.modify f)))
        fun o => ∀ d' ∈ o, ∀ b ∈ d'.body, Quoted ctx b := yields_some h
  split
  · exact yields_none
  · exact yields_next fun _ => hmodify _
  · exact hmodify _
  · exact hmodify _
  · exact hmodify _
  · exact hmodify _
  · exact yields_next fun _ => hmodify _
  · exact yields_next fun _ => yields_next fun _ => hmodify _
  · exact yields_next fun _ => hmodify _
  · exact hmodify _
  · exact yields_next fun _ => hmodify _
  · exact yields_next fun _ => hmodify _
  · exact yields_next fun _ => hmodify _
  · exact yields_next fun _ => hmodify _
  · exact yields_withBody (yields_quotedBody hstop)
  · exact yields_withBody (yields_expressionBody word)
  · exact yields_next fun _ => yields_ite yields_unsupported yields_errorAt
  · exact yields_unsupported
  · exact yields_errorAt

theorem yields_functionClause (hstop : ctx.stop.kind = .eof) {d : RoutineDraft}
    (h : ∀ b ∈ d.body, Quoted ctx b) (word : Token) :
    YieldsOn (.within ctx) (functionClause d word)
      fun o => ∀ d' ∈ o, ∀ b ∈ d'.body, Quoted ctx b := by
  intro c ts hts o
  unfold functionClause
  split
  · split
    · exact fun ho => nomatch ho
    · have hreturns : YieldsOn (.within ctx) (do return some { d with returns := some (← returns) })
          fun o => ∀ d' ∈ o, ∀ b ∈ d'.body, Quoted ctx b := yields_next fun r => yields_some h
      exact hreturns c ts hts o
  · exact yields_routineClause hstop h word c ts hts o

theorem yields_procedureClause (hstop : ctx.stop.kind = .eof) {d : RoutineDraft}
    (h : ∀ b ∈ d.body, Quoted ctx b) (word : Token) :
    YieldsOn (.within ctx) (procedureClause d word)
      fun o => ∀ d' ∈ o, ∀ b ∈ d'.body, Quoted ctx b := by
  intro c ts hts o
  unfold procedureClause
  split
  · exact fun ho => nomatch ho
  · exact yields_routineClause hstop h word c ts hts o

theorem draws_createFunction (hstop : ctx.stop.kind = .eof) (orReplace : Bool) :
    YieldsOn (.within ctx) (createFunction orReplace)
      fun s => (∀ e ∈ s.parameters.filterMap (·.default), Drawn ctx e) ∧ Quoted ctx s.body := by
  refine yields_next fun _ => yields_next fun name => ?_
  refine yields_bind (draws_parameters hstop) fun ps hps => ?_
  refine yields_bind (yields_clauses (fun d word h => yields_functionClause hstop h word)
    (by simp [RoutineDraft.empty])) fun d hd => ?_
  split
  · next body hbody => exact yields_pure ⟨hps, hd body hbody⟩
  · exact yields_error

theorem draws_createProcedure (hstop : ctx.stop.kind = .eof) (orReplace : Bool) :
    YieldsOn (.within ctx) (createProcedure orReplace)
      fun s => (∀ e ∈ s.parameters.filterMap (·.default), Drawn ctx e) ∧ Quoted ctx s.body := by
  refine yields_next fun _ => yields_next fun name => ?_
  refine yields_bind (draws_parameters hstop) fun ps hps => ?_
  refine yields_bind (yields_clauses (fun d word h => yields_procedureClause hstop h word)
    (by simp [RoutineDraft.empty])) fun d hd => ?_
  split
  · next body hbody => exact yields_pure ⟨hps, hd body hbody⟩
  · exact yields_error

theorem draws_indexElement (hstop : ctx.stop.kind = .eof) :
    YieldsOn (.within ctx) indexElement fun x =>
      ∃ us, (Captured ctx us ∨ Called ctx us) ∧ x.expression = ctx.expression us := by
  have hkey : YieldsOn (.within ctx) indexKey fun r =>
      ∃ us, (Captured ctx us ∨ Called ctx us) ∧ r.1 = ctx.expression us := by
    refine yields_next fun grouped => yields_ite ?_ (yields_next fun next => yields_ite ?_ ?_)
    · refine yields_bind (yields_groupedExpression hstop) fun e he => yields_pure ?_
      obtain ⟨us, hus, he⟩ := he
      exact ⟨us, .inl hus, he⟩
    · refine yields_bind (yields_callTokens hstop) fun us hus => ?_
      exact yields_bind (yields_express us) fun e he => yields_pure ⟨us, .inr hus, he⟩
    · refine yields_bind (yields_takingName hstop) fun r hr => ?_
      exact yields_bind (yields_express r.1) fun e he => yields_pure ⟨r.1, .inl hr, he⟩
  refine yields_bind hkey fun r hr => ?_
  exact yields_next fun _ => yields_next fun _ => yields_next fun _ => yields_next fun _ => yields_pure hr

theorem draws_createIndex (hstop : ctx.stop.kind = .eof) (unique : Bool) :
    YieldsOn (.within ctx) (createIndex unique) fun s => Excerpts ctx (.createIndex s) := by
  unfold createIndex
  refine yields_next fun _ => yields_next fun concurrently => yields_next fun optional => ?_
  refine yields_next fun name => yields_next fun _ => yields_next fun only => ?_
  refine yields_next fun table => yields_next fun method => yields_next fun _ => ?_
  refine yields_bind (yields_commaList (draws_indexElement hstop)) fun elements helements => ?_
  have hdone (included : List String) (nulls : Bool) (o : Option Expression)
      (ho : ∀ e ∈ o, ∃ us, Captured ctx us ∧ e = ctx.expression (unwrap us)) :
      YieldsOn (.within ctx) (Pure.pure (⟨name, optional, unique, concurrently, only, table, method,
        elements, included, nulls, o⟩ : CreateIndex)) fun s => Excerpts ctx (.createIndex s) := by
    refine yields_pure ⟨nofun, fun e he => ?_, ho, nofun⟩
    obtain ⟨x, hx, rfl⟩ := List.mem_map.1 he
    exact helements x hx
  have hpredicate (included : List String) (nulls : Bool) : YieldsOn (.within ctx) (do
      let predicate ← if ← acceptKeyword .WHERE then some <$> predicate else pure none
      return ⟨name, optional, unique, concurrently, only, table, method, elements, included, nulls,
        predicate⟩) fun s => Excerpts ctx (.createIndex s) := by
    refine yields_next fun present => yields_ite ?_ ?_
    · exact yields_bind (yields_map_some (yields_predicate hstop)) (hdone included nulls)
    · exact yields_bind yields_none (hdone included nulls)
  refine yields_next fun _ => yields_next fun including => yields_ite ?_ ?_
  · exact yields_next fun included => yields_next fun nulls => hpredicate included nulls
  · exact yields_next fun included => yields_next fun nulls => hpredicate included nulls

/-- Statements of other kinds keep no expressions. -/
theorem excerpts_of_nothing {s : Statement} (hexpressions : s.expressions = []) (hkeys : s.keys = [])
    (hpredicate : s.predicate? = none) (hbody : s.body? = none) : Excerpts ctx s :=
  ⟨by simp [hexpressions], by simp [hkeys], by simp [hpredicate], by simp [hbody]⟩

theorem draws_created (hstop : ctx.stop.kind = .eof) (m : Modifiers) :
    YieldsOn (.within ctx) (created m) (Excerpts ctx) := by
  have hother {α : Type} (p : Parser α) (make : α → Statement)
      (hmake : ∀ a, Excerpts ctx (make a)) :
      YieldsOn (.within ctx) (do return make (← p)) (Excerpts ctx) :=
    yields_next fun a => yields_pure (hmake a)
  unfold created
  refine yields_next fun t => ?_
  cases t.kind with
  | keyword k =>
    cases k with
    | SCHEMA =>
      exact yields_unlessModified (hother _ _ fun _ => excerpts_of_nothing rfl rfl rfl rfl)
    | TYPE => exact yields_unlessModified (hother _ _ fun _ => excerpts_of_nothing rfl rfl rfl rfl)
    | TABLE =>
      refine yields_unlessModified (yields_unlessModified ?_)
      refine yields_bind (draws_createTable hstop m.temporary m.unlogged) fun s hs => ?_
      exact yields_pure ⟨hs, nofun, nofun, nofun⟩
    | VIEW | MATERIALIZED | RECURSIVE =>
      exact yields_unlessModified (hother _ _ fun _ => excerpts_of_nothing rfl rfl rfl rfl)
    | INDEX =>
      exact yields_unlessModified (yields_bind (draws_createIndex hstop _) fun s hs => yields_pure hs)
    | FUNCTION =>
      refine yields_unlessModified (yields_bind (draws_createFunction hstop _) fun s hs => ?_)
      exact yields_pure ⟨hs.1, nofun, nofun, fun b hb => Option.some.inj hb ▸ hs.2⟩
    | PROCEDURE =>
      refine yields_unlessModified (yields_bind (draws_createProcedure hstop _) fun s hs => ?_)
      exact yields_pure ⟨hs.1, nofun, nofun, fun b hb => Option.some.inj hb ▸ hs.2⟩
    | _ => exact yields_unsupported
  | _ => exact yields_unsupported

theorem draws_statement (hstop : ctx.stop.kind = .eof) :
    YieldsOn (.within ctx) statement (Excerpts ctx) := by
  have hany : YieldsOn (.within ctx) anyStatement (Excerpts ctx) := by
    unfold anyStatement
    refine yields_next fun t => ?_
    cases t.kind with
    | keyword k =>
      cases k with
      | CREATE => exact yields_next fun _ => yields_next fun m => draws_created hstop m
      | PREPARE => exact yields_next fun _ => yields_pure (excerpts_of_nothing rfl rfl rfl rfl)
      | _ => exact yields_unsupported
    | _ => exact yields_unsupported
  refine yields_bind hany fun s hs => yields_next fun atEnd => yields_ite (yields_pure hs) ?_
  exact yields_next fun _ => yields_error

end Parser

/-- The tokens of a statement stand in a row in their text, and behind them one that ends it. -/
structure Context.InText (ctx : Context) : Prop where
  tokens : ∃ before stop after,
    Token.tokenize ctx.source ctx.text = .ok (before ++ ctx.tokens ++ stop :: after) ∧
      stop.kind.startsClear = true
  stop : ctx.stop.kind = .eof

/-- What is read of a text are statements that keep excerpts of it. -/
theorem exists_excerpts {source text : String} {statements : List ParsedStatement}
    (h : parseSource source text = .ok statements) {p : ParsedStatement} (hp : p ∈ statements) :
    ∃ ctx : Context, ctx.InText ∧ Excerpts ctx p.statement := by
  obtain ⟨raws, hraws, hs⟩ := parseSource_eq_ok_iff.1 h
  obtain ⟨raw, hmem, hraw⟩ := exists_of_mem_forall₂ hs hp
  obtain ⟨before, stop, after, htokens, -, hstop⟩ := exists_stop_of_splitText hraws hmem
  refine ⟨⟨source, text.toList, raw.tokens, raw.stop⟩,
    ⟨⟨before, stop, after, htokens, hstop.startsClear⟩, hstop.kind_stop⟩, ?_⟩
  rw [parseRaw_eq hstop.kind_stop] at hraw
  generalize hrun : Parser.statement.run _ raw.tokens = x at hraw
  cases x with
  | error e => cases hraw
  | ok o =>
    cases hraw
    exact (Parser.draws_statement hstop.kind_stop).of_run hrun List.suffix_rfl

/-- The text of an excerpt has the same tokens. -/
theorem Excerpt.exists_part {ctx : Context} {us : List Token} (h : Excerpt ctx us)
    (hctx : ctx.InText) :
    ∃ front part back us', Token.Part ctx.text us front part back us' ∧
      ctx.textOf us = String.ofList part := by
  obtain ⟨outer, stop, more, htokens, hclear⟩ := hctx.tokens
  obtain ⟨before, after, heq, hsevers⟩ := h.place
  -- at the end of the statement, what follows in the text is the token that ends it
  have hsevers' : ∃ stop' more', after ++ stop :: more = stop' :: more' ∧ Token.Severs us stop' := by
    cases after with
    | nil =>
      refine ⟨stop, more, rfl, ?_⟩
      cases hsevers with
      | single length_eq => exact .single length_eq
      | closed getLast_eq kind => exact .closed getLast_eq kind
      | clear => exact .clear hclear
    | cons t after => exact ⟨t, after ++ stop :: more, rfl, hsevers⟩
  obtain ⟨stop', more', hmore, hsevers'⟩ := hsevers'
  have hrow : outer ++ ctx.tokens ++ stop :: more = (outer ++ before) ++ us ++ stop' :: more' := by
    rw [heq, ← hmore]
    simp
  rw [hrow] at htokens
  obtain ⟨front, part, back, us', hpart⟩ :=
    Token.exists_part (Token.tokens_of_tokenize htokens) h.ne_nil hsevers'
  refine ⟨front, part, back, us', hpart, ?_⟩
  have hfirst := List.head?_eq_some_head h.ne_nil
  have hlast := List.getLast?_eq_some_getLast h.ne_nil
  unfold Context.textOf
  rw [hfirst, hlast]
  dsimp only
  rw [hpart.start_eq _ hfirst, hpart.stop_eq _ hlast, hpart.text_eq, Text.slice?_middle]
  rfl

end Grammar

end DdlCatalog
