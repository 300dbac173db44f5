import DdlCatalog.Grammar.Statement
import DdlCatalog.Proofs.Grammar.Agree

/-! # Parsers without locations
Most parsers give the same value for a statement inside of a text and by itself. They are made of
parsers that do and of functions of tokens that do not look at their places. -/

namespace DdlCatalog.Grammar

variable {C : Cut} {α : Type}

/-! ## Lengths -/

namespace Cut

variable {ts us : List Token} {t u : Token}

/-- The length of a group is measured by the kinds of its tokens. -/
theorem Rows.groupLength (h : C.Rows ts us) (depth : Nat) :
    C.Measures (Parser.groupLength C.whole.stop depth ts)
      (Parser.groupLength C.part.stop depth us) := by
  induction h generalizing depth with
  | nil => exact .error .stop
  | @cons t u ts us h _ ih =>
    unfold Parser.groupLength
    rw [h.kind]
    split
    · exact .error (.token h)
    · exact (ih _).map _
    · cases depth with
      | zero => exact .ok 1
      | succ depth => exact (ih depth).map _
    · exact (ih depth).map _

/-- So is the length of an expression. -/
theorem Rows.expressionLength {stops : StopRule} (hstops : Placeless stops) (h : C.Rows ts us)
    {previous previous' : Option Token} (hprevious : previous.map Token.bare = previous'.map Token.bare)
    (depth : Nat) :
    C.Measures (Grammar.expressionLength stops C.whole.stop previous depth ts)
      (Grammar.expressionLength stops C.part.stop previous' depth us) := by
  induction h generalizing previous previous' depth with
  | nil =>
    cases depth with
    | zero => exact .ok 0
    | succ depth => exact .error .stop
  | @cons t u ts us h more ih =>
    have hnext : (ts.headD C.whole.stop).bare = (us.headD C.part.stop).bare :=
      Token.bare_eq (Rows.current more).kind
    have hstop : stops previous t (ts.headD C.whole.stop) =
        stops previous' u (us.headD C.part.stop) := by
      rw [← hstops, hprevious, Token.bare_eq h.kind, hnext, hstops]
    have hprevious : (some t).map Token.bare = (some u).map Token.bare :=
      congrArg some (Token.bare_eq h.kind)
    have hmore (depth : Nat) := (ih hprevious depth).map (· + 1)
    unfold Grammar.expressionLength
    dsimp only
    rw [h.kind, hstop]
    split <;> first | exact .ok 0 | exact hmore _ | exact .error (.token h) | skip
    split
    · exact .ok 0
    · exact hmore 0

end Cut

namespace Parser

open Cut

/-! ## Names and literals -/

instance stable_name : C.Stable name := by
  refine stable_front (fun _ => rfl) fun t => ?_
  split <;> infer_instance

instance stable_objectName : C.Stable objectName := by
  unfold objectName
  infer_instance

instance stable_nameList : C.Stable nameList := by
  unfold nameList
  infer_instance

instance stable_string : C.Stable string := by
  refine stable_front (fun _ => rfl) fun t => ?_
  split <;> infer_instance

instance stable_number : C.Stable number := by
  refine stable_front (fun _ => rfl) fun t => ?_
  split <;> infer_instance

instance stable_ifNotExists : C.Stable ifNotExists := by
  unfold ifNotExists
  infer_instance

instance stable_nullsNotDistinct : C.Stable nullsNotDistinct := by
  unfold nullsNotDistinct
  infer_instance

instance stable_group : C.Stable group := by
  refine ⟨agree_after (expect .leftParen) fun _ => ?_⟩
  exact agree_bind (agree_takeMeasured fun _ _ hts => hts.groupLength 0) fun _ _ _ => agree_pure rfl

/-! ## Types -/

instance stable_smallNumber (what : String) : C.Stable (smallNumber what) := by
  refine stable_front (fun _ => rfl) fun t => ?_
  split <;> infer_instance

instance stable_typeWord (after : String) : C.Stable (typeWord after) := by
  refine stable_front (fun _ => rfl) fun t => ?_
  split <;> infer_instance

instance stable_secondWord (first : String) : C.Stable (secondWord first) := by
  unfold secondWord
  infer_instance

instance stable_typeName : C.Stable typeName := by
  exact stable_front (fun _ => rfl) inferInstance

instance stable_typeModifiers (t : TypeRef) : C.Stable (typeModifiers t) := by
  unfold typeModifiers
  dsimp only
  infer_instance

/-- A zone clause is recognised by the kinds of three tokens. -/
instance stable_zoneClause : C.Stable zoneClause := by
  refine ⟨fun ts us hts => ?_⟩
  have hkeep {ts us : List Token} (h : C.Rows ts us) :
      C.Matches Eq (.ok ((none : Option String), ts)) (.ok (none, us)) := .ok rfl h
  have htake (zone : String) : C.Agree Eq (do let _ ← take 3; return some zone)
      (do let _ ← take 3; return some zone) :=
    agree_bind (agree_take 3) fun _ _ _ => agree_pure rfl
  cases hts with
  | nil => exact hkeep .nil
  | cons ha hts =>
    cases hts with
    | nil => exact hkeep (.cons ha .nil)
    | cons hb hts =>
      cases hts with
      | nil => exact hkeep (.cons ha (.cons hb .nil))
      | cons hc hts =>
        have hall := List.Forall₂.cons ha (.cons hb (.cons hc hts))
        unfold run zoneClause
        simp only [ha.isKeyword, hb.isKeyword, hc.isKeyword]
        split_ifs
        · exact htake _ hall
        · exact htake _ hall
        · exact hkeep hall
        · exact hkeep hall

instance stable_typeZone (t : TypeRef) : C.Stable (typeZone t) := by
  unfold typeZone
  have hzone (zone : Option String) : C.Stable (match zone with
      | some zone => (do return { t with name := t.name ++ " " ++ zone } : Parser TypeRef)
      | none => return t) := by
    split <;> infer_instance
  infer_instance

instance stable_arrayBound : C.Stable arrayBound := by
  unfold arrayBound
  dsimp only
  infer_instance

instance stable_arrayBounds : C.Stable arrayBounds := by
  refine stable_clauses (fun dims t u h => ?_) []
  rw [h.kind]
  exact Stable.agree

instance stable_arrayDims : C.Stable arrayDims := by
  unfold arrayDims
  infer_instance

instance stable_typeRef : C.Stable typeRef := by
  unfold typeRef
  infer_instance

/-! ## Enums -/

instance stable_enumLabel : C.Stable enumLabel := by
  refine stable_front (fun _ => rfl) fun t => ?_
  split <;> infer_instance

instance stable_enumLabels : C.Stable enumLabels := by
  unfold enumLabels
  infer_instance

instance stable_enumOption : C.Stable enumOption := by
  unfold enumOption
  infer_instance

instance stable_enumPragma : C.Stable enumPragma := by
  unfold enumPragma
  infer_instance

instance stable_createEnum : C.Stable createEnum := by
  unfold createEnum
  refine ⟨agree_after _ fun _ => agree_after _ fun name => agree_after _ fun _ =>
    agree_after _ fun enum => ?_⟩
  split
  · refine agree_after _ fun labels => agree_location fun l l' h => agree_after _ fun pragma => ?_
    split
    · exact agree_errorAt h ..
    · exact agree_pure rfl
  · exact (stable_front (fun _ => rfl) inferInstance).agree

end Parser

/-! ## Expressions -/

namespace Cut

variable {ts us : List Token}

theorem Rows.expression (h : C.Rows ts us) : C.whole.expression ts = C.part.expression us := by
  rw [Context.expression, h.textOf, h.read literalOf?_bare, h.read referencesOf_bare,
    Context.expression]

theorem Rows.unwrap (h : C.Rows ts us) : C.Rows (unwrap ts) (unwrap us) := by
  cases h with
  | nil => exact .nil
  | @cons t u ts us htu more =>
    have hcloses : closesLast 0 ts = closesLast 0 us := Rows.read more (closesLast_bare 0)
    unfold Grammar.unwrap
    simp only [htu.kind, hcloses, List.length_cons, more.length_eq]
    split
    · rw [List.dropLast_eq_take, List.dropLast_eq_take, more.length_eq]
      exact Rows.take more _
    · exact .cons htu more

/-- A placeholder with its token in both texts. -/
def Holds (C : Cut) (p p' : Token × Placeholder) : Prop := C.Moves p.1 p'.1 ∧ p.2 = p'.2

theorem Rows.placeholders (h : C.Rows ts us) :
    List.Forall₂ C.Holds (placeholders ts) (placeholders us) := by
  induction h with
  | nil => exact .nil
  | @cons t u ts us h _ ih =>
    have hplaceholder : Placeholder.ofToken? t = Placeholder.ofToken? u := by
      rw [Placeholder.ofToken?, h.kind, Placeholder.ofToken?]
    unfold Grammar.placeholders at ih ⊢
    rw [List.filterMap_cons, List.filterMap_cons, hplaceholder]
    cases Placeholder.ofToken? u with
    | none => exact ih
    | some p => exact .cons ⟨h, rfl⟩ ih

theorem rel_strayPlaceholder? {found found' : List (Token × Placeholder)}
    (h : List.Forall₂ C.Holds found found') :
    Option.Rel C.Moves (strayPlaceholder? found) (strayPlaceholder? found') := by
  cases h with
  | nil => exact .none
  | @cons first first' found found' hfirst hmore =>
    unfold strayPlaceholder?
    dsimp only
    rw [← hfirst.2]
    induction hmore with
    | nil => exact .none
    | @cons p p' found found' hp _ ih =>
      rw [List.find?_cons, List.find?_cons, ← hp.2]
      split
      · exact .some hp.1
      · exact ih

end Cut

namespace Parser

open Cut

theorem agree_express {ts us : List Token} (h : C.Rows ts us) : C.Agree Eq (express ts) (express us) :=
  fun _ _ hts => .ok h.expression hts

theorem agree_expressionTokens {stops : StopRule} (hstops : Placeless stops) :
    C.Agree C.Rows (expressionTokens stops) (expressionTokens stops) := by
  refine agree_bind (agree_takeMeasured fun _ _ hts => hts.expressionLength hstops rfl 0) ?_
  intro ts us hts
  cases hts with
  | nil => exact agree_expected ..
  | cons h more => exact agree_pure (.cons h more)

theorem stable_expression {stops : StopRule} (hstops : Placeless stops) :
    C.Stable (expression stops) :=
  ⟨agree_bind (agree_expressionTokens hstops) fun _ _ => agree_express⟩

instance stable_wholeExpression : C.Stable (expression neverStops) :=
  stable_expression placeless_neverStops

instance stable_default : C.Stable (expression endsDefault) :=
  stable_expression placeless_endsDefault

instance stable_groupedExpression : C.Stable groupedExpression := by
  unfold groupedExpression
  infer_instance

instance stable_predicate : C.Stable predicate :=
  ⟨agree_bind (agree_expressionTokens placeless_neverStops) fun _ _ h => agree_express h.unwrap⟩

/-! ## Constraints -/

instance stable_referentialAction : C.Stable referentialAction := by
  unfold referentialAction
  infer_instance

instance stable_matchType : C.Stable matchType := by
  unfold matchType
  infer_instance

instance stable_referenceOption : C.Stable referenceOption :=
  stable_front (fun _ => rfl) inferInstance

theorem stable_referenceClause (r : Reference) (word : Token) :
    C.Stable (referenceClause r word) := by
  unfold referenceClause
  split <;> infer_instance

instance stable_reference : C.Stable reference := by
  unfold reference
  have hclauses (r : Reference) : C.Stable (clauses referenceClause r) := by
    refine stable_clauses (fun r t u h => ?_) r
    rw [referenceClause, h.kind]
    exact (stable_referenceClause r u).agree
  dsimp only
  infer_instance

instance stable_operatorName : C.Stable operatorName := by
  refine stable_front (fun _ => rfl) fun t => ?_
  split <;> infer_instance

instance stable_exclusionElement : C.Stable exclusionElement := by
  unfold exclusionElement
  refine ⟨agree_bind (agree_expressionTokens fun _ _ _ => rfl) fun ts us h => ?_⟩
  rw [h.read columnOf?_bare]
  exact agree_bind (agree_express h) fun _ _ he => he ▸ Stable.agree

instance stable_accessMethod : C.Stable accessMethod := by
  unfold accessMethod
  infer_instance

instance stable_exclusion : C.Stable exclusion := by
  unfold exclusion
  dsimp only
  infer_instance

instance stable_constraintName : C.Stable constraintName := by
  unfold constraintName
  infer_instance

instance stable_tableConstraintKind : C.Stable tableConstraintKind := by
  unfold tableConstraintKind
  infer_instance

/-! ## Indexes -/

theorem agree_callTokens : C.Agree C.Rows callTokens callTokens := by
  unfold callTokens
  dsimp only
  exact agree_bind (agree_taking _) fun _ _ h => agree_pure h.1

instance stable_indexKey : C.Stable indexKey := by
  unfold indexKey
  refine ⟨agree_after _ fun grouped => ?_⟩
  split
  · exact Stable.agree
  · refine agree_bind agree_following fun t u h => ?_
    dsimp only
    rw [h.kind]
    split
    · refine agree_bind agree_callTokens fun ts us h => ?_
      exact agree_bind (agree_express h) fun _ _ he => agree_pure (by rw [he])
    · refine agree_bind (agree_taking name) fun a b h => ?_
      exact agree_bind (agree_express h.1) fun _ _ he => agree_pure (by rw [he, h.2])

instance stable_collation : C.Stable collation := by
  unfold collation
  infer_instance

instance stable_operatorClass : C.Stable operatorClass := by
  refine stable_front (fun _ => rfl) fun t => ?_
  split <;> infer_instance

instance stable_sortOrder : C.Stable sortOrder := by
  unfold sortOrder
  infer_instance

instance stable_nullsOrder : C.Stable nullsOrder := by
  unfold nullsOrder
  infer_instance

instance stable_indexElement : C.Stable indexElement := by
  unfold indexElement
  infer_instance

instance stable_indexName (exists? : Bool) : C.Stable (indexName exists?) := by
  unfold indexName
  infer_instance

instance stable_createIndex (unique : Bool) : C.Stable (createIndex unique) := by
  unfold createIndex
  refine ⟨agree_after _ fun _ => agree_after _ fun concurrently => agree_after _ fun exists? =>
    agree_after _ fun name => agree_after _ fun _ => agree_after _ fun only =>
    agree_after _ fun table => agree_after _ fun method => agree_after _ fun _ =>
    agree_after _ fun elements => agree_after _ fun _ => Stable.agree⟩

/-! ## Views -/

instance stable_viewQuery : C.Stable viewQuery := by
  refine ⟨fun ts us hts => ?_⟩
  have hselected : selectColumns (ts ++ [C.whole.stop]) = selectColumns (us ++ [C.part.stop]) := by
    rw [← selectColumns_bare, hts.map_bare_stop, selectColumns_bare]
  refine agree_bind agree_toEnd (fun taken taken' h => ?_) hts
  rw [hselected, h.textOf]
  cases h with
  | nil => exact agree_error ..
  | cons => exact agree_pure rfl

instance stable_createView (orReplace temporary : Bool) :
    C.Stable (createView orReplace temporary) := by
  unfold createView
  refine ⟨agree_after _ fun materialized => ?_⟩
  dsimp only
  split <;>
    exact agree_after _ fun recursive => agree_after _ fun _ => agree_after _ fun exists? =>
      agree_after _ fun name => Stable.agree

/-! ## Prepared statements -/

instance stable_parameterTypes : C.Stable parameterTypes := by
  unfold parameterTypes
  infer_instance

instance stable_preparedQuery (name : ObjectName) : C.Stable (preparedQuery name) := by
  refine ⟨fun ts us hts => agree_bind agree_toEnd (fun taken taken' h => ?_) hts⟩
  have hfound := Rows.placeholders h
  have hstray := rel_strayPlaceholder? hfound
  have hkinds : (placeholders taken).map Prod.snd = (placeholders taken').map Prod.snd := by
    rw [← List.forall₂_eq_eq_eq, List.forall₂_map_left_iff, List.forall₂_map_right_iff]
    exact hfound.imp fun _ _ hp => hp.2
  have hempty : taken.isEmpty = taken'.isEmpty := by cases h <;> rfl
  rw [hempty]
  split
  · exact agree_error ..
  · dsimp only
    rw [hkinds, h.textOf]
    generalize strayPlaceholder? (placeholders taken) = stray,
      strayPlaceholder? (placeholders taken') = stray' at hstray ⊢
    cases hstray with
    | none => exact agree_pure rfl
    | some hmoves => exact agree_errorAt hmoves.faces ..

instance stable_prepare : C.Stable prepare := by
  unfold prepare
  infer_instance

/-! ## Functions and procedures -/

instance stable_parameterMode : C.Stable parameterMode := by
  unfold parameterMode
  infer_instance

instance stable_parameterType : C.Stable parameterType := by
  unfold parameterType
  have htype : C.Stable (onlyBefore typeRef endsParameter) := stable_onlyBefore _ fun _ => rfl
  refine ⟨agree_after _ fun t => ?_⟩
  cases t with
  | none => exact Stable.agree
  | some t => exact Stable.agree

instance stable_parameterDefault : C.Stable parameterDefault := by
  unfold parameterDefault
  infer_instance

instance stable_parameter : C.Stable parameter := by
  unfold parameter
  infer_instance

instance stable_parameters : C.Stable parameters := by
  unfold parameters
  infer_instance

instance stable_resultColumn : C.Stable resultColumn := by
  unfold resultColumn
  infer_instance

instance stable_returns : C.Stable returns := by
  unfold returns
  infer_instance

instance stable_language : C.Stable language := by
  refine stable_front (fun _ => rfl) fun t => ?_
  split <;> infer_instance

instance stable_onNullInput : C.Stable onNullInput := by
  unfold onNullInput
  infer_instance

instance stable_securityDefiner : C.Stable securityDefiner := by
  unfold securityDefiner
  infer_instance

instance stable_quotedBody : C.Stable quotedBody := by
  refine ⟨fun ts us hts => ?_⟩
  have hkind := hts.current.kind
  have body (kind : BodyKind) (text : String) (hne : (C.whole.current ts).kind ≠ .eof) :
      C.Agree Eq
        (do
          advance
          if ← at? .comma then unsupported "AS 'object file', 'link symbol'"
          else return (⟨kind, text, C.whole.textOf [C.whole.current ts]⟩ : RoutineBody))
        (do
          advance
          if ← at? .comma then unsupported "AS 'object file', 'link symbol'"
          else return ⟨kind, text, C.part.textOf [C.part.current us]⟩) := by
    have htext : C.whole.textOf [C.whole.current ts] = C.part.textOf [C.part.current us] :=
      Rows.textOf (.cons (hts.current.moves hne) .nil)
    rw [htext]
    exact Stable.agree
  unfold run quotedBody
  dsimp only
  cases hk : (C.part.current us).kind with
  | dollarQuoted tag text =>
    rw [hk] at hkind
    rw [hkind]
    exact body (.dollarQuoted tag) text (by rw [hkind]; nofun) hts
  | string text =>
    rw [hk] at hkind
    rw [hkind]
    exact body .stringLiteral text (by rw [hkind]; nofun) hts
  | _ =>
    rw [hk] at hkind
    rw [hkind]
    exact agree_expected _ _ hts

theorem agree_expressionBody {t u : Token} (h : C.Moves t u) :
    C.Agree Eq (expressionBody t) (expressionBody u) := by
  refine fun ts us hts => agree_bind (agree_expressionTokens placeless_neverStops)
    (fun taken taken' htaken => ?_) hts
  rw [htaken.textOf, Rows.textOf (.cons h htaken)]
  exact agree_pure rfl

theorem agree_withBody (d : RoutineDraft) {l l' : Text.Location} (hl : C.Faces l l')
    {p q : Parser RoutineBody} (h : C.Agree Eq p q) :
    C.Agree Eq (withBody d l p) (withBody d l' q) := by
  unfold withBody
  split
  · exact agree_errorAt hl ..
  · exact agree_bind h fun _ _ hb => agree_pure (by rw [hb])

theorem agree_routineClause (d : RoutineDraft) {t u : Token} (h : C.Moves t u) :
    C.Agree Eq (routineClause d t) (routineClause d u) := by
  intro ts us hts
  unfold run routineClause
  dsimp only
  have hl := h.faces
  generalize C.whole.locate t = l, C.part.locate u = l' at hl ⊢
  rw [h.kind]
  refine (?_ : C.Agree Eq _ _) hts
  -- what is left is what refers to the place or the text of the first word
  split <;> try exact Stable.agree
  · exact agree_withBody d hl Stable.agree
  · exact agree_withBody d hl (agree_expressionBody h)
  · refine agree_after _ fun atomic => ?_
    split
    · exact Stable.agree
    · exact agree_errorAt hl ..
  · exact agree_errorAt hl ..

theorem agree_functionClause (d : RoutineDraft) {t u : Token} (h : C.Moves t u) :
    C.Agree Eq (functionClause d t) (functionClause d u) := by
  intro ts us hts
  have hnext : (C.whole.current ts).isKeyword .NULL = (C.part.current us).isKeyword .NULL := by
    rw [Token.isKeyword, hts.current.kind, Token.isKeyword]
  unfold run functionClause
  rw [h.isKeyword, hnext]
  split
  · split
    · exact agree_errorAt h.faces _ _ hts
    · exact Stable.agree hts
  · exact agree_routineClause d h hts

theorem agree_procedureClause (d : RoutineDraft) {t u : Token} (h : C.Moves t u) :
    C.Agree Eq (procedureClause d t) (procedureClause d u) := by
  intro ts us hts
  unfold run procedureClause
  rw [h.isKeyword]
  split
  · exact agree_errorAt h.faces _ _ hts
  · exact agree_routineClause d h hts

instance stable_createFunction (orReplace : Bool) : C.Stable (createFunction orReplace) := by
  unfold createFunction
  have hclauses : C.Stable (clauses functionClause RoutineDraft.empty) :=
    stable_clauses (fun d _ _ h => agree_functionClause d h) _
  refine ⟨agree_after _ fun _ => agree_after _ fun name => agree_after _ fun ps =>
    agree_after _ fun d => ?_⟩
  split
  · exact Stable.agree
  · exact Stable.agree

instance stable_createProcedure (orReplace : Bool) : C.Stable (createProcedure orReplace) := by
  unfold createProcedure
  have hclauses : C.Stable (clauses procedureClause RoutineDraft.empty) :=
    stable_clauses (fun d _ _ h => agree_procedureClause d h) _
  refine ⟨agree_after _ fun _ => agree_after _ fun name => agree_after _ fun ps =>
    agree_after _ fun d => ?_⟩
  split
  · exact Stable.agree
  · exact Stable.agree

end Parser

end DdlCatalog.Grammar
