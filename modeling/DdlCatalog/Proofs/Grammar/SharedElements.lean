import DdlCatalog.Proofs.Grammar.Fork

/-! # Elements of tables in statements that part ways
A column is read alike in front of a comma and in front of a key or a reference of its own. Expressions
in brackets end in the row, defaults in front of either. -/

namespace DdlCatalog.Grammar

open Token (Kind Keyword)

theorem run_expressionTokens_iff {stops : StopRule} {ctx : Context} {ts us rest : List Token} :
    (Parser.expressionTokens stops).run ctx ts = .ok (us, rest) ↔
      us ≠ [] ∧ ts = us ++ rest ∧ expressionLength stops ctx.stop none 0 ts = .ok us.length := by
  constructor
  · intro h
    obtain ⟨taken, mid, htaken, hmore⟩ := Parser.run_bind_ok h
    obtain ⟨n, hn, rfl, rfl⟩ := Parser.run_takeMeasured htaken
    split at hmore
    · cases hmore
    · next hempty =>
      obtain ⟨rfl, rfl⟩ : ts.take n = us ∧ ts.drop n = rest := Prod.mk.inj (Except.ok.inj hmore)
      refine ⟨by simpa using hempty, (List.take_append_drop n ts).symm, ?_⟩
      rw [(expressionLength_take hn ctx.stop none).1, hn]
  · rintro ⟨hne, rfl, h⟩
    have htaken : (Parser.takeMeasured "unbalanced brackets in expression" fun ctx ts =>
        expressionLength stops ctx.stop none 0 ts).run ctx (us ++ rest) = .ok (us, rest) := by
      unfold Parser.run Parser.takeMeasured
      dsimp only
      rw [h]
      simp [Parser.take, Except.map]
    rw [Parser.expressionTokens, Parser.run_bind_of_ok htaken, if_neg (by simpa using hne)]
    rfl

open DdlCatalog.Grammar.Parser

namespace Fork

variable {α β : Type} {F : Fork} {ts us vs mid : List Token} {stops : StopRule}

/-- The rule makes no difference between what stands behind the row in both statements. -/
def Blurs (F : Fork) (stops : StopRule) : Prop :=
  ∀ previous t, stops previous t F.comma = stops previous t F.next

/-- An expression ends where the second statement goes on. -/
def Ends (F : Fork) (stops : StopRule) : Prop :=
  ∀ previous, expressionLength stops F.there.stop previous 0 F.behind' = .ok 0

/-- An expression that ends in the row, or behind it where the other statement ends it as well. -/
theorem expressionLength_there {previous : Option Token} {depth n : Nat} (hstops : F.Blurs stops)
    (hend : n = ts.length → F.Ends stops)
    (h : expressionLength stops F.here.stop previous depth (ts ++ F.behind) = .ok n)
    (hn : n ≤ ts.length) :
    expressionLength stops F.there.stop previous depth (ts ++ F.behind') = .ok n := by
  induction ts generalizing previous depth n with
  | nil =>
    obtain rfl := Nat.le_zero.1 hn
    rcases expressionLength_cons h with ⟨-, rfl, -⟩ | ⟨m, d, hm, -⟩
    · exact hend rfl previous
    · cases hm
  | cons t ts ih =>
    have hhead : stops previous t ((ts ++ F.behind).headD F.here.stop) =
        stops previous t ((ts ++ F.behind').headD F.there.stop) := by
      cases ts with
      | nil => exact hstops previous t
      | cons u ts => rfl
    have hmore {d : Nat} (h : (expressionLength stops F.here.stop (some t) d (ts ++ F.behind)).map (· + 1) =
        .ok n) : (expressionLength stops F.there.stop (some t) d (ts ++ F.behind')).map (· + 1) = .ok n := by
      cases hm : expressionLength stops F.here.stop (some t) d (ts ++ F.behind) with
      | error e => rw [hm] at h; cases h
      | ok m =>
        rw [hm] at h
        cases h
        rw [ih (fun hm => hend (congrArg (· + 1) hm)) hm (Nat.le_of_succ_le_succ hn)]
        rfl
    unfold expressionLength at h ⊢
    dsimp only [List.cons_append] at h ⊢
    rw [← hhead]
    generalize stops previous t _ = ends at h ⊢
    generalize t.kind = k at h ⊢
    split at h
    · exact h
    · cases h
    · exact hmore h
    · exact hmore h
    · exact h
    · exact hmore h
    · exact h
    · exact hmore h
    · exact h
    · cases ends with
      | true => exact h
      | false => exact hmore h
    · exact hmore h

theorem read_expressionTokens (hstops : F.Blurs stops) (hend : us = [] → F.Ends stops)
    (h : (expressionTokens stops).run F.here (ts ++ F.behind) = .ok (vs, us ++ F.behind)) :
    ts = vs ++ us ∧ (expressionTokens stops).run F.there (ts ++ F.behind') = .ok (vs, us ++ F.behind') := by
  obtain ⟨hne, heq, hlength⟩ := run_expressionTokens_iff.1 h
  rw [← List.append_assoc] at heq
  obtain rfl := List.append_cancel_right heq
  refine ⟨rfl, run_expressionTokens_iff.2 ⟨hne, List.append_assoc .., ?_⟩⟩
  refine expressionLength_there hstops (fun hn => hend ?_) hlength (by simp)
  rw [List.length_append] at hn
  exact List.length_eq_zero_iff.1 (by omega)

theorem local_express (hus : us ⊆ F.row) : F.Local (express us) where
  read := by
    intro ts vs e _ h
    have hrun (ctx : Context) (ts : List Token) : (express us).run ctx ts = .ok (ctx.expression us, ts) := rfl
    rw [hrun] at h ⊢
    obtain ⟨rfl, heq⟩ := Prod.mk.inj (Except.ok.inj h)
    rw [List.append_cancel_right heq, Context.expression, Context.expression, F.shares.textOf_eq us hus]

theorem read_expression {e : Expression} (hstops : F.Blurs stops) (hend : us = [] → F.Ends stops)
    (hts : ts ⊆ F.row) (h : (expression stops).run F.here (ts ++ F.behind) = .ok (e, us ++ F.behind)) :
    (expression stops).run F.there (ts ++ F.behind') = .ok (e, us ++ F.behind') := by
  obtain ⟨vs, mid, hvs, he⟩ := run_bind_ok h
  obtain rfl : mid = us ++ F.behind := (Prod.mk.inj (Except.ok.inj he)).2
  obtain ⟨rfl, hthere⟩ := read_expressionTokens hstops hend hvs
  have hrow : vs ⊆ F.row ∧ us ⊆ F.row := List.append_subset.1 hts
  exact (run_bind_of_ok hthere).trans ((local_express hrow.1).read hrow.2 he)

theorem blurs_neverStops : F.Blurs neverStops := fun _ _ => rfl

instance local_groupedExpression : F.Local groupedExpression := by
  have hinner : F.Local (do let e ← expression neverStops; expect .rightParen; return e) := by
    refine ⟨fun ts us e hts h => ?_⟩
    obtain ⟨e, mid, he, hclose⟩ := run_bind_ok h
    obtain ⟨vs, rfl, hvs⟩ := exists_row (suffix_of_run hclose) (suffix_of_run he)
    -- the parenthesis is not behind the row
    have hne : vs ≠ [] := by
      rintro rfl
      have hcomma : F.comma.kind ≠ .rightParen := by rw [F.kind_comma]; nofun
      obtain ⟨_, _, hexpect, -⟩ := run_bind_ok hclose
      rw [expect, run_choice_of_ne (show (F.here.current ([] ++ F.behind)).kind ≠ _ from hcomma)] at hexpect
      cases hexpect
    have hlocal : F.Local (do expect .rightParen; return e) := inferInstance
    rw [run_bind_of_ok (read_expression blurs_neverStops (fun h => absurd h hne) hts he)]
    exact hlocal.read (List.Subset.trans hvs.subset hts) hclose
  unfold groupedExpression
  infer_instance

/-- A default ends in front of a key or a reference. -/
theorem blurs_endsDefault : F.Blurs endsDefault := by
  intro previous t
  have hcomma : F.comma.isKeyword .NULL = false := by rw [Token.isKeyword, F.kind_comma]; rfl
  have hnext : F.next.isKeyword .NULL = false := decide_eq_false next_ne
  unfold endsDefault
  dsimp only
  rw [hcomma, hnext]

theorem ends_endsDefault : F.Ends endsDefault := by
  intro previous
  have hparts := F.parts_next
  unfold expressionLength behind'
  dsimp only
  unfold partsClauses at hparts
  split at hparts
  · next hk => rw [hk]
  · next hk => rw [hk]; simp [endsDefault, hk]
  · next hk => rw [hk]; simp [endsDefault, hk]
  · next hk => rw [hk]; simp [endsDefault, hk]
  · next hk => rw [hk]; simp [endsDefault, hk]
  · cases hparts

instance local_default : F.Local (expression endsDefault) where
  read _ _ _ hts h := read_expression blurs_endsDefault (fun _ => ends_endsDefault) hts h

/-- In front of a comma every expression ends. -/
theorem Plain.blurs [hF : F.Plain] : F.Blurs stops := fun _ _ => by rw [hF.next_eq]

theorem Plain.ends [hF : F.Plain] : F.Ends stops := by
  intro previous
  rw [behind', hF.next_eq]
  unfold expressionLength
  dsimp only
  rw [F.kind_comma]

instance local_name : F.Local name := by
  refine local_front (fun t => ?_) fun o => ?_
  · split <;> infer_instance
  · have hname : F.comma.name? = none := by rw [Token.name?, F.kind_comma]; rfl
    rw [hname]
    exact nofun

instance local_objectName : F.Local objectName := by
  unfold objectName
  infer_instance

instance local_nameList : F.Local nameList := by
  unfold nameList
  infer_instance

instance local_nullsNotDistinct : F.Local nullsNotDistinct := by
  unfold nullsNotDistinct
  infer_instance

instance local_referentialAction : F.Local referentialAction := by
  unfold referentialAction
  infer_instance

instance local_matchType : F.Local matchType := by
  unfold matchType
  infer_instance

instance local_referenceOption : F.Local referenceOption := by
  refine local_front (fun t => inferInstance) fun o => ?_
  rw [if_neg (by rw [F.kind_comma]; nofun)]
  exact nofun

instance local_referenceClause (r : Reference) (word : Token) : F.Local (referenceClause r word) := by
  unfold referenceClause
  split <;> infer_instance

theorem rest_eq_of_accept_false {ctx : Context} {kind : Kind}
    (h : (accept kind).run ctx ts = .ok (false, mid)) : mid = ts := by
  by_cases hk : (ctx.current ts).kind = kind
  · rw [accept, run_bind_of_ok (run_at?_of_eq hk)] at h
    cases h
  · rw [run_accept_of_ne hk] at h
    exact (Prod.mk.inj (Except.ok.inj h)).2.symm

theorem rest_eq_of_referenceClause_none {ctx : Context} {r : Reference} {word : Token}
    (h : (referenceClause r word).run ctx ts = .ok (none, mid)) : mid = ts := by
  unfold referenceClause at h
  split at h
  · obtain ⟨kind, _, -, h⟩ := run_bind_ok h
    cases (Prod.mk.inj (Except.ok.inj h)).1
  · obtain ⟨update, _, -, h⟩ := run_bind_ok h
    split at h
    · obtain ⟨action, _, -, h⟩ := run_bind_ok h
      cases (Prod.mk.inj (Except.ok.inj h)).1
    · obtain ⟨delete, _, -, h⟩ := run_bind_ok h
      split at h
      · obtain ⟨action, _, -, h⟩ := run_bind_ok h
        cases (Prod.mk.inj (Except.ok.inj h)).1
      · cases h
  · cases (Prod.mk.inj (Except.ok.inj h)).1
  · obtain ⟨deferrable, _, haccept, h⟩ := run_bind_ok h
    cases deferrable with
    | true => cases (Prod.mk.inj (Except.ok.inj h)).1
    | false =>
      obtain rfl := (Prod.mk.inj (Except.ok.inj h)).2
      exact rest_eq_of_accept_false haccept
  · obtain ⟨deferred, _, -, h⟩ := run_bind_ok h
    split at h
    · cases (Prod.mk.inj (Except.ok.inj h)).1
    · obtain ⟨immediate, _, -, h⟩ := run_bind_ok h
      split at h
      · cases (Prod.mk.inj (Except.ok.inj h)).1
      · cases h
  · obtain ⟨_, _, -, h⟩ := run_bind_ok h
    obtain ⟨_, _, -, h⟩ := run_bind_ok h
    obtain ⟨_, _, -, h⟩ := run_bind_ok h
    cases (Prod.mk.inj (Except.ok.inj h)).1
  · exact (Prod.mk.inj (Except.ok.inj h)).2.symm

instance local_reference : F.Local reference := by
  have hclauses (r : Reference) : F.Local (clauses referenceClause r) := by
    refine local_clauses inferInstance (fun _ _ _ _ _ => rest_eq_of_referenceClause_none)
      (fun r => ⟨F.rest', ?_⟩) r
    have hparts := F.parts_next
    unfold partsClauses at hparts
    unfold referenceClause
    split at hparts
    · next hk => rw [hk]; rfl
    · next hk => rw [hk]; rfl
    · next hk => rw [hk]; rfl
    · next hk => rw [hk]; rfl
    · next hk => rw [hk]; rfl
    · cases hparts
  unfold reference
  infer_instance

instance local_identityOptions : F.Local identityOptions := by
  unfold identityOptions
  infer_instance

instance local_generatedStorage : F.Local generatedStorage := by
  unfold generatedStorage
  infer_instance

instance local_identityKind : F.Local identityKind := by
  unfold identityKind
  infer_instance

instance local_generated (c : Column) : F.Local (generated c) := by
  unfold generated
  infer_instance

instance local_columnClause (d : ColumnDraft) (word : Token) : F.Local (columnClause d word) where
  read := by
    intro ts us o hts h
    have hlocate : F.here.locate word = F.there.locate word := congrArg word.location F.shares.source_eq
    unfold run columnClause at h ⊢
    dsimp only at h ⊢
    rw [← hlocate]
    generalize F.here.locate word = l at h ⊢
    refine (?_ : F.Local _).read hts h
    split <;> infer_instance

theorem rest_eq_of_columnClause_none {ctx : Context} {d : ColumnDraft} {word : Token}
    (h : (columnClause d word).run ctx ts = .ok (none, mid)) : mid = ts := by
  unfold run columnClause at h
  dsimp only at h
  generalize ctx.locate word = l at h
  change run _ ctx ts = _ at h
  split at h
  case h_1 | h_2 | h_3 => exact (Prod.mk.inj (Except.ok.inj h)).2.symm
  case h_6 => cases (Prod.mk.inj (Except.ok.inj h)).1
  case h_15 => cases h
  all_goals
    obtain ⟨_, _, -, h⟩ := run_bind_ok h
    cases (Prod.mk.inj (Except.ok.inj h)).1

/-- No clause of a column begins with a token that goes on with a type. -/
theorem continuesType_of_columnClause {ctx : Context} {d : ColumnDraft} {word : Token}
    {o : Option ColumnDraft × List Token} (h : (columnClause d word).run ctx ts = .ok o) :
    continuesType word.kind = false := by
  unfold run columnClause at h
  dsimp only at h
  generalize ctx.locate word = l at h
  change run _ ctx ts = _ at h
  split at h
  case h_15 => cases h
  all_goals
    next hk => rw [hk]; rfl

theorem continuesType_next : continuesType F.next.kind = false := by
  have hparts := F.parts_next
  unfold partsClauses at hparts
  split at hparts
  · next hk => rw [hk]; rfl
  · next hk => rw [hk]; rfl
  · next hk => rw [hk]; rfl
  · next hk => rw [hk]; rfl
  · next hk => rw [hk]; rfl
  · cases hparts

theorem read_typeRef {t : TypeRef} (hus : ∀ u ∈ us.head?, continuesType u.kind = false)
    (h : typeRef.run F.here (ts ++ F.behind) = .ok (t, us ++ F.behind)) :
    typeRef.run F.there (ts ++ F.behind') = .ok (t, us ++ F.behind') := by
  have hnext : continuesType (F.there.current (us ++ F.behind')).kind = false := by
    cases us with
    | nil => exact continuesType_next
    | cons u us => exact hus u rfl
  rcases reading_typeRef F.shares.stop_here (ts ++ F.behind) with hreading | ⟨⟨_, _, herror⟩, -⟩
  · rw [h] at hreading
    cases hreading with
    | @complete front _ _ split phrase =>
      rw [← List.append_assoc] at split
      obtain rfl := List.append_cancel_right split
      rw [List.append_assoc]
      exact run_typeRef_of_phrase F.shares.stop_there ((phrase t).2 rfl) hnext
  · rw [h] at herror
    cases herror

theorem continuesType_of_clauses {ctx : Context} {d : ColumnDraft} {word : Token}
    {o : ColumnDraft × List Token} (h : (clauses columnClause d).run ctx (word :: ts) = .ok o) :
    continuesType word.kind = false := by
  rw [run_clauses] at h
  cases hclause : (columnClause d word).run ctx ts with
  | error e =>
    simp only [hclause] at h
    cases h
  | ok o' => exact continuesType_of_columnClause hclause

theorem read_typeRef_of_clauses {t : TypeRef} {d : ColumnDraft} {o : ColumnDraft × List Token}
    (htype : typeRef.run F.here (ts ++ F.behind) = .ok (t, us ++ F.behind))
    (hclauses : (clauses columnClause d).run F.here (us ++ F.behind) = .ok o) :
    typeRef.run F.there (ts ++ F.behind') = .ok (t, us ++ F.behind') := by
  refine read_typeRef ?_ htype
  rintro u hu
  obtain ⟨us, rfl⟩ := List.head?_eq_some_iff.1 hu
  exact continuesType_of_clauses hclauses

section Plain

variable [hF : F.Plain]

instance local_columnClauses (d : ColumnDraft) : F.Local (clauses columnClause d) := by
  refine local_clauses inferInstance (fun _ _ _ _ _ => rest_eq_of_columnClause_none) (fun d => ⟨F.rest', ?_⟩) d
  have hkind : F.next.kind = .comma := by rw [hF.next_eq, F.kind_comma]
  unfold run columnClause
  dsimp only
  rw [hkind]
  rfl

omit hF in
theorem not_name_comma {o : String × List Token} : name.run F.here F.behind ≠ .ok o := by
  intro h
  obtain ⟨t, ht, hname⟩ := run_name F.shares.stop_here h
  rw [← (List.cons.inj ht).1, Token.name?, F.kind_comma] at hname
  cases hname

instance local_columnDef : F.Local columnDef := by
  have htype (l : Text.Location) (name : String) : F.Local (do
      let t ← typeRef
      let d ← clauses columnClause ⟨Column.named name (some t), [], none⟩
      return ((⟨d.column, l⟩, d.constraints) : ColumnDef × List TableConstraint)) := by
    refine ⟨fun ts us o hts h => ?_⟩
    obtain ⟨t, mid, ht, h⟩ := run_bind_ok h
    obtain ⟨d, mid', hd, ho⟩ := run_bind_ok h
    obtain ⟨rfl, rfl⟩ : _ = o ∧ mid' = us ++ F.behind := Prod.mk.inj (Except.ok.inj ho)
    obtain ⟨vs, rfl, hvs⟩ := exists_row (suffix_of_run hd) (suffix_of_run ht)
    rw [run_bind_of_ok (read_typeRef_of_clauses ht hd),
      run_bind_of_ok ((local_columnClauses _).read (List.Subset.trans hvs.subset hts) hd)]
    rfl
  refine local_location (fun l => local_bind) fun l o h => ?_
  obtain ⟨name, mid, hname, -⟩ := run_bind_ok h
  exact not_name_comma hname

instance local_operatorName : F.Local operatorName := by
  refine local_front (fun t => ?_) fun o => ?_
  · split <;> infer_instance
  · rw [F.kind_comma]
    exact nofun

instance local_exclusionElement : F.Local exclusionElement := by
  refine ⟨fun ts us e hts h => ?_⟩
  obtain ⟨vs, mid, hvs, he⟩ := run_bind_ok h
  obtain ⟨front, rfl, -⟩ := exists_row (suffix_of_run he) (suffix_of_run hvs)
  obtain ⟨rfl, hthere⟩ := read_expressionTokens Plain.blurs (fun _ => Plain.ends) hvs
  have hrow := List.append_subset.1 hts
  have hlocal := local_express (F := F) hrow.1
  have hmore : F.Local (do
      let e ← express vs
      expectKeyword .WITH
      let op ← operatorName
      return (⟨e, columnOf? vs, op⟩ : ExclusionElement)) := inferInstance
  exact (run_bind_of_ok hthere).trans (hmore.read hrow.2 he)

instance local_accessMethod : F.Local accessMethod := by
  unfold accessMethod
  infer_instance

instance local_exclusion : F.Local exclusion := by
  unfold exclusion
  infer_instance

instance local_constraintName : F.Local constraintName := by
  unfold constraintName
  infer_instance

instance local_tableConstraintKind : F.Local tableConstraintKind := by
  unfold tableConstraintKind
  infer_instance

instance local_tableConstraint : F.Local tableConstraint := by
  refine local_location (fun l => inferInstance) fun l o h => ?_
  have hne (k : Keyword) : (F.here.current F.behind).kind ≠ .keyword k := by
    intro (hk : F.comma.kind = _)
    cases F.kind_comma.symm.trans hk
  obtain ⟨name, mid, hname, h⟩ := run_bind_ok h
  obtain ⟨-, rfl⟩ : none = name ∧ F.behind = mid :=
    Prod.mk.inj (Except.ok.inj ((run_choice_of_ne (hne .CONSTRAINT)).symm.trans hname))
  obtain ⟨kind, _, hkind, -⟩ := run_bind_ok h
  have hnone := (run_choice_of_ne (hne .PRIMARY)).symm.trans hkind
  replace hnone := (run_choice_of_ne (hne .UNIQUE)).symm.trans hnone
  replace hnone := (run_choice_of_ne (hne .CHECK)).symm.trans hnone
  replace hnone := (run_choice_of_ne (hne .FOREIGN)).symm.trans hnone
  cases (run_choice_of_ne (hne .EXCLUDE)).symm.trans hnone

instance local_tableElement : F.Local tableElement := by
  refine local_front (fun t => inferInstance) fun o h => ?_
  have hstart : startsTableConstraint F.comma = false := by rw [startsTableConstraint, F.kind_comma]
  rw [hstart] at h
  obtain ⟨_, _, hcolumn, -⟩ := run_bind_ok h
  obtain ⟨l, mid, hplace, hcolumn⟩ := run_bind_ok hcolumn
  obtain ⟨-, rfl⟩ : _ = l ∧ F.behind = mid := Prod.mk.inj (Except.ok.inj hplace)
  obtain ⟨_, _, hname, -⟩ := run_bind_ok hcolumn
  exact not_name_comma hname

end Plain

end Fork

end DdlCatalog.Grammar
