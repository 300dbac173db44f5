import DdlCatalog.Proofs.Grammar.Brackets
import DdlCatalog.Proofs.Grammar.Recapture

/-! # Brackets of expressions
Where an expression ends is found by counting brackets. The count of an expression does not tell the two
shapes of brackets apart, and that of a call or of what stands between outer parentheses passes over
square brackets. -/

namespace DdlCatalog

namespace Grammar

open Token (Kind)

variable {ctx : Context} {us ts : List Token} {stop : Token} {previous : Option Token} {depth : Nat}
  {e : Expression} {awaiting : List Kind}

theorem closesAll_of_expressionLength
    (h : expressionLength neverStops stop previous depth ts = .ok ts.length)
    (hdepth : awaiting.length = depth) :
    closesAll .mixed awaiting (ts.map (·.kind)) = true := by
  -- since all brackets match, the count is the height of any stack
  induction ts generalizing previous depth awaiting with
  | nil =>
    rw [expressionLength] at h
    split at h
    · next hzero =>
      obtain rfl := List.length_eq_zero_iff.1 (hdepth.trans hzero)
      rfl
    · cases h
  | cons t ts ih =>
    rcases expressionLength_cons h with ⟨hzero, -⟩ | ⟨m, d, hm, hpasses, hmore⟩
    · cases hzero
    · obtain rfl : ts.length = m := Nat.succ.inj hm
      rw [List.map_cons]
      cases hpasses with
      | opens kind =>
        rw [closesAll_opens (b := .mixed) kind]
        exact ih hmore (by simp [hdepth])
      | closes kind =>
        cases awaiting with
        | nil => cases hdepth
        | cons o awaiting =>
          rw [closesAll_closes (b := .mixed) kind]
          exact ih hmore (Nat.succ.inj hdepth)
      | stays not_opens not_closes =>
        rw [closesAll_plain (b := .mixed) not_opens not_closes]
        exact ih hmore hdepth

theorem IsExpression.nested (h : IsExpression us) : Nested .mixed (us.map (·.kind)) :=
  nested_iff_closesAll.2 (closesAll_of_expressionLength (h ⟨.eof, ⟨0, 0⟩, 1, 1⟩) rfl)

theorem closesAll_of_groupLength (h : Parser.groupLength stop depth ts = .ok ts.length)
    (hdepth : awaiting.length = depth + 1) :
    closesAll .round awaiting (ts.map (·.kind)) = true := by
  induction ts generalizing depth awaiting with
  | nil => cases h
  | cons t ts ih =>
    obtain ⟨o, awaiting, rfl⟩ := List.exists_cons_of_length_eq_add_one hdepth
    rw [List.map_cons]
    rcases Parser.groupLength_cons h with ⟨hk, rfl, hlength⟩ | ⟨m, d, hm, hinside, hmore⟩
    · obtain rfl : ts = [] := List.length_eq_zero_iff.1 (Nat.succ.inj hlength)
      obtain rfl : awaiting = [] := List.length_eq_zero_iff.1 (Nat.succ.inj hdepth)
      rw [hk]
      rfl
    · obtain rfl : ts.length = m := Nat.succ.inj hm
      cases hinside with
      | opens kind =>
        rw [closesAll_opens (b := .round) (decide_eq_true kind)]
        exact ih hmore (by simpa using hdepth)
      | closes kind =>
        rw [closesAll_closes (b := .round) (decide_eq_true kind)]
        exact ih hmore (Nat.succ.inj hdepth)
      | other not_opens not_closes =>
        obtain ⟨hopens, hcloses⟩ := round_plain not_opens not_closes
        rw [closesAll_plain hopens hcloses]
        exact ih hmore hdepth

theorem IsCall.nested (h : IsCall us) : Nested .round (us.map (·.kind)) := by
  obtain ⟨front, l, inner, rfl, hl, hfront, hinner⟩ := h
  induction front with
  | nil =>
    refine nested_iff_closesAll.2 ?_
    rw [List.nil_append, List.map_cons, closesAll_opens (b := .round) (decide_eq_true hl)]
    exact closesAll_of_groupLength (hinner l) rfl
  | cons t front ih =>
    obtain ⟨ht, hfront⟩ := List.forall_mem_cons.1 hfront
    obtain ⟨hopens, hcloses⟩ : Brackets.round.opens t.kind = false ∧
        Brackets.round.closes t.kind = false :=
      round_plain (by rintro hk; simp [hk, opensBracket] at ht)
        (by rintro hk; simp [hk, closesBracket] at ht)
    exact .plain hopens hcloses (ih hfront)

theorem closesLast_concat (h : closesLast depth ts = true) :
    ∃ inner r, ts = inner ++ [r] ∧ r.kind = .rightParen ∧
      ∀ awaiting : List Kind, awaiting.length = depth →
        closesAll .round awaiting (inner.map (·.kind)) = true := by
  induction ts generalizing depth with
  | nil => cases h
  | cons t ts ih =>
    -- unless the group ends here, a token acts on the stack as on the count
    have hmore {d : Nat} (hd : closesLast d ts = true) (hstep : ∀ (awaiting ks : List Kind),
        awaiting.length = depth → ∃ more : List Kind, more.length = d ∧
          closesAll .round awaiting (t.kind :: ks) = closesAll .round more ks) :
        ∃ inner r, t :: ts = inner ++ [r] ∧ r.kind = .rightParen ∧
          ∀ awaiting : List Kind, awaiting.length = depth →
            closesAll .round awaiting (inner.map (·.kind)) = true := by
      obtain ⟨inner, r, rfl, hr, hinner⟩ := ih hd
      refine ⟨t :: inner, r, rfl, hr, fun awaiting hawaiting => ?_⟩
      obtain ⟨more, hlength, hall⟩ := hstep awaiting (inner.map (·.kind)) hawaiting
      rw [List.map_cons, hall]
      exact hinner more hlength
    unfold closesLast at h
    split at h
    · next hk =>
      refine hmore h fun awaiting ks hawaiting => ⟨t.kind :: awaiting, by simp [hawaiting], ?_⟩
      exact closesAll_opens (b := .round) (decide_eq_true hk)
    · next hk =>
      obtain rfl : ts = [] := List.isEmpty_iff.1 h
      refine ⟨[], t, rfl, hk, fun awaiting hawaiting => ?_⟩
      obtain rfl := List.length_eq_zero_iff.1 hawaiting
      rfl
    · next hk =>
      refine hmore h fun awaiting ks hawaiting => ?_
      obtain ⟨o, awaiting, rfl⟩ := List.exists_cons_of_length_eq_add_one hawaiting
      refine ⟨awaiting, Nat.succ.inj hawaiting, ?_⟩
      rw [closesAll_closes (b := .round) (decide_eq_true hk)]
      rfl
    · next hopens hzero hsucc =>
      refine hmore h fun awaiting ks hawaiting => ⟨awaiting, hawaiting, ?_⟩
      have hcloses : t.kind ≠ .rightParen := fun hk =>
        (Nat.eq_zero_or_eq_succ_pred _).elim (hzero hk) (hsucc _ hk)
      have hplain := round_plain hopens hcloses
      exact closesAll_plain hplain.1 hplain.2

/-- What is left of tokens without outer parentheses. -/
theorem unwrap_cases (us : List Token) :
    unwrap us = us ∨ ∃ l r, us = l :: unwrap us ++ [r] ∧ r.kind = .rightParen ∧ unwrap us ≠ [] ∧
      Nested .round ((unwrap us).map (·.kind)) := by
  cases us with
  | nil => exact .inl rfl
  | cons l rest =>
    by_cases h : l.kind = .leftParen ∧ closesLast 0 rest = true ∧ 2 < (l :: rest).length
    · have hunwrap : unwrap (l :: rest) = rest.dropLast := if_pos h
      obtain ⟨-, hlast, hlength⟩ := h
      obtain ⟨inner, r, rfl, hr, hinner⟩ := closesLast_concat hlast
      rw [hunwrap, List.dropLast_concat]
      refine .inr ⟨l, r, rfl, hr, ?_, nested_iff_closesAll.2 (hinner [] rfl)⟩
      intro hnil
      simp [hnil] at hlength
    · exact .inl (if_neg h)

/-- The tokens between outer parentheses are an excerpt too. -/
theorem Captured.excerpt_unwrap (h : Captured ctx us) : Excerpt ctx (unwrap us) := by
  rcases unwrap_cases us with hsame | ⟨l, r, heq, hr, hne, -⟩
  · rw [hsame]
    exact h.toExcerpt
  · obtain ⟨before, after, hplace, -⟩ := h.place
    refine ⟨hne, before ++ [l], r :: after, ?_, .clear ?_⟩
    · rw [hplace]
      generalize unwrap us = inner at heq
      rw [heq]
      simp
    · show r.kind.startsClear = true
      rw [hr]
      rfl

/-- The kinds of the tokens of a text, up to its end. -/
def HasKinds (text : String) (ks : List Kind) : Prop :=
  (Token.tokenize anonymousSource text.toList).toOption.map (·.map (·.kind)) = some (ks ++ [.eof])

instance (text : String) (ks : List Kind) : Decidable (HasKinds text ks) :=
  inferInstanceAs (Decidable (_ = _))

theorem HasKinds.unique {text : String} {ks ks' : List Kind} (h : HasKinds text ks)
    (h' : HasKinds text ks') : ks = ks' :=
  List.append_cancel_right (Option.some.inj (h.symm.trans h'))

theorem HasKinds.of_tokenize {text : String}
    (h : Token.tokenize anonymousSource text.toList = .ok (ts ++ [stop])) (hstop : stop.kind = .eof) :
    HasKinds text (ts.map (·.kind)) := by
  rw [HasKinds, h]
  simp [Except.toOption, hstop]

theorem Excerpt.hasKinds (h : Excerpt ctx us) (hctx : ctx.InText) :
    HasKinds (ctx.textOf us) (us.map (·.kind)) := by
  obtain ⟨C, -, hrows, -, htokens, htext⟩ := h.exists_cut hctx
  have hkinds : us.map (·.kind) = C.part.tokens.map (·.kind) := hrows.read (by simp [Token.bare])
  rw [htext, hkinds]
  exact .of_tokenize (by rwa [String.toList_ofList]) C.stop_part

/-- What is known of brackets that have been counted together: all are closed, and they are nested unless
one is closed by one of the other shape. -/
structure CountedTogether (ks : List Kind) : Prop where
  mixed : Nested .mixed ks
  proper : Nested .proper ks ∨ Crossed ks

/-- What is known of brackets if parentheses only have been counted: these are nested, and all brackets
are if none is square. -/
structure CountedRound (ks : List Kind) : Prop where
  round : Nested .round ks
  proper : Nested .proper ks ∨ ∃ k ∈ ks, isSquare k = true

theorem IsExpression.countedTogether (h : IsExpression us) : CountedTogether (us.map (·.kind)) :=
  ⟨h.nested, h.nested.proper_or_crossed⟩

theorem Nested.countedRound {ks : List Kind} (h : Nested .round ks) : CountedRound ks := by
  refine ⟨h, ?_⟩
  by_cases hsquare : ∃ k ∈ ks, isSquare k = true
  · exact .inr hsquare
  · exact .inl (h.proper_of_round (by simpa using hsquare))

/-- The brackets of an expression that a statement keeps are nested, unless one is closed by one of the
other shape. In the keys and the predicate of an index square brackets may have been passed over. -/
theorem nested_of_parseSource {source text : String} {statements : List ParsedStatement}
    (h : parseSource source text = .ok statements) :
    ∀ p ∈ statements,
      (∀ e ∈ p.statement.expressions, ∃ ks, HasKinds e.text ks ∧ CountedTogether ks) ∧
      ∀ e ∈ p.statement.keys ++ p.statement.predicate?.toList, ∃ ks, HasKinds e.text ks ∧
        (CountedTogether ks ∨ CountedRound ks) := by
  intro p hp
  obtain ⟨ctx, hctx, hexcerpts⟩ := exists_excerpts h hp
  constructor
  · intro e he
    obtain ⟨us, hus, rfl⟩ := hexcerpts.expressions e he
    exact ⟨_, hus.hasKinds hctx, hus.whole.countedTogether⟩
  · intro e he
    rcases List.mem_append.1 he with hkey | hpredicate
    · obtain ⟨us, hcaptured | hcalled, rfl⟩ := hexcerpts.keys e hkey
      · exact ⟨_, hcaptured.hasKinds hctx, .inl hcaptured.whole.countedTogether⟩
      · exact ⟨_, hcalled.hasKinds hctx, .inr hcalled.call.nested.countedRound⟩
    · obtain ⟨us, hus, rfl⟩ := hexcerpts.predicate e (Option.mem_toList.1 hpredicate)
      refine ⟨_, hus.excerpt_unwrap.hasKinds hctx, ?_⟩
      rcases unwrap_cases us with hsame | ⟨-, -, -, -, -, hround⟩
      · rw [hsame]
        exact .inl hus.whole.countedTogether
      · exact .inr hround.countedRound

/-- Brackets of both shapes that are nested, and ones that are crossed in a call and between outer
parentheses. -/
def nestedText : String :=
  "create table t (a int[] default (array[(1), 2]), check (a[1] > (0)));" ++
    "create index on t ((a[1]), f(a]), g(a)) where (a] or b[0)"

theorem nested_nestedText :
    ∃ statements, parseSource "t.sql" nestedText = .ok statements ∧
      statements.map (fun p => (p.statement.expressions.map (·.text),
        (p.statement.keys ++ p.statement.predicate?.toList).map (·.text))) =
          [(["(array[(1), 2])", "a[1] > (0)"], []), ([], ["a[1]", "f(a])", "g(a)", "a] or b[0"])] ∧
      ∀ p ∈ statements,
        (∀ e ∈ p.statement.expressions, ∃ ks, HasKinds e.text ks ∧ CountedTogether ks) ∧
        ∀ e ∈ p.statement.keys ++ p.statement.predicate?.toList, ∃ ks, HasKinds e.text ks ∧
          (CountedTogether ks ∨ CountedRound ks) := by
  have hparsed : (parseSource "t.sql" nestedText).toOption.map
      (·.map fun p => (p.statement.expressions.map (·.text),
        (p.statement.keys ++ p.statement.predicate?.toList).map (·.text))) =
          some [(["(array[(1), 2])", "a[1] > (0)"], []),
            ([], ["a[1]", "f(a])", "g(a)", "a] or b[0"])] := by decide +kernel
  obtain ⟨statements, h, htexts⟩ := exists_ok_of_map_toOption hparsed
  exact ⟨statements, h, htexts, nested_of_parseSource h⟩

/-- A parenthesis that a square bracket closes. -/
def crossedText : String := "CREATE TABLE t (x int DEFAULT (1])"

theorem not_nested_crossedText :
    ∃ statements, parseSource "t.sql" crossedText = .ok statements ∧
      ∃ p ∈ statements, ∃ e ∈ p.statement.expressions, e.text = "(1]" ∧
        ∀ ks, HasKinds e.text ks → ¬ Nested .proper ks := by
  have hparsed : (parseSource "t.sql" crossedText).toOption.map
      (·.map fun p => p.statement.expressions.map (·.text)) = some [["(1]"]] := by decide +kernel
  obtain ⟨statements, h, htexts⟩ := exists_ok_of_map_toOption hparsed
  obtain ⟨p, hp, hp'⟩ := List.mem_map.1 (htexts ▸ List.mem_singleton_self _ : ["(1]"] ∈ _)
  obtain ⟨e, he, htext⟩ := List.mem_map.1 (hp' ▸ List.mem_singleton_self _ : "(1]" ∈ _)
  refine ⟨statements, h, p, hp, e, he, htext, fun ks hks => ?_⟩
  have hkinds : HasKinds "(1]" [.leftParen, .number "1", .rightBracket] := by decide +kernel
  rw [htext] at hks
  rw [hks.unique hkinds]
  decide

end Grammar

end DdlCatalog
