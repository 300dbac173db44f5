import DdlCatalog.Proofs.Grammar.Sequel

/-! # Parentheses around a predicate
The parentheses around all of a predicate are left out, and no others. An index is therefore the same
whether its predicate is written in parentheses or not. -/

namespace DdlCatalog

open Token (Kind Reads Scanner Spells Fills Ends breaks_mark)
open Text (byteLength)

theorem fills_of_splitText {source : String} {text : List Char} {raws : List RawStatement}
    (h : splitText source text = .ok raws) {raw : RawStatement} (hraw : raw ∈ raws)
    (htext : raw.text text = text) : Fills text raw.tokens ∧ StaysTogether 0 raw.tokens := by
  obtain ⟨before, stop, after, htokens, htogether, hstop⟩ := exists_stop_of_splitText h hraw
  refine ⟨?_, htogether⟩
  obtain ⟨front, part, back, ts, hpart⟩ := Token.exists_part (Token.tokens_of_tokenize htokens)
    raw.tokens_ne_nil (.clear hstop.startsClear)
  obtain rfl : part = text := (RawStatement.text_of_part hpart).symm.trans htext
  -- the part is the text, and has as many tokens
  obtain ⟨e, -, htokens'⟩ := hpart.tokens_eq
  have hsame := Except.ok.inj ((Token.tokens_of_tokenize htokens).symm.trans htokens')
  have hlength := congrArg List.length hsame
  have htextLength := congrArg List.length hpart.text_eq
  have hmoves := hpart.moves.length_eq
  simp only [List.length_append, List.length_cons, List.length_nil] at hlength htextLength
  obtain rfl : before = [] := List.length_eq_zero_iff.1 (by omega)
  obtain rfl : after = [] := List.length_eq_zero_iff.1 (by omega)
  obtain rfl : front = [] := List.length_eq_zero_iff.1 (by omega)
  obtain ⟨last, hlast, -⟩ := raw.getLast?_tokens
  exact .of_tokenize htokens hlast ((hpart.stop_eq last hlast).trans (Nat.zero_add _))

namespace Grammar

variable {us rest : List Token} {l r : Token} {stop : Token} {previous : Option Token} {depth : Nat}
  {ks inner : List Kind} {x : Expression}

theorem closesLast_opens {t : Token} (h : t.kind = .leftParen) :
    closesLast depth (t :: us) = closesLast (depth + 1) us := by
  conv_lhs => unfold closesLast
  rw [h]

theorem closesLast_closes {t : Token} (h : t.kind = .rightParen) :
    closesLast (depth + 1) (t :: us) = closesLast depth us := by
  conv_lhs => unfold closesLast
  rw [h]

theorem closesLast_other {t : Token} (hopens : t.kind ≠ .leftParen) (hcloses : t.kind ≠ .rightParen) :
    closesLast depth (t :: us) = closesLast depth us := by
  conv_lhs => unfold closesLast
  split
  · next hk => exact absurd hk hopens
  · next hk => exact absurd hk hcloses
  · next hk => exact absurd hk hcloses
  · rfl

theorem closesLast_append (h : Nested .round (us.map (·.kind))) :
    closesLast depth (us ++ rest) = closesLast depth rest := by
  generalize hks : us.map (·.kind) = ks at h
  induction h generalizing us rest depth with
  | nil =>
    obtain rfl := List.map_eq_nil_iff.1 hks
    rfl
  | plain opens closes _ ih =>
    obtain ⟨t, us, rfl, rfl, hus⟩ := List.map_eq_cons_iff.1 hks
    rw [List.cons_append, closesLast_other (of_decide_eq_false opens) (of_decide_eq_false closes)]
    exact ih hus
  | pair opens closes _ _ _ ihinside ihmore =>
    obtain ⟨o, us, rfl, ho, hus⟩ := List.map_eq_cons_iff.1 hks
    obtain ⟨inner, us, rfl, hinner, hus⟩ := List.map_eq_append_iff.1 hus
    obtain ⟨c, us, rfl, hc, hus⟩ := List.map_eq_cons_iff.1 hus
    rw [List.cons_append, closesLast_opens (ho.trans (of_decide_eq_true opens)), List.append_assoc,
      ihinside hinner, List.cons_append, closesLast_closes (hc.trans (of_decide_eq_true closes))]
    exact ihmore hus

theorem unwrap_group (hl : l.kind = .leftParen) (hr : r.kind = .rightParen) (hne : us ≠ [])
    (h : Nested .round (us.map (·.kind))) : unwrap (l :: (us ++ [r])) = us := by
  have hlast : closesLast 0 (us ++ [r]) = true := by
    rw [closesLast_append h]
    unfold closesLast
    rw [hr]
    rfl
  have hlength : 2 < (l :: (us ++ [r])).length := by
    have hpos := List.length_pos_iff.2 hne
    simp only [List.length_cons, List.length_append, List.length_nil]
    omega
  rw [unwrap, if_pos ⟨hl, hlast, hlength⟩, List.dropLast_concat]

/-- A parenthesis that is closed at the end has nested brackets behind it. -/
theorem Nested.inside_of_proper (h : Nested .proper (.leftParen :: (inner ++ [.rightParen])))
    (hinner : Nested .round inner) : Nested .proper inner := by
  generalize hks : Kind.leftParen :: (inner ++ [.rightParen]) = ks at h
  cases h with
  | nil => cases hks
  | plain opens =>
    obtain ⟨rfl, -⟩ := List.cons.inj hks
    cases opens
  | @pair o c inner' ks opens closes pairs inside more =>
    obtain ⟨rfl, hrest⟩ := List.cons.inj hks
    obtain rfl : c = .rightParen := by simpa [Brackets.proper] using pairs
    rcases List.eq_nil_or_concat' ks with rfl | ⟨ks, k, rfl⟩
    · obtain ⟨rfl, -⟩ := List.append_inj' hrest rfl
      exact inside
    · -- the parenthesis would be closed before the end, but between them nothing is closed too early
      rw [← List.cons_append, ← List.append_assoc] at hrest
      obtain ⟨rfl, -⟩ := List.append_inj' hrest rfl
      have hall := nested_iff_closesAll.1 hinner
      rw [inside.round_of_proper.closesAll_append] at hall
      cases hall

theorem unwrap_of_not_group (h : Nested .proper (us.map (·.kind)))
    (hgroup : ∀ inner, us.map (·.kind) = .leftParen :: (inner ++ [.rightParen]) →
      ¬Nested .proper inner) : unwrap us = us := by
  rcases unwrap_cases us with hsame | ⟨l, r, heq, hr, -, hround⟩
  · exact hsame
  · have hkinds : us.map (·.kind) =
        l.kind :: ((unwrap us).map (·.kind) ++ [.rightParen]) := by
      conv_lhs => rw [heq]
      simp [hr]
    -- the last parenthesis closes the first token
    have hall := nested_iff_closesAll.1 h.round_of_proper
    have hl : l.kind = .leftParen := by
      by_contra hne
      have hopens : Brackets.round.opens l.kind = false := decide_eq_false hne
      rw [hkinds] at hall
      cases hcloses : Brackets.round.closes l.kind with
      | true => simp [closesAll, hopens, hcloses] at hall
      | false =>
        rw [closesAll_plain hopens hcloses, hround.closesAll_append] at hall
        cases hall
    rw [hl] at hkinds
    exact absurd ((hkinds ▸ h).inside_of_proper hround) (hgroup _ hkinds)

theorem Passes.lift {t : Token} {d : Nat} (h : Passes t depth d) : Passes t (depth + 1) (d + 1) := by
  cases h with
  | opens kind => exact .opens kind
  | closes kind => exact .closes kind
  | stays not_opens not_closes not_eof _ => exact .stays not_opens not_closes not_eof nofun

theorem expressionLength_lift {stop' : Token} {previous' : Option Token} (hr : r.kind = .rightParen)
    (h : expressionLength neverStops stop' previous' depth us = .ok us.length) :
    expressionLength neverStops stop previous (depth + 1) (us ++ [r]) = .ok (us.length + 1) := by
  induction us generalizing depth previous previous' with
  | nil =>
    rw [expressionLength] at h
    split at h
    · next hdepth =>
      have hcloses : Passes r (depth + 1) depth := .closes (by simp [closesBracket, hr])
      rw [List.nil_append, hcloses.expressionLength_eq, expressionLength, if_pos hdepth]
      rfl
    · cases h
  | cons t us ih =>
    rcases expressionLength_cons h with ⟨hzero, -⟩ | ⟨m, d, hm, hpasses, hmore⟩
    · cases hzero
    · obtain rfl : us.length = m := Nat.succ.inj hm
      rw [List.cons_append, hpasses.lift.expressionLength_eq, ih hmore]
      rfl

theorem IsExpression.group (h : IsExpression us) (hl : l.kind = .leftParen)
    (hr : r.kind = .rightParen) : IsExpression (l :: (us ++ [r])) := by
  intro stop
  have hopens : Passes l 0 1 := .opens (by simp [opensBracket, hl])
  rw [hopens.expressionLength_eq, expressionLength_lift hr (h stop), List.length_cons,
    List.length_append]
  rfl

theorem Parser.run_predicate (h : IsExpression us) (hne : us ≠ []) (ctx : Context) :
    predicate.run ctx us = .ok (ctx.expression (unwrap us), []) := by
  rw [predicate, run_bind_of_ok (run_expressionTokens h hne ctx)]
  rfl

/-- Wherever a text ends with this, that is read as the predicate. -/
def WritesPredicate (x : Expression) (tail : List Char) : Prop :=
  ∀ ⦃text : List Char⦄ ⦃s : Scanner⦄, s.Reading text → s.rest = tail →
    ∃ us s', Reads s us s' ∧ s'.rest = [] ∧ us ≠ [] ∧ (∀ t ∈ us, t.kind ≠ .semicolon) ∧
      ∀ ctx : Context, ctx.text = text → ctx.stop.kind = .eof →
        Parser.predicate.run ctx us = .ok (x, [])

/-- A predicate may be written without parentheses around it, and with them. -/
theorem writesPredicate (hparsed : parseExpression x.text = .ok x) (hkinds : HasKinds x.text ks)
    (hnested : Nested .proper ks) (hsemicolon : Kind.semicolon ∉ ks)
    (hgroup : ∀ inner, ks = .leftParen :: (inner ++ [.rightParen]) → ¬Nested .proper inner) :
    WritesPredicate x x.text.toList ∧ WritesPredicate x ('(' :: (x.text.toList ++ [')'])) := by
  have hno {us : List Token} (hus : us.map (·.kind) = ks) : ∀ t ∈ us, t.kind ≠ .semicolon := by
    intro t ht hk
    exact hsemicolon (hus ▸ hk ▸ List.mem_map_of_mem ht)
  constructor
  · intro text s hs hrest
    obtain ⟨us, s', hreads, hnil, hne, hwhole, hus, hexpression⟩ := exists_reads_expression hparsed hs
      (hrest.trans (List.append_nil _).symm) .nil nofun
    obtain rfl := hus.unique hkinds
    refine ⟨us, s', hreads, hnil, hne, hno rfl, fun ctx hctx hstop => ?_⟩
    rw [Parser.run_predicate hwhole hne, unwrap_of_not_group hnested hgroup, hexpression ctx hctx hstop]
  · intro text s hs hrest
    have hopen : Spells s.rest [.leftParen] (x.text.toList ++ [')']) :=
      hrest ▸ .mark rfl (by decide) (.done _)
    obtain ⟨l, s₁, hreads₁, hl, hrest₁⟩ := hopen.reads_one
    obtain ⟨us, s₂, hreads₂, hrest₂, hne, hwhole, hus, hexpression⟩ := exists_reads_expression hparsed
      (hreads₁.reading hs) hrest₁ (.rightParen []) (by decide)
    obtain rfl := hus.unique hkinds
    have hclose : Spells s₂.rest [.rightParen] [] := hrest₂ ▸ .mark rfl (by decide) (.done [])
    obtain ⟨r, s₃, hreads₃, hr, hnil⟩ := hclose.reads_one
    refine ⟨l :: (us ++ [r]), s₃, hreads₁.append (hreads₂.append hreads₃), hnil, by simp, ?_, ?_⟩
    · refine List.forall_mem_cons.2 ⟨by simp [hl], List.forall_mem_append.2 ⟨hno rfl, ?_⟩⟩
      simp [hr]
    · intro ctx hctx hstop
      rw [Parser.run_predicate (hwhole.group hl hr) (by simp),
        unwrap_group hl hr hne hnested.round_of_proper, hexpression ctx hctx hstop]

section Statements

variable {source head tail : String} {p : ParsedStatement} {s : CreateIndex} {b : List Char}

/-- A text that is one statement is filled by the tokens of it. -/
theorem exists_fills_of_parseSource (h : parseSource source head = .ok [p]) (htext : p.text = head) :
    ∃ ts stop, Fills head.toList ts ∧ StaysTogether 0 ts ∧ stop.kind = .eof ∧
      Parser.statement.run ⟨source, head.toList, ts, stop⟩ ts = .ok (p.statement, []) := by
  obtain ⟨raws, hraws, hs⟩ := parseSource_eq_ok_iff.1 h
  obtain ⟨raw, hmem, hraw⟩ := exists_of_mem_forall₂ hs (List.mem_singleton_self p)
  obtain ⟨_, _, _, -, -, hstop⟩ := exists_stop_of_splitText hraws hmem
  have hwhole : raw.text head.toList = head.toList := by
    rw [← String.toList_ofList (l := raw.text _), ← text_of_parseRaw hstop.kind_stop hraw, htext]
  obtain ⟨hfills, htogether⟩ := fills_of_splitText hraws hmem hwhole
  refine ⟨raw.tokens, raw.stop, hfills, htogether, hstop.kind_stop, ?_⟩
  rw [parseRaw_eq hstop.kind_stop] at hraw
  cases hrun : Parser.statement.run ⟨source, head.toList, raw.tokens, raw.stop⟩ raw.tokens with
  | error e =>
    rw [hrun] at hraw
    cases hraw
  | ok o =>
    obtain ⟨s, rest⟩ := o
    obtain rfl := Parser.rest_of_run_statement htogether.kinds hrun
    rw [hrun] at hraw
    cases hraw
    rfl

/-- A statement of an index is read in any text that goes on with an end. -/
theorem exists_reads_createIndex (h : parseSource source head = .ok [p])
    (hindex : p.statement = .createIndex s) (htext : p.text = head) (hb : Ends b)
    (hhead : b.head? ≠ some '-') :
    ∃ ts after, Reads (Scanner.start (head.toList ++ b)) ts after ∧ after.rest = b ∧
      StaysTogether 0 ts ∧ ∀ stop : Token, stop.kind = .eof →
        Parser.statement.run ⟨source, head.toList ++ b, ts, stop⟩ ts = .ok (.createIndex s, []) := by
  obtain ⟨us, stop, hfills, htogether, hstop, hrun⟩ := exists_fills_of_parseSource h htext
  obtain ⟨ts, after, hreads, hrest, -, hmoves⟩ :=
    hfills.extend (s := Scanner.start (head.toList ++ b)) rfl hb fun _ => hhead
  refine ⟨ts, after, hreads, hrest, htogether.congr (hmoves.flip.imp fun _ _ h => h.kind.symm), ?_⟩
  intro stop' hstop'
  let C : Cut := ⟨⟨source, head.toList ++ b, ts, stop'⟩, ⟨source, head.toList, us, stop⟩, [], b, rfl,
    hmoves, hstop', hstop⟩
  have hmatches := Parser.agree_statement C.rows
  have hpart : Parser.statement.run C.part C.part.tokens = .ok (.createIndex s, []) := hindex ▸ hrun
  rw [hpart] at hmatches
  show Parser.statement.run C.whole C.whole.tokens = _
  generalize Parser.statement.run C.whole C.whole.tokens = x at hmatches ⊢
  cases hmatches with
  | ok value hrest =>
    obtain rfl := List.forall₂_nil_right_iff.1 hrest
    cases value
    rfl

theorem exists_parseSource_restricted (h : parseSource source head = .ok [p])
    (hindex : p.statement = .createIndex s) (hnone : s.predicate = none) (htext : p.text = head)
    (htail : WritesPredicate x tail.toList) :
    ∃ q, parseSource source (head ++ " WHERE " ++ tail) = .ok [q] ∧
      q.statement = .createIndex { s with predicate := some x } := by
  have hlist : (head ++ " WHERE " ++ tail).toList =
      head.toList ++ ' ' :: (Token.Keyword.WHERE.display.toList ++ ' ' :: tail.toList) := by
    have hword : " WHERE ".toList = ' ' :: (Token.Keyword.WHERE.display.toList ++ [' ']) := by
      decide +kernel
    simp [hword]
  obtain ⟨ts, s₁, hreads₁, hrest₁, htogether, hrun⟩ :=
    exists_reads_createIndex h hindex htext (.blank (c := ' ') (by decide)
      (Token.Keyword.WHERE.display.toList ++ ' ' :: tail.toList)) (by simp)
  rw [← hlist] at hreads₁ hrun
  have hword : Spells s₁.rest [.keyword .WHERE] (' ' :: tail.toList) :=
    hrest₁ ▸ (Spells.keyword (breaks_mark (by decide) _) (by decide +kernel) (.done _)).of_blank
      (by simp)
  obtain ⟨w, s₂, hreads₂, hw, hrest₂⟩ := hword.reads_one
  have hblank : (s₂.advance 1).rest = tail.toList := by
    rw [Scanner.rest_advance, hrest₂]
    rfl
  have hreading := hreads₂.reading (hreads₁.reading (Scanner.reading_start _))
  obtain ⟨us, s₃, hreads₃, hnil, hne, hsemicolon, hpredicate⟩ :=
    htail (hreading.advance 1) hblank
  have hfills : Fills (head ++ " WHERE " ++ tail).toList (ts ++ ([w] ++ us)) :=
    ⟨s₃, hreads₁.append (hreads₂.append (hreads₃.of_blank hne hrest₂ (by decide))), hnil⟩
  obtain ⟨stop, htokens, hstop⟩ := hfills.exists_tokenize source
  have hmore : StaysTogether (ts.foldl depthAfter 0) ([w] ++ us) := by
    refine .of_forall (fun t ht => ⟨?_, ?_⟩) _
    · exact hfills.kinds t (List.mem_append_right _ ht)
    · rcases List.mem_cons.1 ht with rfl | ht
      · exact fun hk => Kind.noConfusion (hw.symm.trans hk)
      · exact hsemicolon t ht
  refine parseSource_single_ok (P := (· = .createIndex { s with predicate := some x })) htokens hstop
    (by simp) (htogether.append hmore) fun stop' hstop' => ⟨_, ?_, rfl⟩
  let K : Sequel := ⟨⟨source, (head ++ " WHERE " ++ tail).toList, ts, stop'⟩,
    ⟨source, (head ++ " WHERE " ++ tail).toList, ts ++ ([w] ++ us), stop'⟩, w, us, hw, hstop', hstop',
    rfl, rfl⟩
  exact K.leads_statement (hpredicate K.there rfl hstop') (hrun stop' hstop')
    (.createIndex ⟨hnone, rfl⟩)

/-- An index has the same predicate whether it is written in parentheses or not: the expression that its
text is by itself. -/
theorem predicate_in_parentheses {e : String} (h : parseSource source head = .ok [p])
    (hindex : p.statement = .createIndex s) (hnone : s.predicate = none) (htext : p.text = head)
    (hparsed : parseExpression e = .ok x) (hwhole : x.text = e) (hkinds : HasKinds e ks)
    (hnested : Nested .proper ks) (hsemicolon : Kind.semicolon ∉ ks)
    (hgroup : ∀ inner, ks = .leftParen :: (inner ++ [.rightParen]) → ¬Nested .proper inner) :
    (∃ q, parseSource source (head ++ " WHERE " ++ e) = .ok [q] ∧
      q.statement = .createIndex { s with predicate := some x }) ∧
    ∃ q, parseSource source (head ++ " WHERE (" ++ e ++ ")") = .ok [q] ∧
      q.statement = .createIndex { s with predicate := some x } := by
  subst hwhole
  obtain ⟨hbare, hgrouped⟩ := writesPredicate hparsed hkinds hnested hsemicolon hgroup
  refine ⟨exists_parseSource_restricted h hindex hnone htext hbare, ?_⟩
  have hopen : head ++ " WHERE (" ++ x.text ++ ")" = head ++ " WHERE " ++ ("(" ++ x.text ++ ")") := by
    rw [show " WHERE (" = " WHERE " ++ "(" from rfl]
    simp only [String.append_assoc]
  rw [hopen]
  refine exists_parseSource_restricted h hindex hnone htext ?_
  rw [String.toList_append, String.toList_append]
  exact hgrouped

def plainIndex : CreateIndex where
  name := some "i"
  ifNotExists := false
  unique := true
  concurrently := false
  only := false
  table := ⟨none, "t"⟩
  using? := some "btree"
  elements := [⟨⟨"lower(a)", none, ["a"]⟩, none, none, none, none, none⟩,
    ⟨⟨"b + 1", none, ["b"]⟩, none, none, none, some .desc, none⟩]
  included := ["c"]
  nullsNotDistinct := false
  predicate := none

def plainIndexText : String :=
  "CREATE UNIQUE INDEX i ON t USING btree (lower(a), (b + 1) DESC) INCLUDE (c)"

/-- Two groups in a row, which are no group together. -/
def groupsKinds : List Kind :=
  [.leftParen, .identifier "a", .rightParen, .keyword .OR, .leftParen, .identifier "b", .leftBracket,
    .number "1", .rightBracket, .operator ">", .string ")", .rightParen]

theorem predicate_in_parentheses_groups :
    let x : Expression := ⟨"(a) OR (b[1] > ')')", none, ["a", "b"]⟩
    (∃ p, parseSource "t.sql" plainIndexText = .ok [p] ∧ p.statement = .createIndex plainIndex ∧
      p.text = plainIndexText) ∧
    parseExpression "(a) OR (b[1] > ')')" = .ok x ∧ HasKinds "(a) OR (b[1] > ')')" groupsKinds ∧
    Nested .proper groupsKinds ∧ Kind.semicolon ∉ groupsKinds ∧
    (∀ inner, groupsKinds = .leftParen :: (inner ++ [.rightParen]) → ¬Nested .proper inner) ∧
    (∃ q, parseSource "t.sql" (plainIndexText ++ " WHERE " ++ "(a) OR (b[1] > ')')") = .ok [q] ∧
      q.statement = .createIndex { plainIndex with predicate := some x }) ∧
    ∃ q, parseSource "t.sql" (plainIndexText ++ " WHERE (" ++ "(a) OR (b[1] > ')')" ++ ")") = .ok [q] ∧
      q.statement = .createIndex { plainIndex with predicate := some x } := by
  intro x
  have hplain : (parseSource "t.sql" plainIndexText).toOption.map
      (·.map fun p => (p.statement, p.text)) =
        some [(.createIndex plainIndex, plainIndexText)] := by decide +kernel
  obtain ⟨ps, h, hps⟩ := exists_ok_of_map_toOption hplain
  obtain ⟨p, _, rfl, hp, hnil⟩ := List.map_eq_cons_iff.1 hps
  obtain rfl := List.map_eq_nil_iff.1 hnil
  obtain ⟨hindex, htext⟩ := Prod.mk.inj hp
  have hoption : (parseExpression "(a) OR (b[1] > ')')").toOption.map id = some x := by decide +kernel
  obtain ⟨_, hparsed, rfl⟩ := exists_ok_of_map_toOption hoption
  have hkinds : HasKinds "(a) OR (b[1] > ')')" groupsKinds := by decide +kernel
  have hgroup : ∀ inner, groupsKinds = .leftParen :: (inner ++ [.rightParen]) →
      ¬Nested .proper inner := by
    intro inner hinner
    have hsame : inner = groupsKinds.tail.dropLast := by simp [hinner]
    rw [hsame]
    decide
  exact ⟨⟨p, h, hindex, htext⟩, hparsed, hkinds, by decide, by decide, hgroup,
    predicate_in_parentheses h hindex rfl htext hparsed rfl hkinds (by decide) (by decide) hgroup⟩

end Statements

end Grammar

end DdlCatalog
