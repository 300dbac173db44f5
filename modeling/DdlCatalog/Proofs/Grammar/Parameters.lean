import DdlCatalog.Grammar.Routine
import DdlCatalog.Proofs.Grammar.DefaultText
import DdlCatalog.Proofs.Grammar.TypeDisplay

/-! # Lists of parameters
A parameter with a name is told from one that is a type alone: a name by itself is read as a type, but
the type behind it ends no parameter. -/

namespace DdlCatalog.Grammar

open Token (Kind Keyword Reads Scanner Spells Breaks Fills Ends IsWord IsLowerWord breaks_mark)

/-- A parameter and how it is written. The mode may be left out, and the letters of the name may be of
either case. -/
structure WrittenParameter where
  mode : Option ParameterMode
  name : Option String
  type : TypeRef
  default : Option Expression

def modeWord : ParameterMode → Keyword
  | .input => .IN
  | .output => .OUT
  | .both => .INOUT
  | .variadic => .VARIADIC

/-- Types that are read from names without quotes, in ASCII, of which the first is no keyword but that
of a time. -/
def IsParameterType (t : TypeRef) : Prop :=
  ∃ text tokens n, Token.tokenize anonymousSource text.toList = .ok tokens ∧
    parseType text = .ok (t, n) ∧ (∀ u ∈ tokens.take n, u.kind.IsPlainName) ∧
    ∀ first ∈ tokens.head?, ∀ k, first.kind = .keyword k → k = .TIME ∨ k = .TIMESTAMP

namespace WrittenParameter

def parameter (p : WrittenParameter) : Parameter :=
  ⟨p.mode.getD .input, p.name.map Text.lower, p.type, p.default⟩

def text (p : WrittenParameter) : String :=
  p.mode.elim "" (fun mode => (modeWord mode).display ++ " ") ++ p.name.elim "" (· ++ " ") ++
    toString p.type ++ p.default.elim "" fun e => " " ++ Keyword.DEFAULT.display ++ " " ++ e.text

/-- A name that is a word, but no keyword, a type whose first word is none either, and a default that is
all of its text. -/
structure Plain (p : WrittenParameter) : Prop where
  name : ∀ name ∈ p.name, IsWord name.toList ∧ Keyword.ofWord? (Text.lower name) = none
  type : IsParameterType p.type
  default : ∀ e ∈ p.default, parseExpression e.text = .ok e

end WrittenParameter

/-- Tokens that the type of a parameter begins with. -/
def beginsType : Kind → Bool
  | .identifier _ | .keyword .TIME | .keyword .TIMESTAMP => true
  | _ => false

theorem not_continuesType_of_beginsType {k : Kind} (h : beginsType k = true) :
    continuesType k = false := by
  unfold beginsType at h
  split at h <;> first | rfl | cases h

theorem not_continuesType_of_endsParameter {t : Token} (h : endsParameter t = true) :
    continuesType t.kind = false := by
  unfold endsParameter at h
  split at h <;> first | (next hk => rw [hk]; rfl) | cases h

theorem not_endsParameter_of_beginsType {t : Token} (h : beginsType t.kind = true) :
    endsParameter t = false := by
  unfold beginsType at h
  split at h <;> first | (next hk => simp [endsParameter, hk]) | cases h

theorem firstWord_of_schema {t : TypeRef} {schema : String} (h : t.schema = some schema) :
    firstWord t = schema := by
  rw [firstWord, h]
  rfl

/-- A name in front of what a phrase may add to it. -/
theorem ModifierPhrase.firstWord {name : String} {ks : List Kind} {t : TypeRef}
    (h : ModifierPhrase (TypeRef.ofName name) ks t) (hname : IsLowerWord name) :
    firstWord t = name := by
  obtain ⟨hschema, -, hnamed⟩ := h.named rfl
  obtain ⟨schema, _, p, s, dims⟩ := t
  obtain rfl : schema = none := hschema
  rcases hnamed with rfl | ⟨-, _, zone, -, rfl⟩
  · exact firstWord_word hname p s dims
  · exact firstWord_words hname zone p s dims

/-- A type is shown with the word in front that it was read from, or with a word that is no keyword. -/
theorem TypePhrase.beginsType {k : Kind} {ks : List Kind} {t : TypeRef} (h : TypePhrase (k :: ks) t)
    (hname : ∀ name, k.name? = some name → IsLowerWord name ∧ k = Kind.ofWord name)
    (hk : beginsType k = true) : beginsType (Kind.ofWord (firstWord t)) = true := by
  cases h with
  | name word rest =>
    obtain ⟨hlower, hkind⟩ := hname _ word
    rwa [rest.firstWord hlower, ← hkind]
  | qualified word _ rest =>
    rwa [firstWord_of_schema (rest.named rfl).1, ← (hname _ word).2]
  | folded _ pair rest =>
    obtain ⟨hschema, -, hfolded⟩ := rest.named_of_folded pair
    obtain ⟨shown, -, rfl, hword, -, -, hidentifier⟩ := exists_shown_of_folded pair
    obtain ⟨_, _, p, s, dims⟩ := t
    subst hschema hfolded
    rw [firstWord_words hword, hidentifier]
    rfl

theorem TypePhrase.exists_name {k : Kind} {ks : List Kind} {t : TypeRef}
    (h : TypePhrase (k :: ks) t) : ∃ name, k.name? = some name := by
  cases h with
  | name word | qualified word => exact ⟨_, word⟩
  | folded word => exact ⟨_, name?_of_word? word⟩

theorem beginsType_of_plain {k : Kind} {name : String} (hname : k.name? = some name)
    (hplain : k.IsPlainName) (hk : ∀ word, k = .keyword word → word = .TIME ∨ word = .TIMESTAMP) :
    beginsType k = true := by
  cases k with
  | identifier => rfl
  | keyword word => rcases hk word rfl with rfl | rfl <;> rfl
  | quotedIdentifier => exact nomatch (hplain name hname).1
  | _ => cases hname

/-- The text of such a type is a phrase of it, and begins like the type of a parameter. -/
theorem IsParameterType.plainType {t : TypeRef} (h : IsParameterType t) :
    PlainType t ∧ beginsType (Kind.ofWord (firstWord t)) = true := by
  obtain ⟨text, tokens, n, htokens, hparsed, hplain, hfirst⟩ := h
  obtain ⟨ts, stop, rfl, hstop⟩ := Token.exists_stop_of_tokenize htokens
  obtain ⟨s, hreads, -⟩ := Reads.of_tokens (Token.tokens_of_tokenize htokens)
  have hplain' : ∀ u ∈ ts.take n, u.kind.IsPlainName := fun u hu =>
    hplain u (List.take_append ▸ List.mem_append_left _ hu)
  refine ⟨plainType_of_parseType htokens hstop hparsed hplain', ?_⟩
  have hphrase := exists_phrase_of_parseType htokens hstop hparsed
  cases hfront : ts.take n with
  | nil =>
    rw [hfront] at hphrase
    cases hphrase
  | cons first front =>
    have hmem : first ∈ ts.take n := by simp [hfront]
    have hhead : first ∈ (ts ++ [stop]).head? := by
      rw [← List.take_append_drop n ts, hfront]
      rfl
    rw [hfront, List.map_cons] at hphrase
    obtain ⟨name, hname⟩ := hphrase.exists_name
    exact hphrase.beginsType
      (fun name => hreads.isLowerWord first (List.mem_of_mem_take hmem) (hplain' first hmem))
      (beginsType_of_plain hname (hplain' first hmem) (hfirst first hhead))

section Expressions

variable {us rest : List Token} {stop close : Token} {previous : Option Token} {depth : Nat}
  {x : Expression} {text back : List Char} {s : Scanner}

theorem expressionLength_append {stop' : Token} {previous' : Option Token}
    (hus : expressionLength neverStops stop' previous' depth us = .ok us.length)
    (hrest : ∀ previous, expressionLength neverStops stop previous 0 rest = .ok 0) :
    expressionLength neverStops stop previous depth (us ++ rest) = .ok us.length := by
  induction us generalizing depth previous previous' with
  | nil =>
    rw [expressionLength] at hus
    split at hus
    · next hdepth => rw [hdepth]; exact hrest previous
    · cases hus
  | cons t us ih =>
    rcases expressionLength_cons hus with ⟨hzero, -⟩ | ⟨m, d, hm, hpasses, hmore⟩
    · cases hzero
    · obtain rfl : us.length = m := Nat.succ.inj hm
      rw [List.cons_append, hpasses.expressionLength_eq, ih hmore]
      rfl

theorem IsExpression.expressionLength_eq (h : IsExpression us)
    (hclose : close.kind = .comma ∨ close.kind = .rightParen) :
    expressionLength neverStops stop none 0 (us ++ close :: rest) = .ok us.length := by
  refine expressionLength_append (h stop) fun previous => ?_
  unfold expressionLength
  rcases hclose with hk | hk <;> rw [hk]

/-- The text of an expression is read as the expression wherever a comma or a closing parenthesis
follows. -/
theorem exists_reads_expression (hparsed : parseExpression x.text = .ok x) (hs : s.Reading text)
    (hrest : s.rest = x.text.toList ++ back) (hends : Ends back) (hhead : back.head? ≠ some '-') :
    ∃ us s', Reads s us s' ∧ s'.rest = back ∧ us ≠ [] ∧ IsExpression us ∧
      HasKinds x.text (us.map (·.kind)) ∧
      ∀ ctx : Context, ctx.text = text → ctx.stop.kind = .eof → ctx.expression us = x := by
  obtain ⟨us, stop, htokens, hstop, hne, hwhole, hx⟩ := exists_tokens_of_parseExpression hparsed
  have htext := (congrArg Expression.text hx).symm
  obtain ⟨us', s', hreads, hrest', -, hmoves⟩ :=
    (fills_of_textOf htokens hne htext).extend hrest hends fun _ => hhead
  obtain ⟨front, htext', hmark⟩ := hs
  rw [hmark, Text.Mark.offset_past_start] at hmoves
  have hkinds := Token.map_kind_of_moves hmoves
  refine ⟨us', s', hreads, hrest', ?_, hwhole.congr hkinds.symm, ?_, fun ctx hctx hctxstop => ?_⟩
  · rintro rfl
    exact hne (List.forall₂_nil_left_iff.1 hmoves)
  · rw [hkinds]
    exact .of_tokenize htokens hstop
  · let C : Cut := ⟨⟨ctx.source, text, us', ctx.stop⟩, ⟨anonymousSource, x.text.toList, us, stop⟩, front,
      back, by rw [htext', hrest, List.append_assoc], hmoves, hctxstop, hstop⟩
    have hcut : ctx.textOf us' = x.text := by
      subst hctx
      exact C.rows.textOf.trans htext
    rw [expression_congr (hcut.trans htext.symm) hkinds, ← hx]

end Expressions

namespace Parser

variable {ctx : Context} {ts us rest : List Token} {n close : Token} {t : TypeRef} {x : Expression}

theorem run_parameterMode {mode : Option ParameterMode}
    (hts : ts.map (·.kind) = mode.toList.map fun m => .keyword (modeWord m))
    (hnext : ∀ m, (ctx.current rest).kind ≠ .keyword (modeWord m)) :
    parameterMode.run ctx (ts ++ rest) = .ok (mode.getD .input, rest) := by
  cases mode with
  | none =>
    obtain rfl := List.map_eq_nil_iff.1 hts
    exact (run_choice_of_ne (hnext .input)).trans <| (run_choice_of_ne (hnext .output)).trans <|
      (run_choice_of_ne (hnext .both)).trans <| run_choice_of_ne (hnext .variadic)
  | some m =>
    obtain ⟨t, _, rfl, ht, hnil⟩ := List.map_eq_cons_iff.1 hts
    obtain rfl := List.map_eq_nil_iff.1 hnil
    have hne (k : Keyword) (hk : k ≠ modeWord m) :
        (ctx.current ([t] ++ rest)).kind ≠ .keyword k := by
      rintro heq
      exact hk (Kind.keyword.inj (heq.symm.trans ht))
    cases m with
    | input => exact run_choice_of_eq ht
    | output => exact (run_choice_of_ne (hne .IN (by decide))).trans <| run_choice_of_eq ht
    | both =>
      exact (run_choice_of_ne (hne .IN (by decide))).trans <|
        (run_choice_of_ne (hne .OUT (by decide))).trans <| run_choice_of_eq ht
    | variadic =>
      exact (run_choice_of_ne (hne .IN (by decide))).trans <|
        (run_choice_of_ne (hne .OUT (by decide))).trans <|
        (run_choice_of_ne (hne .INOUT (by decide))).trans <| run_choice_of_eq ht

/-- A type that ends the parameter has no name in front. -/
theorem run_parameterType_unnamed (hstop : ctx.stop.kind = .eof)
    (h : TypePhrase (ts.map (·.kind)) t) (hends : endsParameter (ctx.current rest) = true) :
    parameterType.run ctx (ts ++ rest) = .ok ((none, t), rest) := by
  have htype := run_typeRef_of_phrase hstop h (not_continuesType_of_endsParameter hends)
  have honly : (onlyBefore typeRef endsParameter).run ctx (ts ++ rest) = .ok (some t, rest) := by
    rw [run_onlyBefore, htype]
    exact if_pos hends
  rw [parameterType, run_bind_of_ok honly]
  rfl

/-- A name is a type as well, but it does not end the parameter if a type stands behind it. -/
theorem run_parameterType_named {name : String} (hstop : ctx.stop.kind = .eof)
    (hn : n.kind = .identifier name) (h : TypePhrase (ts.map (·.kind)) t)
    (hfirst : beginsType (ctx.current (ts ++ rest)).kind = true)
    (hends : endsParameter (ctx.current rest) = true) :
    parameterType.run ctx (n :: (ts ++ rest)) = .ok ((some name, t), rest) := by
  have hword : TypePhrase ([n].map (·.kind)) (TypeRef.ofName name) :=
    .name (congrArg Kind.name? hn) (.plain (.plain (.brackets .nil)))
  have hname : typeRef.run ctx (n :: (ts ++ rest)) = .ok (TypeRef.ofName name, ts ++ rest) :=
    run_typeRef_of_phrase hstop hword (not_continuesType_of_beginsType hfirst)
  have honly : (onlyBefore typeRef endsParameter).run ctx (n :: (ts ++ rest)) =
      .ok (none, n :: (ts ++ rest)) := by
    rw [run_onlyBefore, hname]
    exact if_neg (by simp [not_endsParameter_of_beginsType hfirst])
  have htype := run_typeRef_of_phrase hstop h (not_continuesType_of_endsParameter hends)
  rw [parameterType, run_bind_of_ok honly]
  refine (run_bind_of_ok (run_name_of_some (by rw [Token.name?, hn]; rfl))).trans ?_
  exact run_bind_of_ok htype

theorem run_parameterDefault_none (hclose : close.kind = .comma ∨ close.kind = .rightParen) :
    parameterDefault.run ctx (close :: rest) = .ok (none, close :: rest) := by
  have hne (k : Kind) (hk : k ≠ .comma) (hk' : k ≠ .rightParen) :
      (ctx.current (close :: rest)).kind ≠ k := by
    rintro rfl
    exact hclose.elim hk hk'
  exact (run_choice_of_ne (hne _ (by simp) (by simp))).trans <|
    run_choice_of_ne (hne _ (by simp) (by simp))

theorem run_parameterDefault_some (hn : n.kind = .keyword .DEFAULT) (hne : us ≠ [])
    (hus : IsExpression us) (hclose : close.kind = .comma ∨ close.kind = .rightParen) :
    parameterDefault.run ctx (n :: (us ++ close :: rest)) =
      .ok (some (ctx.expression us), close :: rest) := by
  have hrun : (expression neverStops).run ctx (us ++ close :: rest) =
      .ok (ctx.expression us, close :: rest) :=
    run_expression_of_length hne (hus.expressionLength_eq hclose)
  exact (run_choice_of_eq hn).trans (run_bind_of_ok hrun)

theorem run_parameter {p : WrittenParameter} {ms ns rest' : List Token} (hstop : ctx.stop.kind = .eof)
    (hms : ms.map (·.kind) = p.mode.toList.map fun m => .keyword (modeWord m))
    (hns : ns.map (·.kind) = p.name.toList.map fun name => .identifier (Text.lower name))
    (h : TypePhrase (ts.map (·.kind)) p.type)
    (hfirst : beginsType (ctx.current (ts ++ rest)).kind = true)
    (hends : endsParameter (ctx.current rest) = true)
    (hdefault : parameterDefault.run ctx rest = .ok (p.default, rest')) :
    parameter.run ctx (ms ++ (ns ++ (ts ++ rest))) = .ok (p.parameter, rest') := by
  have htype : parameterType.run ctx (ns ++ (ts ++ rest)) =
      .ok ((p.name.map Text.lower, p.type), rest) ∧
      ∀ m, (ctx.current (ns ++ (ts ++ rest))).kind ≠ .keyword (modeWord m) := by
    cases hname : p.name with
    | none =>
      rw [hname] at hns
      obtain rfl := List.map_eq_nil_iff.1 hns
      refine ⟨run_parameterType_unnamed hstop h hends, fun m hm => ?_⟩
      rw [List.nil_append] at hm
      rw [hm] at hfirst
      cases m <;> cases hfirst
    | some name =>
      rw [hname] at hns
      obtain ⟨n, _, rfl, hn, hnil⟩ := List.map_eq_cons_iff.1 hns
      obtain rfl := List.map_eq_nil_iff.1 hnil
      exact ⟨run_parameterType_named hstop hn h hfirst hends,
        fun m hm => Kind.noConfusion (hn.symm.trans hm)⟩
  rw [parameter, run_bind_of_ok (run_parameterMode hms htype.2), run_bind_of_ok htype.1]
  exact run_bind_of_ok hdefault

theorem current_parameter_ne {mode : Option ParameterMode} {name : Option String} {ms ns : List Token}
    (hms : ms.map (·.kind) = mode.toList.map fun m => .keyword (modeWord m))
    (hns : ns.map (·.kind) = name.toList.map fun name => .identifier (Text.lower name))
    (hfirst : beginsType (ctx.current rest).kind = true) :
    (ctx.current (ms ++ (ns ++ rest))).kind ≠ .rightParen := by
  cases mode with
  | some m =>
    obtain ⟨t, _, rfl, ht, -⟩ := List.map_eq_cons_iff.1 hms
    exact fun h => Kind.noConfusion (ht.symm.trans h)
  | none =>
    obtain rfl := List.map_eq_nil_iff.1 hms
    cases name with
    | some n =>
      obtain ⟨t, _, rfl, ht, -⟩ := List.map_eq_cons_iff.1 hns
      exact fun h => Kind.noConfusion (ht.symm.trans h)
    | none =>
      obtain rfl := List.map_eq_nil_iff.1 hns
      rintro (h : (ctx.current rest).kind = _)
      rw [h] at hfirst
      cases hfirst

end Parser

section Texts

variable {p : WrittenParameter} {ps : List WrittenParameter} {rest left text back : List Char}
  {us : List Kind} {s : Scanner} {c : Char}

theorem spells_mode (mode : Option ParameterMode) (hne : us ≠ []) (more : Spells rest us left) :
    Spells ((mode.elim "" fun m => (modeWord m).display ++ " ").toList ++ rest)
      (mode.toList.map (fun m => .keyword (modeWord m)) ++ us) left := by
  cases mode with
  | none => exact more
  | some m =>
    have hword : IsWord (modeWord m).display.toList ∧
        Kind.ofWord (Text.lower (modeWord m).display) = .keyword (modeWord m) := by
      cases m <;> decide +kernel
    have hspells := Spells.keyword (breaks_mark (by decide) _) hword (more.of_blank hne)
    simpa using hspells

theorem spells_name {name : Option String}
    (hname : ∀ n ∈ name, IsWord n.toList ∧ Keyword.ofWord? (Text.lower n) = none) (hne : us ≠ [])
    (more : Spells rest us left) :
    Spells ((name.elim "" (· ++ " ")).toList ++ rest)
      (name.toList.map (fun n => .identifier (Text.lower n)) ++ us) left := by
  cases name with
  | none => exact more
  | some n =>
    obtain ⟨hword, hnone⟩ := hname n rfl
    have hkind : Kind.ofWord (Text.lower n) = .identifier (Text.lower n) := by
      rw [Kind.ofWord, hnone]
    have hspells := Spells.word hword (breaks_mark (by decide) _) (more.of_blank hne)
    rw [String.ofList_toList, hkind] at hspells
    simpa using hspells

theorem WrittenParameter.Plain.exists_phrase (hp : p.Plain) (hrest : Breaks rest)
    (more : Spells rest us left) :
    ∃ ks, TypePhrase ks p.type ∧ (∀ k ∈ ks.head?, beginsType k = true) ∧
      Spells ((p.mode.elim "" (fun mode => (modeWord mode).display ++ " ") ++
          p.name.elim "" (· ++ " ") ++ toString p.type).toList ++ rest)
        (p.mode.toList.map (fun m => .keyword (modeWord m)) ++
          (p.name.toList.map (fun name => .identifier (Text.lower name)) ++ (ks ++ us))) left := by
  obtain ⟨hplain, hbegins⟩ := hp.type.plainType
  obtain ⟨ks, hphrase, hspells⟩ := hplain.exists_phrase
  refine ⟨_, hphrase, ?_, ?_⟩
  · rintro k ⟨⟩
    exact hbegins
  · have hwhole := spells_mode p.mode (by simp)
      (spells_name hp.name (by simp) (hspells hrest more))
    simpa using hwhole

theorem ends_mark (hc : c = ',' ∨ c = ')') (rest : List Char) :
    Ends (c :: rest) ∧ Breaks (c :: rest) ∧ c ≠ '-' := by
  rcases hc with rfl | rfl
  · exact ⟨.comma rest, .cons (by decide +kernel), by decide⟩
  · exact ⟨.rightParen rest, .cons (by decide +kernel), by decide⟩

theorem endsParameter_of_close {close : Token}
    (hclose : close.kind = .comma ∨ close.kind = .rightParen) : endsParameter close = true := by
  unfold endsParameter
  rcases hclose with hk | hk <;> rw [hk]

theorem exists_reads_default {default : Option Expression}
    (hdefault : ∀ e ∈ default, parseExpression e.text = .ok e) (hs : s.Reading text)
    (hrest : s.rest = (default.elim "" fun e =>
      " " ++ Keyword.DEFAULT.display ++ " " ++ e.text).toList ++ c :: back)
    (hc : c = ',' ∨ c = ')') :
    ∃ ds s', Reads s ds s' ∧ s'.rest = c :: back ∧
      ∀ ctx : Context, ctx.text = text → ctx.stop.kind = .eof →
        ∀ close more, close.kind = .comma ∨ close.kind = .rightParen →
          endsParameter (ctx.current (ds ++ close :: more)) = true ∧
          Parser.parameterDefault.run ctx (ds ++ close :: more) = .ok (default, close :: more) := by
  obtain ⟨hends, -, hhead⟩ := ends_mark hc back
  cases default with
  | none =>
    refine ⟨[], s, .nil s, hrest, fun ctx _ _ close more hclose => ?_⟩
    exact ⟨endsParameter_of_close hclose, Parser.run_parameterDefault_none hclose⟩
  | some e =>
    have hspells : Spells s.rest [.keyword .DEFAULT] (' ' :: (e.text.toList ++ c :: back)) := by
      have hword := (Spells.keyword (k := .DEFAULT) (breaks_mark (by decide) _) (by decide +kernel)
        (.done (' ' :: (e.text.toList ++ c :: back)))).of_blank (by simp)
      rw [hrest]
      simpa using hword
    obtain ⟨d, s₁, hreads, hd, hrest₁⟩ := hspells.reads_one
    have hblank : (s₁.advance 1).rest = e.text.toList ++ c :: back := by
      rw [Scanner.rest_advance, hrest₁]
      rfl
    obtain ⟨us, s', hreads', hrest', hne, hwhole, -, hexpression⟩ :=
      exists_reads_expression (hdefault e rfl) ((hreads.reading hs).advance 1) hblank hends
        fun h => hhead (Option.some.inj h)
    refine ⟨[d] ++ us, s', hreads.append (hreads'.of_blank hne hrest₁ (by decide)), hrest', ?_⟩
    intro ctx hctx hstop close more hclose
    refine ⟨by simp [Context.current, endsParameter, hd], ?_⟩
    rw [← hexpression ctx hctx hstop]
    exact Parser.run_parameterDefault_some hd hne hwhole hclose

theorem exists_reads_parameter (hp : p.Plain) (hs : s.Reading text)
    (hrest : s.rest = p.text.toList ++ c :: back) (hc : c = ',' ∨ c = ')') :
    ∃ ts s', Reads s ts s' ∧ s'.rest = c :: back ∧ ts ≠ [] ∧
      ∀ ctx : Context, ctx.text = text → ctx.stop.kind = .eof →
        ∀ close more, close.kind = .comma ∨ close.kind = .rightParen →
          (ctx.current (ts ++ close :: more)).kind ≠ .rightParen ∧
          Parser.parameter.run ctx (ts ++ close :: more) = .ok (p.parameter, close :: more) := by
  rw [WrittenParameter.text, String.toList_append, List.append_assoc] at hrest
  have hbreaks : Breaks ((p.default.elim "" fun e =>
      " " ++ Keyword.DEFAULT.display ++ " " ++ e.text).toList ++ c :: back) := by
    cases p.default with
    | none => exact (ends_mark hc back).2.1
    | some e => simpa using breaks_mark (c := ' ') (by decide) _
  obtain ⟨ks, hphrase, hfirst, hspells⟩ := hp.exists_phrase hbreaks (.done _)
  rw [← hrest, List.append_nil] at hspells
  obtain ⟨_, s₁, hreads, hkinds, hrest₁⟩ := hspells.reads
  obtain ⟨ms, _, rfl, hms, hkinds⟩ := List.map_eq_append_iff.1 hkinds
  obtain ⟨ns, ts, rfl, hns, hts⟩ := List.map_eq_append_iff.1 hkinds
  obtain ⟨ds, s', hreads', hrest', hdefault⟩ :=
    exists_reads_default hp.default (hreads.reading hs) hrest₁ hc
  -- the first token of the type
  obtain ⟨t, ts, rfl⟩ : ∃ t ts', ts = t :: ts' := by
    cases ts with
    | nil => exact absurd (hts ▸ hphrase) (by rintro ⟨⟩)
    | cons t ts => exact ⟨t, ts, rfl⟩
  have hbegins : beginsType t.kind = true := hfirst t.kind (by rw [← hts]; rfl)
  refine ⟨_, s', hreads.append hreads', hrest', by simp, fun ctx hctx hstop close more hclose => ?_⟩
  obtain ⟨hends, hrun⟩ := hdefault ctx hctx hstop close more hclose
  simp only [List.append_assoc]
  exact ⟨Parser.current_parameter_ne hms hns hbegins,
    Parser.run_parameter hstop hms hns (hts ▸ hphrase) hbegins hends hrun⟩

def parametersText (ps : List WrittenParameter) : String := ", ".intercalate (ps.map (·.text))

theorem exists_reads_parameters (hp : p.Plain) (hps : ∀ p ∈ ps, p.Plain) (hs : s.Reading text)
    (hrest : s.rest = (parametersText (p :: ps)).toList ++ ')' :: back) :
    ∃ ts s', Reads s ts s' ∧ s'.rest = ')' :: back ∧ ts ≠ [] ∧
      ∀ ctx : Context, ctx.text = text → ctx.stop.kind = .eof →
        ∀ close more, close.kind = .rightParen →
          (ctx.current (ts ++ close :: more)).kind ≠ .rightParen ∧
          (Parser.commaList Parser.parameter).run ctx (ts ++ close :: more) =
            .ok ((p :: ps).map (·.parameter), close :: more) := by
  induction ps generalizing p s with
  | nil =>
    rw [parametersText, List.map_singleton, String.intercalate_singleton] at hrest
    obtain ⟨ts, s', hreads, hrest', hne, hrun⟩ := exists_reads_parameter hp hs hrest (.inr rfl)
    refine ⟨ts, s', hreads, hrest', hne, fun ctx hctx hstop close more hclose => ?_⟩
    obtain ⟨hfirst, hparameter⟩ := hrun ctx hctx hstop close more (.inr hclose)
    refine ⟨hfirst, ?_⟩
    rw [Parser.run_commaList, hparameter]
    exact if_neg (by simp [hclose])
  | cons p' ps ih =>
    obtain ⟨hp', hps⟩ := List.forall_mem_cons.1 hps
    have hsplit : s.rest = p.text.toList ++ ',' :: ' ' ::
        ((parametersText (p' :: ps)).toList ++ ')' :: back) := by
      rw [hrest, parametersText, List.map_cons, List.map_cons, String.intercalate_cons_cons]
      simp [parametersText]
    obtain ⟨ts, s₁, hreads, hrest₁, -, hrun⟩ := exists_reads_parameter hp hs hsplit (.inl rfl)
    have hcomma : Spells s₁.rest [.comma] (' ' :: ((parametersText (p' :: ps)).toList ++ ')' :: back)) :=
      hrest₁ ▸ .mark rfl (by decide) (.done _)
    obtain ⟨c, s₂, hreads₂, hc, hrest₂⟩ := hcomma.reads_one
    obtain ⟨us, s', hreads', hrest', hne, hmore⟩ := ih hp' hps (s := s₂.advance 1)
      ((hreads₂.reading (hreads.reading hs)).advance 1) (by rw [Scanner.rest_advance, hrest₂]; rfl)
    refine ⟨ts ++ ([c] ++ us), s', hreads.append (hreads₂.append (hreads'.of_blank hne hrest₂ (by decide))),
      hrest', by simp, fun ctx hctx hstop close more hclose => ?_⟩
    obtain ⟨hfirst, hparameter⟩ := hrun ctx hctx hstop c (us ++ close :: more) (.inl hc)
    rw [List.append_assoc, List.singleton_append, List.cons_append]
    refine ⟨hfirst, ?_⟩
    rw [Parser.run_commaList, hparameter]
    refine (if_pos hc).trans ?_
    rw [(hmore ctx hctx hstop close more hclose).2]
    rfl

end Texts

/-- Parameters in parentheses are read as they are written, whichever of them have a mode, a name or a
default. -/
theorem parameters_written (source : String) {ps : List WrittenParameter} (h : ∀ p ∈ ps, p.Plain) :
    let text := ("(" ++ parametersText ps ++ ")").toList
    ∃ tokens, Token.tokenize source text = .ok tokens ∧
      Parser.parameters.run (Context.ofTokens source text tokens)
          (Context.ofTokens source text tokens).tokens = .ok (ps.map (·.parameter), []) := by
  intro text
  have hopen : Spells text [.leftParen] ((parametersText ps).toList ++ [')']) := by
    have hspells := Spells.mark (c := '(') rfl (by decide) (.done ((parametersText ps).toList ++ [')']))
    simpa [text] using hspells
  obtain ⟨l, s, hreads, hl, hrest⟩ := hopen.reads_one (s := Scanner.start text)
  have hs := hreads.reading (Scanner.reading_start text)
  -- what stands between the parentheses
  obtain ⟨us, s₁, hreads₁, hrest₁, hrun⟩ : ∃ us s₁, Reads s us s₁ ∧ s₁.rest = [')'] ∧
      ∀ ctx : Context, ctx.text = text → ctx.stop.kind = .eof → ∀ r, r.kind = .rightParen →
        Parser.parameters.run ctx (l :: (us ++ [r])) = .ok (ps.map (·.parameter), []) := by
    cases ps with
    | nil =>
      refine ⟨[], s, .nil s, by simpa [parametersText] using hrest, fun ctx _ _ r hr => ?_⟩
      rw [Parser.parameters, Parser.run_bind_of_ok (Parser.run_expect_of_eq hl)]
      exact Parser.run_choice_of_eq hr
    | cons p ps =>
      obtain ⟨hp, hps⟩ := List.forall_mem_cons.1 h
      obtain ⟨us, s₁, hreads₁, hrest₁, -, hlist⟩ := exists_reads_parameters hp hps hs hrest
      refine ⟨us, s₁, hreads₁, hrest₁, fun ctx hctx hstop r hr => ?_⟩
      obtain ⟨hne, hlist⟩ := hlist ctx hctx hstop r [] hr
      rw [Parser.parameters, Parser.run_bind_of_ok (Parser.run_expect_of_eq hl)]
      refine (Parser.run_choice_of_ne hne).trans ?_
      rw [Parser.run_bind_of_ok hlist, Parser.run_bind_of_ok (Parser.run_expect_of_eq hr)]
      rfl
  have hclose : Spells s₁.rest [.rightParen] [] := hrest₁ ▸ .mark rfl (by decide) (.done [])
  obtain ⟨r, s₂, hreads₂, hr, hrest₂⟩ := hclose.reads_one
  obtain ⟨stop, htokens, hstop⟩ :=
    (show Fills text ([l] ++ (us ++ [r])) from
      ⟨s₂, hreads.append (hreads₁.append hreads₂), hrest₂⟩).exists_tokenize source
  refine ⟨_, htokens, ?_⟩
  rw [Context.ofTokens_of_eof hstop]
  exact hrun _ rfl hstop r hr

theorem parameters_written_defaults :
    let ps : List WrittenParameter :=
      [⟨some .both, some "Total", ⟨none, "numeric", some 10, some 2, []⟩, some ⟨"f(1, ')')", none, []⟩⟩,
        ⟨none, none, ⟨none, "timestamp with time zone", some 3, none, [none]⟩, none⟩]
    let text := ("(" ++ parametersText ps ++ ")").toList
    parametersText ps =
      "INOUT Total numeric(10,2) DEFAULT f(1, ')'), timestamp(3) with time zone[]" ∧
    (∀ p ∈ ps, p.Plain) ∧
    ∃ tokens, Token.tokenize "a.sql" text = .ok tokens ∧
      Parser.parameters.run (Context.ofTokens "a.sql" text tokens)
          (Context.ofTokens "a.sql" text tokens).tokens = .ok (ps.map (·.parameter), []) := by
  intro ps text
  have htype (text : String) (n : Nat) (first : Kind) {t : TypeRef}
      (hparsed : (parseType text).toOption.map id = some (t, n))
      (htokens : (Token.tokenize anonymousSource text.toList).toOption.map (fun tokens =>
        (decide (∀ u ∈ tokens.take n, u.kind.IsPlainName), tokens.head?.map (·.kind))) =
          some (true, some first))
      (hfirst : ∀ k, first = .keyword k → k = .TIME ∨ k = .TIMESTAMP) : IsParameterType t := by
    obtain ⟨_, hparsed, rfl⟩ := exists_ok_of_map_toOption hparsed
    obtain ⟨tokens, htokens, hboth⟩ := exists_ok_of_map_toOption htokens
    obtain ⟨hplain, hhead⟩ := Prod.mk.inj hboth
    refine ⟨text, tokens, n, htokens, hparsed, of_decide_eq_true hplain, fun t ht k hk => ?_⟩
    rw [Option.mem_def.1 ht] at hhead
    exact hfirst k ((Option.some.inj hhead).symm.trans hk)
  have hdefault : (parseExpression "f(1, ')')").toOption.map id = some ⟨"f(1, ')')", none, []⟩ := by
    decide +kernel
  obtain ⟨_, hdefault, rfl⟩ := exists_ok_of_map_toOption hdefault
  have hps : ∀ p ∈ ps, p.Plain := by
    refine List.forall_mem_cons.2 ⟨⟨?_, ?_, ?_⟩, List.forall_mem_singleton.2 ⟨nofun, ?_, nofun⟩⟩
    · rintro name ⟨⟩
      decide +kernel
    · exact htype "Numeric(10, 2)" 6 (.identifier "numeric") (by decide +kernel)
        (by decide +kernel) nofun
    · rintro e ⟨⟩
      exact hdefault
    · exact htype "TIMESTAMP (3) with time zone ARRAY" 8 (.keyword .TIMESTAMP)
        (by decide +kernel) (by decide +kernel) fun k hk => .inr (Kind.keyword.inj hk).symm
  exact ⟨by decide +kernel, hps, parameters_written "a.sql" hps⟩

end DdlCatalog.Grammar
