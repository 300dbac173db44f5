import DdlCatalog.Proofs.Grammar.Forward
import DdlCatalog.Proofs.Grammar.Nesting
import DdlCatalog.Proofs.Statement.Split
import DdlCatalog.Proofs.Token.Tiling

/-! # Texts of one statement
A text whose tokens stay together is one statement, that of all its tokens. -/

namespace DdlCatalog

theorem Token.Kind.isSome_name?_ofWord (word : String) : (ofWord word).name?.isSome = true := by
  unfold ofWord
  split <;> rfl

theorem StaysTogether.cons_name {t : Token} {ts : List Token} {depth : Nat}
    (h : t.kind.name?.isSome = true) (hts : StaysTogether depth ts) : StaysTogether depth (t :: ts) := by
  have hdepth : depthAfter depth t = depth := by
    unfold depthAfter
    split
    · next hk => rw [hk] at h; cases h
    · next hk => rw [hk] at h; cases h
    · rfl
  refine ⟨?_, ?_, hdepth.symm ▸ hts⟩
  · rintro hk
    rw [hk] at h
    cases h
  · rintro ⟨hk, -⟩
    rw [hk] at h
    cases h

/-- Tokens among which is no semicolon stay together, however many parentheses are open. -/
theorem StaysTogether.of_forall {ts : List Token} (h : ∀ t ∈ ts, t.kind ≠ .eof ∧ t.kind ≠ .semicolon)
    (depth : Nat) : StaysTogether depth ts := by
  induction ts generalizing depth with
  | nil => trivial
  | cons t ts ih =>
    obtain ⟨⟨heof, hsemicolon⟩, hts⟩ := List.forall_mem_cons.1 h
    exact ⟨heof, fun h => hsemicolon h.1, ih hts _⟩

namespace Grammar

open Token (Kind)

variable {source text : String} {ks : List Kind} {ts : List Token} {stop : Token}

theorem HasKinds.exists_tokens (h : HasKinds text ks) (source : String) :
    ∃ ts stop, Token.tokenize source text.toList = .ok (ts ++ [stop]) ∧ ts.map (·.kind) = ks ∧
      stop.kind = .eof ∧ ∀ t ∈ ts, t.kind ≠ .eof := by
  unfold HasKinds at h
  cases htokens : Token.tokenize anonymousSource text.toList with
  | error e =>
    rw [htokens] at h
    cases h
  | ok tokens =>
    rw [htokens] at h
    obtain ⟨ts, stop, s, after, rfl, hreads, heof⟩ := Token.exists_reads_of_tokenize htokens
    have hkinds : ts.map (·.kind) ++ [stop.kind] = ks ++ [.eof] := by
      simpa using Option.some.inj h
    obtain ⟨hks, hstop⟩ := List.append_inj' hkinds rfl
    refine ⟨ts, stop, ?_, hks, (List.cons.inj hstop).1, hreads.kinds⟩
    rw [Token.tokenize, Token.tokens_of_tokenize htokens]
    rfl

/-- Tokens in which no statement ends are the tokens of one statement. -/
theorem parseSource_single (htokens : Token.tokenize source text.toList = .ok (ts ++ [stop]))
    (hstop : stop.kind = .eof) (hne : ts ≠ []) (htogether : StaysTogether 0 ts) :
    ∃ raw : RawStatement, raw.tokens = ts ∧ raw.stop.kind = .eof ∧
      parseSource source text = (parseRaw source text.toList raw).map fun p => [p] := by
  obtain ⟨raw, hraw, hts, hkind⟩ := lastStatement_eq hne
  refine ⟨raw, hts, hkind, ?_⟩
  have hsplit : splitText source text.toList = .ok [raw] := by
    rw [splitText, htokens]
    show Except.ok (splitFrom 0 [] (ts ++ [stop])) = _
    rw [htogether.splitFrom_eq hstop, List.nil_append, hraw]
  rw [parseSource, hsplit]
  show List.mapM (parseRaw source text.toList) [raw] = _
  rw [List.mapM_cons, List.mapM_nil]
  cases parseRaw source text.toList raw <;> rfl

/-- What the tokens of one statement are read as is what the text is read as. -/
theorem parseSource_single_ok {P : Statement → Prop}
    (htokens : Token.tokenize source text.toList = .ok (ts ++ [stop])) (hstop : stop.kind = .eof)
    (hne : ts ≠ []) (htogether : StaysTogether 0 ts)
    (hrun : ∀ stop : Token, stop.kind = .eof →
      ∃ s, Parser.statement.run ⟨source, text.toList, ts, stop⟩ ts = .ok (s, []) ∧ P s) :
    ∃ p, parseSource source text = .ok [p] ∧ P p.statement := by
  obtain ⟨raw, rfl, hkind, hparse⟩ := parseSource_single htokens hstop hne htogether
  obtain ⟨s, hs, hp⟩ := hrun raw.stop hkind
  rw [hparse, parseRaw_eq hkind, hs]
  exact ⟨_, rfl, hp⟩

namespace Parser

variable {ctx : Context} {us : List Token} {c w t : Token}

theorem run_keyword_of_ne {k : Token.Keyword} (h : (ctx.current us).kind ≠ .keyword k) :
    (acceptKeyword k).run ctx us = .ok (false, us) :=
  run_accept_of_ne h

theorem run_expectKeyword_of_eq {k : Token.Keyword} (h : t.kind = .keyword k) :
    (expectKeyword k).run ctx (t :: us) = .ok ((), us) := by
  rw [expectKeyword, acceptKeyword, run_choice_of_eq h]
  rfl

theorem run_modifiers_none (h : ∀ k ∈ [Token.Keyword.OR, .TEMPORARY, .TEMP, .UNLOGGED, .UNIQUE],
    (ctx.current us).kind ≠ .keyword k) :
    modifiers.run ctx us = .ok (⟨false, false, false, false⟩, us) := by
  simp only [List.mem_cons, List.not_mem_nil, or_false, forall_eq_or_imp, forall_eq] at h
  obtain ⟨hor, htemporary, htemp, hunlogged, hunique⟩ := h
  have hreplace : orReplace.run ctx us = .ok (false, us) := run_choice_of_ne hor
  have hplain : temporary.run ctx us = .ok (false, us) :=
    (run_choice_of_ne htemporary).trans (run_keyword_of_ne htemp)
  rw [modifiers, run_bind_of_ok hreplace, run_bind_of_ok hplain,
    run_bind_of_ok (run_keyword_of_ne hunlogged), run_bind_of_ok (run_keyword_of_ne hunique)]
  rfl

/-- What is created without words in between is all of the statement. -/
theorem run_statement_created_iff (hstop : ctx.stop.kind = .eof) (hc : c.kind = .keyword .CREATE)
    (hw : ∀ k ∈ [Token.Keyword.OR, .TEMPORARY, .TEMP, .UNLOGGED, .UNIQUE], w.kind ≠ .keyword k)
    {s : Statement} : statement.run ctx (c :: w :: us) = .ok (s, []) ↔
      (created ⟨false, false, false, false⟩).run ctx (w :: us) = .ok (s, []) := by
  have hmodifiers : modifiers.run ctx (w :: us) = .ok (⟨false, false, false, false⟩, w :: us) :=
    run_modifiers_none hw
  have hany : anyStatement.run ctx (c :: w :: us) =
      (created ⟨false, false, false, false⟩).run ctx (w :: us) := by
    rw [anyStatement, run_bind_of_ok run_current]
    have hcurrent : (ctx.current (c :: w :: us)).kind = .keyword .CREATE := hc
    rw [hcurrent]
    show create.run ctx _ = _
    rw [create, run_bind_of_ok (run_expectKeyword_of_eq hc), run_bind_of_ok hmodifiers]
  rw [← hany]
  constructor
  · intro h
    obtain ⟨s', mid, hs', hmore⟩ := run_bind_ok h
    obtain ⟨atEnd, mid', hend, hmore⟩ := run_bind_ok hmore
    cases hend
    split at hmore
    · cases hmore
      exact hs'
    · cases hmore
  · intro h
    have hend : atEnd.run ctx [] = .ok (true, []) := by
      show Except.ok (decide ((ctx.current []).kind = .eof), []) = _
      rw [decide_eq_true (show (ctx.current []).kind = .eof from hstop)]
    rw [statement, run_bind_of_ok h, run_bind_of_ok hend]
    rfl

theorem rest_of_run_statement {ts rest : List Token} {s : Statement}
    (hts : ∀ t ∈ ts, t.kind ≠ .eof) (h : statement.run ctx ts = .ok (s, rest)) : rest = [] := by
  have hsuffix := suffix_of_run h
  obtain ⟨s', mid, -, h⟩ := run_bind_ok h
  obtain ⟨ended, mid', hend, h⟩ := run_bind_ok h
  obtain ⟨rfl, rfl⟩ : decide ((ctx.current mid).kind = .eof) = ended ∧ mid = mid' :=
    Prod.mk.inj (Except.ok.inj hend)
  split at h
  · next heof =>
    obtain ⟨-, rfl⟩ : s' = s ∧ mid = rest := Prod.mk.inj (Except.ok.inj h)
    cases mid with
    | nil => rfl
    | cons t mid => exact absurd (of_decide_eq_true heof) (hts t (hsuffix.subset (List.mem_cons_self ..)))
  · cases h

end Parser

end Grammar

end DdlCatalog
