import DdlCatalog.Proofs.Token.Reads
import DdlCatalog.Statement.Split

/-! # The text of a statement
What is cut out as one statement of a text is one statement by itself: its text, read alone, is cut
into the same tokens and no more. -/

namespace DdlCatalog

open Token (Part Scanner)
open Text (byteLength)

theorem depthAfter_congr {t u : Token} (h : t.kind = u.kind) (depth : Nat) :
    depthAfter depth t = depthAfter depth u := by
  rw [depthAfter, h, depthAfter]

/-- Tokens in which no statement ends, where so many parentheses are open before them. -/
def StaysTogether (depth : Nat) : List Token → Prop
  | [] => True
  | t :: ts =>
    t.kind ≠ .eof ∧ ¬(t.kind = .semicolon ∧ depth = 0) ∧ StaysTogether (depthAfter depth t) ts

namespace StaysTogether

variable {depth : Nat} {ts us : List Token} {t e : Token}

theorem append (hts : StaysTogether depth ts)
    (hus : StaysTogether (ts.foldl depthAfter depth) us) : StaysTogether depth (ts ++ us) := by
  induction ts generalizing depth with
  | nil => exact hus
  | cons t ts ih => exact ⟨hts.1, hts.2.1, ih hts.2.2 hus⟩

theorem congr (h : StaysTogether depth ts)
    (hkinds : List.Forall₂ (fun t u => t.kind = u.kind) ts us) : StaysTogether depth us := by
  induction hkinds generalizing depth with
  | nil => trivial
  | @cons t u ts us hk _ ih =>
    refine ⟨hk ▸ h.1, hk ▸ h.2.1, ?_⟩
    rw [← depthAfter_congr hk]
    exact ih h.2.2

theorem splitFrom_eq (h : StaysTogether depth ts) (he : e.kind = .eof) (run more : List Token) :
    splitFrom depth run (ts ++ e :: more) = lastStatement (run ++ ts) := by
  induction ts generalizing depth run with
  | nil => rw [List.nil_append, splitFrom, if_pos he, List.append_nil]
  | cons t ts ih =>
    rw [List.cons_append, splitFrom, if_neg h.1, if_neg h.2.1, ih h.2.2, List.append_assoc]
    rfl

theorem kinds (h : StaysTogether depth ts) : ∀ t ∈ ts, t.kind ≠ .eof := by
  induction ts generalizing depth with
  | nil => nofun
  | cons t ts ih => exact List.forall_mem_cons.2 ⟨h.1, ih h.2.2⟩

end StaysTogether

namespace RawStatement

/-- The end of a statement in front of a semicolon stands where the semicolon does. In front of the
end of the text it stands behind the last token, with the line and the column of that token. -/
inductive StopsAt (raw : RawStatement) (t : Token) : Prop where
  | semicolon (kind : t.kind = .semicolon)
    (stop_eq : raw.stop = ⟨.eof, ⟨t.span.start, t.span.start⟩, t.line, t.column⟩)
  | eof {last : Token} (kind : t.kind = .eof) (getLast_eq : raw.tokens.getLast? = some last)
    (stop_eq : raw.stop = ⟨.eof, ⟨last.span.stop, last.span.stop⟩, last.line, last.column⟩)

theorem StopsAt.kind_eq {raw : RawStatement} {t : Token} (h : raw.StopsAt t) :
    t.kind = .semicolon ∨ t.kind = .eof := by
  cases h with
  | semicolon kind => exact .inl kind
  | eof kind => exact .inr kind

theorem StopsAt.startsClear {raw : RawStatement} {t : Token} (h : raw.StopsAt t) :
    t.kind.startsClear = true := by
  rcases h.kind_eq with hkind | hkind <;> rw [hkind] <;> rfl

theorem StopsAt.kind_stop {raw : RawStatement} {t : Token} (h : raw.StopsAt t) :
    raw.stop.kind = .eof := by
  cases h with
  | semicolon _ stop_eq => rw [stop_eq]
  | eof _ _ stop_eq => rw [stop_eq]

theorem of_mem_ofRun? {run : List Token} {offset : Nat} {anchor : Token} {raw : RawStatement}
    (h : raw ∈ ofRun? run offset anchor) :
    raw.tokens = run ∧ raw.stop = ⟨.eof, ⟨offset, offset⟩, anchor.line, anchor.column⟩ := by
  cases run with
  | nil => cases h
  | cons t ts =>
    cases h
    exact ⟨rfl, rfl⟩

theorem tokens_ne_nil (raw : RawStatement) : raw.tokens ≠ [] := nofun

end RawStatement

theorem of_mem_lastStatement {run : List Token} {raw : RawStatement} {e : Token}
    (h : raw ∈ lastStatement run) (he : e.kind = .eof) : raw.tokens = run ∧ raw.StopsAt e := by
  unfold lastStatement at h
  split at h
  · next last hlast =>
    obtain ⟨rfl, hstop⟩ := RawStatement.of_mem_ofRun? (Option.mem_toList.1 h)
    exact ⟨rfl, .eof he hlast hstop⟩
  · cases h

theorem lastStatement_eq {run : List Token} (h : run ≠ []) :
    ∃ raw, lastStatement run = [raw] ∧ raw.tokens = run ∧ raw.stop.kind = .eof := by
  cases run with
  | nil => exact absurd rfl h
  | cons t ts =>
    unfold lastStatement
    rw [List.getLast?_eq_some_getLast h]
    exact ⟨_, rfl, rfl, rfl⟩

/-- A statement is a row of tokens in which none ends and behind which one does. -/
theorem mem_splitFrom {depth : Nat} {run tokens : List Token} {raw : RawStatement}
    (h : raw ∈ splitFrom depth run tokens) (hrun : StaysTogether 0 run)
    (hdepth : run.foldl depthAfter 0 = depth) (hend : ∃ e ∈ tokens, e.kind = .eof) :
    ∃ before stop after, run ++ tokens = before ++ raw.tokens ++ stop :: after ∧
      StaysTogether 0 raw.tokens ∧ raw.StopsAt stop := by
  induction tokens generalizing depth run with
  | nil =>
    obtain ⟨e, he, -⟩ := hend
    cases he
  | cons t ts ih =>
    unfold splitFrom at h
    split at h
    · next heof =>
      obtain ⟨htokens, hstop⟩ := of_mem_lastStatement h heof
      exact ⟨[], t, ts, by rw [htokens]; rfl, htokens ▸ hrun, hstop⟩
    · next heof =>
      have hend : ∃ e ∈ ts, e.kind = .eof := by
        obtain ⟨e, he, hkind⟩ := hend
        rcases List.mem_cons.1 he with rfl | he
        · exact absurd hkind heof
        · exact ⟨e, he, hkind⟩
      split at h
      · next hsemi =>
        rcases List.mem_append.1 h with h | h
        · obtain ⟨htokens, hstop⟩ := RawStatement.of_mem_ofRun? (Option.mem_toList.1 h)
          exact ⟨[], t, ts, by rw [htokens]; rfl, htokens ▸ hrun, .semicolon hsemi.1 hstop⟩
        · obtain ⟨before, stop, after, heq, hrest⟩ := ih h trivial rfl hend
          refine ⟨run ++ t :: before, stop, after, ?_, hrest⟩
          rw [List.nil_append] at heq
          simp [heq]
      · next hsemi =>
        have hrun' : StaysTogether 0 (run ++ [t]) :=
          hrun.append ⟨heof, hdepth ▸ hsemi, trivial⟩
        have hdepth' : (run ++ [t]).foldl depthAfter 0 = depthAfter depth t := by
          rw [List.foldl_append, hdepth]
          rfl
        obtain ⟨before, stop, after, heq, hrest⟩ := ih h hrun' hdepth' hend
        exact ⟨before, stop, after, by rw [← heq, List.append_assoc]; rfl, hrest⟩

namespace RawStatement

variable {raw raw' : RawStatement} {text front part back : List Char}

/-- The same statement, so many bytes earlier in a text of which it is within so many bytes. -/
structure Moves (n limit : Nat) (raw raw' : RawStatement) : Prop where
  tokens : List.Forall₂ (Token.Moves n limit) raw.tokens raw'.tokens
  stop : raw.stop.kind = .eof
  stop' : raw'.stop.kind = .eof

theorem Moves.refl (hstop : raw.stop.kind = .eof)
    (hwithin : ∀ t ∈ raw.tokens, t.span.stop ≤ byteLength text) : raw.Moves 0 (byteLength text) raw where
  tokens := List.forall₂_same.2 fun t ht =>
    ⟨rfl, (Nat.zero_add _).symm, (Nat.zero_add _).symm, hwithin t ht⟩
  stop := hstop
  stop' := hstop

theorem Moves.first {n limit : Nat} (h : raw.Moves n limit raw') :
    Token.Moves n limit raw.first raw'.first := by
  cases Token.rel_head? h.tokens with
  | some hmoves => exact hmoves

theorem getLast?_tokens (raw : RawStatement) :
    ∃ last, raw.tokens.getLast? = some last ∧ raw.span.stop = last.span.stop :=
  ⟨_, List.getLast?_eq_some_getLast raw.tokens_ne_nil, rfl⟩

theorem Moves.stop_span {n limit : Nat} (h : raw.Moves n limit raw') :
    raw.span.stop = n + raw'.span.stop ∧ raw'.span.stop ≤ limit := by
  obtain ⟨last, hlast, hstop⟩ := raw.getLast?_tokens
  obtain ⟨last', hlast', hstop'⟩ := raw'.getLast?_tokens
  have hrel := Token.rel_getLast? h.tokens
  rw [hlast, hlast'] at hrel
  rw [hstop, hstop']
  cases hrel with
  | some hmoves => exact ⟨hmoves.stop, hmoves.within⟩

theorem Moves.text_eq (h : raw.Moves (byteLength front) (byteLength part) raw')
    (htext : text = front ++ part ++ back) : raw.text text = raw'.text part := by
  obtain ⟨hstop, hwithin⟩ := h.stop_span
  have hstart : raw.span.start = byteLength front + raw'.span.start := h.first.start
  rw [RawStatement.text, hstart, hstop, htext, Text.slice?_part hwithin, RawStatement.text]

theorem text_of_part {ts' : List Token} (h : Part text raw.tokens front part back ts') :
    raw.text text = part := by
  obtain ⟨last, hlast, hspan⟩ := raw.getLast?_tokens
  have hstart : raw.span.start = byteLength front := h.start_eq raw.first rfl
  rw [RawStatement.text, hstart, hspan, h.stop_eq last hlast, h.text_eq, Text.slice?_middle]
  rfl

end RawStatement

theorem exists_tokens_of_splitText {source : String} {text : List Char} {raws : List RawStatement}
    (h : splitText source text = .ok raws) :
    ∃ tokens, Token.tokenize source text = .ok tokens ∧ raws = splitTokens tokens := by
  unfold splitText at h
  cases htokens : Token.tokenize source text with
  | error e =>
    rw [htokens] at h
    cases h
  | ok tokens =>
    rw [htokens] at h
    cases h
    exact ⟨tokens, rfl, rfl⟩

/-- The tokens of a statement stand in a row, and behind them one that ends it. -/
theorem exists_stop_of_splitText {source : String} {text : List Char} {raws : List RawStatement}
    (h : splitText source text = .ok raws) {raw : RawStatement} (hraw : raw ∈ raws) :
    ∃ before stop after,
      Token.tokenize source text = .ok (before ++ raw.tokens ++ stop :: after) ∧
      StaysTogether 0 raw.tokens ∧ raw.StopsAt stop := by
  obtain ⟨tokens, htokens, rfl⟩ := exists_tokens_of_splitText h
  obtain ⟨before, stop, after, heq, hstop⟩ := mem_splitFrom hraw trivial rfl
    (Scanner.exists_eof (Token.tokens_of_tokenize htokens))
  exact ⟨before, stop, after, by rw [htokens, ← heq]; rfl, hstop⟩

/-- The text of a statement is one statement again. -/
theorem exists_part_of_splitText {source : String} {text : List Char} {raws : List RawStatement}
    (h : splitText source text = .ok raws) {raw : RawStatement} (hraw : raw ∈ raws) :
    ∃ front back raw', text = front ++ raw.text text ++ back ∧
      raw.Moves (byteLength front) (byteLength (raw.text text)) raw' ∧
      ∀ source', splitText source' (raw.text text) = .ok [raw'] := by
  obtain ⟨before, stop, after, htokens, htogether, hstop⟩ := exists_stop_of_splitText h hraw
  obtain ⟨front, part, back, ts', hpart⟩ :=
    Token.exists_part (Token.tokens_of_tokenize htokens) raw.tokens_ne_nil (.clear hstop.startsClear)
  obtain ⟨e, he, htokens'⟩ := hpart.tokens_eq
  have htogether' := htogether.congr (hpart.moves.imp fun _ _ hm => hm.kind)
  have hne : ts' ≠ [] := by
    rintro rfl
    exact raw.tokens_ne_nil (List.forall₂_nil_right_iff.1 hpart.moves)
  obtain ⟨raw', hraw', rfl, hkind'⟩ := lastStatement_eq hne
  rw [RawStatement.text_of_part hpart]
  refine ⟨front, back, raw', hpart.text_eq, ⟨hpart.moves, hstop.kind_stop, hkind'⟩,
    fun source' => ?_⟩
  rw [splitText, Token.tokenize, htokens']
  show Except.ok (splitFrom 0 [] (raw'.tokens ++ [e])) = _
  rw [htogether'.splitFrom_eq he, List.nil_append, hraw']

end DdlCatalog
