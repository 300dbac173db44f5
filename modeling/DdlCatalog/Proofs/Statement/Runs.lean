import DdlCatalog.Proofs.Statement.Split
import DdlCatalog.Proofs.Token.Tiling

/-! # Statements as runs of tokens
A text is cut exactly at the semicolons outside of parentheses: the statements are the runs of tokens
between these that are not empty. It does not matter whether the tokens come as a stream or all at
once. -/

namespace DdlCatalog

open Token (Lexer Scanner tokenize)

namespace Token.Lexer

variable {l after : Lexer}

theorem items_none (h : l.next = (none, after)) : l.items = [] := by
  rw [items]
  split
  · rfl
  · next item after' hnext => simp [h] at hnext

theorem items_some {item : Except Error Token} (h : l.next = (some item, after)) :
    l.items = item :: after.items := by
  rw [items]
  split
  · next hnext => simp [h] at hnext
  · next item' after' hnext =>
    obtain ⟨hitem, rfl⟩ := Prod.mk.inj (h.symm.trans hnext)
    rw [Option.some.inj hitem]

end Token.Lexer

/-- Cutting a stream is cutting the tokens that its scanner reads. -/
theorem splitStream_items (source : String) (text : List Char) (s : Scanner) (depth : Nat)
    (run : List Token) :
    splitStream depth run (Lexer.items ⟨source, text, s, false⟩) =
      (s.tokens.mapError (Token.faultError source)).map (splitFrom depth run) := by
  fun_induction Scanner.tokens s generalizing depth run with
  | case1 s t after hlt hnext ih =>
    have hstream : Lexer.next ⟨source, text, s, false⟩ =
        (some (.ok t), ⟨source, text, after, false⟩) := by
      simp [Lexer.next, hnext]
    have hkind : ¬t.kind = .eof := (Scanner.takes_iff.2 ⟨hlt, hnext⟩).kind_ne_eof
    rw [Lexer.items_some hstream, splitStream, if_neg hkind]
    split
    · next hsemi =>
      rw [ih]
      cases after.tokens <;> simp [Except.map, Except.mapError, splitFrom, hsemi]
    · next hsemi =>
      rw [ih]
      cases after.tokens <;> simp [Except.map, Except.mapError, splitFrom, hkind, hsemi]
  | case2 s t after hnext =>
    have hstream : Lexer.next ⟨source, text, s, false⟩ = (none, ⟨source, text, after, true⟩) := by
      simp [Lexer.next, hnext]
    have hkind := (Scanner.skip_of_eof hnext).2.2
    rw [Lexer.items_none hstream]
    simp [splitStream, Except.map, Except.mapError, splitFrom, hkind]
  | case3 s reason mark after hnext =>
    have hstream : Lexer.next ⟨source, text, s, false⟩ =
        (some (.error (Token.faultError source (reason, mark))), ⟨source, text, after, true⟩) := by
      simp [Lexer.next, hnext]
    rw [Lexer.items_some hstream]
    rfl

/-- A lexer that stops at the end of the text serves as well as all tokens with the end. -/
theorem splitStream_ofText (source : String) (text : List Char) :
    splitStream 0 [] (Lexer.ofText source text).items = splitText source text :=
  splitStream_items source text _ 0 []

theorem splitStream_ok (depth : Nat) (run ts : List Token) :
    splitStream depth run (ts.map .ok) = .ok (splitFrom depth run ts) := by
  induction ts generalizing depth run with
  | nil => rfl
  | cons t ts ih =>
    rw [List.map_cons, splitStream, splitFrom]
    split_ifs
    · rfl
    · rw [ih]; rfl
    · exact ih _ _

/-- Tokens, each with the number of parentheses that are open in front of it. Closing ones that match
none are passed over. -/
def withDepths (depth : Nat) (ts : List Token) : List (Token × Nat) :=
  ts.zip (ts.scanl depthAfter depth)

def separates (p : Token × Nat) : Bool := p.1.kind = .semicolon && p.2 = 0

/-- The runs of tokens between semicolons outside of parentheses, of which some may be empty. -/
def runsBetween (depth : Nat) (ts : List Token) : List (List Token) :=
  ((withDepths depth ts).splitOnP separates).map (·.map Prod.fst)

@[simp] theorem withDepths_cons (depth : Nat) (t : Token) (ts : List Token) :
    withDepths depth (t :: ts) = (t, depth) :: withDepths (depthAfter depth t) ts := by
  simp [withDepths, List.scanl_cons]

@[simp] theorem separates_iff (t : Token) (depth : Nat) :
    separates (t, depth) = true ↔ t.kind = .semicolon ∧ depth = 0 := by
  simp [separates]

theorem mem_of_mem_withDepths {p : Token × Nat} {depth : Nat} {ts : List Token}
    (h : p ∈ withDepths depth ts) : p.1 ∈ ts :=
  (List.of_mem_zip h).1

theorem runsBetween_nil (depth : Nat) : runsBetween depth [] = [[]] := rfl

theorem runsBetween_cons (depth : Nat) (t : Token) (ts : List Token) :
    runsBetween depth (t :: ts) =
      if separates (t, depth) then [] :: runsBetween (depthAfter depth t) ts
      else (runsBetween (depthAfter depth t) ts).modifyHead (t :: ·) := by
  simp only [runsBetween, withDepths_cons, List.splitOnP_cons_eq_if_modifyHead]
  split
  · rfl
  · cases (withDepths (depthAfter depth t) ts).splitOnP separates <;> rfl

theorem tokens_ofRun? (run : List Token) (offset : Nat) (anchor : Token) :
    (RawStatement.ofRun? run offset anchor).toList.map (·.tokens) = [run].filter (· ≠ []) := by
  cases run <;> rfl

theorem tokens_lastStatement (run : List Token) :
    (lastStatement run).map (·.tokens) = [run].filter (· ≠ []) := by
  by_cases h : run = []
  · simp [h, lastStatement]
  · obtain ⟨raw, hraw, htokens, -⟩ := lastStatement_eq h
    simp [hraw, htokens, h]

theorem modifyHead_nil_append (runs : List (List Token)) : runs.modifyHead ([] ++ ·) = runs := by
  cases runs <;> rfl

/-- Cutting keeps the runs that are not empty, where `run` holds the tokens of the run begun. -/
theorem tokens_splitFrom {ts : List Token} {stop : Token} (hts : ∀ t ∈ ts, t.kind ≠ .eof)
    (hstop : stop.kind = .eof) (depth : Nat) (run : List Token) :
    (splitFrom depth run (ts ++ [stop])).map (·.tokens) =
      ((runsBetween depth ts).modifyHead (run ++ ·)).filter (· ≠ []) := by
  induction ts generalizing depth run with
  | nil =>
    rw [List.nil_append, splitFrom, if_pos hstop, runsBetween_nil, tokens_lastStatement]
    simp
  | cons t ts ih =>
    obtain ⟨ht, hmore⟩ := List.forall_mem_cons.1 hts
    rw [List.cons_append, splitFrom, if_neg ht, runsBetween_cons]
    by_cases hsemi : t.kind = .semicolon ∧ depth = 0
    · have hdepth : depthAfter depth t = 0 := by simp [depthAfter, hsemi]
      rw [if_pos hsemi, if_pos (by simpa using hsemi), List.map_append, tokens_ofRun?, ih hmore,
        modifyHead_nil_append, hdepth, ← List.filter_append]
      simp
    · rw [if_neg hsemi, if_neg (by simpa using hsemi), ih hmore, List.modifyHead_modifyHead]
      simp [Function.comp_def]

/-- Nothing but the semicolons between the runs is lost. -/
theorem flatten_runsBetween (depth : Nat) (ts : List Token) :
    (runsBetween depth ts).flatten =
      ((withDepths depth ts).filter (!separates ·)).map Prod.fst := by
  induction ts generalizing depth with
  | nil => rfl
  | cons t ts ih =>
    have hhead (runs : List (List Token)) (hne : runs ≠ []) :
        (runs.modifyHead (t :: ·)).flatten = t :: runs.flatten := by
      cases runs with
      | nil => exact absurd rfl hne
      | cons run runs => rfl
    have hne : runsBetween (depthAfter depth t) ts ≠ [] := by
      simp [runsBetween, List.splitOnP_ne_nil]
    by_cases hsemi : separates (t, depth) = true
    · simp [runsBetween_cons, hsemi, ih]
    · rw [runsBetween_cons, if_neg hsemi, hhead _ hne, ih]
      simp [hsemi]

/-- The statements are the runs of some tokens between the semicolons outside of parentheses. -/
structure CutsAt (ts : List Token) (raws : List RawStatement) : Prop where
  /-- They stand in this order, and those without tokens are left out. -/
  runs : raws.map (·.tokens) = (runsBetween 0 ts).filter (· ≠ [])
  /-- All tokens are kept in their order but for the semicolons between runs. -/
  kept : raws.flatMap (·.tokens) = ((withDepths 0 ts).filter (!separates ·)).map Prod.fst
  /-- The end of a statement is put behind its tokens, among which is none. -/
  ends : ∀ raw ∈ raws, raw.stop.kind = .eof ∧ ∀ t ∈ raw.tokens, t.kind ≠ .eof
  /-- A statement reaches from its first token to its last. -/
  spans : ∀ raw ∈ raws, ∃ first last, raw.tokens.head? = some first ∧
    raw.tokens.getLast? = some last ∧ raw.span = ⟨first.span.start, last.span.stop⟩

theorem cutsAt_splitTokens {ts : List Token} {stop : Token} (hts : ∀ t ∈ ts, t.kind ≠ .eof)
    (hstop : stop.kind = .eof) : CutsAt ts (splitTokens (ts ++ [stop])) := by
  have hruns := tokens_splitFrom hts hstop 0 []
  rw [modifyHead_nil_append] at hruns
  have hkept : (splitTokens (ts ++ [stop])).flatMap (·.tokens) =
      ((withDepths 0 ts).filter (!separates ·)).map Prod.fst := by
    rw [← flatten_runsBetween, List.flatMap_def, splitTokens, hruns, List.flatten_filter_ne_nil]
  refine ⟨hruns, hkept, fun raw hraw => ⟨?_, fun t ht => ?_⟩, fun raw hraw => ?_⟩
  · have hend : ∃ e ∈ ts ++ [stop], e.kind = .eof := ⟨stop, by simp, hstop⟩
    obtain ⟨-, stop', -, -, -, hstops⟩ := mem_splitFrom hraw trivial rfl hend
    exact hstops.kind_stop
  · have hmem := List.mem_flatMap.2 ⟨raw, hraw, ht⟩
    rw [hkept] at hmem
    obtain ⟨p, hp, rfl⟩ := List.mem_map.1 hmem
    exact hts _ (mem_of_mem_withDepths (List.mem_of_mem_filter hp))
  · obtain ⟨last, hlast, hspan⟩ := raw.getLast?_tokens
    exact ⟨raw.first, last, rfl, hlast, by rw [← hspan]; rfl⟩

/-- Cutting a text fails exactly as reading its tokens does. Otherwise the statements are the runs of
tokens between the semicolons outside of parentheses, whether the tokens come as a stream or all at
once. -/
theorem statements_are_runs (source : String) (text : List Char) :
    splitStream 0 [] (Lexer.ofText source text).items = splitText source text ∧
    (∀ e, splitText source text = .error e ↔ tokenize source text = .error e) ∧
    ∀ tokens, tokenize source text = .ok tokens →
      splitStream 0 [] (tokens.map .ok) = splitText source text ∧
      ∃ ts stop raws, tokens = ts ++ [stop] ∧ stop.kind = .eof ∧
        splitText source text = .ok raws ∧ CutsAt ts raws := by
  refine ⟨splitStream_ofText source text, fun e => ?_, fun tokens htokens => ?_⟩
  · cases htokens : tokenize source text <;> simp [splitText, htokens, Except.map]
  · have hsplit : splitText source text = .ok (splitTokens tokens) := by
      rw [splitText, htokens]; rfl
    have hstream : splitStream 0 [] (tokens.map .ok) = .ok (splitTokens tokens) :=
      splitStream_ok 0 [] tokens
    obtain ⟨ts, stop, s, after, rfl, hreads, heof⟩ := Token.exists_reads_of_tokenize htokens
    have hstop := (Scanner.skip_of_eof heof).2.2
    exact ⟨hstream.trans hsplit.symm, ts, stop, _, rfl, hstop, hsplit,
      cutsAt_splitTokens hreads.kinds hstop⟩

/-- Semicolons within parentheses, in a row, and behind a parenthesis that closes none. -/
def runsText : List Char := ";(a;(b);c);;d) ; e".toList

theorem statements_of_runsText :
    ∃ tokens, tokenize "a.sql" runsText = .ok tokens ∧
      splitStream 0 [] (tokens.map .ok) = splitText "a.sql" runsText ∧
      ∃ ts stop raws, tokens = ts ++ [stop] ∧ stop.kind = .eof ∧
        splitText "a.sql" runsText = .ok raws ∧ CutsAt ts raws ∧
        raws.map (·.span) = [⟨1, 10⟩, ⟨12, 14⟩, ⟨17, 18⟩] := by
  have hspans : (splitText "a.sql" runsText).toOption.map (·.map (·.span)) =
      some [⟨1, 10⟩, ⟨12, 14⟩, ⟨17, 18⟩] := by
    decide +kernel
  obtain ⟨-, -, hruns⟩ := statements_are_runs "a.sql" runsText
  cases htokens : tokenize "a.sql" runsText with
  | error e => simp [splitText, htokens, Except.map, Except.toOption] at hspans
  | ok tokens =>
    obtain ⟨hstream, ts, stop, raws, hts, hstop, hraws, hcuts⟩ := hruns tokens htokens
    rw [hraws] at hspans
    exact ⟨tokens, rfl, hstream, ts, stop, raws, hts, hstop, hraws, hcuts,
      Option.some.inj hspans⟩

end DdlCatalog
