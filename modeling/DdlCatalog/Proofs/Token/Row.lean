import DdlCatalog.Proofs.Token.Compose

/-! # Tokens of texts in a row
A text that is filled by its tokens ends with the last of them. Texts that are filled give the same
tokens when they stand in a row with a blank between them, and in front of a closing parenthesis they
need no blank. -/

namespace DdlCatalog.Token

open Text (byteLength isBlank)

variable {a b e : List Char} {s s' s'' u : Scanner} {ts us as bs es : List Token}

theorem Reads.append (h : Reads s ts s') (h' : Reads s' us s'') : Reads s (ts ++ us) s'' := by
  induction h with
  | nil => exact h'
  | cons first _ ih => exact .cons first (ih h')

theorem Reads.of_blank (h : Reads (s.advance 1) ts s') (hne : ts ≠ []) {c : Char} {rest : List Char}
    (hrest : s.rest = c :: rest) (hblank : isBlank c = true) : Reads s ts s' := by
  obtain ⟨hunclosed, hskip⟩ := Scanner.skip_blank hrest hblank
  cases h with
  | nil => exact absurd rfl hne
  | cons first more => exact .cons ⟨hunclosed.trans first.closed, hskip ▸ first.lexeme⟩ more

theorem map_kind_of_moves {n limit : Nat} (h : List.Forall₂ (Moves n limit) ts us) :
    ts.map (·.kind) = us.map (·.kind) := by
  induction h with
  | nil => rfl
  | cons first _ ih => rw [List.map_cons, List.map_cons, first.kind, ih]

theorem ofWord?_of_ofWord {word name : String} (h : Kind.ofWord word = .identifier name) :
    Keyword.ofWord? name = none := by
  unfold Kind.ofWord at h
  split at h
  · cases h
  · next hnone =>
    cases h
    exact hnone

theorem punctuation?_ne_identifier {c : Char} {name : String} :
    Lexeme.punctuation? c ≠ some (.identifier name) := by
  unfold Lexeme.punctuation?
  split_ifs <;> nofun

/-- An identifier is no keyword. -/
theorem Lexeme.ofWord?_of_scan {c : Char} {rest : List Char} {lexeme : Lexeme} {name : String}
    (h : scan c rest = .ok lexeme) (hkind : lexeme.kind = .identifier name) :
    Keyword.ofWord? name = none := by
  unfold scan colon at h
  split_ifs at h <;>
    grind [string, quotedIdentifier, dollar, dollarQuoted, parameter, number, escapedString, word,
      Lexeme.symbol, operator, ofWord?_of_ofWord, punctuation?_ne_identifier]

theorem Reads.ofWord?_of_identifier (h : Reads s ts s') {name : String} :
    ∀ t ∈ ts, t.kind = .identifier name → Keyword.ofWord? name = none := by
  induction h with
  | nil => nofun
  | cons first _ ih =>
    obtain ⟨c, rest, lexeme, -, hscan, -, rfl⟩ := first.lexeme
    exact List.forall_mem_cons.2 ⟨Lexeme.ofWord?_of_scan hscan, ih⟩

/-- The text has these tokens, and the last of them ends with it. -/
def Fills (text : List Char) (ts : List Token) : Prop :=
  ∃ u, Reads (Scanner.start text) ts u ∧ u.rest = []

namespace Fills

theorem exists_tokenize (h : Fills a ts) (source : String) :
    ∃ stop, tokenize source a = .ok (ts ++ [stop]) ∧ stop.kind = .eof := by
  obtain ⟨u, hreads, hnil⟩ := h
  obtain ⟨stop, hkind, htokens⟩ := hreads.tokens_of_nil hnil
  refine ⟨stop, ?_, hkind⟩
  rw [tokenize, htokens]
  rfl

theorem kinds (h : Fills a ts) : ∀ t ∈ ts, t.kind ≠ .eof := by
  obtain ⟨u, hreads, -⟩ := h
  exact hreads.kinds

/-- A text is filled if its last token ends where it does. -/
theorem of_tokenize {source : String} {stop t : Token} (h : tokenize source a = .ok (ts ++ [stop]))
    (hlast : ts.getLast? = some t) (hstop : t.span.stop = byteLength a) : Fills a ts := by
  obtain ⟨front, e, u, after, heq, hreads, -⟩ := exists_reads_of_tokenize h
  obtain ⟨rfl, -⟩ := List.append_inj' heq rfl
  refine ⟨u, hreads, ?_⟩
  have hne : ts ≠ [] := by
    rintro rfl
    cases hlast
  have hend : t.span.stop = u.mark.offset := by
    rw [List.getLast?_eq_some_getLast hne] at hlast
    rw [← Option.some.inj hlast, hreads.stop_eq hne]
  have hlimit : u.mark.offset + byteLength u.rest = byteLength a :=
    (hreads.reading (Scanner.reading_start a)).limit_eq
  by_contra hrest
  have hpos := Text.byteLength_pos hrest
  omega

/-- The kinds of the tokens of a text that the last of them ends with. -/
theorem exists_of_kinds {ks : List Kind}
    (h : (tokenize "" a).toOption.map (fun ts =>
      (ts.map (·.kind), ts.dropLast.getLast?.map (·.span.stop))) =
        some (ks ++ [.eof], some (byteLength a))) :
    ∃ ts, Fills a ts ∧ ts.map (·.kind) = ks := by
  cases htokens : tokenize "" a with
  | error fault =>
    rw [htokens] at h
    cases h
  | ok tokens =>
    obtain ⟨ts, stop, s, after, rfl, -⟩ := exists_reads_of_tokenize htokens
    rw [htokens] at h
    obtain ⟨hkinds, hstop⟩ := Prod.mk.inj (Option.some.inj h)
    rw [List.map_append] at hkinds
    rw [List.dropLast_concat] at hstop
    obtain ⟨t, hlast, hstop⟩ := Option.map_eq_some_iff.1 hstop
    exact ⟨ts, .of_tokenize htokens hlast hstop, (List.append_inj' hkinds rfl).1⟩

/-- What fills a text is read in any text that goes on with an end. -/
theorem extend (h : Fills a ts) (hrest : s.rest = a ++ b) (hb : Ends b) (hab : Apart a b) :
    ∃ ts' s', Reads s ts' s' ∧ s'.rest = b ∧ s'.mark.offset = s.mark.offset + byteLength a ∧
      List.Forall₂ (Moves s.mark.offset (byteLength a)) ts' ts := by
  obtain ⟨u, hreads, hnil⟩ := h
  have hstart : Scanner.Within s.mark.offset b s (Scanner.start a) := ⟨hrest, rfl⟩
  obtain ⟨ts', s', hts', hend, hmoves⟩ := hreads.extend hstart hb hab
  have hlimit : u.mark.offset + byteLength u.rest = byteLength a :=
    (hreads.reading (Scanner.reading_start a)).limit_eq
  rw [hnil] at hlimit
  rw [(Scanner.reading_start a).limit_eq] at hmoves
  refine ⟨ts', s', hts', ?_, ?_, hmoves⟩
  · rw [hend.rest, hnil, List.nil_append]
  · rw [hend.offset]
    exact congrArg _ hlimit

/-- Three texts in a row, with a blank in front of the second. -/
theorem row (ha : Fills a as) (he : Fills e es) (hb : Fills b bs) (hne : es ≠ []) (hends : Ends b)
    (heb : Apart e b) :
    ∃ as' es' bs', Fills (a ++ ' ' :: (e ++ b)) (as' ++ (es' ++ bs')) ∧
      as'.map (·.kind) = as.map (·.kind) ∧ bs'.map (·.kind) = bs.map (·.kind) ∧
      List.Forall₂ (Moves (byteLength (a ++ [' '])) (byteLength e)) es' es := by
  obtain ⟨as', s₁, has, hrest₁, hoffset₁, hmoves₁⟩ :=
    ha.extend (s := Scanner.start (a ++ ' ' :: (e ++ b))) rfl (.blank (by decide) _)
      fun _ h => nomatch h
  have hblank : (s₁.advance 1).rest = e ++ b := by
    rw [Scanner.rest_advance, hrest₁]
    rfl
  have hbehind : (s₁.advance 1).mark.offset = byteLength (a ++ [' ']) := by
    rw [Scanner.mark_advance, hrest₁, Text.Mark.offset_past, hoffset₁, Text.byteLength_append]
    exact congrArg (· + 1) (Nat.zero_add _)
  obtain ⟨es', s₂, hes, hrest₂, -, hmoves₂⟩ := he.extend hblank hends heb
  have hne' : es' ≠ [] := by
    rintro rfl
    exact hne (List.forall₂_nil_left_iff.1 hmoves₂)
  obtain ⟨bs', s₃, hbs, hrest₃, -, hmoves₃⟩ :=
    hb.extend (hrest₂.trans (List.append_nil b).symm) .nil fun _ h => nomatch h
  rw [hbehind] at hmoves₂
  exact ⟨as', es', bs', ⟨s₃, has.append ((hes.of_blank hne' hrest₁ (by decide)).append hbs), hrest₃⟩,
    map_kind_of_moves hmoves₁, map_kind_of_moves hmoves₃, hmoves₂⟩

end Fills

end DdlCatalog.Token
