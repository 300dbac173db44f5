import DdlCatalog.Proofs.Grammar.Reparse
import DdlCatalog.Proofs.Token.Tiling

/-! # Places of statements and of errors
What is parsed lies where its tokens do, and an error at the token that could not be read. The end of a
statement is no token of the text: behind the last statement it has the offset where the last token
ends, but the line and the column where that token starts. -/

namespace DdlCatalog.Grammar

open Text (LineAt Location OnBoundary byteLength excerpt? lastLine underlined)
open Token (Reads Scanner Stands tokenize)

section Raw

variable {source : String} {text : List Char} {raw : RawStatement}

theorem location?_of_parseRaw_error (hstop : raw.stop.kind = .eof)
    (hwithin : ∀ t ∈ raw.tokens, t.span.stop ≤ byteLength text) {e : Error}
    (h : parseRaw source text raw = .error e) :
    ∃ t, (t ∈ raw.tokens ∨ t = raw.stop) ∧ e.location? = some (t.location source) := by
  have hself := @gives_ofMoves raw raw text [] text [] (List.append_nil text).symm
    (.refl hstop hwithin) source source
  rw [h] at hself
  cases hself with
  | error faults =>
    obtain ⟨-, -, hl, -, t, u, hnear, rfl, -⟩ := faults
    refine ⟨t, ?_, hl⟩
    cases hnear with
    | token moves => exact .inl moves.mem_whole
    | stop => exact .inr rfl

theorem mem_locations_of_parseRaw (hstop : raw.stop.kind = .eof)
    (hwithin : ∀ t ∈ raw.tokens, t.span.stop ≤ byteLength text) {p : ParsedStatement}
    (h : parseRaw source text raw = .ok p) :
    ∀ l ∈ p.locations, ∃ t ∈ raw.tokens, l = t.location source := by
  have hself := @gives_ofMoves raw raw text [] text [] (List.append_nil text).symm
    (.refl hstop hwithin) source source
  rw [h] at hself
  cases hself with
  | ok relocated =>
    intro l hl
    obtain ⟨_, t, _, hmoves, rfl, -⟩ := relocated.related hl
    exact ⟨t, hmoves.mem_whole, rfl⟩

end Raw

/-- The place behind the last token of a text if no semicolon ends the last statement, with the line
and the column of that token. -/
inductive AtOpenEnd (source : String) (text : List Char) : Location → Prop where
  | intro {raws : List RawStatement} {raw : RawStatement} {before : List Token} {last e : Token}
      (split : splitText source text = .ok raws) (mem : raw ∈ raws)
      (tokens : tokenize source text = .ok (before ++ raw.tokens ++ [e]))
      (getLast_eq : raw.tokens.getLast? = some last) :
    AtOpenEnd source text ⟨source, last.span.stop, last.line, last.column⟩

section Text

variable {source : String} {text : List Char} {raws : List RawStatement} {raw : RawStatement}

/-- The open end of a text stands behind a token of it. -/
theorem AtOpenEnd.exists_takes {l : Location} (h : AtOpenEnd source text l) :
    ∃ (t : Token) (s s' : Scanner), s.Reading text ∧ s.Takes t s' ∧
      l = ⟨source, t.span.stop, t.line, t.column⟩ := by
  cases h with
  | intro split mem tokens getLast_eq =>
    obtain ⟨front, e, s, after, hfront, hreads, -⟩ := Token.exists_reads_of_tokenize tokens
    obtain ⟨rfl, -⟩ := List.append_inj' hfront rfl
    obtain ⟨s, s', hs, htakes⟩ := hreads.exists_takes (Scanner.reading_start text) _
      (List.mem_append_right _ (List.mem_of_getLast? getLast_eq))
    exact ⟨_, s, s', hs, htakes, rfl⟩

/-- It has the line and the column of another place. -/
theorem AtOpenEnd.not_fits {l : Location} (h : AtOpenEnd source text l) :
    ¬l.Fits source text := by
  obtain ⟨t, s, s', hs, htakes, rfl⟩ := h.exists_takes
  exact htakes.not_fits_stop hs source

theorem AtOpenEnd.source_eq {l : Location} (h : AtOpenEnd source text l) : l.source = source := by
  cases h
  rfl

theorem AtOpenEnd.boundary {l : Location} (h : AtOpenEnd source text l) :
    OnBoundary text l.offset := by
  obtain ⟨t, s, s', hs, htakes, rfl⟩ := h.exists_takes
  rw [htakes.stop_eq]
  exact (htakes.reading hs).boundary

/-- Statements are made of tokens of their text, and their ends stand in it, but for the open end. -/
theorem stands_of_splitText (h : splitText source text = .ok raws) (hraw : raw ∈ raws) :
    raw.stop.kind = .eof ∧ (∀ t ∈ raw.tokens, Stands source text t) ∧
      ((raw.stop.location source).Fits source text ∨
        AtOpenEnd source text (raw.stop.location source)) := by
  obtain ⟨before, stop, behind, htokens, -, hstop⟩ := exists_stop_of_splitText h hraw
  obtain ⟨front, e, s, after, hfront, hreads, heof⟩ := Token.exists_reads_of_tokenize htokens
  have hstands := hreads.stands (Scanner.reading_start text) source
  refine ⟨hstop.kind_stop, ?_⟩
  rcases List.eq_nil_or_concat behind with rfl | ⟨middle, last, rfl⟩
  · obtain ⟨rfl, hlast⟩ := List.append_inj' hfront rfl
    refine ⟨fun t ht => hstands t (List.mem_append_right _ ht), .inr ?_⟩
    cases hstop with
    | semicolon hsemi =>
      obtain rfl := List.singleton_inj.1 hlast
      cases hsemi.symm.trans (Scanner.skip_of_eof heof).2.2
    | eof _ getLast_eq stop_eq =>
      rw [stop_eq]
      exact .intro h hraw htokens getLast_eq
  · rw [List.append_cons, List.concat_eq_append, ← List.append_assoc] at hfront
    obtain ⟨rfl, -⟩ := List.append_inj' hfront rfl
    have hmem (t : Token) (ht : t ∈ before ++ raw.tokens ++ [stop]) : Stands source text t :=
      hstands t (List.mem_append_left _ ht)
    refine ⟨fun t ht => hmem t (by simp [ht]), .inl ?_⟩
    cases hstop with
    | semicolon _ stop_eq =>
      rw [stop_eq]
      exact (hmem stop (by simp)).fits
    | eof heof => exact absurd heof (hmem stop (by simp)).kind

end Text

theorem exists_place_of_splitText {source : String} {text : List Char} {e : Error}
    (h : splitText source text = .error e) : ∃ l, e.location? = some l ∧ l.Fits source text := by
  unfold splitText at h
  cases htokens : tokenize source text with
  | error e =>
    rw [htokens] at h
    cases h
    exact Token.exists_place_of_tokenize htokens
  | ok tokens =>
    rw [htokens] at h
    cases h

/-- The statements of a text and their columns and constraints are located in it. -/
theorem fits_of_parseSource {source text : String} {statements : List ParsedStatement}
    (h : parseSource source text = .ok statements) :
    ∀ p ∈ statements, ∀ l ∈ p.locations, l.Fits source text.toList := by
  intro p hp l hl
  obtain ⟨raws, hraws, h⟩ := parseSource_eq_ok_iff.1 h
  obtain ⟨raw, hmem, hraw⟩ := exists_of_mem_forall₂ h hp
  obtain ⟨hstop, hstands, -⟩ := stands_of_splitText hraws hmem
  obtain ⟨t, ht, rfl⟩ :=
    mem_locations_of_parseRaw hstop (fun t ht => (hstands t ht).stop.le) hraw l hl
  exact (hstands t ht).fits

/-- The error of a text is located at a place of it, unless it stands at the open end. -/
theorem exists_place_of_parseSource {source text : String} {e : Error}
    (h : parseSource source text = .error e) :
    ∃ l, e.location? = some l ∧ (l.Fits source text.toList ∨ AtOpenEnd source text.toList l) := by
  unfold parseSource at h
  cases hraws : splitText source text.toList with
  | error e =>
    rw [hraws] at h
    cases h
    obtain ⟨l, hl, hfits⟩ := exists_place_of_splitText hraws
    exact ⟨l, hl, .inl hfits⟩
  | ok raws =>
    rw [hraws] at h
    obtain ⟨raw, hmem, hraw⟩ := exists_of_mapM_error h
    obtain ⟨hstop, hstands, hend⟩ := stands_of_splitText hraws hmem
    obtain ⟨t, ht, hl⟩ :=
      location?_of_parseRaw_error hstop (fun t ht => (hstands t ht).stop.le) hraw
    refine ⟨_, hl, ?_⟩
    rcases ht with ht | rfl
    · exact .inl (hstands t ht).fits
    · exact hend

/-- The error of a text names it and lies between two of its characters. Its line and column are those
of its offset, so that a caret stands under it, but for an error at the open end. -/
theorem coherent_of_parseSource_error {name text : String} {e : Error}
    (h : parseSource name text = .error e) :
    ∃ l, e.location? = some l ∧ l.source = name ∧ OnBoundary text.toList l.offset ∧
      (l = Location.ofOffset name text.toList l.offset ↔ ¬AtOpenEnd name text.toList l) ∧
      (¬AtOpenEnd name text.toList l → ∃ before after line, text.toList = before ++ after ∧
        byteLength before = l.offset ∧ LineAt text.toList l.offset line ∧
        excerpt? text.toList l = some (underlined l.line line (lastLine before).length)) := by
  obtain ⟨l, hl, hplace⟩ := exists_place_of_parseSource h
  rcases hplace with hfits | hopen
  · exact ⟨l, hl, hfits.source_eq, hfits.boundary,
      ⟨fun _ hopen => hopen.not_fits hfits, fun _ => hfits.eq_ofOffset⟩, fun _ => hfits.exists_excerpt⟩
  · exact ⟨l, hl, hopen.source_eq, hopen.boundary,
      ⟨fun heq => absurd ⟨hopen.boundary, heq⟩ hopen.not_fits, fun hclosed => absurd hopen hclosed⟩,
      fun hclosed => absurd hopen hclosed⟩

def errorPlace? (name text : String) : Option Location :=
  match parseSource name text with
  | .error e => e.location?
  | .ok _ => none

theorem exists_of_errorPlace? {name text : String} {l : Location}
    (h : errorPlace? name text = some l) :
    ∃ e, parseSource name text = .error e ∧ e.location? = some l := by
  unfold errorPlace? at h
  split at h
  · next e he => exact ⟨e, he, h⟩
  · cases h

def wordTooMany : String := "create schema \"é\"\n x;"

theorem coherent_wordTooMany :
    ∃ e, parseSource "a.sql" wordTooMany = .error e ∧ e.location? = some ⟨"a.sql", 20, 2, 2⟩ ∧
      ¬AtOpenEnd "a.sql" wordTooMany.toList ⟨"a.sql", 20, 2, 2⟩ ∧
      ∃ before after line, wordTooMany.toList = before ++ after ∧ byteLength before = 20 ∧
        LineAt wordTooMany.toList 20 line ∧
        excerpt? wordTooMany.toList ⟨"a.sql", 20, 2, 2⟩ =
          some (underlined 2 line (lastLine before).length) := by
  obtain ⟨e, he, hplace⟩ :=
    exists_of_errorPlace?
      (show errorPlace? "a.sql" wordTooMany = some ⟨"a.sql", 20, 2, 2⟩ by decide +kernel)
  obtain ⟨l, hl, -, -, hiff, hcaret⟩ := coherent_of_parseSource_error he
  obtain rfl := Option.some.inj (hplace.symm.trans hl)
  have hclosed := hiff.1 (by decide +kernel)
  exact ⟨e, he, hplace, hclosed, hcaret hclosed⟩

/-- Not all errors are at the line and column of their offset. -/
theorem not_coherent_at_open_end :
    ¬∀ (name text : String) (e : Error), parseSource name text = .error e →
      ∃ l, e.location? = some l ∧ l = Location.ofOffset name text.toList l.offset := by
  intro h
  obtain ⟨e, he, hplace⟩ :=
    exists_of_errorPlace?
      (show errorPlace? "t.sql" "CREATE TABLE" = some ⟨"t.sql", 12, 1, 8⟩ by decide +kernel)
  obtain ⟨l, hl, heq⟩ := h _ _ _ he
  obtain rfl := Option.some.inj (hplace.symm.trans hl)
  exact absurd heq (by decide +kernel)

end DdlCatalog.Grammar
