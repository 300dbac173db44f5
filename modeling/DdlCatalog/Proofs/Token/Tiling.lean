import DdlCatalog.Proofs.Text.Location
import DdlCatalog.Proofs.Token.Reads

/-! # Tokens cover their text
The tokens of a text stand in it one behind the other, each at the line and column of its offset, and
between them there is nothing but blanks and comments. -/

namespace DdlCatalog.Token

open Text (Location Mark OnBoundary byteLength slice?)

/-- A text without tokens. -/
def IsTrivia (cs : List Char) : Prop :=
  ∀ source, ∃ e, tokenize source cs = .ok [e] ∧ e.kind = .eof

namespace Scanner

def Reading (text : List Char) (s : Scanner) : Prop :=
  ∃ front, text = front ++ s.rest ∧ s.mark = Mark.start.past front

variable {text : List Char} {s s' after : Scanner} {t e : Token}

theorem reading_start (text : List Char) : (start text).Reading text := ⟨[], rfl, rfl⟩

theorem Reading.advance (h : s.Reading text) (n : Nat) : (s.advance n).Reading text := by
  obtain ⟨front, htext, hmark⟩ := h
  refine ⟨front ++ s.rest.take n, ?_, ?_⟩
  · rw [rest_advance, List.append_assoc, List.take_append_drop, htext]
  · rw [mark_advance, hmark, Mark.past_append]

theorem Reading.skip (h : s.Reading text) : s.skip.Reading text := h.advance _

theorem Reading.fits (h : s.Reading text) (source : String) :
    (Location.ofMark source s.mark).Fits source text := by
  obtain ⟨front, rfl, hmark⟩ := h
  exact Location.fits_iff.2 ⟨front, s.rest, rfl, by rw [hmark]⟩

theorem Reading.boundary (h : s.Reading text) : OnBoundary text s.mark.offset :=
  (h.fits "").boundary

theorem Reading.limit_eq (h : s.Reading text) : s.limit = byteLength text := by
  obtain ⟨front, rfl, hmark⟩ := h
  rw [limit, hmark, Mark.offset_past_start, Text.byteLength_append]

theorem offset_le_skip (s : Scanner) : s.mark.offset ≤ s.skip.mark.offset := by
  rw [skip, mark_advance, Mark.offset_past]
  exact Nat.le_add_right _ _

theorem Takes.reading (h : s.Takes t s') (hs : s.Reading text) : s'.Reading text := by
  obtain ⟨c, rest, lexeme, -, -, rfl, -⟩ := h.lexeme
  exact hs.skip.advance _

theorem Takes.location_eq (h : s.Takes t s') (source : String) :
    t.location source = Location.ofMark source s.skip.mark := by
  obtain ⟨c, rest, lexeme, -, -, -, rfl⟩ := h.lexeme
  rfl

theorem Takes.start_lt_stop (h : s.Takes t s') : t.span.start < t.span.stop := by
  rw [h.start_eq, h.stop_eq]
  obtain ⟨c, rest, lexeme, hrest, -, rfl, -⟩ := h.lexeme
  rw [mark_advance, Mark.offset_past, hrest, List.take_succ_cons]
  exact Nat.lt_add_of_pos_right (Text.byteLength_pos (by simp))

theorem Reading.exists_mark (hs : s.Reading text) {fault : Fault × Mark}
    (h : s.tokens = .error fault) : ∃ s' : Scanner, s'.Reading text ∧ fault.2 = s'.mark := by
  fun_induction Scanner.tokens s with
  | case1 s t after hlt hnext ih =>
    refine ih ((takes_iff.2 ⟨hlt, hnext⟩).reading hs) ?_
    cases hmore : after.tokens <;> rw [hmore] at h <;> cases h
    rfl
  | case2 s t after hnext => cases h
  | case3 s reason mark after hnext =>
    cases h
    unfold next at hnext
    dsimp only at hnext
    split at hnext
    · cases hnext
      exact ⟨_, hs.skip, rfl⟩
    · split at hnext
      · cases hnext
      · split at hnext <;> cases hnext
        exact ⟨_, hs.skip.advance _, rfl⟩

/-- The end of a text stands behind the last blanks and comments. -/
theorem eof_eq (h : s.next = .eof e after) : e = Token.between .eof s.skip.mark s.skip.mark := by
  unfold next at h
  dsimp only at h
  split at h
  · cases h
  · split at h
    · cases h
      rfl
    · split at h <;> cases h

theorem next_of_skip (hclosed : (Trivia.ofText s.rest).unclosed = false) (hnil : s.skip.rest = []) :
    ∃ e after, s.next = .eof e after ∧ e.kind = .eof := by
  unfold next
  dsimp only
  rw [if_neg (by simp [hclosed])]
  split
  · exact ⟨_, _, rfl, rfl⟩
  · next c rest hcons => cases hcons.symm.trans hnil

/-- What is skipped in front of a token holds none. -/
theorem isTrivia_skipped (hclosed : (Trivia.ofText s.rest).unclosed = false) :
    IsTrivia (s.rest.take (Trivia.ofText s.rest).length) := by
  intro source
  generalize hgap : s.rest.take (Trivia.ofText s.rest).length = gap
  have hsplit : s.rest = gap ++ s.skip.rest := by
    rw [← hgap]
    exact (List.take_append_drop _ _).symm
  have hlength : (Trivia.ofText s.rest).length = gap.length := by
    rw [← hgap, List.length_take, Nat.min_eq_left]
    exact Trivia.length_ofText_le s.rest
  have htrivia : Trivia.ofText gap = Trivia.ofText s.rest := by
    rw [hsplit] at hclosed hlength ⊢
    exact Trivia.ofText_of_append hclosed hlength.le
  have hnil : (start gap).skip.rest = [] := by
    show gap.drop (Trivia.ofText gap).length = []
    rw [htrivia, hlength, List.drop_length]
  obtain ⟨e, after, hnext, hkind⟩ := next_of_skip (s := start gap) (htrivia ▸ hclosed) hnil
  refine ⟨e, ?_, hkind⟩
  rw [tokenize, tokens, hnext]
  rfl

theorem Reading.slice?_skipped (h : s.Reading text) :
    slice? text s.mark.offset s.skip.mark.offset =
      some (s.rest.take (Trivia.ofText s.rest).length) := by
  obtain ⟨front, rfl, hmark⟩ := h
  have hsplit : front ++ s.rest =
      front ++ s.rest.take (Trivia.ofText s.rest).length ++ s.skip.rest := by
    rw [List.append_assoc, rest_skip, List.take_append_drop]
  rw [Scanner.skip, mark_advance, Mark.offset_past, hmark, Mark.offset_past_start, hsplit]
  exact Text.slice?_middle _ _ _

theorem exists_reads {ts : List Token} (h : s.tokens = .ok ts) :
    ∃ front e s' after, ts = front ++ [e] ∧ Reads s front s' ∧ s'.next = .eof e after := by
  induction ts generalizing s with
  | nil =>
    obtain ⟨e, he, -⟩ := exists_eof h
    cases he
  | cons t ts ih =>
    rcases tokens_cases h with ⟨s', htakes, hmore⟩ | ⟨after, heof, rfl⟩
    · obtain ⟨front, e, s'', after, rfl, hreads, heof⟩ := ih hmore
      exact ⟨t :: front, e, s'', after, rfl, .cons htakes hreads, heof⟩
    · exact ⟨[], t, s, after, rfl, .nil s, heof⟩

end Scanner

/-- A token that stands in a text. -/
structure Stands (source : String) (text : List Char) (t : Token) : Prop where
  kind : t.kind ≠ .eof
  fits : (t.location source).Fits source text
  stop : OnBoundary text t.span.stop
  nonempty : t.span.start < t.span.stop

/-- The place behind a token does not have the line and the column of the token. -/
theorem Scanner.Takes.not_fits_stop {s s' : Scanner} {t : Token} {text : List Char}
    (h : s.Takes t s') (hs : s.Reading text) (source : String) :
    ¬(Location.mk source t.span.stop t.line t.column).Fits source text := by
  intro hfits
  have hplace := (h.reading hs).fits source
  obtain ⟨c, rest, lexeme, hrest, -, rfl, rfl⟩ := h.lexeme
  have hsame := hfits.eq_ofOffset.trans hplace.eq_ofOffset.symm
  have hne : s.skip.rest.take (lexeme.rest + 1) ≠ [] := by
    rw [hrest, List.take_succ_cons]
    nofun
  exact Mark.line_column_ne_of_past hne s.skip.mark
    ⟨(congrArg Location.line hsame).symm, (congrArg Location.column hsame).symm⟩

/-- The first token stands in front of the second one. -/
def Precedes (t u : Token) : Prop :=
  t.span.start < u.span.start ∧ t.span.stop ≤ u.span.start

/-- The stretches in front of each of some tokens, from an offset on. -/
def gaps (start : Nat) : List Token → List Span
  | [] => []
  | t :: ts => ⟨start, t.span.start⟩ :: gaps t.span.stop ts

namespace Reads

variable {text : List Char} {s s' after : Scanner} {ts : List Token} {e : Token}

theorem reading (h : Reads s ts s') (hs : s.Reading text) : s'.Reading text := by
  induction h with
  | nil s => exact hs
  | cons first more ih => exact ih (first.reading hs)

theorem exists_takes (h : Reads s ts s') (hs : s.Reading text) :
    ∀ t ∈ ts, ∃ before after : Scanner, before.Reading text ∧ before.Takes t after := by
  induction h with
  | nil s => nofun
  | cons first more ih =>
    exact List.forall_mem_cons.2 ⟨⟨_, _, hs, first⟩, ih (first.reading hs)⟩

theorem stands (h : Reads s ts s') (hs : s.Reading text) (source : String) :
    ∀ t ∈ ts, Stands source text t := by
  intro t ht
  obtain ⟨before, after, hbefore, htakes⟩ := h.exists_takes hs t ht
  refine ⟨htakes.kind_ne_eof, ?_, ?_, htakes.start_lt_stop⟩
  · rw [htakes.location_eq]
    exact hbefore.skip.fits source
  · rw [htakes.stop_eq]
    exact (htakes.reading hbefore).boundary

/-- Tokens in a row stand between the scanners before and after them. -/
theorem bounds (h : Reads s ts s') : s.mark.offset ≤ s'.mark.offset ∧
    ∀ t ∈ ts, s.mark.offset ≤ t.span.start ∧ t.span.start < t.span.stop ∧
      t.span.stop ≤ s'.mark.offset := by
  induction h with
  | nil s => exact ⟨Nat.le_refl _, nofun⟩
  | @cons s s' s'' t ts first more ih =>
    have hstart := first.start_eq
    have hstop := first.stop_eq
    have hlt := first.start_lt_stop
    have hskip := s.offset_le_skip
    obtain ⟨hle, hmore⟩ := ih
    refine ⟨by omega, List.forall_mem_cons.2 ⟨by omega, fun u hu => ?_⟩⟩
    have := hmore u hu
    omega

theorem pairwise (h : Reads s ts s') : ts.Pairwise Precedes := by
  induction h with
  | nil s => exact .nil
  | @cons s s' s'' t ts first more ih =>
    refine .cons (fun u hu => ?_) ih
    have hstop := first.stop_eq
    have hlt := first.start_lt_stop
    have := more.bounds.2 u hu
    unfold Precedes
    omega

theorem gaps_trivia (h : Reads s ts s') (heof : s'.next = .eof e after) (hs : s.Reading text) :
    ∀ gap ∈ gaps s.mark.offset (ts ++ [e]),
      ∃ cs, slice? text gap.start gap.stop = some cs ∧ IsTrivia cs := by
  induction h with
  | nil s =>
    refine List.forall_mem_singleton.2 ⟨_, ?_, Scanner.isTrivia_skipped (Scanner.skip_of_eof heof).1⟩
    rw [Scanner.eof_eq heof]
    exact hs.slice?_skipped
  | @cons s s' s'' t ts first more ih =>
    refine List.forall_mem_cons.2 ⟨⟨_, ?_, Scanner.isTrivia_skipped first.closed⟩, ?_⟩
    · rw [first.start_eq]
      exact hs.slice?_skipped
    · rw [first.stop_eq]
      exact ih heof (first.reading hs)

end Reads

/-- The tokens cover the text of a name. -/
structure Tiling (source : String) (text : List Char) (tokens : List Token) : Prop where
  boundaries : ∀ t ∈ tokens, OnBoundary text t.span.start ∧ OnBoundary text t.span.stop
  nonempty : ∀ t ∈ tokens, t.kind ≠ .eof → t.span.start < t.span.stop
  ordered : tokens.Pairwise Precedes
  /-- The last token, and no other, is the end of the text. -/
  ends : ∃ front e, tokens = front ++ [e] ∧ (∀ t ∈ front, t.kind ≠ .eof) ∧ e.kind = .eof ∧
    e.span = ⟨byteLength text, byteLength text⟩
  gaps_trivia : ∀ gap ∈ gaps 0 tokens,
    ∃ cs, slice? text gap.start gap.stop = some cs ∧ IsTrivia cs
  places : ∀ t ∈ tokens, t.location source = Location.ofOffset source text t.span.start

theorem exists_reads_of_tokenize {source : String} {text : List Char} {tokens : List Token}
    (h : tokenize source text = .ok tokens) :
    ∃ front e s after, tokens = front ++ [e] ∧ Reads (Scanner.start text) front s ∧
      s.next = .eof e after :=
  Scanner.exists_reads (tokens_of_tokenize h)

theorem exists_stop_of_tokenize {source : String} {text : List Char} {tokens : List Token}
    (h : tokenize source text = .ok tokens) :
    ∃ ts stop, tokens = ts ++ [stop] ∧ stop.kind = .eof := by
  obtain ⟨ts, stop, s, after, rfl, -, heof⟩ := exists_reads_of_tokenize h
  exact ⟨ts, stop, rfl, by rw [Scanner.eof_eq heof]; rfl⟩

/-- A text without tokens has a place at which none could be read. -/
theorem exists_place_of_tokenize {source : String} {text : List Char} {e : Error}
    (h : tokenize source text = .error e) :
    ∃ l, e.location? = some l ∧ l.Fits source text := by
  unfold tokenize at h
  cases htokens : (Scanner.start text).tokens with
  | error fault =>
    rw [htokens] at h
    cases h
    obtain ⟨s, hs, hmark⟩ := (Scanner.reading_start text).exists_mark htokens
    exact ⟨_, rfl, hmark ▸ hs.fits source⟩
  | ok ts =>
    rw [htokens] at h
    cases h

/-- Whatever text there are tokens of, they cover it. -/
theorem tiling_of_tokenize {source : String} {text : List Char} {tokens : List Token}
    (h : tokenize source text = .ok tokens) : Tiling source text tokens := by
  obtain ⟨front, e, s, after, rfl, hreads, heof⟩ := exists_reads_of_tokenize h
  have hstart := Scanner.reading_start text
  have hstands := hreads.stands hstart source
  have hs := hreads.reading hstart
  have he := Scanner.eof_eq heof
  -- the end stands behind all tokens, where nothing is left to read
  have hend : e.span = ⟨byteLength text, byteLength text⟩ := by
    have hlimit := hs.skip.limit_eq
    rw [Scanner.limit, (Scanner.skip_of_eof heof).2.1] at hlimit
    rw [he, ← hlimit]
    rfl
  have hplace : e.location source = Location.ofMark source s.skip.mark := by rw [he]; rfl
  have hfits : ∀ t ∈ front ++ [e], (t.location source).Fits source text := by
    refine List.forall_mem_append.2 ⟨fun t ht => (hstands t ht).fits, ?_⟩
    rw [List.forall_mem_singleton, hplace]
    exact hs.skip.fits source
  refine ⟨?_, ?_, ?_, ⟨front, e, rfl, fun t ht => (hstands t ht).kind,
    (Scanner.skip_of_eof heof).2.2, hend⟩, hreads.gaps_trivia heof hstart,
    fun t ht => (hfits t ht).eq_ofOffset⟩
  · refine fun t ht => ⟨(hfits t ht).boundary, ?_⟩
    rcases List.mem_append.1 ht with hfront | hlast
    · exact (hstands t hfront).stop
    · obtain rfl := List.mem_singleton.1 hlast
      rw [hend]
      exact ⟨text, [], (List.append_nil _).symm, rfl⟩
  · intro t ht hkind
    rcases List.mem_append.1 ht with hfront | hlast
    · exact (hstands t hfront).nonempty
    · obtain rfl := List.mem_singleton.1 hlast
      exact absurd (Scanner.skip_of_eof heof).2.2 hkind
  · refine List.pairwise_append.2 ⟨hreads.pairwise, List.pairwise_singleton _ _, ?_⟩
    intro t ht u hu
    obtain rfl := List.mem_singleton.1 hu
    have hbounds := hreads.bounds.2 t ht
    have hskip := s.offset_le_skip
    have hu : u.span.start = s.skip.mark.offset := by rw [he]; rfl
    unfold Precedes
    omega

/-- Comments within comments, and quotes that hold line feeds. -/
def quotedText : List Char := "é /* /*→*/\n */ 'ü\n' -- ;\n$a$\n;$a$".toList

theorem tiling_quotedText :
    ∃ tokens, tokenize "a.sql" quotedText = .ok tokens ∧
      tokens.map (fun t => (t.span, t.line, t.column)) =
        [(⟨0, 2⟩, 1, 1), (⟨18, 23⟩, 2, 5), (⟨29, 37⟩, 4, 1), (⟨37, 37⟩, 5, 5)] ∧
      Tiling "a.sql" quotedText tokens := by
  have hplaces : (tokenize "a.sql" quotedText).toOption.map
      (·.map fun t => (t.span, t.line, t.column)) =
        some [(⟨0, 2⟩, 1, 1), (⟨18, 23⟩, 2, 5), (⟨29, 37⟩, 4, 1), (⟨37, 37⟩, 5, 5)] := by
    decide +kernel
  cases htokens : tokenize "a.sql" quotedText with
  | error e =>
    rw [htokens] at hplaces
    cases hplaces
  | ok tokens =>
    rw [htokens] at hplaces
    exact ⟨tokens, rfl, Option.some.inj hplaces, tiling_of_tokenize htokens⟩

end DdlCatalog.Token
