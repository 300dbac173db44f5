import DdlCatalog.Proofs.Token.Extension
import DdlCatalog.Proofs.Token.Tiling

/-! # Tokens of two texts in one
Two texts with a semicolon on a line of its own between them give the tokens of the first, the
semicolon and the tokens of the second. -/

namespace DdlCatalog.Token

open Text (Mark byteLength isBlank)

variable {a b : List Char}

/-- A line with a semicolon, between two texts. -/
def separator : List Char := ['\n', ';', '\n']

namespace Scanner

variable {s u u' after : Scanner} {t t' e : Token} {n : Nat}

/-- A token of a part is taken in the whole as well. -/
theorem Within.extend (hsu : Within n b s u) (h : u.Takes t' u') (hb : Ends b)
    (hu : Apart u.rest b) :
    ∃ t s', s.Takes t s' ∧ Within n b s' u' ∧ Moves n u.limit t t' := by
  obtain ⟨c, rest, lexeme, hrest, hscan, rfl, rfl⟩ := h.lexeme
  have hlt : (Trivia.ofText u.rest).length < u.rest.length := by
    have hlen := congrArg List.length hrest
    rw [rest_skip, List.length_drop, List.length_cons] at hlen
    omega
  have htrivia : Trivia.ofText s.rest = Trivia.ofText u.rest := by
    rw [hsu.rest]
    exact Trivia.ofText_append h.closed hlt (hb.head_ne rfl rfl) hu
  have hskip : Within n b s.skip u.skip := by
    rw [Scanner.skip, Scanner.skip, htrivia]
    exact hsu.advance fun _ => hlt.le
  have hrest' : s.skip.rest = c :: (rest ++ b) := by
    rw [hskip.rest, hrest]
    rfl
  have hapart : Apart (c :: rest) b := hrest ▸ hu.drop _
  have hafter : Within n b (s.skip.advance (lexeme.rest + 1)) (u.skip.advance (lexeme.rest + 1)) := by
    refine hskip.advance fun _ => ?_
    rw [hrest, List.length_cons]
    exact Nat.succ_le_succ (Lexeme.scan_le hscan)
  refine ⟨Token.between lexeme.kind s.skip.mark (s.skip.advance (lexeme.rest + 1)).mark, _,
    ⟨?_, c, rest ++ b, lexeme, hrest', Lexeme.scan_append hb hapart hscan, rfl, rfl⟩, hafter,
    rfl, hskip.offset, hafter.offset, ?_⟩
  · rw [htrivia]
    exact h.closed
  · rw [← h.limit_eq]
    exact Nat.le_add_right _ _

theorem skip_blank {c : Char} {rest : List Char} (hrest : s.rest = c :: rest)
    (hblank : isBlank c = true) :
    (Trivia.ofText s.rest).unclosed = (Trivia.ofText (s.advance 1).rest).unclosed ∧
      s.skip = (s.advance 1).skip := by
  have htrivia : Trivia.ofText s.rest = (Trivia.ofText (s.advance 1).rest).after 1 := by
    rw [rest_advance, hrest, Trivia.ofText_blank hblank]
    rfl
  refine ⟨by rw [htrivia]; rfl, ?_⟩
  rw [skip, skip, advance_advance, htrivia]
  rfl

/-- The semicolon on the line behind a text that holds no more tokens. -/
theorem exists_takes_separator (hclosed : (Trivia.ofText u.rest).unclosed = false)
    (hnil : u.skip.rest = []) (hrest : s.rest = u.rest ++ '\n' :: ';' :: b) :
    ∃ semi after, s.Takes semi after ∧ semi.kind = .semicolon ∧ after.rest = b ∧
      after.mark.offset = s.mark.offset + byteLength u.rest + 2 := by
  have hall : (Trivia.ofText u.rest).length = u.rest.length :=
    Nat.le_antisymm (Trivia.length_ofText_le _) (List.drop_eq_nil_iff.1 hnil)
  have htrivia : Trivia.ofText s.rest = ⟨(u.rest ++ ['\n']).length, false⟩ := by
    rw [hrest, Trivia.ofText_append_lineFeed hclosed hall, Trivia.ofText_blank (by decide),
      Trivia.ofText_other (by decide) (fun h => by cases h) (fun h => by cases h),
      List.length_append]
    rfl
  have hsplit : s.rest = (u.rest ++ ['\n']) ++ ';' :: b := by rw [hrest, List.append_cons]
  have hskip : s.skip.rest = ';' :: b := by rw [rest_skip, htrivia, hsplit, List.drop_left]
  have hmark : s.skip.mark = s.mark.past (u.rest ++ ['\n']) := by
    rw [skip, mark_advance, htrivia, hsplit, List.take_left]
  have hscan : Lexeme.scan ';' b = .ok ⟨.semicolon, 0⟩ := rfl
  refine ⟨Token.between .semicolon s.skip.mark (s.skip.advance 1).mark, s.skip.advance 1,
    ⟨by rw [htrivia], ';', b, ⟨.semicolon, 0⟩, hskip, hscan, rfl, rfl⟩, rfl, ?_, ?_⟩
  · rw [rest_advance, hskip]
    rfl
  · rw [mark_advance, hskip, hmark, Mark.offset_past, Mark.offset_past, Text.byteLength_append]
    rfl

end Scanner

namespace Reads

variable {s s' u u' after : Scanner} {e : Token} {ts ts' : List Token} {n : Nat}

theorem extend (h : Reads u ts' u') (hsu : Scanner.Within n b s u) (hb : Ends b)
    (hu : Apart u.rest b) :
    ∃ ts s', Reads s ts s' ∧ Scanner.Within n b s' u' ∧ List.Forall₂ (Moves n u.limit) ts ts' := by
  induction h generalizing s with
  | nil u => exact ⟨[], s, .nil s, hsu, .nil⟩
  | @cons u v u' t' ts' first more ih =>
    obtain ⟨t, s', htakes, hwithin, hmoves⟩ := hsu.extend first hb hu
    have hv : Apart v.rest b := by
      obtain ⟨c, rest, lexeme, -, -, rfl, -⟩ := first.lexeme
      exact (hu.drop _).drop _
    obtain ⟨ts, s'', hreads, hend, hforall⟩ := ih hwithin hv
    exact ⟨t :: ts, s'', .cons htakes hreads, hend, .cons hmoves (first.limit_eq ▸ hforall)⟩

theorem exists_tokens_of_blank (h : Reads (s.advance 1) ts s') (heof : s'.next = .eof e after)
    {c : Char} {rest : List Char} (hrest : s.rest = c :: rest) (hblank : isBlank c = true) :
    ∃ e', e'.kind = .eof ∧ s.tokens = .ok (ts ++ [e']) := by
  obtain ⟨hunclosed, hskip⟩ := Scanner.skip_blank hrest hblank
  cases h with
  | nil =>
    obtain ⟨hclosed, hnil, -⟩ := Scanner.skip_of_eof heof
    obtain ⟨e', after', hnext, hkind⟩ :=
      Scanner.next_of_skip (hunclosed.trans hclosed) (hskip ▸ hnil)
    exact ⟨e', hkind, Scanner.tokens_of_eof hnext⟩
  | cons first more =>
    have htakes : s.Takes _ _ := ⟨hunclosed.trans first.closed, hskip ▸ first.lexeme⟩
    exact ⟨e, (Scanner.skip_of_eof heof).2.2,
      (Reads.cons htakes more).tokens_eq (Scanner.tokens_of_eof heof)⟩

end Reads

/-- The tokens of a text without its end, so many bytes later. -/
inductive Recurs (n limit : Nat) (ts : List Token) : List Token → Prop where
  | intro {us : List Token} {e : Token} (moves : List.Forall₂ (Moves n limit) ts us)
      (kinds : ∀ t ∈ ts, t.kind ≠ .eof) (eof : e.kind = .eof) : Recurs n limit ts (us ++ [e])

theorem Reads.exists_recurs {u after s : Scanner} {us : List Token} {e : Token}
    (h : Reads (Scanner.start b) us u) (heof : u.next = .eof e after) (hrest : s.rest = '\n' :: b) :
    ∃ ts e', s.tokens = .ok (ts ++ [e']) ∧ e'.kind = .eof ∧
      Recurs (s.mark.offset + 1) (byteLength b) ts (us ++ [e]) := by
  have hstart : Scanner.Within (s.mark.offset + 1) [] (s.advance 1) (Scanner.start b) := by
    refine ⟨?_, ?_⟩
    · rw [Scanner.rest_advance, hrest, List.append_nil]
      rfl
    · rw [Scanner.mark_advance, hrest, Mark.offset_past]
      rfl
  obtain ⟨ts, s', hts, hend, hmoves⟩ := h.extend hstart .nil nofun
  have hsame : s'.rest = u.rest := hend.rest.trans (List.append_nil _)
  obtain ⟨hclosed, hnil, hkind⟩ := Scanner.skip_of_eof heof
  rw [Scanner.rest_skip, ← hsame] at hnil
  rw [← hsame] at hclosed
  obtain ⟨last, after', hnext, -⟩ := Scanner.next_of_skip hclosed hnil
  obtain ⟨e', hkind', htokens⟩ := hts.exists_tokens_of_blank hnext hrest (by decide)
  rw [(Scanner.reading_start b).limit_eq] at hmoves
  exact ⟨ts, e', htokens, hkind', hmoves, hts.kinds, hkind⟩

theorem exists_tokenize_append {source : String} {as bs : List Token}
    (ha : tokenize source a = .ok as) (hb : tokenize source b = .ok bs) :
    ∃ ts semi us e, tokenize source (a ++ separator ++ b) = .ok (ts ++ semi :: (us ++ [e])) ∧
      semi.kind = .semicolon ∧ e.kind = .eof ∧ Recurs 0 (byteLength a) ts as ∧
      Recurs (byteLength (a ++ separator)) (byteLength b) us bs := by
  obtain ⟨as', ea, u, afterA, rfl, hreads, heof⟩ := exists_reads_of_tokenize ha
  obtain ⟨bs', eb, v, afterB, rfl, hreads', heof'⟩ := exists_reads_of_tokenize hb
  obtain ⟨hclosed, hnil, hkind⟩ := Scanner.skip_of_eof heof
  have hstart : Scanner.Within 0 (separator ++ b) (Scanner.start (a ++ separator ++ b))
      (Scanner.start a) := ⟨List.append_assoc a separator b, rfl⟩
  obtain ⟨ts, s, hts, hend, hmoves⟩ :=
    hreads.extend hstart (.blank (by decide) _) fun _ hd => by cases hd
  obtain ⟨semi, s', hsemi, hsemicolon, hrest, hoffset⟩ :=
    Scanner.exists_takes_separator hclosed hnil hend.rest
  obtain ⟨us, e, htokens, he, hus⟩ := hreads'.exists_recurs heof' hrest
  have hlimit : u.mark.offset + byteLength u.rest = byteLength a :=
    (hreads.reading (Scanner.reading_start a)).limit_eq
  have hbehind : s'.mark.offset + 1 = byteLength (a ++ separator) := by
    have hthree : byteLength separator = 3 := rfl
    rw [hoffset, hend.offset, Text.byteLength_append, hthree]
    omega
  rw [(Scanner.reading_start a).limit_eq] at hmoves
  refine ⟨ts, semi, us, e, ?_, hsemicolon, he, ⟨hmoves, hts.kinds, hkind⟩, hbehind ▸ hus⟩
  rw [tokenize, hts.tokens_eq ((Reads.cons hsemi (.nil s')).tokens_eq htokens)]
  rfl

end DdlCatalog.Token
