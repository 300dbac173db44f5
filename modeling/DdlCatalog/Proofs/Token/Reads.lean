import DdlCatalog.Proofs.Token.Cut
import Mathlib.Data.List.Forall2

/-! # Tokens of a part of a text
The part from the first to the last of some tokens in a row gives the same tokens again when it is
read by itself, unless what follows makes a mark with its last character. -/

namespace DdlCatalog.Token

open Text (Mark byteLength)

variable {a b : List Char}

/-- Starting with a blank or a comment is enough to end what comes before. -/
theorem ends_of_trivia (h : 0 < (Trivia.ofText b).length) : Ends b := by
  induction b using Trivia.induction with
  | nil => exact .nil
  | blank c rest hblank => exact .blank hblank rest
  | lineComment rest => exact .lineComment rest
  | blockComment rest => exact .blockComment rest
  | unclosed rest => exact .blockComment rest
  | other c rest hblank hline hblock =>
    rw [Trivia.ofText_other hblank hline hblock] at h
    cases h

namespace Scanner

variable {s s' u : Scanner} {t : Token}

def limit (s : Scanner) : Nat := s.mark.offset + byteLength s.rest

@[simp] theorem limit_advance (s : Scanner) (n : Nat) : (s.advance n).limit = s.limit := by
  have hsplit := congrArg byteLength (List.take_append_drop n s.rest)
  rw [Text.byteLength_append] at hsplit
  simp only [limit, mark_advance, rest_advance, Mark.offset_past]
  omega

theorem advance_advance (s : Scanner) (m n : Nat) : (s.advance m).advance n = s.advance (m + n) := by
  simp only [advance, List.drop_drop, List.take_add, Mark.past_append]

@[simp] theorem advance_zero (s : Scanner) : s.advance 0 = s := rfl

def skip (s : Scanner) : Scanner := s.advance (Trivia.ofText s.rest).length

@[simp] theorem rest_skip (s : Scanner) :
    s.skip.rest = s.rest.drop (Trivia.ofText s.rest).length := rfl

theorem skip_advance (s : Scanner) (n : Nat) :
    s.skip.advance n = s.advance ((Trivia.ofText s.rest).length + n) :=
  advance_advance s _ n

/-- A token with the scanners before and after it. -/
structure Takes (s : Scanner) (t : Token) (s' : Scanner) : Prop where
  closed : (Trivia.ofText s.rest).unclosed = false
  lexeme : ∃ c rest lexeme, s.skip.rest = c :: rest ∧ Lexeme.scan c rest = .ok lexeme ∧
    s' = s.skip.advance (lexeme.rest + 1) ∧ t = Token.between lexeme.kind s.skip.mark s'.mark

theorem takes_iff : s.Takes t s' ↔ ∃ h, s.next = .token t s' h := by
  have shorter {c : Char} {rest : List Char} (n : Nat) (h : s.skip.rest = c :: rest) :
      (s.skip.advance (n + 1)).rest.length < s.rest.length := by
    have hlen := congrArg List.length h
    rw [rest_skip, List.length_drop, List.length_cons] at hlen
    rw [rest_advance, h, List.drop_succ_cons, List.length_drop]
    omega
  unfold next
  dsimp only
  constructor
  · rintro ⟨hclosed, c, rest, lexeme, hrest, hscan, rfl, rfl⟩
    rw [if_neg (by simp [hclosed])]
    split
    · next hnil => cases hnil.symm.trans hrest
    · next d tail hcons =>
      obtain ⟨rfl, rfl⟩ := List.cons.inj (hcons.symm.trans hrest)
      split
      · next lexeme' hok =>
        obtain rfl := Except.ok.inj (hok.symm.trans hscan)
        exact ⟨shorter _ hcons, rfl⟩
      · next hfail => cases hfail.symm.trans hscan
  · rintro ⟨h, hnext⟩
    split at hnext
    · cases hnext
    · next hclosed =>
      split at hnext
      · cases hnext
      · next c rest hcons =>
        split at hnext
        · next lexeme hok =>
          obtain ⟨rfl, rfl⟩ := Step.token.inj hnext
          exact ⟨by simpa using hclosed, c, rest, lexeme, hcons, hok, rfl, rfl⟩
        · cases hnext

theorem skip_of_eof {after : Scanner} (h : s.next = .eof t after) :
    (Trivia.ofText s.rest).unclosed = false ∧ s.skip.rest = [] ∧ t.kind = .eof := by
  unfold next at h
  dsimp only at h
  split at h
  · cases h
  · next hclosed =>
    split at h
    · next hnil =>
      cases h
      exact ⟨by simpa using hclosed, hnil, rfl⟩
    · split at h <;> cases h

theorem next_of_nil (h : s.rest = []) : ∃ e after, s.next = .eof e after ∧ e.kind = .eof := by
  have htrivia : Trivia.ofText s.rest = ⟨0, false⟩ := by rw [h, Trivia.ofText_nil]
  unfold next
  dsimp only
  split
  · next hunclosed =>
    rw [htrivia] at hunclosed
    cases hunclosed
  · split
    · exact ⟨_, _, rfl, rfl⟩
    · next c rest hcons =>
      rw [rest_advance, h, List.drop_nil] at hcons
      cases hcons

/-- Blanks and comments may be skipped beforehand. -/
theorem Takes.skipped (h : s.Takes t s') : s.skip.Takes t s' := by
  have hnone := Trivia.ofText_drop s.rest h.closed
  have hskip : s.skip.skip = s.skip := by
    rw [skip, skip, rest_advance, hnone, advance_zero]
  refine ⟨?_, ?_⟩
  · rw [skip, rest_advance, hnone]
  · rw [hskip]
    exact h.lexeme

theorem Takes.start_eq (h : s.Takes t s') : t.span.start = s.skip.mark.offset := by
  obtain ⟨c, rest, lexeme, -, -, -, rfl⟩ := h.lexeme
  rfl

theorem Takes.stop_eq (h : s.Takes t s') : t.span.stop = s'.mark.offset := by
  obtain ⟨c, rest, lexeme, -, -, -, rfl⟩ := h.lexeme
  rfl

theorem Takes.kind_ne_eof (h : s.Takes t s') : t.kind ≠ .eof := by
  obtain ⟨c, rest, lexeme, -, hscan, -, rfl⟩ := h.lexeme
  exact (Lexeme.scan_ends hscan).1

/-- What a token and the blanks and comments before it take from the text. -/
theorem Takes.consumes (h : s.Takes t s') :
    ∃ taken, taken ≠ [] ∧ s.rest = taken ++ s'.rest ∧ s'.mark = s.mark.past taken ∧
      Apart taken s'.rest := by
  obtain ⟨c, rest, lexeme, hrest, hscan, rfl, rfl⟩ := h.lexeme
  have hline : c = '-' → rest.head? ≠ some '-' := by
    rintro rfl hd
    obtain ⟨tail, rfl⟩ := List.head?_eq_some_iff.1 hd
    have hnone := Trivia.ofText_drop s.rest h.closed
    have hlong := Trivia.length_of_lineComment tail
    rw [← hrest, skip, rest_advance, hnone] at hlong
    cases hlong
  have htaken : s.rest.take ((Trivia.ofText s.rest).length + (lexeme.rest + 1)) =
      s.rest.take (Trivia.ofText s.rest).length ++ c :: rest.take lexeme.rest := by
    rw [List.take_add, ← rest_skip, hrest, List.take_succ_cons]
  have hapart := Lexeme.apart_scan hscan hline
  refine ⟨s.rest.take ((Trivia.ofText s.rest).length + (lexeme.rest + 1)), ?_, ?_, ?_, ?_⟩
  · simp [htaken]
  · rw [skip_advance, rest_advance, List.take_append_drop]
  · rw [skip_advance, mark_advance]
  · rw [htaken, rest_advance, hrest, List.drop_succ_cons]
    intro hlast
    rw [List.getLast?_append, List.getLast?_cons] at hlast
    refine hapart ?_
    rw [List.getLast?_cons]
    exact hlast

/-- Nothing follows a parenthesis in its token. -/
theorem Takes.last_closed (h : s.Takes t s') (hkind : t.kind = .rightParen) {taken : List Char}
    (htaken : s.rest = taken ++ s'.rest) : taken.getLast? = some ')' := by
  obtain ⟨c, rest, lexeme, hrest, hscan, rfl, rfl⟩ := h.lexeme
  obtain ⟨rfl, hzero⟩ := (Lexeme.scan_ends hscan).2 hkind
  have hskip : s.rest = (s.rest.take (Trivia.ofText s.rest).length ++ [')']) ++ rest := by
    rw [List.append_assoc, List.singleton_append, ← hrest, rest_skip, List.take_append_drop]
  rw [rest_advance, hrest, hzero, List.drop_succ_cons, List.drop_zero] at htaken
  rw [List.append_cancel_right (htaken.symm.trans hskip), List.getLast?_concat]

theorem Takes.limit_eq (h : s.Takes t s') : s'.limit = s.limit := by
  obtain ⟨c, rest, lexeme, -, -, rfl, -⟩ := h.lexeme
  rw [skip_advance, limit_advance]

/-- What comes before most tokens may be cut off in front of them. -/
theorem Takes.clear (h : s.Takes t s') (hkind : t.kind.startsClear = true) : Clear s.rest := by
  obtain ⟨c, rest, lexeme, hrest, hscan, rfl, rfl⟩ := h.lexeme
  by_cases hpos : 0 < (Trivia.ofText s.rest).length
  · exact (ends_of_trivia hpos).clear
  · have hzero : (Trivia.ofText s.rest).length = 0 := by omega
    rw [skip, hzero, advance_zero] at hrest
    rw [hrest]
    exact Lexeme.clear_of_scan hscan hkind

theorem clear_of_eof {after : Scanner} (h : s.next = .eof t after) : Clear s.rest := by
  by_cases hpos : 0 < (Trivia.ofText s.rest).length
  · exact (ends_of_trivia hpos).clear
  · obtain ⟨-, hrest, -⟩ := skip_of_eof h
    have hzero : (Trivia.ofText s.rest).length = 0 := by omega
    rw [skip, hzero, advance_zero] at hrest
    simp [Clear, hrest]

theorem tokens_of_takes (h : s.Takes t s') : s.tokens = s'.tokens.map (t :: ·) := by
  obtain ⟨hlt, hnext⟩ := takes_iff.1 h
  rw [tokens, hnext]

theorem tokens_of_eof {after : Scanner} (h : s.next = .eof t after) : s.tokens = .ok [t] := by
  rw [tokens, h]

theorem tokens_cases {ts : List Token} (h : s.tokens = .ok (t :: ts)) :
    (∃ s', s.Takes t s' ∧ s'.tokens = .ok ts) ∨ ∃ after, s.next = .eof t after ∧ ts = [] := by
  rw [tokens] at h
  split at h
  · next t' s' hlt hnext =>
    cases hmore : s'.tokens with
    | error e =>
      rw [hmore] at h
      cases h
    | ok us =>
      rw [hmore] at h
      cases h
      exact .inl ⟨s', takes_iff.2 ⟨hlt, hnext⟩, hmore⟩
  · next t' after hnext =>
    cases h
    exact .inr ⟨after, hnext, rfl⟩
  · cases h

theorem exists_eof {ts : List Token} (h : s.tokens = .ok ts) : ∃ e ∈ ts, e.kind = .eof := by
  induction ts generalizing s with
  | nil =>
    rw [tokens] at h
    split at h
    · next s' _ _ =>
      cases hmore : s'.tokens <;> rw [hmore] at h <;> cases h
    · cases h
    · cases h
  | cons t ts ih =>
    rcases tokens_cases h with ⟨s', -, hmore⟩ | ⟨after, heof, -⟩
    · obtain ⟨e, he, hkind⟩ := ih hmore
      exact ⟨e, List.mem_cons_of_mem t he, hkind⟩
    · exact ⟨t, List.mem_cons_self, (skip_of_eof heof).2.2⟩

end Scanner

theorem tokens_of_tokenize {source : String} {text : List Char} {ts : List Token}
    (h : tokenize source text = .ok ts) : (Scanner.start text).tokens = .ok ts := by
  unfold tokenize at h
  cases htokens : (Scanner.start text).tokens with
  | error fault =>
    rw [htokens] at h
    cases h
  | ok ts' =>
    rw [htokens] at h
    cases h
    rfl

/-- The same token, `n` bytes earlier in a text of which it is within so many bytes. -/
structure Moves (n limit : Nat) (t t' : Token) : Prop where
  kind : t.kind = t'.kind
  start : t.span.start = n + t'.span.start
  stop : t.span.stop = n + t'.span.stop
  within : t'.span.stop ≤ limit

namespace Scanner

/-- A scanner that reads a part of the text of another, of which `b` is left out. -/
structure Within (n : Nat) (b : List Char) (s u : Scanner) : Prop where
  rest : s.rest = u.rest ++ b
  offset : s.mark.offset = n + u.mark.offset

variable {n : Nat}

theorem Within.advance (h : Within n b s u) {k : Nat} (hk : b ≠ [] → k ≤ u.rest.length) :
    Within n b (s.advance k) (u.advance k) := by
  by_cases hb : b = []
  · subst hb
    have hrest : s.rest = u.rest := by rw [h.rest, List.append_nil]
    refine ⟨?_, ?_⟩
    · rw [rest_advance, rest_advance, hrest, List.append_nil]
    · rw [mark_advance, mark_advance, hrest, Mark.offset_past, Mark.offset_past, h.offset,
        Nat.add_assoc]
  · refine ⟨?_, ?_⟩
    · rw [rest_advance, rest_advance, h.rest, List.drop_append_of_le_length (hk hb)]
    · rw [mark_advance, mark_advance, h.rest, List.take_append_of_le_length (hk hb),
        Mark.offset_past, Mark.offset_past, h.offset, Nat.add_assoc]

theorem length_le_of_drop {cs left : List Char} {k : Nat} (h : (cs ++ b).drop k = left ++ b)
    (hb : b ≠ []) : k ≤ cs.length := by
  have hpos := List.length_pos_iff.2 hb
  have hlen := congrArg List.length h
  simp only [List.length_drop, List.length_append] at hlen
  omega

/-- Blanks and comments in front of a token of the part are in the part. -/
theorem Within.length_trivia_lt (hsu : Within n b s u) {c : Char} {rest left : List Char} {k : Nat}
    (hrest : s.skip.rest = c :: rest) (hleft : (s.skip.advance (k + 1)).rest = left ++ b) :
    (Trivia.ofText s.rest).length < u.rest.length := by
  by_cases hnil : b = []
  · have hlen := congrArg List.length hrest
    rw [rest_skip, List.length_drop, List.length_cons] at hlen
    have hsame : s.rest = u.rest := by rw [hsu.rest, hnil, List.append_nil]
    rw [hsame] at hlen ⊢
    omega
  · rw [skip_advance, rest_advance, hsu.rest] at hleft
    have hle := length_le_of_drop hleft hnil
    rw [hsu.rest]
    omega

theorem Within.skip (hsu : Within n b s u) (hclosed : (Trivia.ofText s.rest).unclosed = false)
    (hlt : (Trivia.ofText s.rest).length < u.rest.length) :
    Trivia.ofText u.rest = Trivia.ofText s.rest ∧ Within n b s.skip u.skip := by
  have htrivia : Trivia.ofText u.rest = Trivia.ofText s.rest := by
    rw [hsu.rest] at hclosed hlt ⊢
    exact Trivia.ofText_of_append hclosed hlt.le
  refine ⟨htrivia, ?_⟩
  rw [Scanner.skip, Scanner.skip, htrivia]
  exact hsu.advance fun _ => hlt.le

theorem Within.exists_cons (h : Within n b s u) (hne : u.rest ≠ []) {c : Char} {rest : List Char}
    (hrest : s.rest = c :: rest) : ∃ x, u.rest = c :: x ∧ rest = x ++ b := by
  have hsplit := hrest.symm.trans h.rest
  cases hx : u.rest with
  | nil => exact absurd hx hne
  | cons d x =>
    rw [hx, List.cons_append] at hsplit
    obtain ⟨rfl, hrest⟩ := List.cons.inj hsplit
    exact ⟨x, rfl, hrest⟩

theorem Within.takes (hsu : Within n b s u) (h : s.Takes t s') {left : List Char}
    (hleft : s'.rest = left ++ b) (hcut : left = [] ∨ Parted u.rest b) :
    ∃ t' u', u.Takes t' u' ∧ Within n b s' u' ∧ Moves n u.limit t t' := by
  obtain ⟨c, rest, lexeme, hrest, hscan, rfl, rfl⟩ := h.lexeme
  have hlt := hsu.length_trivia_lt hrest hleft
  obtain ⟨htrivia, hskip⟩ := hsu.skip h.closed hlt
  have hne : u.skip.rest ≠ [] := by
    rw [rest_skip, htrivia]
    exact fun hnil => absurd (List.drop_eq_nil_iff.1 hnil) (Nat.not_le.2 hlt)
  obtain ⟨x, hx, rfl⟩ := hskip.exists_cons hne hrest
  rw [rest_advance, hrest, List.drop_succ_cons] at hleft
  have hscan' : Lexeme.scan c x = .ok lexeme :=
    Lexeme.scan_of_append (hcut.imp_right fun h => hx ▸ h.drop _) hscan hleft
  have hafter : Within n b (s.skip.advance (lexeme.rest + 1)) (u.skip.advance (lexeme.rest + 1)) := by
    refine hskip.advance fun hnil => ?_
    have hle := length_le_of_drop hleft hnil
    rw [hx, List.length_cons]
    omega
  have hlimit : (u.skip.advance (lexeme.rest + 1)).limit = u.limit := by
    rw [skip_advance, limit_advance]
  refine ⟨Token.between lexeme.kind u.skip.mark (u.skip.advance (lexeme.rest + 1)).mark, _,
    ⟨?_, c, x, lexeme, hx, hscan', rfl, rfl⟩, hafter, rfl, hskip.offset, hafter.offset, ?_⟩
  · rw [htrivia]
    exact h.closed
  · rw [← hlimit]
    exact Nat.le_add_right _ _

end Scanner

/-- Some tokens in a row, with the scanners before and after them. -/
inductive Reads : Scanner → List Token → Scanner → Prop where
  | nil (s : Scanner) : Reads s [] s
  | cons {s s' s'' : Scanner} {t : Token} {ts : List Token} (first : s.Takes t s')
      (more : Reads s' ts s'') : Reads s (t :: ts) s''

namespace Reads

variable {s s' s'' u : Scanner} {t stop : Token} {ts us : List Token} {n : Nat}

theorem of_append (h : Reads s (ts ++ us) s'') : ∃ s', Reads s ts s' ∧ Reads s' us s'' := by
  induction ts generalizing s with
  | nil => exact ⟨s, .nil s, h⟩
  | cons t ts ih =>
    cases h with
    | cons first more =>
      obtain ⟨s', hts, hus⟩ := ih more
      exact ⟨s', .cons first hts, hus⟩

/-- The tokens of a text up to any of them. -/
theorem of_tokens (h : s.tokens = .ok (ts ++ stop :: us)) :
    ∃ s', Reads s ts s' ∧
      ((∃ after, s'.Takes stop after) ∨ ∃ after, s'.next = .eof stop after) := by
  induction ts generalizing s with
  | nil =>
    rcases Scanner.tokens_cases h with ⟨s', hs, -⟩ | ⟨s', hs, -⟩
    · exact ⟨s, .nil s, .inl ⟨s', hs⟩⟩
    · exact ⟨s, .nil s, .inr ⟨s', hs⟩⟩
  | cons t ts ih =>
    rcases Scanner.tokens_cases h with ⟨s', hs, hmore⟩ | ⟨s', -, hnil⟩
    · obtain ⟨s'', hts, hstop⟩ := ih hmore
      exact ⟨s'', .cons hs hts, hstop⟩
    · simp at hnil

theorem kinds (h : Reads s ts s') : ∀ t ∈ ts, t.kind ≠ .eof := by
  induction h with
  | nil s => nofun
  | cons first _ ih => exact List.forall_mem_cons.2 ⟨first.kind_ne_eof, ih⟩

theorem consumes (h : Reads s ts s') : ∃ taken, s.rest = taken ++ s'.rest ∧
    s'.mark = s.mark.past taken ∧ Apart taken s'.rest ∧ (ts ≠ [] → taken ≠ []) := by
  induction h with
  | nil s => exact ⟨[], rfl, rfl, nofun, fun h => absurd rfl h⟩
  | @cons s s' s'' t ts first more ih =>
    obtain ⟨x, hx, hrest, hmark, hapart⟩ := first.consumes
    obtain ⟨y, hrest', hmark', hapart', hne⟩ := ih
    refine ⟨x ++ y, ?_, ?_, ?_, by simp [hx]⟩
    · rw [hrest, hrest', List.append_assoc]
    · rw [hmark', hmark, Mark.past_append]
    · cases more with
      | nil =>
        have hnil : y = [] := by simpa using hrest'
        rwa [hnil, List.append_nil]
      | cons =>
        intro hlast
        rw [List.getLast?_append_of_ne_nil _ (hne (by simp))] at hlast
        exact hapart' hlast

theorem last_closed (h : Reads s ts s') (hlast : ts.getLast? = some t) (hkind : t.kind = .rightParen)
    {taken : List Char} (htaken : s.rest = taken ++ s'.rest) : taken.getLast? = some ')' := by
  obtain ⟨front, rfl⟩ := List.getLast?_eq_some_iff.1 hlast
  obtain ⟨m, hfront, hm⟩ := h.of_append
  obtain ⟨x, hx, -⟩ := hfront.consumes
  cases hm with
  | cons first more =>
    cases more with
    | nil =>
      obtain ⟨y, -, hy, -⟩ := first.consumes
      have hsame : taken = x ++ y := by
        rw [hx, hy, ← List.append_assoc] at htaken
        exact (List.append_cancel_right htaken).symm
      rw [hsame, List.getLast?_append, first.last_closed hkind hy]
      rfl

/-- A part of the text reads as the tokens that the whole has there. -/
theorem within (h : Reads s ts s') (hsu : Scanner.Within n s'.rest s u)
    (hcut : ts.length ≤ 1 ∨ Parted u.rest s'.rest) :
    ∃ ts' u', Reads u ts' u' ∧ u'.rest = [] ∧ List.Forall₂ (Moves n u.limit) ts ts' := by
  induction h generalizing u with
  | nil s =>
    refine ⟨[], u, .nil u, ?_, .nil⟩
    simpa using hsu.rest
  | @cons s s' s'' t ts first more ih =>
    obtain ⟨left, hleft, -⟩ := more.consumes
    have hcut' : left = [] ∨ Parted u.rest s''.rest := by
      refine hcut.imp_left fun hlength => ?_
      cases more with
      | nil => simpa using hleft
      | cons => simp at hlength
    obtain ⟨t', v, htakes, hwithin, hmoves⟩ := hsu.takes first hleft hcut'
    have hv : ts.length ≤ 1 ∨ Parted v.rest s''.rest := by
      refine hcut.imp (fun hlength => ?_) fun hu => ?_
      · simp only [List.length_cons] at hlength
        omega
      · obtain ⟨x, -, hrest, -⟩ := htakes.consumes
        rw [hrest] at hu
        exact hu.of_append
    obtain ⟨ts', v', hreads, hnil, hforall⟩ := ih hwithin hv
    have hlimit : v.limit = u.limit := htakes.limit_eq
    exact ⟨t' :: ts', v', .cons htakes hreads, hnil, .cons hmoves (hlimit ▸ hforall)⟩

/-- Tokens in a row are followed by those of the scanner behind them. -/
theorem tokens_eq (h : Reads s ts s') (hmore : s'.tokens = .ok us) : s.tokens = .ok (ts ++ us) := by
  induction h with
  | nil s => exact hmore
  | cons first _ ih =>
    rw [Scanner.tokens_of_takes first, ih hmore]
    rfl

theorem tokens_of_nil (h : Reads s ts s') (hnil : s'.rest = []) :
    ∃ e, e.kind = .eof ∧ s.tokens = .ok (ts ++ [e]) := by
  obtain ⟨e, after, hnext, hkind⟩ := Scanner.next_of_nil hnil
  exact ⟨e, hkind, h.tokens_eq (Scanner.tokens_of_eof hnext)⟩

theorem stop_eq (h : Reads s ts s') (hne : ts ≠ []) :
    (ts.getLast hne).span.stop = s'.mark.offset := by
  induction h with
  | nil s => exact absurd rfl hne
  | cons first more ih =>
    cases more with
    | nil => exact first.stop_eq
    | cons second more => rw [List.getLast_cons_cons]; exact ih (by simp)

end Reads

theorem rel_head? {α β : Type} {R : α → β → Prop} {as : List α} {bs : List β}
    (h : List.Forall₂ R as bs) : Option.Rel R as.head? bs.head? := by
  cases h with
  | nil => exact .none
  | cons h _ => exact .some h

theorem rel_getLast? {α β : Type} {R : α → β → Prop} {as : List α} {bs : List β}
    (h : List.Forall₂ R as bs) : Option.Rel R as.getLast? bs.getLast? := by
  induction h with
  | nil => exact .none
  | cons h more ih =>
    cases more with
    | nil => exact .some h
    | cons _ _ => simpa using ih

/-- A part of a text and its tokens, as they stand in the text and by themselves. -/
structure Part (text : List Char) (ts : List Token) (front part back : List Char)
    (ts' : List Token) : Prop where
  text_eq : text = front ++ part ++ back
  start_eq : ∀ t ∈ ts.head?, t.span.start = byteLength front
  stop_eq : ∀ t ∈ ts.getLast?, t.span.stop = byteLength front + byteLength part
  tokens_eq : ∃ e, e.kind = .eof ∧ (Scanner.start part).tokens = .ok (ts' ++ [e])
  moves : List.Forall₂ (Moves (byteLength front) (byteLength part)) ts ts'

/-- What follows some tokens makes no mark with the last of them. -/
inductive Severs (ts : List Token) (stop : Token) : Prop where
  | single (length_eq : ts.length = 1)
  | closed {last : Token} (getLast_eq : ts.getLast? = some last) (kind : last.kind = .rightParen)
  | clear (starts : stop.kind.startsClear = true)

/-- Tokens in a row that make no mark with what follows are those of a text of their own. -/
theorem exists_part {text : List Char} {before ts after : List Token} {stop : Token}
    (h : (Scanner.start text).tokens = .ok (before ++ ts ++ stop :: after)) (hne : ts ≠ [])
    (hstop : Severs ts stop) : ∃ front part back ts', Part text ts front part back ts' := by
  obtain ⟨s', hreads, hnext⟩ := Reads.of_tokens h
  obtain ⟨s, hbefore, hreads⟩ := hreads.of_append
  cases hreads with
  | nil => exact absurd rfl hne
  | @cons s s₁ s' t ts first more =>
    obtain ⟨front, hfront, hmark, -⟩ := hbefore.consumes
    have hreads : Reads s.skip (t :: ts) s' := .cons first.skipped more
    obtain ⟨part, hpart, hafter, hapart, -⟩ := hreads.consumes
    have hskip : s.rest = s.rest.take (Trivia.ofText s.rest).length ++ s.skip.rest :=
      (List.take_append_drop _ _).symm
    have hoffset : s.skip.mark.offset =
        byteLength (front ++ s.rest.take (Trivia.ofText s.rest).length) := by
      rw [Scanner.skip, Scanner.mark_advance, hmark, ← Mark.past_append, Mark.offset_past]
      exact Nat.zero_add _
    have hstart : Scanner.Within s.skip.mark.offset s'.rest s.skip (Scanner.start part) :=
      ⟨hpart, rfl⟩
    have hcut : (t :: ts).length ≤ 1 ∨ Parted part s'.rest := by
      cases hstop with
      | single length_eq => exact .inl length_eq.le
      | closed getLast_eq kind => exact .inr (parted_of_last (hreads.last_closed getLast_eq kind hpart))
      | clear starts =>
        refine .inr (Clear.parted ?_ hapart)
        rcases hnext with ⟨after, htakes⟩ | ⟨after, heof⟩
        · exact htakes.clear starts
        · exact Scanner.clear_of_eof heof
    obtain ⟨ts', u', hts', hnil, hmoves⟩ := hreads.within hstart hcut
    refine ⟨front ++ s.rest.take (Trivia.ofText s.rest).length, part, s'.rest, ts', ?_, ?_, ?_,
      hts'.tokens_of_nil hnil, ?_⟩
    · show (Scanner.start text).rest = _
      rw [hfront, List.append_assoc, ← hpart, List.append_assoc, ← hskip]
    · rintro _ ⟨⟩
      rw [first.start_eq, hoffset]
    · intro last hlast
      rw [List.getLast?_eq_some_getLast (by simp)] at hlast
      obtain rfl := Option.some.inj hlast
      rw [hreads.stop_eq, hafter, Mark.offset_past, hoffset]
    · have hlimit : (Scanner.start part).limit = byteLength part := Nat.zero_add _
      rw [← hoffset, ← hlimit]
      exact hmoves

end DdlCatalog.Token
