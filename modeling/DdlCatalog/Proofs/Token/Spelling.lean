import DdlCatalog.Proofs.Text.LowerCase
import DdlCatalog.Proofs.Token.Row

/-! # Spelled tokens
A text is spelled token by token, each with all that follows it in view. What ends a word, a number
or a quoted text is said of the character behind it. -/

namespace DdlCatalog.Token

open Text (isBlank byteLength)

/-- The text spells tokens of these kinds up to the rest that is left. -/
inductive Spells : List Char → List Kind → List Char → Prop where
  | done (rest : List Char) : Spells rest [] rest
  | blank {c : Char} {cs rest : List Char} {k : Kind} {ks : List Kind} (blank : isBlank c = true)
    (more : Spells cs (k :: ks) rest) : Spells (c :: cs) (k :: ks) rest
  | token {c : Char} {cs rest : List Char} {k : Kind} {ks : List Kind} {n : Nat}
    (starts : Trivia.ofText (c :: cs) = ⟨0, false⟩) (scan : Lexeme.scan c cs = .ok ⟨k, n⟩)
    (more : Spells (cs.drop n) ks rest) : Spells (c :: cs) (k :: ks) rest

variable {text rest left cs : List Char} {c : Char} {k : Kind} {ks us : List Kind}

theorem Spells.of_blank (h : Spells text ks rest) (hne : ks ≠ []) : Spells (' ' :: text) ks rest := by
  cases ks with
  | nil => exact absurd rfl hne
  | cons k ks => exact .blank (by decide) h

theorem Spells.reads {s : Scanner} (h : Spells s.rest ks rest) :
    ∃ ts s', Reads s ts s' ∧ ts.map (·.kind) = ks ∧ s'.rest = rest := by
  generalize htext : s.rest = text at h
  induction h generalizing s with
  | done => exact ⟨[], s, .nil s, rfl, htext⟩
  | @blank c cs rest k ks hc _ ih =>
    obtain ⟨ts, s', hreads, hkinds, hrest⟩ := ih (s := s.advance 1) (by simp [htext])
    have hne : ts ≠ [] := by
      rintro rfl
      cases hkinds
    exact ⟨ts, s', hreads.of_blank hne htext hc, hkinds, hrest⟩
  | @token c cs rest k ks n starts scan _ ih =>
    have hskip : s.skip = s := by rw [Scanner.skip, htext, starts, Scanner.advance_zero]
    have htakes : s.Takes (Token.between k s.mark (s.advance (n + 1)).mark) (s.advance (n + 1)) := by
      refine ⟨by rw [htext, starts], c, cs, ⟨k, n⟩, ?_, scan, ?_, ?_⟩ <;> rw [hskip]
      exact htext
    obtain ⟨ts, s', hreads, hkinds, hrest⟩ := ih (s := s.advance (n + 1)) (by simp [htext])
    exact ⟨_ :: ts, s', .cons htakes hreads, by rw [List.map_cons, hkinds]; rfl, hrest⟩

theorem Spells.reads_one {s : Scanner} (h : Spells s.rest [k] rest) :
    ∃ t s', Reads s [t] s' ∧ t.kind = k ∧ s'.rest = rest := by
  obtain ⟨ts, s', hreads, hkinds, hrest⟩ := h.reads
  obtain ⟨t, _, rfl, ht, hnil⟩ := List.map_eq_cons_iff.1 hkinds
  obtain rfl := List.map_eq_nil_iff.1 hnil
  exact ⟨t, s', hreads, ht, hrest⟩

/-- A text that is spelled to its end has these tokens and no others. -/
theorem Spells.exists_tokenize (h : Spells text ks []) (source : String) :
    ∃ ts stop, tokenize source text = .ok (ts ++ [stop]) ∧ ts.map (·.kind) = ks ∧
      stop.kind = .eof ∧ ∀ t ∈ ts, t.kind ≠ .eof := by
  obtain ⟨ts, s', hreads, hkinds, hnil⟩ := Spells.reads (s := Scanner.start text) h
  obtain ⟨stop, hstop, htokens⟩ := hreads.tokens_of_nil hnil
  refine ⟨ts, stop, ?_, hkinds, hstop, hreads.kinds⟩
  rw [tokenize, htokens]
  rfl

/-- A text behind which a word is over. -/
def Breaks (rest : List Char) : Prop := ∀ d ∈ rest.head?, isWordChar d = false ∧ d ≠ '\''

theorem Breaks.nil : Breaks [] := nofun

theorem Breaks.cons (h : isWordChar c = false ∧ c ≠ '\'') : Breaks (c :: cs) := by
  rintro d ⟨⟩
  exact h

theorem breaks_mark (h : c ∈ [' ', '(', '[', '.']) (cs : List Char) :
    Breaks (c :: cs) := by
  simp only [List.mem_cons, List.not_mem_nil, or_false] at h
  rcases h with rfl | rfl | rfl | rfl <;> exact .cons (by decide +kernel)

theorem not_isDigit_of_isWordStart (h : isWordStart c = true) : c.isDigit = false := by
  by_contra hdigit
  rw [Bool.not_eq_false] at hdigit
  have hle : c.toNat ≤ 57 := (Char.isDigit_iff_toNat.1 hdigit).2
  have hall : ∀ n < 128, (Char.ofNat n).isDigit = true → isWordStart (Char.ofNat n) = false := by
    decide +kernel
  have hnone := hall c.toNat (by omega)
  rw [Char.ofNat_toNat, h] at hnone
  exact absurd (hnone hdigit) (by simp)

theorem isWordStart_ne (h : isWordStart c = true) :
    c ≠ '\'' ∧ c ≠ '"' ∧ c ≠ '$' ∧ c ≠ ':' ∧ c ≠ '.' ∧ c ≠ '-' ∧ c ≠ '/' := by
  refine ⟨?_, ?_, ?_, ?_, ?_, ?_, ?_⟩ <;> rintro rfl <;> revert h <;> decide +kernel

theorem Lexeme.scan_word (hstart : isWordStart c = true) (hcs : ∀ d ∈ cs, isWordChar d = true)
    (hrest : Breaks rest) : scan c (cs ++ rest) =
      .ok ⟨Kind.ofWord (Text.lower (String.ofList (c :: cs))), cs.length⟩ := by
  obtain ⟨hstring, hquoted, hdollar, hcolon, hpoint, -, -⟩ := isWordStart_ne hstart
  have hnumber : startsNumber c (cs ++ rest) = false := by
    simp [startsNumber, not_isDigit_of_isWordStart hstart, hpoint]
  have hescaped : ((c = 'e' || c = 'E') && (cs ++ rest).head? = some '\'') = false := by
    have hquote : (cs ++ rest).head? ≠ some '\'' := by
      cases cs with
      | nil => exact fun h => (hrest _ h).2 rfl
      | cons d cs =>
        rintro ⟨⟩
        exact absurd (hcs '\'' (List.mem_cons_self ..)) (by decide +kernel)
    rw [decide_eq_false hquote, Bool.and_false]
  have htail : (cs ++ rest).takeWhile isWordChar = cs := by
    rw [takeWhile_append fun d hd => (hrest d hd).1, List.takeWhile_eq_self_iff.2 hcs]
  rw [scan, if_neg hstring, if_neg hquoted, if_neg hdollar, if_neg hcolon,
    if_neg (by simp [hnumber]), if_pos hstart, if_neg (Bool.not_eq_true _ ▸ hescaped), word, htail]

theorem Spells.word (h : IsWord cs) (hrest : Breaks rest) (more : Spells rest ks left) :
    Spells (cs ++ rest) (Kind.ofWord (Text.lower (String.ofList cs)) :: ks) left := by
  obtain ⟨c, cs, rfl, hstart, hcs⟩ := h
  obtain ⟨-, -, -, -, -, hline, hblock⟩ := isWordStart_ne hstart
  have hblank : isBlank c = false := by
    by_contra hblank
    rw [Bool.not_eq_false] at hblank
    have hnone := (Ends.blank hblank []).head_not_isWordStart c rfl
    exact absurd (hnone.symm.trans hstart) (by simp)
  have hdrop : (cs ++ rest).drop cs.length = rest := List.drop_left
  rw [List.cons_append]
  refine .token (Trivia.ofText_other hblank (fun h => absurd h hline) fun h => absurd h hblock)
    (Lexeme.scan_word hstart hcs hrest) ?_
  rwa [hdrop]

/-- A word in lower case, which its token keeps as it is. -/
structure IsLowerWord (name : String) : Prop where
  word : IsWord name.toList
  lower : Text.lower name = name

theorem IsWord.isWordChar {cs : List Char} (h : IsWord cs) : ∀ c ∈ cs, isWordChar c = true := by
  obtain ⟨c, rest, rfl, hstart, hrest⟩ := h
  exact List.forall_mem_cons.2 ⟨isWordChar_of_isWordStart hstart, hrest⟩

theorem IsWord.head_not_isDigit {cs rest : List Char} (h : IsWord cs) :
    ∀ d ∈ (cs ++ rest).head?, d.isDigit = false := by
  obtain ⟨c, cs, rfl, hstart, -⟩ := h
  rintro d ⟨⟩
  exact not_isDigit_of_isWordStart hstart

theorem IsWord.ne_blank {cs : List Char} {c : Char} (h : IsWord cs) (hc : c ∈ cs) : c ≠ ' ' := by
  rintro rfl
  exact absurd (h.isWordChar ' ' hc) (by decide +kernel)

instance (cs : List Char) : Decidable (IsWord cs) :=
  match cs with
  | [] => isFalse fun ⟨_, _, h, _⟩ => nomatch h
  | c :: rest =>
    decidable_of_iff (isWordStart c = true ∧ rest.all isWordChar = true)
      ⟨fun h => ⟨c, rest, rfl, h.1, List.all_eq_true.1 h.2⟩,
        fun ⟨_, _, heq, h⟩ => by cases heq; exact ⟨h.1, List.all_eq_true.2 h.2⟩⟩

instance (name : String) : Decidable (IsLowerWord name) :=
  decidable_of_iff (IsWord name.toList ∧ Text.lower name = name)
    ⟨fun h => ⟨h.1, h.2⟩, fun h => ⟨h.word, h.lower⟩⟩

/-- Names without quotes, in ASCII. -/
def Kind.IsPlainName (k : Kind) : Prop :=
  ∀ name ∈ k.name?, name ∈ k.word? ∧ ∀ c ∈ name.toList, c.toNat < 128

instance (k : Kind) : Decidable k.IsPlainName :=
  decidable_of_iff (∀ name ∈ k.name?, name ∈ k.word? ∧ name.toList.all (·.toNat < 128) = true)
    (by simp only [Kind.IsPlainName, List.all_eq_true, decide_eq_true_eq])

theorem punctuation?_word {c : Char} {kind : Kind} (h : Lexeme.punctuation? c = some kind) :
    kind.word? = none := by
  unfold Lexeme.punctuation? at h
  split_ifs at h <;> cases h <;> rfl

/-- An unquoted name is the token of a word. -/
theorem Lexeme.exists_word_of_scan {c : Char} {rest : List Char} {lexeme : Lexeme} {name : String}
    (h : scan c rest = .ok lexeme) (hname : lexeme.kind.word? = some name) :
    ∃ cs, IsWord cs ∧ Text.lower (String.ofList cs) = name ∧ lexeme.kind = Kind.ofWord name := by
  by_cases hword : lexeme = word c rest ∧ isWordStart c = true
  · obtain ⟨rfl, hstart⟩ := hword
    rw [word, Kind.word?_ofWord] at hname
    refine ⟨c :: rest.takeWhile isWordChar, ⟨c, _, rfl, hstart, ?_⟩, Option.some.inj hname, ?_⟩
    · exact fun d hd => List.all_eq_true.1 List.all_takeWhile d hd
    · rw [word, Option.some.inj hname]
  · unfold scan colon at h
    split_ifs at h <;>
      grind [string, quotedIdentifier, dollar, dollarQuoted, parameter, number, escapedString,
        Lexeme.symbol, operator, punctuation?_word, Kind.word?]

theorem Reads.exists_word {s s' : Scanner} {ts : List Token} (h : Reads s ts s') {name : String} :
    ∀ t ∈ ts, t.kind.word? = some name →
      ∃ cs, IsWord cs ∧ Text.lower (String.ofList cs) = name ∧ t.kind = Kind.ofWord name := by
  induction h with
  | nil => nofun
  | cons first _ ih =>
    obtain ⟨c, rest, lexeme, -, hscan, -, rfl⟩ := first.lexeme
    exact List.forall_mem_cons.2 ⟨Lexeme.exists_word_of_scan hscan, ih⟩

theorem Reads.isLowerWord {s s' : Scanner} {ts : List Token} (h : Reads s ts s') {name : String} :
    ∀ t ∈ ts, t.kind.IsPlainName → t.kind.name? = some name →
      IsLowerWord name ∧ t.kind = Kind.ofWord name := by
  intro t ht hplain hname
  obtain ⟨hword, hascii⟩ := hplain name hname
  obtain ⟨cs, hcs, rfl, hkind⟩ := h.exists_word t ht hword
  exact ⟨⟨(hcs.lower hascii).1, (hcs.lower hascii).2⟩, hkind⟩

theorem Spells.lowerWord {name : String} {rest left : List Char} {ks : List Kind}
    (h : IsLowerWord name) (hrest : Breaks rest) (more : Spells rest ks left) :
    Spells (name.toList ++ rest) (Kind.ofWord name :: ks) left := by
  have hword := Spells.word h.word hrest more
  rwa [String.ofList_toList, h.lower] at hword

theorem Spells.keyword {k : Keyword} (hrest : Breaks rest)
    (h : IsWord k.display.toList ∧ Kind.ofWord (Text.lower k.display) = .keyword k)
    (more : Spells rest ks left) :
    Spells (k.display.toList ++ rest) (.keyword k :: ks) left := by
  have hword := Spells.word h.1 hrest more
  rwa [String.ofList_toList, h.2] at hword

/-- A mark that is no point, whatever follows it. -/
theorem Spells.mark (hc : Lexeme.punctuation? c = some k) (hpoint : c ≠ '.')
    (more : Spells rest ks left) : Spells (c :: rest) (k :: ks) left := by
  have hmark : c ∈ ['(', ')', '[', ']', ',', ';'] := by
    unfold Lexeme.punctuation? at hc
    split_ifs at hc <;> simp_all
  have hother : (c ≠ '\'' ∧ c ≠ '"' ∧ c ≠ '$' ∧ c ≠ ':') ∧ (c.isDigit = false ∧ isWordStart c = false) ∧
      isBlank c = false ∧ c ≠ '-' ∧ c ≠ '/' := by
    simp only [List.mem_cons, List.not_mem_nil, or_false] at hmark
    rcases hmark with rfl | rfl | rfl | rfl | rfl | rfl <;> decide +kernel
  obtain ⟨⟨hstring, hquoted, hdollar, hcolon⟩, ⟨hdigit, hword⟩, hblank, hline, hblock⟩ := hother
  have hscan : Lexeme.scan c rest = .ok ⟨k, 0⟩ := by
    have hnumber : startsNumber c rest = false := by simp [startsNumber, hdigit, hpoint]
    rw [Lexeme.scan, if_neg hstring, if_neg hquoted, if_neg hdollar, if_neg hcolon,
      if_neg (by simp [hnumber]), if_neg (by simp [hword]), Lexeme.symbol, hc]
  exact .token (Trivia.ofText_other hblank (fun h => absurd h hline)
    fun h => absurd h hblock) hscan more

/-- A point that no digit follows. -/
theorem Spells.point (hrest : ∀ d ∈ rest.head?, d.isDigit = false) (more : Spells rest ks left) :
    Spells ('.' :: rest) (.dot :: ks) left := by
  have hscan : Lexeme.scan '.' rest = .ok ⟨.dot, 0⟩ := by
    have hnumber : startsNumber '.' rest = false := by
      cases rest with
      | nil => rfl
      | cons d rest => simpa [startsNumber] using hrest d rfl
    have hword : isWordStart '.' = false := by decide +kernel
    rw [Lexeme.scan, if_neg (by decide), if_neg (by decide), if_neg (by decide), if_neg (by decide),
      if_neg (by simp [hnumber]), if_neg (by simp [hword])]
    rfl
  exact .token (Trivia.ofText_other (by decide) (fun h => by cases h)
    fun h => by cases h) hscan more

/-- A text behind which a number is over, as those in the modifiers and dimensions of types are. -/
inductive EndsNumber : List Char → Prop where
  | comma (rest : List Char) : EndsNumber (',' :: rest)
  | rightParen (rest : List Char) : EndsNumber (')' :: rest)
  | rightBracket (rest : List Char) : EndsNumber (']' :: rest)

theorem numberLength_digits (hcs : ∀ d ∈ cs, d.isDigit = true) (hrest : EndsNumber rest) :
    numberLength (cs ++ rest) = cs.length := by
  have hmantissa : mantissaLength false (cs ++ rest) = cs.length := by
    induction cs with
    | nil => cases hrest <;> rfl
    | cons d cs ih =>
      obtain ⟨hd, hcs⟩ := List.forall_mem_cons.1 hcs
      rw [List.cons_append, mantissaLength, if_pos (by simp [hd]), ih hcs, List.length_cons,
        Nat.add_comm]
  have hexponent : exponentLength rest = 0 := by cases hrest <;> rfl
  rw [numberLength, hmantissa, List.drop_left, hexponent, Nat.add_zero]

theorem Lexeme.scan_digits (hc : c.isDigit = true) (hcs : ∀ d ∈ cs, d.isDigit = true)
    (hrest : EndsNumber rest) :
    scan c (cs ++ rest) = .ok ⟨.number (String.ofList (c :: cs)), cs.length⟩ := by
  have hfirst : c ≠ '\'' ∧ c ≠ '"' ∧ c ≠ '$' ∧ c ≠ ':' := by
    refine ⟨?_, ?_, ?_, ?_⟩ <;> rintro rfl <;> cases hc
  obtain ⟨hstring, hquoted, hdollar, hcolon⟩ := hfirst
  have hlength := numberLength_digits (List.forall_mem_cons.2 ⟨hc, hcs⟩) hrest
  have hmarks : isWordStart ',' = false ∧ isWordStart ')' = false ∧ isWordStart ']' = false := by
    decide +kernel
  have hjunk : rest.head?.any isWordStart = false := by cases hrest <;> simp [hmarks]
  rw [List.cons_append] at hlength
  rw [scan, if_neg hstring, if_neg hquoted, if_neg hdollar, if_neg hcolon,
    if_pos (by simp [startsNumber, hc]), number, hlength]
  simp [hjunk]

theorem Spells.digits (hne : cs ≠ []) (hcs : ∀ d ∈ cs, d.isDigit = true) (hrest : EndsNumber rest)
    (more : Spells rest ks left) :
    Spells (cs ++ rest) (.number (String.ofList cs) :: ks) left := by
  obtain ⟨c, cs, rfl⟩ := List.exists_cons_of_ne_nil hne
  obtain ⟨hc, hcs⟩ := List.forall_mem_cons.1 hcs
  have hdrop : (cs ++ rest).drop cs.length = rest := List.drop_left
  have hblank : isBlank c = false := by
    by_contra hblank
    rw [Bool.not_eq_false] at hblank
    exact absurd ((Text.not_isDigit_of_isBlank hblank).symm.trans hc) (by simp)
  rw [List.cons_append]
  refine .token (Trivia.ofText_other hblank ?_ ?_) (Lexeme.scan_digits hc hcs hrest) ?_
  · rintro rfl
    cases hc
  · rintro rfl
    cases hc
  · rwa [hdrop]

/-- The text between two marks, in which the mark is written twice. -/
def doubled (mark : Char) (cs : List Char) : List Char :=
  cs.flatMap fun c => if c = mark then [mark, mark] else [c]

theorem doubled_cons (mark c : Char) (cs : List Char) :
    doubled mark (c :: cs) = (if c = mark then [mark, mark] else [c]) ++ doubled mark cs :=
  List.flatMap_cons

/-- A mark written twice does not end the text. -/
theorem quotedRest?_doubled {mark : Char} (hrest : rest.head? ≠ some mark) (cs : List Char) :
    quotedRest? mark (doubled mark cs ++ mark :: rest) =
      some (cs, (doubled mark cs).length + 1) := by
  induction cs with
  | nil =>
    cases rest with
    | nil => simp [doubled, quotedRest?]
    | cons d rest =>
      have hd : d ≠ mark := fun h => hrest (congrArg some h)
      simp [doubled, quotedRest?, hd]
  | cons c cs ih =>
    rw [doubled_cons]
    by_cases hc : c = mark
    · simp [quotedRest?, hc, ih]
    · rw [if_neg hc]
      -- there is always a character behind one that is no mark
      obtain ⟨d, more, hmore⟩ : ∃ d more, doubled mark cs ++ mark :: rest = d :: more :=
        List.exists_cons_of_ne_nil (by simp)
      rw [hmore] at ih
      simp [quotedRest?, hc, hmore, ih]

theorem drop_doubled {mark : Char} : (doubled mark cs ++ mark :: rest).drop
    ((doubled mark cs).length + 1) = rest := by
  rw [List.drop_append]
  simp

theorem Spells.string (hrest : rest.head? ≠ some '\'') (more : Spells rest ks left) :
    Spells ('\'' :: (doubled '\'' cs ++ '\'' :: rest)) (.string (String.ofList cs) :: ks) left := by
  have hscan : Lexeme.scan '\'' (doubled '\'' cs ++ '\'' :: rest) =
      .ok ⟨.string (String.ofList cs), (doubled '\'' cs).length + 1⟩ := by
    rw [Lexeme.scan, if_pos rfl, Lexeme.string, quotedRest?_doubled hrest]
  refine .token (Trivia.ofText_other (by decide) (fun h => by cases h) fun h => by cases h) hscan ?_
  rwa [drop_doubled]

theorem Spells.quotedIdentifier (hne : cs ≠ []) (hrest : rest.head? ≠ some '"')
    (more : Spells rest ks left) :
    Spells ('"' :: (doubled '"' cs ++ '"' :: rest)) (.quotedIdentifier (String.ofList cs) :: ks)
      left := by
  have hscan : Lexeme.scan '"' (doubled '"' cs ++ '"' :: rest) =
      .ok ⟨.quotedIdentifier (String.ofList cs), (doubled '"' cs).length + 1⟩ := by
    rw [Lexeme.scan, if_neg (by decide), if_pos rfl, Lexeme.quotedIdentifier,
      quotedRest?_doubled hrest]
    cases cs with
    | nil => exact absurd rfl hne
    | cons c cs => rfl
  refine .token (Trivia.ofText_other (by decide) (fun h => by cases h) fun h => by cases h) hscan ?_
  rwa [drop_doubled]

end DdlCatalog.Token
