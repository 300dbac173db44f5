import DdlCatalog.Token.Scanner
import Mathlib.Tactic.SplitIfs

/-! # Reading a text that is cut
A token and what stands before it are read the same when the text is cut behind them, provided the
cut is made in front of a blank, a comment, a comma, a semicolon or a closing parenthesis. -/

namespace DdlCatalog

/-! ## Blanks belong to no word -/

namespace Text

variable {c : Char}

/-- Sets without a common interval have no common member. -/
theorem Ranges.not_contains {rs ss : Ranges}
    (hapart : ∀ r ∈ rs, ∀ s ∈ ss, r.2 < s.1 ∨ s.2 < r.1) (hc : rs.contains c = true) :
    ss.contains c = false := by
  obtain ⟨r, hr, hrc⟩ := List.any_eq_true.1 hc
  refine Bool.eq_false_iff.2 fun hs => ?_
  obtain ⟨s, hs, hsc⟩ := List.any_eq_true.1 hs
  simp only [Bool.and_eq_true, decide_eq_true_eq] at hrc hsc
  rcases hapart r hr s hs with h | h <;> omega

/-- Within ASCII the blanks come before every letter and digit. -/
theorem toNat_le_of_isBlank (h : isBlank c = true) (hc : c.toNat < 128) : c.toNat ≤ 32 := by
  simp only [isBlank, Ranges.contains, blankRanges, List.any_cons, List.any_nil, Bool.or_eq_true,
    Bool.and_eq_true, decide_eq_true_eq, Bool.or_false] at h
  omega

theorem not_isDigit_of_isBlank (h : isBlank c = true) : c.isDigit = false := by
  refine Bool.eq_false_iff.2 fun hd => ?_
  simp only [Char.isDigit, Bool.and_eq_true, decide_eq_true_eq] at hd
  have hd : 48 ≤ c.toNat ∧ c.toNat ≤ 57 := hd
  have := toNat_le_of_isBlank h (by omega)
  omega

theorem not_isAlpha_of_isBlank (h : isBlank c = true) : c.isAlpha = false := by
  refine Bool.eq_false_iff.2 fun ha => ?_
  rcases Bool.or_eq_true_iff.1 ha with hu | hl
  · have hu : 65 ≤ c.toNat ∧ c.toNat ≤ 90 := of_decide_eq_true hu
    have := toNat_le_of_isBlank h (by omega)
    omega
  · obtain ⟨hlow, hhigh⟩ := Bool.and_eq_true_iff.1 hl
    have hlow : 97 ≤ c.toNat := of_decide_eq_true hlow
    have hhigh : c.toNat ≤ 122 := of_decide_eq_true hhigh
    have := toNat_le_of_isBlank h (by omega)
    omega

theorem not_isAlphabetic_of_isBlank (h : isBlank c = true) : isAlphabetic c = false := by
  unfold isAlphabetic
  split
  · exact not_isAlpha_of_isBlank h
  · exact Ranges.not_contains (by decide +kernel) h

theorem not_isNumeric_of_isBlank (h : isBlank c = true) : isNumeric c = false := by
  unfold isNumeric
  split
  · exact not_isDigit_of_isBlank h
  · exact Ranges.not_contains (by decide +kernel) h

theorem not_isAlphanumeric_of_isBlank (h : isBlank c = true) : isAlphanumeric c = false := by
  simp [isAlphanumeric, not_isAlphabetic_of_isBlank h, not_isNumeric_of_isBlank h]

end Text

namespace Token

open Text (isBlank isAlphanumeric)

/-! ## Where a text may be cut -/

/-- A text that is empty or starts with a semicolon, a closing parenthesis, a comma, a blank or a
comment. -/
inductive Ends : List Char → Prop where
  | nil : Ends []
  | semicolon (rest : List Char) : Ends (';' :: rest)
  | rightParen (rest : List Char) : Ends (')' :: rest)
  | comma (rest : List Char) : Ends (',' :: rest)
  | blank {c : Char} (h : isBlank c = true) (rest : List Char) : Ends (c :: rest)
  | lineComment (rest : List Char) : Ends ('-' :: '-' :: rest)
  | blockComment (rest : List Char) : Ends ('/' :: '*' :: rest)

/-- The characters that may stand in front of a cut and after it make no comment together. -/
def Apart (a b : List Char) : Prop := a.getLast? = some '-' → b.head? ≠ some '-'

variable {a b : List Char} {c : Char}

theorem Apart.tail (h : Apart (c :: a) b) : Apart a b := by
  intro ha
  refine h ?_
  cases a with
  | nil => cases ha
  | cons d a => simpa using ha

theorem Apart.drop (h : Apart a b) (n : Nat) : Apart (a.drop n) b := by
  induction n generalizing a with
  | zero => exact h
  | succ n ih =>
    cases a with
    | nil => rw [List.drop_nil]; exact h
    | cons c a => exact ih h.tail

namespace Ends

/-- What holds of neither blanks nor the other characters in front of a cut. -/
theorem head_not {P : Char → Bool} (hb : Ends b) (hblank : ∀ c, isBlank c = true → P c = false)
    (hothers : [';', ')', ',', '-', '/'].all (!P ·) = true) : ∀ c ∈ b.head?, P c = false := by
  simp only [List.all_cons, List.all_nil, Bool.and_true, Bool.and_eq_true,
    Bool.not_eq_true'] at hothers
  intro c hc
  cases hb <;> cases hc
  · exact hothers.1
  · exact hothers.2.1
  · exact hothers.2.2.1
  · exact hblank _ ‹_›
  · exact hothers.2.2.2.1
  · exact hothers.2.2.2.2

theorem head_ne (hb : Ends b) (hblank : isBlank c = false)
    (hothers : [';', ')', ',', '-', '/'].contains c = false) : b.head? ≠ some c := by
  intro hc
  cases hb <;> cases hc
  · cases hothers
  · cases hothers
  · cases hothers
  · exact Bool.false_ne_true (hblank.symm.trans ‹_›)
  · cases hothers
  · cases hothers

theorem head_not_isDigit (hb : Ends b) : ∀ c ∈ b.head?, c.isDigit = false :=
  hb.head_not (fun _ h => Text.not_isDigit_of_isBlank h) (by decide)

theorem head_not_isWordStart (hb : Ends b) : ∀ c ∈ b.head?, isWordStart c = false := by
  refine hb.head_not (fun c h => ?_) (by decide +kernel)
  have hne : c ≠ '_' := by
    rintro rfl
    revert h
    decide
  simp [isWordStart, hne, Text.not_isAlphabetic_of_isBlank h]

theorem head_not_isWordChar (hb : Ends b) : ∀ c ∈ b.head?, isWordChar c = false := by
  refine hb.head_not (fun c h => ?_) (by decide +kernel)
  have hne : c ≠ '_' ∧ c ≠ '$' := by
    constructor <;> rintro rfl <;> revert h <;> decide
  simp [isWordChar, hne, Text.not_isAlphanumeric_of_isBlank h]

theorem head_not_isNameChar (hb : Ends b) : ∀ c ∈ b.head?, isNameChar c = false := by
  intro c hc
  have h := hb.head_not_isWordChar c hc
  simp only [isWordChar, Bool.or_eq_false_iff] at h
  simp [isNameChar, h.1.1, h.1.2]

theorem head_not_isTagChar (hb : Ends b) : ∀ c ∈ b.head?, isTagChar c = false := by
  refine hb.head_not (fun c h => ?_) (by decide +kernel)
  have hne : c ≠ '_' := by
    rintro rfl
    revert h
    decide
  simp [isTagChar, Char.isAlphanum, hne, Text.not_isAlpha_of_isBlank h,
    Text.not_isDigit_of_isBlank h]

/-- A sign behind a cut starts a comment. -/
theorem head?_tail_of_isSign (hb : Ends b) (hs : b.head?.any isSign = true) :
    b.tail.head? = some '-' := by
  cases hb with
  | nil => cases hs
  | semicolon rest => cases hs
  | rightParen rest => cases hs
  | comma rest => cases hs
  | @blank c h rest =>
    have hs : isSign c = true := hs
    simp only [isSign, Bool.or_eq_true, decide_eq_true_eq] at hs
    rcases hs with rfl | rfl <;> cases h
  | lineComment rest => rfl
  | blockComment rest => cases hs

end Ends

/-! ## Runs of characters -/

theorem length_takeWhile_le {p : Char → Bool} : (a.takeWhile p).length ≤ a.length :=
  List.IsPrefix.length_le <| List.takeWhile_prefix p

theorem takeWhile_append {p : Char → Bool} (hb : ∀ c ∈ b.head?, p c = false) :
    (a ++ b).takeWhile p = a.takeWhile p := by
  rw [List.takeWhile_append]
  have hnil : b.takeWhile p = [] := by
    cases b with
    | nil => rfl
    | cons c b => rw [List.takeWhile_cons, hb c rfl]; rfl
  split
  · next h =>
    have hprefix : a.takeWhile p <+: a := List.takeWhile_prefix p
    rw [hnil, List.append_nil, hprefix.eq_of_length h]
  · rfl

theorem any_head?_append {p : Char → Bool} (hb : ∀ c ∈ b.head?, p c = false) :
    (a ++ b).head?.any p = a.head?.any p := by
  cases a with
  | nil =>
    cases b with
    | nil => rfl
    | cons c b => exact hb c rfl
  | cons c a => rfl

theorem head?_append_ne (hb : b.head? ≠ some c) : (a ++ b).head? = some c ↔ a.head? = some c := by
  cases a with
  | nil => exact ⟨fun h => absurd h hb, fun h => nomatch h⟩
  | cons d a => rfl

/-! ## Quoted text -/

@[grind →]
theorem quotedRest?_pos {mark : Char} {text : List Char} {n : Nat}
    (h : quotedRest? mark a = some (text, n)) : 0 < n := by
  fun_induction quotedRest? mark a generalizing text n <;> grind [Option.map_eq_some_iff]

theorem quotedRest?_of_append {mark : Char} {text : List Char} {n : Nat}
    (h : quotedRest? mark (a ++ b) = some (text, n)) (hn : n ≤ a.length) :
    quotedRest? mark a = some (text, n) := by
  fun_induction quotedRest? mark a generalizing text n with
  | case1 =>
    have := quotedRest?_pos h
    simp only [List.length_nil] at hn
    omega
  | _ => cases b <;> grind [quotedRest?, Option.map_eq_some_iff]

@[grind →]
theorem escapedRest?_pos {text : List Char} {n : Nat} (h : escapedRest? a = some (text, n)) :
    0 < n := by
  fun_induction escapedRest? a generalizing text n <;> grind [Option.map_eq_some_iff]

theorem escapedRest?_of_append {text : List Char} {n : Nat}
    (h : escapedRest? (a ++ b) = some (text, n)) (hn : n ≤ a.length) :
    escapedRest? a = some (text, n) := by
  fun_induction escapedRest? a generalizing text n with
  | case1 =>
    have := escapedRest?_pos h
    simp only [List.length_nil] at hn
    omega
  | _ => cases b <;> grind [escapedRest?, Option.map_eq_some_iff]

theorem before?_of_append {delimiter body : List Char}
    (h : before? delimiter (a ++ b) = some body)
    (hn : body.length + delimiter.length ≤ a.length) : before? delimiter a = some body := by
  induction a generalizing body with
  | nil =>
    rw [List.length_nil, Nat.le_zero, Nat.add_eq_zero_iff] at hn
    rw [List.eq_nil_of_length_eq_zero hn.1, List.eq_nil_of_length_eq_zero hn.2]
    rfl
  | cons c a ih =>
    rw [List.cons_append, before?] at h
    rw [before?]
    split at h
    · next hp =>
      cases h
      have hp : delimiter <+: (c :: a) ++ b := List.isPrefixOf_iff_prefix.1 hp
      have hp : delimiter <+: c :: a :=
        List.prefix_of_prefix_length_le hp (List.prefix_append _ b) (by simpa using hn)
      have hp : delimiter.isPrefixOf (c :: a) = true := List.isPrefixOf_iff_prefix.2 hp
      rw [if_pos hp]
    · next hp =>
      obtain ⟨tail, ht, rfl⟩ := Option.map_eq_some_iff.1 h
      have hp : ¬delimiter.isPrefixOf (c :: a) = true := by
        intro hpre
        have hpre : delimiter <+: c :: a := List.isPrefixOf_iff_prefix.1 hpre
        refine hp ?_
        exact List.isPrefixOf_iff_prefix.2 (hpre.trans (List.prefix_append (c :: a) b))
      rw [if_neg hp, ih ht (by simp at hn; omega)]
      rfl

/-! ## Blanks and comments -/

@[grind →]
theorem commentRest?_pos {depth n : Nat} (h : commentRest? depth a = some n) : 1 < n := by
  fun_induction commentRest? depth a generalizing n <;> grind [Option.map_eq_some_iff]

theorem commentRest?_other {rest : List Char} (hclose : c = '*' → rest.head? ≠ some '/')
    (hopen : c = '/' → rest.head? ≠ some '*') (depth : Nat) :
    commentRest? depth (c :: rest) = (commentRest? depth rest).map (· + 1) := by
  rw [commentRest?.eq_5]
  · rintro tail rfl rfl
    exact hclose rfl rfl
  · rintro tail rfl rfl
    exact hopen rfl rfl

theorem commentRest?_le {depth n : Nat} (h : commentRest? depth a = some n) : n ≤ a.length := by
  fun_induction commentRest? depth a generalizing n <;> grind [Option.map_eq_some_iff]

theorem commentRest?_of_append {depth n : Nat} (h : commentRest? depth (a ++ b) = some n)
    (hn : n ≤ a.length) : commentRest? depth a = some n := by
  fun_induction commentRest? depth a generalizing n with
  | case1 =>
    have := commentRest?_pos h
    simp only [List.length_nil] at hn
    omega
  | case5 depth c a hclose hopen ih =>
    cases a with
    | nil =>
      have := commentRest?_pos h
      simp only [List.length_cons, List.length_nil] at hn
      omega
    | cons d a =>
      rw [List.cons_append, commentRest?_other (by simpa using hclose) (by simpa using hopen)] at h
      obtain ⟨n, hrest, rfl⟩ := Option.map_eq_some_iff.1 h
      rw [ih hrest (by simpa using hn)]
      rfl
  | _ => grind [commentRest?, Option.map_eq_some_iff]

theorem takeWhile_of_append {p : Char → Bool} (h : ((a ++ b).takeWhile p).length ≤ a.length) :
    (a ++ b).takeWhile p = a.takeWhile p := by
  rw [List.takeWhile_append] at h ⊢
  split
  · next hall =>
    rw [if_pos hall, List.length_append] at h
    have hnil : b.takeWhile p = [] := List.eq_nil_of_length_eq_zero (by omega)
    have hprefix : a.takeWhile p <+: a := List.takeWhile_prefix p
    rw [hnil, List.append_nil, hprefix.eq_of_length hall]
  · rfl

namespace Trivia

@[simp] theorem ofText_nil : ofText [] = ⟨0, false⟩ := by rw [ofText]

theorem ofText_blank (h : isBlank c = true) (rest : List Char) :
    ofText (c :: rest) = (ofText rest).after 1 := by
  rw [ofText.eq_def]
  exact if_pos h

theorem ofText_lineComment (rest : List Char) :
    ofText ('-' :: '-' :: rest) =
      (ofText (rest.drop (rest.takeWhile (· ≠ '\n')).length)).after
        ((rest.takeWhile (· ≠ '\n')).length + 2) := by
  rw [ofText, if_neg (by decide)]

theorem ofText_blockComment {rest : List Char} {n : Nat} (h : commentRest? 0 rest = some n) :
    ofText ('/' :: '*' :: rest) = (ofText (rest.drop n)).after (n + 2) := by
  rw [ofText, if_neg (by decide)]
  simp only [h]

theorem ofText_unclosed {rest : List Char} (h : commentRest? 0 rest = none) :
    ofText ('/' :: '*' :: rest) = ⟨0, true⟩ := by
  rw [ofText, if_neg (by decide)]
  simp only [h]

theorem ofText_other {rest : List Char} (hblank : isBlank c = false)
    (hline : c = '-' → rest.head? ≠ some '-') (hblock : c = '/' → rest.head? ≠ some '*') :
    ofText (c :: rest) = ⟨0, false⟩ := by
  rw [ofText.eq_4, if_neg (by simp [hblank])]
  · rintro tail rfl rfl
    exact hline rfl rfl
  · rintro tail rfl rfl
    exact hblock rfl rfl

@[elab_as_elim]
theorem induction {P : List Char → Prop} (nil : P [])
    (blank : ∀ c rest, isBlank c = true → P rest → P (c :: rest))
    (lineComment : ∀ rest, P (rest.drop (rest.takeWhile (· ≠ '\n')).length) →
      P ('-' :: '-' :: rest))
    (blockComment : ∀ rest n, commentRest? 0 rest = some n → P (rest.drop n) →
      P ('/' :: '*' :: rest))
    (unclosed : ∀ rest, commentRest? 0 rest = none → P ('/' :: '*' :: rest))
    (other : ∀ c rest, isBlank c = false → (c = '-' → rest.head? ≠ some '-') →
      (c = '/' → rest.head? ≠ some '*') → P (c :: rest)) (cs : List Char) : P cs := by
  induction hn : cs.length using Nat.strongRecOn generalizing cs with
  | ind n ih =>
    have shorter (c d : Char) (rest : List Char) (m : Nat) (he : cs = c :: d :: rest) :
        P (rest.drop m) := by
      refine ih _ ?_ _ rfl
      rw [← hn, he, List.length_drop, List.length_cons, List.length_cons]
      omega
    cases cs with
    | nil => exact nil
    | cons c rest =>
      by_cases hblank : isBlank c = true
      · exact blank c rest hblank (ih _ (by rw [← hn, List.length_cons]; omega) rest rfl)
      by_cases hline : c = '-' ∧ rest.head? = some '-'
      · obtain ⟨rfl, hd⟩ := hline
        obtain ⟨tail, rfl⟩ := List.head?_eq_some_iff.1 hd
        exact lineComment tail (shorter _ _ tail _ rfl)
      by_cases hblock : c = '/' ∧ rest.head? = some '*'
      · obtain ⟨rfl, hd⟩ := hblock
        obtain ⟨tail, rfl⟩ := List.head?_eq_some_iff.1 hd
        cases hc : commentRest? 0 tail with
        | none => exact unclosed tail hc
        | some m => exact blockComment tail m hc (shorter _ _ tail _ rfl)
      · exact other c rest (by simpa using hblank) (fun h hd => hline ⟨h, hd⟩)
          fun h hd => hblock ⟨h, hd⟩

theorem eq_of_length_zero {t : Trivia} (h : t.unclosed = false) (hn : t.length = 0) :
    t = ⟨0, false⟩ := by
  rw [← h, ← hn]

theorem length_of_lineComment (rest : List Char) : 1 < (ofText ('-' :: '-' :: rest)).length := by
  rw [ofText_lineComment]
  simp only [after]
  omega

theorem length_of_blockComment {rest : List Char}
    (h : (ofText ('/' :: '*' :: rest)).unclosed = false) :
    1 < (ofText ('/' :: '*' :: rest)).length := by
  cases hc : commentRest? 0 rest with
  | none =>
    rw [ofText_unclosed hc] at h
    cases h
  | some n =>
    rw [ofText_blockComment hc]
    simp only [after]
    omega

theorem length_ofText_le (cs : List Char) : (ofText cs).length ≤ cs.length := by
  induction cs using Trivia.induction with
  | nil => rw [ofText_nil]; exact Nat.le_refl _
  | blank c cs hblank ih =>
    rw [ofText_blank hblank, List.length_cons]
    simp only [after]
    omega
  | lineComment cs ih =>
    have hline := length_takeWhile_le (a := cs) (p := (· ≠ '\n'))
    rw [List.length_drop] at ih
    rw [ofText_lineComment, List.length_cons, List.length_cons]
    simp only [after]
    omega
  | blockComment cs n hcomment ih =>
    have hle := commentRest?_le hcomment
    rw [List.length_drop] at ih
    rw [ofText_blockComment hcomment, List.length_cons, List.length_cons]
    simp only [after]
    omega
  | unclosed cs hcomment => rw [ofText_unclosed hcomment]; exact Nat.zero_le _
  | other c cs hblank hline hblock =>
    rw [ofText_other hblank hline hblock]
    exact Nat.zero_le _

/-- A comment that is closed in front of a cut. -/
theorem closed_of_append (h : (ofText ('/' :: '*' :: (a ++ b))).unclosed = false)
    (hn : (ofText ('/' :: '*' :: (a ++ b))).length ≤ a.length + 2) :
    ∃ n ≤ a.length, commentRest? 0 (a ++ b) = some n ∧ commentRest? 0 a = some n := by
  cases hc : commentRest? 0 (a ++ b) with
  | none =>
    rw [ofText_unclosed hc] at h
    cases h
  | some n =>
    rw [ofText_blockComment hc] at hn
    simp only [after] at hn
    have hle : n ≤ a.length := by omega
    exact ⟨n, hle, rfl, commentRest?_of_append hc hle⟩

theorem ofText_of_append (h : (ofText (a ++ b)).unclosed = false)
    (hn : (ofText (a ++ b)).length ≤ a.length) : ofText a = ofText (a ++ b) := by
  induction a using Trivia.induction with
  | nil => rw [ofText_nil, eq_of_length_zero h (Nat.le_zero.1 hn)]
  | blank c a hblank ih =>
    rw [List.cons_append, ofText_blank hblank] at h hn ⊢
    simp only [after, List.length_cons] at h hn
    rw [ofText_blank hblank, ih h (by omega)]
  | lineComment a ih =>
    rw [List.cons_append, List.cons_append, ofText_lineComment] at h hn ⊢
    simp only [after, List.length_cons] at h hn
    have hline : (a ++ b).takeWhile (· ≠ '\n') = a.takeWhile (· ≠ '\n') :=
      takeWhile_of_append (by omega)
    have hle : (a.takeWhile (· ≠ '\n')).length ≤ a.length := length_takeWhile_le
    rw [ofText_lineComment, hline]
    rw [hline, List.drop_append_of_le_length hle] at h hn
    rw [List.drop_append_of_le_length hle, ih h (by rw [List.length_drop]; omega)]
  | blockComment a n hcomment ih =>
    obtain ⟨m, hle, hfull, hpart⟩ := closed_of_append h hn
    obtain rfl := Option.some.inj (hcomment.symm.trans hpart)
    rw [List.cons_append, List.cons_append, ofText_blockComment hfull,
      List.drop_append_of_le_length hle] at h hn ⊢
    simp only [after, List.length_cons] at h hn
    rw [ofText_blockComment hpart, ih h (by rw [List.length_drop]; omega)]
  | unclosed a hcomment =>
    obtain ⟨m, -, -, hpart⟩ := closed_of_append h hn
    cases hcomment.symm.trans hpart
  | other c a hblank hline hblock =>
    -- a comment of which only the first character is in front of the cut would be too long
    have hline' : c = '-' → (a ++ b).head? ≠ some '-' := by
      rintro rfl hd
      cases a with
      | nil =>
        obtain ⟨rest, rfl⟩ := List.head?_eq_some_iff.1 hd
        exact absurd hn (Nat.not_le.2 (length_of_lineComment rest))
      | cons d a => exact hline rfl hd
    have hblock' : c = '/' → (a ++ b).head? ≠ some '*' := by
      rintro rfl hd
      cases a with
      | nil =>
        obtain ⟨rest, rfl⟩ := List.head?_eq_some_iff.1 hd
        exact absurd hn (Nat.not_le.2 (length_of_blockComment h))
      | cons d a => exact hblock rfl hd
    rw [List.cons_append, ofText_other hblank hline' hblock', ofText_other hblank hline hblock]

theorem drop_after (c d : Char) (cs : List Char) (n : Nat) (t : Trivia) :
    (c :: d :: cs).drop (t.after (n + 2)).length = (cs.drop n).drop t.length := by
  have hlen : (t.after (n + 2)).length = n + t.length + 2 := by
    simp only [after]
    omega
  rw [hlen, List.drop_succ_cons, List.drop_succ_cons, List.drop_drop]

/-- Behind blanks and comments stands neither. -/
theorem ofText_drop (cs : List Char) (h : (ofText cs).unclosed = false) :
    ofText (cs.drop (ofText cs).length) = ⟨0, false⟩ := by
  induction cs using Trivia.induction with
  | nil => simp
  | blank c cs hblank ih =>
    rw [ofText_blank hblank] at h ⊢
    simpa [after, Nat.add_comm 1] using ih h
  | lineComment cs ih =>
    rw [ofText_lineComment] at h ⊢
    rw [drop_after]
    exact ih h
  | blockComment cs n hcomment ih =>
    rw [ofText_blockComment hcomment] at h ⊢
    rw [drop_after]
    exact ih h
  | unclosed cs hcomment =>
    rw [ofText_unclosed hcomment] at h
    cases h
  | other c cs hblank hline hblock =>
    have hother : ofText (c :: cs) = ⟨0, false⟩ := ofText_other hblank hline hblock
    rw [hother]
    exact hother

end Trivia

/-! ## Numbers -/

theorem mantissaLength_append (hb : Ends b) (seenPoint : Bool) :
    mantissaLength seenPoint (a ++ b) = mantissaLength seenPoint a := by
  induction a generalizing seenPoint with
  | nil =>
    cases b with
    | nil => rfl
    | cons c b =>
      have hd := hb.head_not_isDigit c rfl
      have hu : c ≠ '_' := fun h => hb.head_ne (c := '_') rfl rfl (by rw [h]; rfl)
      have hp : c ≠ '.' := fun h => hb.head_ne (c := '.') rfl rfl (by rw [h]; rfl)
      simp [mantissaLength, hd, hu, hp]
  | cons c a ih =>
    have hp := head?_append_ne (a := a) (hb.head_ne (c := '.') rfl rfl)
    simp only [List.cons_append, mantissaLength, ih, ne_eq, hp]

theorem mantissaLength_le (seenPoint : Bool) : mantissaLength seenPoint a ≤ a.length := by
  fun_induction mantissaLength seenPoint a <;> grind

theorem exponentLength_append (hb : Ends b) : exponentLength (a ++ b) = exponentLength a := by
  have hdigits := fun cs : List Char => takeWhile_append (a := cs) hb.head_not_isDigit
  match a with
  | [] =>
    cases b with
    | nil => rfl
    | cons c b =>
      have he : c ≠ 'e' := fun h => hb.head_ne (c := 'e') rfl rfl (by rw [h]; rfl)
      have hE : c ≠ 'E' := fun h => hb.head_ne (c := 'E') rfl rfl (by rw [h]; rfl)
      simp [exponentLength, he, hE]
  | [e] =>
    -- a sign behind the cut starts a comment, so that no digit follows it
    have hnone : (b.drop (if b.head?.any isSign then 1 else 0)).takeWhile Char.isDigit = [] := by
      split
      · next hs =>
        obtain ⟨rest, hrest⟩ := List.head?_eq_some_iff.1 (hb.head?_tail_of_isSign hs)
        rw [List.drop_one, hrest]
        rfl
      · exact hdigits []
    simp [exponentLength, hnone]
  | e :: s :: a =>
    have hsome (signs : Nat) (hsigns : signs ≤ 1) :
        ((s :: (a ++ b)).drop signs).takeWhile Char.isDigit =
          ((s :: a).drop signs).takeWhile Char.isDigit := by
      rw [← List.cons_append, List.drop_append_of_le_length (by simp; omega), hdigits]
    have hle : (if (s :: a).head?.any isSign then 1 else 0) ≤ 1 := by split <;> omega
    have hhead : (s :: (a ++ b)).head?.any isSign = (s :: a).head?.any isSign := rfl
    simp only [List.cons_append, exponentLength]
    rw [hhead, hsome _ hle]

theorem numberLength_append (hb : Ends b) : numberLength (a ++ b) = numberLength a := by
  simp only [numberLength, mantissaLength_append hb, List.drop_append_of_le_length (mantissaLength_le _),
    exponentLength_append hb]

theorem exponentLength_le : exponentLength a ≤ a.length := by
  cases a with
  | nil => exact Nat.le_refl 0
  | cons e a =>
    unfold exponentLength
    dsimp only
    generalize (if a.head?.any isSign = true then 1 else 0) = signs
    have hdigits := length_takeWhile_le (a := a.drop signs) (p := Char.isDigit)
    rw [List.length_drop] at hdigits
    rw [List.length_cons]
    split
    · split
      · omega
      · next n hn =>
        have := Nat.pos_of_ne_zero hn
        omega
    · omega

theorem numberLength_le : numberLength a ≤ a.length := by
  have := mantissaLength_le (a := a) false
  have := exponentLength_le (a := a.drop (mantissaLength false a))
  simp only [numberLength, List.length_drop] at *
  omega

/-! ## Operators -/

theorem not_isBlank_of_isOperatorChar (h : isOperatorChar c = true) : isBlank c = false := by
  have hall : "+-*/<>=~!@#%^&|\x60?".toList.all (!isBlank ·) = true := by decide +kernel
  have hc := List.all_eq_true.1 hall c (List.contains_iff_mem.1 h)
  rwa [Bool.not_eq_true'] at hc

theorem operatorRest_append (hb : Ends b) (hab : Apart a b) :
    operatorRest (a ++ b) = operatorRest a := by
  induction a with
  | nil =>
    cases hb with
    | nil => rfl
    | semicolon rest => rfl
    | rightParen rest => rfl
    | comma rest => rfl
    | @blank c h rest =>
      have hno : isOperatorChar c = false := by
        refine Bool.eq_false_iff.2 fun hop => ?_
        rw [not_isBlank_of_isOperatorChar hop] at h
        cases h
      simp only [List.nil_append, operatorRest, hno]
      rfl
    | lineComment rest => rfl
    | blockComment rest => rfl
  | cons c a ih =>
    have hslash : decide ((a ++ b).head? = some '*') = decide (a.head? = some '*') :=
      decide_eq_decide.2 (head?_append_ne (hb.head_ne rfl rfl))
    have hminus : (decide (c = '-') && decide ((a ++ b).head? = some '-')) =
        (decide (c = '-') && decide (a.head? = some '-')) := by
      by_cases hc : c = '-'
      · have hne : a = [] → b.head? ≠ some '-' := by
          rintro rfl
          exact hab (by rw [hc]; rfl)
        cases a with
        | nil => simp [hne rfl]
        | cons d a => rfl
      · simp [hc]
    simp only [List.cons_append, operatorRest, ih hab.tail, hslash, hminus]

/-! ## Lexemes -/

namespace Lexeme

theorem colon_append (hb : Ends b) : colon (a ++ b) = colon a := by
  cases a with
  | nil =>
    cases b with
    | nil => rfl
    | cons c b =>
      have hc : c ≠ ':' := fun h => hb.head_ne (c := ':') rfl rfl (by rw [h]; rfl)
      simp [colon, hc, hb.head_not_isWordStart c rfl]
  | cons c a =>
    have hname := takeWhile_append (a := c :: a) hb.head_not_isNameChar
    simp only [List.cons_append] at hname
    simp only [List.cons_append, colon, hname]

theorem number_append (hb : Ends b) : number (a ++ b) = number a := by
  have hle := numberLength_le (a := a)
  simp only [number, numberLength_append hb, List.drop_append_of_le_length hle,
    List.take_append_of_le_length hle, any_head?_append hb.head_not_isWordStart]

theorem word_append (hb : Ends b) : word c (a ++ b) = word c a := by
  simp only [word, takeWhile_append hb.head_not_isWordChar]

theorem symbol_append (hb : Ends b) (hab : Apart a b) : symbol c (a ++ b) = symbol c a := by
  simp only [symbol, operator, operatorText, operatorRest_append hb hab]

end Lexeme

end Token
end DdlCatalog
