import DdlCatalog.Proofs.Token.Reads

/-! # Reading a text that goes on
A token and what stands before it are read the same when the text goes on behind them, provided it
goes on with a blank, a comment, a comma, a semicolon or a closing parenthesis. -/

namespace DdlCatalog.Token

open Text (byteLength isBlank)

variable {a b : List Char} {c : Char}

theorem quotedRest?_le {mark : Char} {text : List Char} {n : Nat}
    (h : quotedRest? mark a = some (text, n)) : n ≤ a.length := by
  fun_induction quotedRest? mark a generalizing text n <;> grind [Option.map_eq_some_iff]

theorem quotedRest?_append {mark : Char} (hb : b.head? ≠ some mark) {r : List Char × Nat}
    (h : quotedRest? mark a = some r) : quotedRest? mark (a ++ b) = some r := by
  fun_induction quotedRest? mark a generalizing r with
  | case1 => cases h
  | _ => cases b <;> grind [quotedRest?, Option.map_eq_some_iff]

theorem escapedRest?_le {text : List Char} {n : Nat} (h : escapedRest? a = some (text, n)) :
    n ≤ a.length := by
  fun_induction escapedRest? a generalizing text n <;> grind [Option.map_eq_some_iff]

theorem escapedRest?_append (hb : b.head? ≠ some '\'') {r : List Char × Nat}
    (h : escapedRest? a = some r) : escapedRest? (a ++ b) = some r := by
  fun_induction escapedRest? a generalizing r with
  | case1 => cases h
  | _ => cases b <;> grind [escapedRest?, Option.map_eq_some_iff]

theorem before?_append {delimiter body : List Char} (h : before? delimiter a = some body)
    (b : List Char) : before? delimiter (a ++ b) = some body := by
  induction a generalizing body with
  | nil =>
    unfold before? at h
    split at h
    · next hnil =>
      cases h
      subst hnil
      cases b <;> rfl
    · cases h
  | cons c a ih =>
    rw [before?] at h
    rw [List.cons_append, before?]
    split at h
    · next hp =>
      cases h
      have hlong : delimiter.isPrefixOf (c :: (a ++ b)) = true := List.isPrefixOf_iff_prefix.2
        ((List.isPrefixOf_iff_prefix.1 hp).trans (List.prefix_append (c :: a) b))
      rw [if_pos hlong]
    · next hp =>
      obtain ⟨tail, ht, rfl⟩ := Option.map_eq_some_iff.1 h
      -- the delimiter that follows fits in front of what the text goes on with
      have hlen : delimiter.length ≤ (c :: a).length := by
        obtain ⟨rest, hrest⟩ := eq_append_of_before? ht
        rw [hrest]
        simp only [List.length_cons, List.length_append]
        omega
      have hp' : ¬delimiter.isPrefixOf (c :: (a ++ b)) = true := fun hlong =>
        hp (List.isPrefixOf_iff_prefix.2 (List.prefix_of_prefix_length_le
          (List.isPrefixOf_iff_prefix.1 hlong) (List.prefix_append (c :: a) b) hlen))
      rw [if_neg hp', ih ht]
      rfl

theorem commentRest?_append {depth n : Nat} (h : commentRest? depth a = some n) (b : List Char) :
    commentRest? depth (a ++ b) = some n := by
  fun_induction commentRest? depth a generalizing n with
  | case5 depth c a hclose hopen ih =>
    obtain ⟨m, hm, rfl⟩ := Option.map_eq_some_iff.1 h
    cases a with
    | nil => cases hm
    | cons d a =>
      rw [List.cons_append, commentRest?_other (by simpa using hclose) (by simpa using hopen), ih hm]
      rfl
  | _ => grind [commentRest?, Option.map_eq_some_iff]

namespace Trivia

theorem after_after (m n : Nat) (t : Trivia) : (t.after m).after n = t.after (n + m) := by
  simp only [after, Nat.add_assoc]

/-- Blanks and comments in front of another character. -/
theorem ofText_append (h : (ofText a).unclosed = false) (hlt : (ofText a).length < a.length)
    (hb : b.head? ≠ some '*') (hab : Apart a b) : ofText (a ++ b) = ofText a := by
  induction a using Trivia.induction with
  | nil => exact absurd hlt (Nat.not_lt_zero _)
  | blank c a hblank ih =>
    rw [ofText_blank hblank] at h hlt ⊢
    simp only [after, List.length_cons] at h hlt
    rw [List.cons_append, ofText_blank hblank, ih h (by omega) hab.tail]
  | lineComment a ih =>
    rw [ofText_lineComment] at h hlt ⊢
    simp only [after, List.length_cons] at h hlt
    have hle : (a.takeWhile (· ≠ '\n')).length ≤ a.length := length_takeWhile_le
    have hshort : (a.takeWhile (· ≠ '\n')).length < a.length := by omega
    have hline : (a ++ b).takeWhile (· ≠ '\n') = a.takeWhile (· ≠ '\n') := by
      rw [List.takeWhile_append, if_neg hshort.ne]
    rw [List.cons_append, List.cons_append, ofText_lineComment, hline,
      List.drop_append_of_le_length hle,
      ih h (by rw [List.length_drop]; omega) (hab.tail.tail.drop _)]
  | blockComment a n hcomment ih =>
    have hle := commentRest?_le hcomment
    rw [ofText_blockComment hcomment] at h hlt ⊢
    simp only [after, List.length_cons] at h hlt
    rw [List.cons_append, List.cons_append, ofText_blockComment (commentRest?_append hcomment b),
      List.drop_append_of_le_length hle,
      ih h (by rw [List.length_drop]; omega) (hab.tail.tail.drop _)]
  | unclosed a hcomment =>
    rw [ofText_unclosed hcomment] at h
    cases h
  | other c a hblank hline hblock =>
    have hline' : c = '-' → (a ++ b).head? ≠ some '-' := by
      rintro rfl hd
      cases a with
      | nil => exact hab rfl hd
      | cons d a => exact hline rfl hd
    have hblock' : c = '/' → (a ++ b).head? ≠ some '*' := by
      rintro rfl hd
      cases a with
      | nil => exact hb hd
      | cons d a => exact hblock rfl hd
    rw [List.cons_append, ofText_other hblank hline' hblock', ofText_other hblank hline hblock]

/-- Blanks and comments at the end of a text, behind which a line ends. -/
theorem ofText_append_lineFeed (h : (ofText a).unclosed = false) (hall : (ofText a).length = a.length)
    (b : List Char) : ofText (a ++ '\n' :: b) = (ofText ('\n' :: b)).after a.length := by
  induction a using Trivia.induction with
  | nil => simp [after]
  | blank c a hblank ih =>
    rw [ofText_blank hblank] at h hall
    simp only [after, List.length_cons] at h hall
    rw [List.cons_append, ofText_blank hblank, ih h (by omega), after_after, List.length_cons,
      Nat.add_comm]
  | lineComment a ih =>
    rw [ofText_lineComment] at h hall
    simp only [after, List.length_cons] at h hall
    have hle : (a.takeWhile (· ≠ '\n')).length ≤ a.length := length_takeWhile_le
    have hline : (a ++ '\n' :: b).takeWhile (· ≠ '\n') = a.takeWhile (· ≠ '\n') :=
      takeWhile_append (by simp)
    rw [List.cons_append, List.cons_append, ofText_lineComment, hline,
      List.drop_append_of_le_length hle, ih h (by rw [List.length_drop]; omega), after_after,
      List.length_drop]
    congr 1
    simp only [List.length_cons]
    omega
  | blockComment a n hcomment ih =>
    have hle := commentRest?_le hcomment
    rw [ofText_blockComment hcomment] at h hall
    simp only [after, List.length_cons] at h hall
    rw [List.cons_append, List.cons_append, ofText_blockComment (commentRest?_append hcomment _),
      List.drop_append_of_le_length hle, ih h (by rw [List.length_drop]; omega), after_after,
      List.length_drop]
    congr 1
    simp only [List.length_cons]
    omega
  | unclosed a hcomment =>
    rw [ofText_unclosed hcomment] at h
    cases h
  | other c a hblank hline hblock =>
    rw [ofText_other hblank hline hblock] at hall
    cases hall

end Trivia

namespace Lexeme

variable {lexeme : Lexeme}

theorem string_append (hb : Ends b) (h : string a = .ok lexeme) :
    string (a ++ b) = .ok lexeme := by
  unfold string at h ⊢
  split at h
  · next text n hq => rw [quotedRest?_append (hb.head_ne rfl rfl) hq, ← h]
  · cases h

theorem escapedString_append (hb : Ends b) (h : escapedString a = .ok lexeme) :
    escapedString (a ++ b) = .ok lexeme := by
  unfold escapedString at h ⊢
  split at h
  · next text n hq => rw [escapedRest?_append (hb.head_ne rfl rfl) hq, ← h]
  · cases h

theorem quotedIdentifier_append (hb : Ends b) (h : quotedIdentifier a = .ok lexeme) :
    quotedIdentifier (a ++ b) = .ok lexeme := by
  unfold quotedIdentifier at h ⊢
  split at h
  · cases h
  · next text n hne hq =>
    rw [quotedRest?_append (hb.head_ne rfl rfl) hq, ← h]
    cases text with
    | nil => exact absurd rfl hne
    | cons d text => rfl
  · cases h

theorem dollarQuoted_append {tag : List Char} (htag : tag.length < a.length)
    (h : dollarQuoted tag a = .ok lexeme) (b : List Char) :
    dollarQuoted tag (a ++ b) = .ok lexeme := by
  unfold dollarQuoted at h ⊢
  dsimp only at h ⊢
  split at h
  · next body hbody =>
    rw [List.drop_append_of_le_length htag, before?_append hbody, ← h]
  · cases h

theorem length_lt_of_drop {k : Nat} (h : (a.drop k).head? = some c) : k < a.length := by
  obtain ⟨rest, hrest⟩ := List.head?_eq_some_iff.1 h
  have hlen := congrArg List.length hrest
  rw [List.length_drop, List.length_cons] at hlen
  omega

theorem dollar_append (hb : Ends b) (h : dollar a = .ok lexeme) : dollar (a ++ b) = .ok lexeme := by
  unfold dollar at h ⊢
  rw [takeWhile_append hb.head_not_isDigit]
  split at h
  · have htag := takeWhile_append (a := a) hb.head_not_isTagChar
    have hle := length_takeWhile_le (a := a) (p := isTagChar)
    dsimp only at h ⊢
    rw [htag, List.drop_append_of_le_length hle]
    simp only [head?_append_ne (hb.head_ne (c := '$') rfl rfl)]
    split_ifs at h ⊢ with hd
    exact dollarQuoted_append (length_lt_of_drop hd) h b
  · exact h

theorem dollarQuoted_le {tag : List Char} (htag : tag.length < a.length)
    (h : dollarQuoted tag a = .ok lexeme) : lexeme.rest ≤ a.length := by
  unfold dollarQuoted at h
  dsimp only at h
  split at h
  · next body hbody =>
    cases h
    obtain ⟨rest, hrest⟩ := eq_append_of_before? hbody
    have hlen := congrArg List.length hrest
    simp only [List.length_drop, List.length_append, List.length_cons] at hlen ⊢
    omega
  · cases h

theorem dollar_le (h : dollar a = .ok lexeme) : lexeme.rest ≤ a.length := by
  unfold dollar at h
  split at h
  · dsimp only at h
    split at h
    · next hd => exact dollarQuoted_le (length_lt_of_drop hd) h
    · cases h
  · unfold parameter at h
    split at h
    · cases h
      exact length_takeWhile_le
    · cases h

theorem colon_le (rest : List Char) : (colon rest).rest ≤ rest.length := by
  unfold colon
  split
  · exact Nat.le_refl _
  · split_ifs
    · exact Nat.succ_le_succ (Nat.zero_le _)
    · exact length_takeWhile_le
    · exact Nat.zero_le _

theorem symbol_le (h : symbol c a = .ok lexeme) : lexeme.rest ≤ a.length := by
  unfold symbol at h
  split at h
  · cases h
    exact Nat.zero_le _
  · split at h
    · cases h
      obtain ⟨op, hop, hstarts⟩ := operatorText_eq c a
      simp only [operator, hop, List.length_cons, Nat.add_sub_cancel]
      exact (hstarts.trans prefix_operatorRest).length_le
    · cases h

theorem scan_le (h : scan c a = .ok lexeme) : lexeme.rest ≤ a.length := by
  unfold scan at h
  split_ifs at h with _ _ _ _ _ _ he
  · unfold string at h
    split at h <;> cases h
    exact quotedRest?_le ‹_›
  · unfold quotedIdentifier at h
    split at h <;> cases h
    exact quotedRest?_le ‹_›
  · exact dollar_le h
  · cases h
    exact colon_le a
  · have hle := numberLength_le (a := c :: a)
    unfold number at h
    dsimp only at h
    split at h <;> cases h
    exact Nat.sub_le_of_le_add hle
  · simp only [Bool.and_eq_true, decide_eq_true_eq] at he
    obtain ⟨rest, rfl⟩ := List.head?_eq_some_iff.1 he.2
    unfold escapedString at h
    split at h <;> cases h
    exact Nat.succ_le_succ (escapedRest?_le ‹_›)
  · cases h
    exact length_takeWhile_le
  · exact symbol_le h

/-- A lexeme is read the same with what the text goes on with. -/
theorem scan_append (hb : Ends b) (hab : Apart (c :: a) b) (h : scan c a = .ok lexeme) :
    scan c (a ++ b) = .ok lexeme := by
  unfold scan at h ⊢
  have hstart : startsNumber c (a ++ b) = startsNumber c a := by
    simp only [startsNumber, any_head?_append hb.head_not_isDigit]
  rw [hstart, ← List.cons_append, number_append hb, word_append hb, symbol_append hb hab.tail,
    colon_append hb]
  simp only [head?_append_ne (hb.head_ne (c := '\'') rfl rfl)]
  split_ifs at h ⊢ with _ _ _ _ _ _ he
  · exact string_append hb h
  · exact quotedIdentifier_append hb h
  · exact dollar_append hb h
  · exact h
  · exact h
  · -- the quote after the letter is in the text
    simp only [Bool.and_eq_true, decide_eq_true_eq] at he
    obtain ⟨rest, rfl⟩ := List.head?_eq_some_iff.1 he.2
    exact escapedString_append hb h
  · exact h
  · exact h

end Lexeme

end DdlCatalog.Token
