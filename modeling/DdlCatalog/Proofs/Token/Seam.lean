import DdlCatalog.Proofs.Token.Locality
import Mathlib.Data.List.DropRight
import Mathlib.Data.List.TakeWhile

/-! # Where a lexeme ends
Only an operator can end in a minus sign, and none ends in one in front of another. So what stands in
front of a comment never makes a longer one with it. -/

namespace DdlCatalog.Token

variable {a b : List Char} {c d : Char}

theorem apart_of_not_mem (h : '-' ∉ a) : Apart a b :=
  fun hlast => absurd (List.mem_of_getLast? hlast) h

theorem apart_of_last (h : a.getLast? = some d) (hd : d ≠ '-') : Apart (c :: a) b := by
  intro hlast
  rw [List.getLast?_cons, h] at hlast
  exact absurd (Option.some.inj hlast) hd

theorem Apart.cons (h : Apart a b) (hc : a = [] → c = '-' → b.head? ≠ some '-') :
    Apart (c :: a) b := by
  intro hlast
  cases a with
  | nil => exact hc rfl (Option.some.inj hlast)
  | cons d a => exact h hlast

/-- A run of characters of a class without the minus sign. -/
theorem apart_takeWhile {p : Char → Bool} (hp : p '-' = false) (hc : c ≠ '-') (cs : List Char) :
    Apart (c :: cs.takeWhile p) b := by
  refine apart_of_not_mem fun hm => ?_
  rcases List.mem_cons.1 hm with rfl | hm
  · exact hc rfl
  · rw [List.mem_takeWhile_imp hm] at hp
    cases hp

theorem take_takeWhile (p : Char → Bool) (cs : List Char) :
    cs.take (cs.takeWhile p).length = cs.takeWhile p := by
  have hprefix : cs.takeWhile p <+: cs := List.takeWhile_prefix p
  exact (List.prefix_iff_eq_take.1 hprefix).symm

theorem getLast?_quotedRest {mark : Char} {text : List Char} {n : Nat}
    (h : quotedRest? mark a = some (text, n)) : (a.take n).getLast? = some mark := by
  fun_induction quotedRest? mark a generalizing text n <;>
    grind [Option.map_eq_some_iff]

theorem getLast?_escapedRest {text : List Char} {n : Nat}
    (h : escapedRest? a = some (text, n)) : (a.take n).getLast? = some '\'' := by
  fun_induction escapedRest? a generalizing text n <;>
    grind [Option.map_eq_some_iff]

theorem eq_append_of_before? {delimiter body : List Char} (h : before? delimiter a = some body) :
    ∃ rest, a = body ++ delimiter ++ rest := by
  induction a generalizing body with
  | nil =>
    unfold before? at h
    split at h
    · next hd =>
      cases h
      exact ⟨[], by rw [hd]; rfl⟩
    · cases h
  | cons c a ih =>
    unfold before? at h
    split at h
    · next hp =>
      cases h
      obtain ⟨rest, hrest⟩ := List.isPrefixOf_iff_prefix.1 hp
      exact ⟨rest, hrest.symm⟩
    · obtain ⟨tail, ht, rfl⟩ := Option.map_eq_some_iff.1 h
      obtain ⟨rest, hrest⟩ := ih ht
      exact ⟨rest, by rw [hrest]; rfl⟩

theorem not_mem_mantissa (seenPoint : Bool) : '-' ∉ a.take (mantissaLength seenPoint a) := by
  fun_induction mantissaLength seenPoint a with
  | case1 => simp
  | case2 seenPoint c rest hc ih =>
    have hne : '-' ≠ c := by
      rintro rfl
      cases hc
    rw [Nat.add_comm, List.take_succ_cons]
    exact List.not_mem_cons_of_ne_of_not_mem hne ih
  | case3 seenPoint c rest hc hpoint ih =>
    have hne : '-' ≠ c := by
      rintro rfl
      cases hpoint
    rw [Nat.add_comm, List.take_succ_cons]
    exact List.not_mem_cons_of_ne_of_not_mem hne ih
  | case4 => simp

theorem exponent_last (h : exponentLength a ≠ 0) :
    ∃ d, (a.take (exponentLength a)).getLast? = some d ∧ d ≠ '-' := by
  cases a with
  | nil => exact absurd rfl h
  | cons e a =>
    unfold exponentLength at h ⊢
    dsimp only at h ⊢
    generalize (if a.head?.any isSign = true then 1 else 0) = signs at h ⊢
    split at h
    · next he =>
      rw [if_pos he]
      have htake := take_takeWhile Char.isDigit (a.drop signs)
      generalize hd : (a.drop signs).takeWhile Char.isDigit = digits at h htake ⊢
      cases hl : digits.getLast? with
      | none =>
        rw [List.getLast?_eq_none_iff.1 hl] at h
        exact absurd rfl h
      | some d =>
        refine ⟨d, ?_, ?_⟩
        · split
          · next hn => rw [List.eq_nil_of_length_eq_zero hn] at hl; cases hl
          · rw [List.take_add, Nat.add_comm 1 signs, List.drop_succ_cons, htake,
              List.getLast?_append, hl]
            rfl
        · rintro rfl
          have hdigit := List.mem_takeWhile_imp (hd ▸ List.mem_of_getLast? hl)
          cases hdigit
    · exact absurd rfl h

theorem apart_number {rest : List Char} (h : startsNumber c rest = true) :
    Apart (c :: rest.take (numberLength (c :: rest) - 1)) b := by
  have hc : c ≠ '-' := by
    rintro rfl
    cases h
  cases hn : numberLength (c :: rest) with
  | zero => exact apart_of_not_mem (by simpa using hc.symm)
  | succ n =>
    rw [Nat.add_sub_cancel, ← List.take_succ_cons, ← hn, numberLength, List.take_add]
    by_cases he : exponentLength ((c :: rest).drop (mantissaLength false (c :: rest))) = 0
    · rw [he, List.take_zero, List.append_nil]
      exact apart_of_not_mem (not_mem_mantissa false)
    · obtain ⟨d, hd, hne⟩ := exponent_last he
      intro hlast
      rw [List.getLast?_append, hd] at hlast
      exact absurd (Option.some.inj hlast) hne

theorem prefix_operatorRest : operatorRest a <+: a := by
  fun_induction operatorRest a with
  | case1 => exact List.prefix_refl _
  | case2 c rest => exact List.nil_prefix
  | case3 c rest => exact List.nil_prefix
  | case4 c rest => exact List.nil_prefix
  | case5 c rest _ _ _ ih => exact List.cons_prefix_cons.2 ⟨rfl, ih⟩

theorem apart_operatorRest : Apart (operatorRest a) (a.drop (operatorRest a).length) := by
  fun_induction operatorRest a with
  | case5 c rest _ hminus _ ih =>
    rw [List.length_cons, List.drop_succ_cons]
    refine ih.cons fun hrun hc => ?_
    rw [hrun]
    simpa [hc] using hminus
  | _ => intro h; cases h

/-- An operator keeps a front part of the run of operator characters. -/
theorem operatorText_eq (c : Char) (rest : List Char) :
    ∃ op, operatorText c rest = c :: op ∧ op <+: operatorRest rest := by
  simp only [operatorText]
  split
  · exact ⟨_, rfl, List.prefix_refl _⟩
  · exact ⟨_, rfl, List.rdropWhile_prefix isSign _⟩

/-- Signs at the end of an operator are given back, unless all of the run is kept. -/
theorem apart_operator {rest : List Char} (hline : c = '-' → rest.head? ≠ some '-') :
    Apart (operatorText c rest) (rest.drop ((operatorText c rest).length - 1)) := by
  unfold operatorText
  dsimp only
  split
  · rw [List.length_cons, Nat.add_sub_cancel]
    refine apart_operatorRest.cons fun hrun => ?_
    rw [hrun]
    exact hline
  · generalize hkept : ((operatorRest rest).reverse.dropWhile isSign).reverse = kept
    rw [List.length_cons, Nat.add_sub_cancel]
    refine Apart.cons (fun hlast => ?_) fun hnil => ?_
    · have hsign := List.head?_dropWhile_not isSign (operatorRest rest).reverse
      rw [← List.getLast?_reverse, hkept, hlast] at hsign
      cases hsign
    · rw [hnil]
      exact hline

namespace Lexeme

variable {rest : List Char} {lexeme : Lexeme}

theorem apart_string (h : string rest = .ok lexeme) : Apart (c :: rest.take lexeme.rest) b := by
  unfold string at h
  split at h
  · next hq =>
    cases h
    exact apart_of_last (getLast?_quotedRest hq) (by decide)
  · cases h

theorem apart_escapedString (h : escapedString rest = .ok lexeme) :
    Apart (c :: (d :: rest).take lexeme.rest) b := by
  unfold escapedString at h
  split at h
  · next hq =>
    cases h
    refine apart_of_last ?_ (by decide : '\'' ≠ '-')
    rw [List.take_succ_cons, List.getLast?_cons, getLast?_escapedRest hq]
    rfl
  · cases h

theorem apart_quotedIdentifier (h : quotedIdentifier rest = .ok lexeme) :
    Apart (c :: rest.take lexeme.rest) b := by
  unfold quotedIdentifier at h
  split at h
  · cases h
  · next hq =>
    cases h
    exact apart_of_last (getLast?_quotedRest hq) (by decide)
  · cases h

theorem apart_dollarQuoted {tag : List Char} (h : dollarQuoted tag rest = .ok lexeme) :
    Apart (c :: rest.take lexeme.rest) b := by
  unfold dollarQuoted at h
  dsimp only at h
  split at h
  · next body hbody =>
    cases h
    obtain ⟨tail, htail⟩ := eq_append_of_before? hbody
    refine apart_of_last ?_ (by decide : '$' ≠ '-')
    rw [Nat.add_assoc, List.take_add, htail, ← List.length_append, List.take_left,
      List.getLast?_append, ← List.append_assoc, List.getLast?_concat]
    rfl
  · cases h

theorem apart_dollar (h : dollar rest = .ok lexeme) : Apart ('$' :: rest.take lexeme.rest) b := by
  unfold dollar at h
  split at h
  · dsimp only at h
    split at h
    · exact apart_dollarQuoted h
    · cases h
  · unfold parameter at h
    split at h
    · cases h
      dsimp only
      rw [take_takeWhile]
      exact apart_takeWhile (by decide) (by decide) rest
    · cases h

theorem apart_colon : Apart (':' :: rest.take (colon rest).rest) b := by
  cases rest with
  | nil => exact apart_of_not_mem (by decide)
  | cons d rest =>
    unfold colon
    dsimp only
    split_ifs with hd
    · exact apart_of_not_mem (by simp [hd])
    · dsimp only
      rw [take_takeWhile]
      exact apart_takeWhile (by decide +kernel) (by decide) _
    · exact apart_of_not_mem (by simp)

theorem apart_word (h : isWordStart c = true) : Apart (c :: rest.take (word c rest).rest) b := by
  have hc : c ≠ '-' := by
    rintro rfl
    revert h
    decide +kernel
  unfold word
  dsimp only
  rw [take_takeWhile]
  exact apart_takeWhile (by decide +kernel) hc rest

theorem apart_symbol (h : symbol c rest = .ok lexeme) (hline : c = '-' → rest.head? ≠ some '-') :
    Apart (c :: rest.take lexeme.rest) (rest.drop lexeme.rest) := by
  unfold symbol at h
  split at h
  · next hp =>
    cases h
    refine apart_of_not_mem fun hm => ?_
    obtain rfl : '-' = c := by simpa using hm
    cases hp
  · split at h
    · cases h
      obtain ⟨op, hop, hstarts⟩ := operatorText_eq c rest
      have hapart := apart_operator hline
      simp only [operator, hop, List.length_cons, Nat.add_sub_cancel] at hapart ⊢
      rwa [← List.prefix_iff_eq_take.1 (hstarts.trans prefix_operatorRest)]
    · cases h

/-- What is left behind a lexeme makes no comment with its last character. -/
theorem apart_scan (h : scan c rest = .ok lexeme) (hline : c = '-' → rest.head? ≠ some '-') :
    Apart (c :: rest.take lexeme.rest) (rest.drop lexeme.rest) := by
  unfold scan at h
  split_ifs at h with _ _ hc hc hc hc he
  · exact apart_string h
  · exact apart_quotedIdentifier h
  · exact hc ▸ apart_dollar h
  · cases h
    exact hc ▸ apart_colon
  · unfold number at h
    dsimp only at h
    split at h
    · cases h
    · cases h
      exact apart_number hc
  · simp only [Bool.and_eq_true, decide_eq_true_eq] at he
    obtain ⟨tail, rfl⟩ := List.head?_eq_some_iff.1 he.2
    exact apart_escapedString h
  · cases h
    exact apart_word hc
  · exact apart_symbol h hline

theorem ofWord_ne (w : String) : Kind.ofWord w ≠ .eof ∧ Kind.ofWord w ≠ .rightParen := by
  unfold Kind.ofWord
  split <;> exact ⟨nofun, nofun⟩

theorem punctuation?_ends {kind : Kind} (h : punctuation? c = some kind) :
    kind ≠ .eof ∧ (kind = .rightParen → c = ')') := by
  unfold punctuation? at h
  split_ifs at h <;> cases h <;> simp_all

/-- Nothing is read as the end of the text, and only a parenthesis as one. -/
theorem scan_ends (h : scan c rest = .ok lexeme) :
    lexeme.kind ≠ .eof ∧ (lexeme.kind = .rightParen → c = ')' ∧ lexeme.rest = 0) := by
  unfold scan colon at h
  split_ifs at h <;>
    grind [string, quotedIdentifier, dollar, dollarQuoted, parameter, number, escapedString, word,
      Lexeme.symbol, operator, ofWord_ne, punctuation?_ends]

end Lexeme

end DdlCatalog.Token
