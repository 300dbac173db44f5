import DdlCatalog.Decimal.Basic
import DdlCatalog.Proofs.Token.Spelling

/-! # Spellings of numbers
The token of a number spells a mantissa, in which there is a digit and at most one point, and an exponent
that may be missing. -/

namespace DdlCatalog.Token

open Decimal (isExponentMark)

variable {c : Char} {cs rest digits : List Char} {n : Nat}

/-- Digits and underscores, and a point that may stand anywhere among them. -/
structure IsMantissa (cs : List Char) : Prop where
  chars : ∀ c ∈ cs, c.isDigit = true ∨ c = '_' ∨ c = '.'
  one_point : cs.count '.' ≤ 1
  has_digit : ∃ c ∈ cs, c.isDigit = true

/-- A mark with digits behind it, in front of which there may be a sign. -/
inductive IsExponent : List Char → Prop where
  | missing : IsExponent []
  | marked {mark : Char} {digits : List Char} (sign : Option Char)
    (is_mark : isExponentMark mark = true) (is_sign : ∀ s ∈ sign, isSign s = true)
    (ne : digits ≠ []) (all : ∀ d ∈ digits, d.isDigit = true) :
    IsExponent (mark :: (sign.toList ++ digits))

theorem mantissaLength_take (seenPoint : Bool) (cs : List Char) :
    (∀ c ∈ cs.take (mantissaLength seenPoint cs), c.isDigit = true ∨ c = '_' ∨ c = '.') ∧
      (cs.take (mantissaLength seenPoint cs)).count '.' ≤ if seenPoint then 0 else 1 := by
  fun_induction mantissaLength seenPoint cs with
  | case1 => simp
  | case2 seenPoint c rest hc ih =>
    rw [Nat.add_comm, List.take_succ_cons, List.forall_mem_cons]
    have hpoint : c ≠ '.' := by
      rintro rfl
      revert hc
      decide
    rw [List.count_cons_of_ne hpoint]
    simp only [Bool.or_eq_true, decide_eq_true_eq] at hc
    exact ⟨⟨hc.imp_right .inl, ih.1⟩, ih.2⟩
  | case3 seenPoint c rest _ hc ih =>
    simp only [Bool.and_eq_true, decide_eq_true_eq, Bool.not_eq_true'] at hc
    obtain ⟨⟨rfl, rfl⟩, -⟩ := hc
    rw [Nat.add_comm, List.take_succ_cons, List.forall_mem_cons, List.count_cons_self]
    exact ⟨⟨.inr (.inr rfl), ih.1⟩, Nat.succ_le_succ ih.2⟩
  | case4 => simp

theorem isMantissa_take (h : startsNumber c rest = true) :
    IsMantissa ((c :: rest).take (mantissaLength false (c :: rest))) := by
  obtain ⟨hchars, hpoint⟩ := mantissaLength_take false (c :: rest)
  refine ⟨hchars, hpoint, ?_⟩
  simp only [startsNumber, Bool.or_eq_true, Bool.and_eq_true, decide_eq_true_eq] at h
  rcases h with hdigit | ⟨rfl, hnext⟩
  · refine ⟨c, ?_, hdigit⟩
    rw [mantissaLength, if_pos (by simp [hdigit]), Nat.add_comm, List.take_succ_cons]
    exact List.mem_cons_self
  · obtain ⟨d, hd, hdigit⟩ := (Option.any_eq_true ..).1 hnext
    obtain ⟨rest, rfl⟩ := List.head?_eq_some_iff.1 hd
    have hne : d ≠ '.' := by
      rintro rfl
      cases hdigit
    refine ⟨d, ?_, hdigit⟩
    rw [mantissaLength, if_neg (by decide), if_pos (by simp [hne]), mantissaLength,
      if_pos (by simp [hdigit]), Nat.add_comm, List.take_succ_cons, Nat.add_comm, List.take_succ_cons]
    simp

theorem isExponent_take (cs : List Char) : IsExponent (cs.take (exponentLength cs)) := by
  cases cs with
  | nil => exact .missing
  | cons mark rest =>
    unfold exponentLength
    dsimp only
    split
    · next hmark =>
      -- the sign, if there is one, and what is behind it
      obtain ⟨sign, behind, rfl, hsign, hsigns⟩ : ∃ (sign : Option Char) (behind : List Char),
          rest = sign.toList ++ behind ∧ (∀ s ∈ sign, isSign s = true) ∧
          (if rest.head?.any isSign then 1 else 0) = sign.toList.length := by
        split
        · next hany =>
          obtain ⟨s, hs, hsign⟩ := (Option.any_eq_true ..).1 hany
          obtain ⟨behind, rfl⟩ := List.head?_eq_some_iff.1 hs
          refine ⟨some s, behind, rfl, ?_, rfl⟩
          rintro _ ⟨⟩
          exact hsign
        · exact ⟨none, rest, rfl, nofun, rfl⟩
      rw [hsigns, List.drop_left]
      split
      · exact .missing
      · next hpos =>
        have htake : behind.take (behind.takeWhile Char.isDigit).length =
            behind.takeWhile Char.isDigit := by
          conv_lhs => rw [← List.takeWhile_append_dropWhile (p := Char.isDigit) (l := behind)]
          rw [List.take_append_of_le_length (by simp), List.takeWhile_append_dropWhile]
          simp
        have hlength : 1 + sign.toList.length + (behind.takeWhile Char.isDigit).length =
            sign.toList.length + (behind.takeWhile Char.isDigit).length + 1 := by omega
        rw [hlength, List.take_succ_cons, List.take_length_add_append, htake]
        refine .marked sign hmark hsign ?_ fun d hd => List.all_eq_true.1 List.all_takeWhile d hd
        intro hnil
        rw [hnil] at hpos
        exact hpos rfl
    · exact .missing

/-- What the token of a number spells. -/
def IsNumeral (cs : List Char) : Prop :=
  ∃ mantissa exponent, cs = mantissa ++ exponent ∧ IsMantissa mantissa ∧ IsExponent exponent

theorem isNumeral_take (h : startsNumber c rest = true) :
    IsNumeral ((c :: rest).take (numberLength (c :: rest))) := by
  have hsplit := isExponent_take ((c :: rest).drop (mantissaLength false (c :: rest)))
  refine ⟨_, _, ?_, isMantissa_take h, hsplit⟩
  rw [numberLength, List.take_add]

theorem punctuation?_ne_number {kind : Kind} {text : String} (h : Lexeme.punctuation? c = some kind) :
    kind ≠ .number text := by
  unfold Lexeme.punctuation? at h
  split_ifs at h <;> cases h <;> simp

theorem Kind.ofWord_ne_number (word text : String) : Kind.ofWord word ≠ .number text := by
  unfold Kind.ofWord
  split <;> simp

theorem Lexeme.isNumeral_of_scan {lexeme : Lexeme} {text : String} (h : scan c rest = .ok lexeme)
    (hkind : lexeme.kind = .number text) : IsNumeral text.toList := by
  by_cases hnumber : startsNumber c rest = true ∧ number (c :: rest) = .ok lexeme
  · obtain ⟨hstarts, hnumber⟩ := hnumber
    unfold number at hnumber
    dsimp only at hnumber
    split at hnumber
    · cases hnumber
    · cases hnumber
      obtain rfl := Kind.number.inj hkind
      rw [String.toList_ofList]
      exact isNumeral_take hstarts
  · unfold scan colon at h
    split_ifs at h <;>
      grind [string, quotedIdentifier, dollar, dollarQuoted, parameter, escapedString, word,
        Lexeme.symbol, operator, punctuation?_ne_number, Kind.ofWord_ne_number]

theorem Reads.isNumeral {s s' : Scanner} {ts : List Token} (h : Reads s ts s') {text : String} :
    ∀ t ∈ ts, t.kind = .number text → IsNumeral text.toList := by
  induction h with
  | nil => nofun
  | cons first _ ih =>
    obtain ⟨c, rest, lexeme, -, hscan, -, rfl⟩ := first.lexeme
    exact List.forall_mem_cons.2 ⟨Lexeme.isNumeral_of_scan hscan, ih⟩

/-- A digit, and digits and underscores behind it. -/
structure IsWhole (cs : List Char) : Prop where
  first : ∃ c ∈ cs.head?, c.isDigit = true
  chars : ∀ c ∈ cs, c.isDigit = true ∨ c = '_'

instance (cs : List Char) : Decidable (IsWhole cs) :=
  decidable_of_iff (cs.head?.any Char.isDigit = true ∧ cs.all (fun c => c.isDigit || c = '_') = true)
    ⟨fun h => ⟨(Option.any_eq_true ..).1 h.1, by simpa using h.2⟩,
      fun h => ⟨(Option.any_eq_true ..).2 h.first, by simpa using h.chars⟩⟩

theorem mantissaLength_whole (h : ∀ c ∈ cs, c.isDigit = true ∨ c = '_') :
    mantissaLength false cs = cs.length := by
  induction cs with
  | nil => rfl
  | cons c cs ih =>
    obtain ⟨hc, hcs⟩ := List.forall_mem_cons.1 h
    rw [mantissaLength, if_pos (by simpa using hc), ih hcs, List.length_cons, Nat.add_comm]

theorem Spells.whole (h : IsWhole cs) : Spells cs [.number (String.ofList cs)] [] := by
  obtain ⟨c, hc, hdigit⟩ := h.first
  obtain ⟨cs, rfl⟩ := List.head?_eq_some_iff.1 hc
  have hfirst : c ≠ '\'' ∧ c ≠ '"' ∧ c ≠ '$' ∧ c ≠ ':' ∧ c ≠ '-' ∧ c ≠ '/' := by
    refine ⟨?_, ?_, ?_, ?_, ?_, ?_⟩ <;> rintro rfl <;> cases hdigit
  obtain ⟨hstring, hquoted, hdollar, hcolon, hline, hblock⟩ := hfirst
  have hblank : Text.isBlank c = false := by
    by_contra hblank
    rw [Bool.not_eq_false] at hblank
    exact absurd ((Text.not_isDigit_of_isBlank hblank).symm.trans hdigit) (by simp)
  have hlength : numberLength (c :: cs) = cs.length + 1 := by
    rw [numberLength, mantissaLength_whole h.chars, List.drop_length]
    rfl
  have hscan : Lexeme.scan c cs = .ok ⟨.number (String.ofList (c :: cs)), cs.length⟩ := by
    rw [Lexeme.scan, if_neg hstring, if_neg hquoted, if_neg hdollar, if_neg hcolon,
      if_pos (by simp [startsNumber, hdigit]), Lexeme.number, hlength]
    simp
  refine .token (Trivia.ofText_other hblank (absurd · hline) (absurd · hblock)) hscan ?_
  rw [List.drop_length]
  exact .done []

theorem not_isDigit_of_isOperatorChar (h : isOperatorChar c = true) : c.isDigit = false := by
  have hall : "+-*/<>=~!@#%^&|\x60?".toList.all (!Char.isDigit ·) = true := by decide +kernel
  have hc := List.all_eq_true.1 hall c (List.contains_iff_mem.1 h)
  rwa [Bool.not_eq_true'] at hc

/-- A sign in front of a digit is an operator by itself. -/
theorem Spells.sign {sign : Char} {ks : List Kind} {left : List Char} (hsign : isSign sign = true)
    (h : ∃ c ∈ rest.head?, c.isDigit = true) (more : Spells rest ks left) :
    Spells (sign :: rest) (.operator (String.ofList [sign]) :: ks) left := by
  obtain ⟨c, hc, hdigit⟩ := h
  obtain ⟨rest, rfl⟩ := List.head?_eq_some_iff.1 hc
  have hoperator : isOperatorChar c = false := by
    by_contra hoperator
    rw [Bool.not_eq_false] at hoperator
    exact absurd ((not_isDigit_of_isOperatorChar hoperator).symm.trans hdigit) (by simp)
  have hrest : operatorRest (c :: rest) = [] := by rw [operatorRest, if_pos (by simp [hoperator])]
  have hnone : c ≠ '-' ∧ c ≠ '*' := by constructor <;> rintro rfl <;> cases hdigit
  simp only [isSign, Bool.or_eq_true, decide_eq_true_eq] at hsign
  refine .token (n := 0) (Trivia.ofText_other ?_ (fun _ => by simp [hnone.1])
    (fun _ => by simp [hnone.2])) ?_ more
  · rcases hsign with rfl | rfl <;> decide +kernel
  · have hword : isWordStart '+' = false ∧ isWordStart '-' = false := by decide +kernel
    rcases hsign with rfl | rfl <;>
      simp [Lexeme.scan, startsNumber, hword, Lexeme.symbol, Lexeme.punctuation?, isOperatorChar,
        Lexeme.operator, operatorText, hrest, allowsTrailingSign]

end DdlCatalog.Token
