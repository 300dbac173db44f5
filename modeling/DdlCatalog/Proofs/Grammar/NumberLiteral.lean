import DdlCatalog.Proofs.Grammar.Single
import DdlCatalog.Proofs.Token.Numeral
import Mathlib.Data.Nat.Digits.Defs

/-! # Literals of numbers
A number without a point and an exponent is an integer as long as it fits into 64 bits with its sign,
and rounded to floating point if it does not. All other numbers are rounded. -/

namespace DdlCatalog

open Token (IsExponent IsMantissa IsNumeral IsWhole Kind Spells)

namespace Decimal

variable {cs mantissa exponent : List Char}

theorem digitsValue_eq_ofDigits (cs : List Char) :
    digitsValue cs = Nat.ofDigits 10 (cs.map fun c => c.toNat - '0'.toNat).reverse := by
  rw [Nat.ofDigits_eq_foldr, List.foldr_reverse, List.foldl_map]
  unfold digitsValue
  congr 1
  funext n c
  simp [Nat.add_comm]

theorem natural?_of_digits (hne : cs ≠ []) (h : ∀ c ∈ cs, c.isDigit = true) :
    natural? cs = some (digitsValue cs) :=
  if_pos ⟨hne, List.all_eq_true.2 h⟩

theorem natural?_eq_none {c : Char} (hc : c ∈ cs) (h : c.isDigit = false) : natural? cs = none := by
  refine if_neg fun hall => ?_
  have hdigit := List.all_eq_true.1 hall.2 c hc
  rw [h] at hdigit
  cases hdigit

/-- Digits of a mantissa are left when its underscores and its point are left out. -/
theorem exists_natural?_of_mantissa (h : IsMantissa mantissa) :
    ∃ n, natural? ((mantissa.filter (· ≠ '_')).takeWhile (· ≠ '.') ++
      ((mantissa.filter (· ≠ '_')).dropWhile (· ≠ '.')).drop 1) = some n := by
  generalize hdigits : mantissa.filter (· ≠ '_') = digits
  have hmem (c : Char) : c ∈ digits ↔ c ∈ mantissa ∧ c ≠ '_' := by
    rw [← hdigits, List.mem_filter, decide_eq_true_eq]
  have hone : digits.count '.' ≤ 1 := by
    rw [← hdigits, List.count_filter (by decide)]
    exact h.one_point
  have hsplit := List.takeWhile_append_dropWhile (p := fun c => decide (c ≠ '.')) (l := digits)
  have hfront : ∀ c ∈ digits.takeWhile (· ≠ '.'), c ≠ '.' := fun c hc => by
    simpa using List.mem_takeWhile_imp hc
  generalize digits.takeWhile (· ≠ '.') = whole at hsplit hfront
  generalize hrest : digits.dropWhile (· ≠ '.') = rest at hsplit
  -- what is dropped in front of the fraction is a point, and the only one
  have hrest : ∃ point fraction, rest = point ++ fraction ∧ rest.drop 1 = fraction ∧
      (∀ c ∈ point, c = '.') ∧ ∀ c ∈ fraction, c ≠ '.' := by
    cases rest with
    | nil => exact ⟨[], [], rfl, rfl, nofun, nofun⟩
    | cons point fraction =>
      have hpoint : point = '.' := by
        have hnot := List.head?_dropWhile_not (fun c => decide (c ≠ '.')) digits
        rw [hrest, List.head?_cons] at hnot
        simpa using hnot
      subst hpoint
      refine ⟨['.'], fraction, rfl, rfl, by simp, fun c hc hpoint => ?_⟩
      subst hpoint
      have hpos := List.count_pos_iff.2 hc
      rw [← hsplit, List.count_append, List.count_cons_self] at hone
      omega
  obtain ⟨point, fraction, rfl, hfraction, hpoint, hback⟩ := hrest
  rw [hfraction]
  refine ⟨_, natural?_of_digits ?_ ?_⟩
  · obtain ⟨c, hc, hdigit⟩ := h.has_digit
    have hne : c ≠ '_' ∧ c ≠ '.' := by constructor <;> rintro rfl <;> cases hdigit
    have hc : c ∈ whole ++ (point ++ fraction) := hsplit ▸ (hmem c).2 ⟨hc, hne.1⟩
    intro hnil
    obtain ⟨rfl, rfl⟩ := List.append_eq_nil_iff.1 hnil
    rw [List.nil_append, List.append_nil] at hc
    exact hne.2 (hpoint c hc)
  · intro c hc
    have hc' : c ∈ digits ∧ c ≠ '.' := by
      rw [← hsplit]
      rcases List.mem_append.1 hc with hc | hc
      · exact ⟨List.mem_append_left _ hc, hfront c hc⟩
      · exact ⟨by simp [hc], hback c hc⟩
    rcases h.chars c ((hmem c).1 hc'.1).1 with hdigit | rfl | rfl
    · exact hdigit
    · exact absurd rfl ((hmem _).1 hc'.1).2
    · exact absurd rfl hc'.2

theorem not_isDigit_of_isExponentMark {c : Char} (h : isExponentMark c = true) :
    c.isDigit = false ∧ c ≠ '_' ∧ c ≠ '.' := by
  simp only [isExponentMark, Bool.or_eq_true, decide_eq_true_eq] at h
  rcases h with rfl | rfl <;> decide

/-- An exponent has no underscores, and an integer as its value. -/
theorem exists_exponent? (h : IsExponent exponent) :
    exponent.filter (· ≠ '_') = exponent ∧ ∃ k, exponent? exponent = some k := by
  cases h with
  | missing => exact ⟨rfl, 0, rfl⟩
  | @marked mark digits sign hmark hsign hne hdigits =>
    constructor
    · refine List.filter_eq_self.2 fun c hc => ?_
      rw [decide_eq_true_eq]
      rintro rfl
      rcases List.mem_cons.1 hc with rfl | hc
      · cases hmark
      · rcases List.mem_append.1 hc with hc | hc
        · cases hsign _ (Option.mem_toList.1 hc)
        · cases hdigits _ hc
    · have hnatural := natural?_of_digits hne hdigits
      obtain ⟨d, digits, rfl⟩ := List.exists_cons_of_ne_nil hne
      have hd := hdigits d List.mem_cons_self
      cases sign with
      | none =>
        refine ⟨digitsValue (d :: digits), ?_⟩
        rw [Option.toList_none, List.nil_append, exponent?, hnatural]
        · rfl
        · intro cs hcs
          obtain ⟨rfl, -⟩ := List.cons.inj hcs
          cases hd
        · intro cs hcs
          obtain ⟨rfl, -⟩ := List.cons.inj hcs
          cases hd
      | some s =>
        have hs := hsign s rfl
        simp only [Token.isSign, Bool.or_eq_true, decide_eq_true_eq] at hs
        rcases hs with rfl | rfl
        · refine ⟨digitsValue (d :: digits), ?_⟩
          rw [Option.toList_some, List.singleton_append, exponent?, hnatural]
          rfl
        · refine ⟨-(digitsValue (d :: digits) : Int), ?_⟩
          rw [Option.toList_some, List.singleton_append, exponent?, hnatural]
          rfl

/-- Without its underscores, what spells a number has a value. -/
theorem exists_ofLiteral? (h : IsNumeral cs) : ∃ d, ofLiteral? (cs.filter (· ≠ '_')) = some d := by
  obtain ⟨mantissa, exponent, rfl, hmantissa, hexponent⟩ := h
  obtain ⟨hfilter, k, hk⟩ := exists_exponent? hexponent
  obtain ⟨n, hn⟩ := exists_natural?_of_mantissa hmantissa
  have hfront : ∀ c ∈ mantissa.filter (· ≠ '_'), (!isExponentMark c) = true := by
    intro c hc
    rw [Bool.not_eq_true', ← Bool.not_eq_true]
    intro hmark
    obtain ⟨hdigit, hunderscore, hpoint⟩ := not_isDigit_of_isExponentMark hmark
    rcases hmantissa.chars c (List.mem_filter.1 hc).1 with h | h | h
    · rw [hdigit] at h
      cases h
    · exact hunderscore h
    · exact hpoint h
  have hback : exponent.takeWhile (!isExponentMark ·) = [] ∧
      exponent.dropWhile (!isExponentMark ·) = exponent := by
    cases hexponent with
    | missing => exact ⟨rfl, rfl⟩
    | marked sign hmark => simp [hmark]
  rw [List.filter_append, hfilter, ofLiteral?, List.takeWhile_append_of_pos hfront,
    List.dropWhile_append_of_pos hfront, hback.1, hback.2, List.append_nil, hk]
  simp only [Option.bind_eq_bind, Option.bind_some, hn]
  exact ⟨_, rfl⟩

end Decimal

namespace Literal

variable {digits : String} {negative : Bool}

theorem fitsInt64_iff (n : Int) : fitsInt64 n = true ↔ -2 ^ 63 ≤ n ∧ n ≤ 2 ^ 63 - 1 := by
  have hmin : Int64.minValue.toInt = -2 ^ 63 := by decide
  have hmax : Int64.maxValue.toInt = 2 ^ 63 - 1 := by decide
  rw [fitsInt64, hmin, hmax, Bool.and_eq_true, decide_eq_true_eq, decide_eq_true_eq]

theorem toInt_ofInt {n : Int} (h : fitsInt64 n = true) : (Int64.ofInt n).toInt = n := by
  rw [fitsInt64_iff] at h
  exact Int64.toInt_ofInt_of_le (by omega) (by omega)

/-- A number is rounded if it is not whole or too large. -/
theorem exists_float_ofNumber? (h : IsNumeral digits.toList)
    (hnone : ((Decimal.natural? (digits.toList.filter (· ≠ '_'))).map
      fun n => if negative then -(n : Int) else n).filter fitsInt64 = none) :
    ∃ x, ofNumber? negative digits = some (.float x) := by
  obtain ⟨d, hd⟩ := Decimal.exists_ofLiteral? h
  refine ⟨Binary64.ofDecimal negative d, ?_⟩
  rw [ofNumber?, hnone, hd]
  rfl

end Literal

namespace Grammar

/-- What may stand in front of a number. -/
inductive Sign where
  | absent
  | plus
  | minus
deriving DecidableEq, Repr

namespace Sign

def text : Sign → String
  | absent => ""
  | plus => "+"
  | minus => "-"

def kinds : Sign → List Kind
  | absent => []
  | plus => [.operator "+"]
  | minus => [.operator "-"]

def signed (sign : Sign) (n : Nat) : Int :=
  match sign with
  | minus => -(n : Int)
  | _ => n

end Sign

/-- The natural number whose decimal digits are given, without the underscores among them. -/
def wholeValue (digits : String) : Nat :=
  Nat.ofDigits 10 ((digits.toList.filter (· ≠ '_')).map fun c => c.toNat - '0'.toNat).reverse

variable {sign : Sign} {text digits : String} {ks : List Kind} {us : List Token}

theorem HasKinds.of_spells {cs : List Char} (h : Spells cs ks []) :
    HasKinds (String.ofList cs) ks := by
  obtain ⟨ts, stop, htokens, rfl, hstop, -⟩ := h.exists_tokenize anonymousSource
  exact .of_tokenize (by rwa [String.toList_ofList]) hstop

theorem hasKinds_whole (sign : Sign) (h : IsWhole digits.toList) :
    HasKinds (sign.text ++ digits) (sign.kinds ++ [.number digits]) := by
  have hdigits := Spells.whole h
  have hspells : Spells (sign.text ++ digits).toList (sign.kinds ++ [.number digits]) [] := by
    rw [String.ofList_toList] at hdigits
    cases sign with
    | absent => simpa [Sign.text, Sign.kinds] using hdigits
    | plus =>
      have hplus : Token.isSign '+' = true := rfl
      simpa [Sign.text, Sign.kinds] using Spells.sign hplus h.first hdigits
    | minus =>
      have hminus : Token.isSign '-' = true := rfl
      simpa [Sign.text, Sign.kinds] using Spells.sign hminus h.first hdigits
  simpa using HasKinds.of_spells hspells

theorem IsExpression.of_flat (h : ∀ t ∈ us, opensBracket t.kind = false ∧
    closesBracket t.kind = false ∧ t.kind ≠ .eof ∧ t.kind ≠ .comma) : IsExpression us := by
  intro stop
  generalize none = previous
  induction us generalizing previous with
  | nil => rfl
  | cons t us ih =>
    obtain ⟨⟨hopens, hcloses, heof, hcomma⟩, hus⟩ := List.forall_mem_cons.1 h
    rw [(Passes.stays hopens hcloses heof fun _ => hcomma).expressionLength_eq, ih hus]
    rfl

theorem literalOf?_number (hkinds : us.map (·.kind) = sign.kinds ++ [.number digits]) :
    literalOf? us = Literal.ofNumber? (sign = .minus) digits := by
  cases sign with
  | absent =>
    obtain ⟨t, rfl, ht⟩ := List.map_eq_singleton_iff.1 hkinds
    rw [literalOf?, ht]
    rfl
  | plus =>
    obtain ⟨s, _, rfl, hs, hrest⟩ := List.map_eq_cons_iff.1 hkinds
    obtain ⟨t, rfl, ht⟩ := List.map_eq_singleton_iff.1 hrest
    rw [literalOf?, hs, ht]
    rfl
  | minus =>
    obtain ⟨s, _, rfl, hs, hrest⟩ := List.map_eq_cons_iff.1 hkinds
    obtain ⟨t, rfl, ht⟩ := List.map_eq_singleton_iff.1 hrest
    rw [literalOf?, hs, ht]
    rfl

/-- A number with a sign is an expression, and what it spells is its literal. -/
theorem parseExpression_number (h : HasKinds text (sign.kinds ++ [.number digits])) :
    IsNumeral digits.toList ∧ ∃ e, parseExpression text = .ok e ∧
      e.literal = Literal.ofNumber? (sign = .minus) digits := by
  obtain ⟨us, stop, htokens, hkinds, hstop, -⟩ := h.exists_tokens anonymousSource
  have hmem : .number digits ∈ us.map (·.kind) := by simp [hkinds]
  obtain ⟨t, ht, hkind⟩ := List.mem_map.1 hmem
  obtain ⟨after, hreads, -⟩ := Token.Reads.of_tokens (Token.tokens_of_tokenize htokens)
  have hflat : IsExpression us := .of_flat fun u hu => by
    have hu : u.kind ∈ sign.kinds ++ [.number digits] := hkinds ▸ List.mem_map_of_mem hu
    cases sign <;> simp only [Sign.kinds, List.mem_append, List.mem_singleton, List.not_mem_nil,
      false_or] at hu
    · simp [hu, opensBracket, closesBracket]
    · rcases hu with hu | hu <;> simp [hu, opensBracket, closesBracket]
    · rcases hu with hu | hu <;> simp [hu, opensBracket, closesBracket]
  have hrun := Parser.run_expression hflat (List.ne_nil_of_mem ht)
    ⟨anonymousSource, text.toList, us, stop⟩
  have hparsed := (parseExpression_eq_ok_iff htokens hstop).2 hrun
  rw [String.ofList_toList] at hparsed
  exact ⟨hreads.isNumeral t ht hkind, _, hparsed, literalOf?_number hkinds⟩

/-- A whole number of any length is one token, with a sign in front of it or without. As an expression it
is exactly the integer that it spells if that fits into 64 bits, and a floating point number if it does
not, as are all numbers with a point or an exponent. -/
theorem literal_number (sign : Sign) :
    (∀ digits, IsWhole digits.toList → HasKinds (sign.text ++ digits) (sign.kinds ++ [.number digits])) ∧
    ∀ text digits, HasKinds text (sign.kinds ++ [.number digits]) →
      ∃ e, parseExpression text = .ok e ∧
        ((∀ c ∈ digits.toList, c.isDigit = true ∨ c = '_') →
          ((∃ n : Int64, e.literal = some (.integer n) ∧ n.toInt = sign.signed (wholeValue digits)) ↔
            -2 ^ 63 ≤ sign.signed (wholeValue digits) ∧
              sign.signed (wholeValue digits) ≤ 2 ^ 63 - 1) ∧
          (¬(-2 ^ 63 ≤ sign.signed (wholeValue digits) ∧
              sign.signed (wholeValue digits) ≤ 2 ^ 63 - 1) → ∃ x, e.literal = some (.float x))) ∧
        ((∃ c ∈ digits.toList, c = '.' ∨ c = 'e' ∨ c = 'E') → ∃ x, e.literal = some (.float x)) := by
  refine ⟨fun digits h => hasKinds_whole sign h, fun text digits h => ?_⟩
  obtain ⟨hnumeral, e, hparsed, hliteral⟩ := parseExpression_number h
  refine ⟨e, hparsed, fun hwhole => ?_, fun ⟨c, hc, hmark⟩ => ?_⟩
  · have hdigits : ∀ c ∈ digits.toList.filter (· ≠ '_'), c.isDigit = true := by
      intro c hc
      obtain ⟨hc, hne⟩ := List.mem_filter.1 hc
      exact (hwhole c hc).resolve_right (by simpa using hne)
    have hne : digits.toList.filter (· ≠ '_') ≠ [] := by
      obtain ⟨mantissa, exponent, hsplit, hmantissa, -⟩ := hnumeral
      obtain ⟨c, hc, hdigit⟩ := hmantissa.has_digit
      refine List.ne_nil_of_mem (a := c) (List.mem_filter.2 ⟨by simp [hsplit, hc], ?_⟩)
      rw [decide_eq_true_eq]
      rintro rfl
      cases hdigit
    have hvalue : (Decimal.natural? (digits.toList.filter (· ≠ '_'))).map
        (fun n => if (sign = .minus : Bool) then -(n : Int) else n) =
        some (sign.signed (wholeValue digits)) := by
      rw [Decimal.natural?_of_digits hne hdigits, Decimal.digitsValue_eq_ofDigits]
      cases sign <;> rfl
    rw [← Literal.fitsInt64_iff]
    cases hfits : Literal.fitsInt64 (sign.signed (wholeValue digits)) with
    | true =>
      have hinteger : e.literal = some (.integer (Int64.ofInt (sign.signed (wholeValue digits)))) := by
        rw [hliteral, Literal.ofNumber?, hvalue, Option.filter_some, if_pos hfits]
      exact ⟨⟨fun _ => rfl, fun _ => ⟨_, hinteger, Literal.toInt_ofInt hfits⟩⟩, fun h => absurd rfl h⟩
    | false =>
      have hnone : ((Decimal.natural? (digits.toList.filter (· ≠ '_'))).map
          fun n => if (sign = .minus : Bool) then -(n : Int) else n).filter Literal.fitsInt64 = none := by
        rw [hvalue, Option.filter_some, if_neg (by simp [hfits])]
      obtain ⟨x, hx⟩ := Literal.exists_float_ofNumber? hnumeral hnone
      rw [hliteral, hx]
      exact ⟨by simp, fun _ => ⟨x, rfl⟩⟩
  · have hnone : Decimal.natural? (digits.toList.filter (· ≠ '_')) = none := by
      refine Decimal.natural?_eq_none (c := c) (List.mem_filter.2 ⟨hc, ?_⟩) ?_
      all_goals rcases hmark with rfl | rfl | rfl <;> decide
    rw [hliteral]
    exact Literal.exists_float_ofNumber? hnumeral (by rw [hnone]; rfl)

/-- The least integer is read as it is written, and without its sign it is rounded. -/
theorem literal_number_least :
    IsWhole "9_223_372_036_854_775_808".toList ∧
      HasKinds "- 9_223_372_036_854_775_808" [.operator "-", .number "9_223_372_036_854_775_808"] ∧
      Sign.minus.signed (wholeValue "9_223_372_036_854_775_808") = -2 ^ 63 ∧
      (∃ e n, parseExpression "- 9_223_372_036_854_775_808" = .ok e ∧
        e.literal = some (.integer n) ∧ n.toInt = -2 ^ 63) ∧
      HasKinds "9_223_372_036_854_775_808" [.number "9_223_372_036_854_775_808"] ∧
      ∃ e x, parseExpression "9_223_372_036_854_775_808" = .ok e ∧ e.literal = some (.float x) := by
  have hwhole : IsWhole "9_223_372_036_854_775_808".toList := by decide +kernel
  have hvalue : wholeValue "9_223_372_036_854_775_808" = 2 ^ 63 := by decide +kernel
  have hkinds : HasKinds "- 9_223_372_036_854_775_808"
      [.operator "-", .number "9_223_372_036_854_775_808"] := by decide +kernel
  have hminus : Sign.minus.signed (wholeValue "9_223_372_036_854_775_808") = -2 ^ 63 := by
    rw [hvalue]
    rfl
  obtain ⟨e, hparsed, hwhole', -⟩ := (literal_number .minus).2 _ _ hkinds
  obtain ⟨n, hn, hvalue'⟩ := (hwhole' hwhole.chars).1.2 (by rw [hminus]; decide)
  have hkinds' := (literal_number .absent).1 _ hwhole
  obtain ⟨e', hparsed', hwhole', -⟩ := (literal_number .absent).2 _ _ hkinds'
  have habsent : Sign.absent.signed (wholeValue "9_223_372_036_854_775_808") = 2 ^ 63 := by
    rw [hvalue]
    rfl
  obtain ⟨x, hx⟩ := (hwhole' hwhole.chars).2 (by rw [habsent]; decide)
  exact ⟨hwhole, hkinds, hminus, ⟨e, n, hparsed, hn, hvalue'.trans hminus⟩, hkinds', e', x, hparsed', hx⟩

end Grammar

end DdlCatalog
