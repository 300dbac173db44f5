import DdlCatalog.Proofs.Grammar.Extent

/-! # Nested brackets
Kinds of tokens are nested if each bracket that opens is closed by one that matches it. Whether they are
is found out with a stack of the brackets that are open. -/

namespace DdlCatalog.Grammar

open Token (Kind)

/-- Which tokens are brackets, and which brackets match. -/
structure Brackets where
  opens : Kind → Bool
  closes : Kind → Bool
  pairs : Kind → Kind → Bool
  apart : ∀ k, opens k = true → closes k = false

theorem closesBracket_of_opensBracket (k : Kind) (h : opensBracket k = true) :
    closesBracket k = false := by
  cases k <;> simp_all [opensBracket, closesBracket]

namespace Brackets

/-- A bracket matches those of its own shape. -/
def proper : Brackets where
  opens := opensBracket
  closes := closesBracket
  pairs o c := (o = .leftParen && c = .rightParen) || (o = .leftBracket && c = .rightBracket)
  apart := closesBracket_of_opensBracket

/-- A bracket matches those of both shapes. -/
def mixed : Brackets where
  opens := opensBracket
  closes := closesBracket
  pairs _ _ := true
  apart := closesBracket_of_opensBracket

def round : Brackets where
  opens k := k = .leftParen
  closes k := k = .rightParen
  pairs _ _ := true
  apart k h := by simp_all

end Brackets

/-- Each bracket that opens is closed by one that matches it, and none is closed that is not open. -/
inductive Nested (b : Brackets) : List Kind → Prop where
  | nil : Nested b []
  | plain {k : Kind} {ks : List Kind} (opens : b.opens k = false) (closes : b.closes k = false)
      (more : Nested b ks) : Nested b (k :: ks)
  | pair {o c : Kind} {inner ks : List Kind} (opens : b.opens o = true) (closes : b.closes c = true)
      (pairs : b.pairs o c = true) (inside : Nested b inner) (more : Nested b ks) :
      Nested b (o :: (inner ++ c :: ks))

/-- Whether all brackets are closed, behind brackets that are open, the innermost one first. -/
def closesAll (b : Brackets) : List Kind → List Kind → Bool
  | awaiting, [] => awaiting.isEmpty
  | awaiting, k :: ks =>
    if b.opens k then closesAll b (k :: awaiting) ks
    else if b.closes k then
      match awaiting with
      | [] => false
      | o :: awaiting => b.pairs o k && closesAll b awaiting ks
    else closesAll b awaiting ks

variable {b : Brackets} {k o c : Kind} {awaiting ks inner : List Kind}

theorem closesAll_opens (h : b.opens k = true) :
    closesAll b awaiting (k :: ks) = closesAll b (k :: awaiting) ks := by
  cases awaiting <;> simp [closesAll, h]

theorem closesAll_closes (h : b.closes c = true) :
    closesAll b (o :: awaiting) (c :: ks) = (b.pairs o c && closesAll b awaiting ks) := by
  have hopens : b.opens c = false := by
    by_contra hopens
    simp [b.apart c (by simpa using hopens)] at h
  rw [closesAll, if_neg (by simp [hopens]), if_pos h]

theorem closesAll_plain (hopens : b.opens k = false) (hcloses : b.closes k = false) :
    closesAll b awaiting (k :: ks) = closesAll b awaiting ks := by
  cases awaiting <;> simp [closesAll, hopens, hcloses]

/-- What is nested leaves the stack as it is. -/
theorem Nested.closesAll_append (h : Nested b inner) (awaiting ks : List Kind) :
    closesAll b awaiting (inner ++ ks) = closesAll b awaiting ks := by
  induction h generalizing awaiting ks with
  | nil => rfl
  | plain opens closes _ ih => rw [List.cons_append, closesAll_plain opens closes, ih]
  | pair opens closes pairs _ _ ihinside ihmore =>
    rw [List.cons_append, List.append_assoc, closesAll_opens opens, ihinside, List.cons_append,
      closesAll_closes closes, pairs, Bool.true_and, ihmore]

/-- Nested parts, and between them what closes the brackets that are open. -/
inductive Closing (b : Brackets) : List Kind → List Kind → Prop where
  | done {ks : List Kind} (nested : Nested b ks) : Closing b [] ks
  | close {o c : Kind} {awaiting inner ks : List Kind} (closes : b.closes c = true)
      (pairs : b.pairs o c = true) (inside : Nested b inner) (more : Closing b awaiting ks) :
      Closing b (o :: awaiting) (inner ++ c :: ks)

namespace Closing

theorem plain (h : Closing b awaiting ks) (hopens : b.opens k = false)
    (hcloses : b.closes k = false) : Closing b awaiting (k :: ks) := by
  cases h with
  | done nested => exact .done (.plain hopens hcloses nested)
  | close closes pairs inside more => exact .close closes pairs (.plain hopens hcloses inside) more

/-- What has closed a bracket is nested together with it. -/
theorem pair (h : Closing b (k :: awaiting) ks) (hopens : b.opens k = true) :
    Closing b awaiting (k :: ks) := by
  cases h with
  | close closes pairs inside more =>
    cases more with
    | done nested => exact .done (.pair hopens closes pairs inside nested)
    | @close o' c' awaiting' inner' ks' closes' pairs' inside' more' =>
      have hinside := Nested.pair hopens closes pairs inside inside'
      have hclose := Closing.close closes' pairs' hinside more'
      simpa using hclose

end Closing

theorem closing_of_closesAll (h : closesAll b awaiting ks = true) : Closing b awaiting ks := by
  induction ks generalizing awaiting with
  | nil =>
    obtain rfl : awaiting = [] := List.isEmpty_iff.1 h
    exact .done .nil
  | cons k ks ih =>
    cases hopens : b.opens k with
    | true =>
      rw [closesAll_opens hopens] at h
      exact (ih h).pair hopens
    | false =>
      cases hcloses : b.closes k with
      | false =>
        rw [closesAll_plain hopens hcloses] at h
        exact (ih h).plain hopens hcloses
      | true =>
        cases awaiting with
        | nil => simp [closesAll, hopens, hcloses] at h
        | cons o awaiting =>
          rw [closesAll_closes hcloses, Bool.and_eq_true] at h
          exact .close hcloses h.1 .nil (ih h.2)

/-- Brackets are nested if all that are opened are closed. -/
theorem nested_iff_closesAll : Nested b ks ↔ closesAll b [] ks = true := by
  constructor
  · intro h
    have hall := h.closesAll_append [] []
    rwa [List.append_nil] at hall
  · intro h
    cases closing_of_closesAll h with
    | done nested => exact nested

theorem Nested.append (h : Nested b inner) (h' : Nested b ks) : Nested b (inner ++ ks) := by
  rw [nested_iff_closesAll, h.closesAll_append, ← nested_iff_closesAll]
  exact h'

instance : Decidable (Nested b ks) := decidable_of_iff _ nested_iff_closesAll.symm

def isSquare (k : Kind) : Bool := k = .leftBracket || k = .rightBracket

/-- Somewhere a bracket is closed by one of the other shape. -/
def Crossed (ks : List Kind) : Prop :=
  ∃ before o inner c after, ks = before ++ o :: (inner ++ c :: after) ∧ opensBracket o = true ∧
    closesBracket c = true ∧ Nested .mixed inner ∧ Brackets.proper.pairs o c = false

theorem Crossed.append (h : Crossed ks) (before after : List Kind) :
    Crossed (before ++ ks ++ after) := by
  obtain ⟨before', o, inner, c, after', rfl, hcross⟩ := h
  exact ⟨before ++ before', o, inner, c, after' ++ after, by simp, hcross⟩

/-- Brackets that are all closed are nested, unless two that do not match have met. -/
theorem Nested.proper_or_crossed (h : Nested .mixed ks) : Nested .proper ks ∨ Crossed ks := by
  induction h with
  | nil => exact .inl .nil
  | @plain k ks opens closes _ ih =>
    rcases ih with ih | ih
    · exact .inl (.plain opens closes ih)
    · exact .inr (by simpa using ih.append [k] [])
  | @pair o c inner ks opens closes _ inside _ ihinside ihmore =>
    rcases ihinside with ihinside | ihinside
    · rcases ihmore with ihmore | ihmore
      · cases hpairs : Brackets.proper.pairs o c with
        | true => exact .inl (.pair opens closes hpairs ihinside ihmore)
        | false => exact .inr ⟨[], o, inner, c, ks, rfl, opens, closes, inside, hpairs⟩
      · exact .inr (by simpa using ihmore.append (o :: (inner ++ [c])) [])
    · exact .inr (by simpa using ihinside.append [o] (c :: ks))

/-- Where there are no square brackets, it is enough to look at parentheses. -/
theorem Nested.proper_of_round (h : Nested .round ks) (hsquare : ∀ k ∈ ks, isSquare k = false) :
    Nested .proper ks := by
  induction h with
  | nil => exact .nil
  | @plain k ks opens closes _ ih =>
    obtain ⟨hk, hks⟩ := List.forall_mem_cons.1 hsquare
    refine .plain ?_ ?_ (ih hks)
    all_goals simp_all [Brackets.round, Brackets.proper, opensBracket, closesBracket, isSquare]
  | @pair o c inner ks opens closes _ _ _ ihinside ihmore =>
    have ho : o = .leftParen := of_decide_eq_true opens
    have hc : c = .rightParen := of_decide_eq_true closes
    subst ho hc
    simp only [List.forall_mem_cons, List.forall_mem_append] at hsquare
    exact .pair rfl rfl rfl (ihinside hsquare.2.1) (ihmore hsquare.2.2.2)

theorem round_plain {k : Kind} (hopens : k ≠ .leftParen) (hcloses : k ≠ .rightParen) :
    Brackets.round.opens k = false ∧ Brackets.round.closes k = false :=
  ⟨decide_eq_false hopens, decide_eq_false hcloses⟩

/-- Nested parentheses stay nested without regard to square brackets. -/
theorem Nested.round_of_proper (h : Nested .proper ks) : Nested .round ks := by
  have hplain {k : Kind} {more : List Kind} (hopens : k ≠ .leftParen) (hcloses : k ≠ .rightParen)
      (hmore : Nested .round more) : Nested .round (k :: more) :=
    .plain (round_plain hopens hcloses).1 (round_plain hopens hcloses).2 hmore
  induction h with
  | nil => exact .nil
  | plain opens closes _ ih =>
    refine hplain ?_ ?_ ih
    · rintro rfl
      cases opens
    · rintro rfl
      cases closes
  | @pair o c inner ks opens closes pairs _ _ ihinside ihmore =>
    simp only [Brackets.proper, Bool.or_eq_true, Bool.and_eq_true, decide_eq_true_eq] at pairs
    rcases pairs with ⟨rfl, rfl⟩ | ⟨rfl, rfl⟩
    · exact .pair rfl rfl rfl ihinside ihmore
    · have hclose : Nested .round (.rightBracket :: ks) := hplain (by simp) (by simp) ihmore
      exact hplain (by simp) (by simp) (ihinside.append hclose)

end DdlCatalog.Grammar
