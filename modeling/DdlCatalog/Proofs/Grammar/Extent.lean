import DdlCatalog.Grammar.Constraint
import DdlCatalog.Proofs.Token.Cut

/-! # Where expressions end
The tokens of an expression, taken out of their statement, are an expression up to their end. What ends
an expression in a statement makes no mark with its last character. -/

namespace DdlCatalog.Grammar

open Token (Kind)

def opensBracket (k : Kind) : Bool := k = .leftParen || k = .leftBracket

def closesBracket (k : Kind) : Bool := k = .rightParen || k = .rightBracket

/-- A token of an expression, with the numbers of open brackets before and after it. -/
inductive Passes (t : Token) : Nat → Nat → Prop where
  | opens {depth : Nat} (kind : opensBracket t.kind = true) : Passes t depth (depth + 1)
  | closes {depth : Nat} (kind : closesBracket t.kind = true) : Passes t (depth + 1) depth
  | stays {depth : Nat} (not_opens : opensBracket t.kind = false)
      (not_closes : closesBracket t.kind = false) (not_eof : t.kind ≠ .eof)
      (not_comma : depth = 0 → t.kind ≠ .comma) : Passes t depth depth

variable {stops : StopRule} {stop t : Token} {previous : Option Token} {depth d n : Nat}
  {ts : List Token}

/-- An expression ends in front of a token, or goes on behind it. -/
theorem expressionLength_cons (h : expressionLength stops stop previous depth (t :: ts) = .ok n) :
    (n = 0 ∧ depth = 0 ∧ (t.kind = .eof ∨ t.kind = .comma ∨ closesBracket t.kind = true ∨
      stops previous t (ts.headD stop) = true)) ∨
    ∃ m d, n = m + 1 ∧ Passes t depth d ∧ expressionLength stops stop (some t) d ts = .ok m := by
  have hmore {depth d : Nat} (hpasses : Passes t depth d)
      (hd : (expressionLength stops stop (some t) d ts).map (· + 1) = .ok n) :
      ∃ m d, n = m + 1 ∧ Passes t depth d ∧ expressionLength stops stop (some t) d ts = .ok m := by
    cases hm : expressionLength stops stop (some t) d ts with
    | error e => simp [hm, Except.map] at hd
    | ok m => exact ⟨m, d, by simpa [hm, Except.map] using hd.symm, hpasses, hm⟩
  have hzero (he : (.ok 0 : Except Token Nat) = .ok n) : n = 0 := (Except.ok.inj he).symm
  unfold expressionLength at h
  dsimp only at h
  split at h
  · next hk => exact .inl ⟨hzero h, rfl, .inl hk⟩
  · cases h
  · next hk => exact .inr (hmore (.opens (by simp [opensBracket, hk])) h)
  · next hk => exact .inr (hmore (.opens (by simp [opensBracket, hk])) h)
  · next hk => exact .inl ⟨hzero h, rfl, by simp [closesBracket, hk]⟩
  · next hk => exact .inr (hmore (.closes (by simp [closesBracket, hk])) h)
  · next hk => exact .inl ⟨hzero h, rfl, by simp [closesBracket, hk]⟩
  · next hk => exact .inr (hmore (.closes (by simp [closesBracket, hk])) h)
  · next hk => exact .inl ⟨hzero h, rfl, .inr (.inl hk)⟩
  · next hcomma =>
    split at h
    · next hstops => exact .inl ⟨hzero h, rfl, .inr (.inr (.inr hstops))⟩
    · exact .inr (hmore (.stays (by simp_all [opensBracket]) (by simp_all [closesBracket])
        (by simp_all) fun _ => hcomma) h)
  · exact .inr (hmore (.stays (by simp_all [opensBracket]) (by simp_all [closesBracket])
      (by simp_all) nofun) h)

/-- Unless a rule stops it, an expression goes on behind what may belong to it. -/
theorem Passes.expressionLength_of_not_stops (h : Passes t depth d)
    (hstops : depth = 0 → opensBracket t.kind = false →
      stops previous t (ts.headD stop) = false) :
    expressionLength stops stop previous depth (t :: ts) =
      (expressionLength stops stop (some t) d ts).map (· + 1) := by
  conv_lhs => unfold expressionLength
  dsimp only
  cases h with
  | opens kind =>
    simp only [opensBracket, Bool.or_eq_true, decide_eq_true_eq] at kind
    rcases kind with hk | hk <;> rw [hk]
  | closes kind =>
    simp only [closesBracket, Bool.or_eq_true, decide_eq_true_eq] at kind
    rcases kind with hk | hk <;> rw [hk]
  | stays not_opens not_closes not_eof not_comma =>
    split
    all_goals simp_all [opensBracket, closesBracket]

theorem Passes.expressionLength_eq (h : Passes t depth d) :
    expressionLength neverStops stop previous depth (t :: ts) =
      (expressionLength neverStops stop (some t) d ts).map (· + 1) :=
  h.expressionLength_of_not_stops fun _ _ => rfl

/-- The tokens of an expression are one up to their end, whatever has stopped it. -/
theorem expressionLength_take (h : expressionLength stops stop previous depth ts = .ok n)
    (stop' : Token) (previous' : Option Token) :
    (ts.take n).length = n ∧
      expressionLength neverStops stop' previous' depth (ts.take n) = .ok n := by
  induction ts generalizing previous previous' depth n with
  | nil =>
    rw [expressionLength] at h
    split at h
    · next hdepth =>
      cases h
      exact ⟨rfl, by simp [expressionLength, hdepth]⟩
    · cases h
  | cons t ts ih =>
    rcases expressionLength_cons h with ⟨rfl, rfl, -⟩ | ⟨m, d, rfl, hpasses, hmore⟩
    · exact ⟨rfl, by simp [expressionLength]⟩
    · obtain ⟨hlength, htake⟩ := ih hmore (some t)
      refine ⟨by simp [hlength], ?_⟩
      rw [List.take_succ_cons, hpasses.expressionLength_eq, htake]
      rfl

/-- A rule that stops in front of no token that starts with a point or a star. -/
def StopsClear (stops : StopRule) : Prop :=
  ∀ previous t next, stops previous t next = true → t.kind.startsClear = true

theorem stopsClear_neverStops : StopsClear neverStops :=
  fun _ _ _ h => absurd h Bool.false_ne_true

theorem stopsClear_endsDefault : StopsClear endsDefault := by
  intro previous t next h
  by_contra hclear
  have hk : t.kind = .dot ∨ (∃ text, t.kind = .number text) ∨ ∃ op, t.kind = .operator op := by
    cases hk : t.kind <;> simp [hk, Kind.startsClear] at hclear ⊢
  rcases hk with hk | ⟨text, hk⟩ | ⟨op, hk⟩ <;> simp [endsDefault, hk] at h

theorem stopsClear_with : StopsClear fun _ t _ => t.isKeyword .WITH := by
  intro previous t next h
  have hkind : t.kind = .keyword .WITH := by simpa [Token.isKeyword] using h
  rw [hkind]
  rfl

/-- No mark is cut in two where an expression ends. -/
theorem startsClear_of_expressionLength (hstops : StopsClear stops)
    (h : expressionLength stops stop previous depth ts = .ok n) :
    ∀ t ∈ (ts.drop n).head?, t.kind.startsClear = true := by
  induction ts generalizing previous depth n with
  | nil => simp
  | cons t ts ih =>
    rcases expressionLength_cons h with ⟨rfl, -, hends⟩ | ⟨m, d, rfl, -, hmore⟩
    · rintro _ ⟨⟩
      rcases hends with hk | hk | hk | hstop
      · rw [hk]; rfl
      · rw [hk]; rfl
      · simp only [closesBracket, Bool.or_eq_true, decide_eq_true_eq] at hk
        rcases hk with hk | hk <;> rw [hk] <;> rfl
      · exact hstops _ _ _ hstop
    · exact ih hmore

end DdlCatalog.Grammar
