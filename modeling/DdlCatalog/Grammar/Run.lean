import DdlCatalog.Grammar.Parser

/-! # Running parsers
How the value and the tokens left by a parser follow from those of its parts. -/

namespace DdlCatalog.Grammar.Parser

variable {α β σ : Type}

@[simp] theorem run_pure (a : α) (ctx : Context) (ts : List Token) :
    (Pure.pure a : Parser α).run ctx ts = .ok (a, ts) := rfl

theorem run_bind (p : Parser α) (f : α → Parser β) (ctx : Context) (ts : List Token) :
    (p >>= f).run ctx ts = (p.run ctx ts).bind fun o => (f o.1).run ctx o.2 := by
  show Except.map _ (Parser.bind p f ctx ts) = _
  unfold Parser.bind run
  cases p ctx ts with
  | error e => rfl
  | ok o =>
    simp only [Except.map, Except.bind]
    cases f o.value ctx o.rest <;> rfl

/-- A parser leaves a suffix of its tokens. -/
theorem suffix_of_run {p : Parser α} {ctx : Context} {ts rest : List Token} {a : α}
    (h : p.run ctx ts = .ok (a, rest)) : rest <:+ ts := by
  unfold run at h
  cases hp : p ctx ts with
  | error e => simp [hp, Except.map] at h
  | ok o =>
    simp only [hp, Except.map, Except.ok.injEq, Prod.mk.injEq] at h
    exact h.2 ▸ o.suffix

theorem run_taking (p : Parser α) (ctx : Context) (ts : List Token) :
    (taking p).run ctx ts =
      (p.run ctx ts).map fun o => ((ts.take (ts.length - o.2.length), o.1), o.2) := by
  unfold run taking
  cases p ctx ts <;> rfl

theorem run_onlyBefore (p : Parser α) (condition : Token → Bool) (ctx : Context)
    (ts : List Token) :
    (onlyBefore p condition).run ctx ts =
      match p.run ctx ts with
      | .error _ => .ok (none, ts)
      | .ok o => if condition (ctx.current o.2) then .ok (some o.1, o.2) else .ok (none, ts) := by
  unfold run onlyBefore
  cases p ctx ts with
  | error e => rfl
  | ok o =>
    dsimp only [Except.map]
    cases condition (ctx.current o.rest) <;> rfl

theorem run_commaList (p : Parser α) (ctx : Context) (ts : List Token) :
    (commaList p).run ctx ts = (p.run ctx ts).bind fun o =>
      match o.2 with
      | [] => .ok ([o.1], [])
      | t :: rest =>
        if t.kind = .comma then
          ((commaList p).run ctx rest).map fun more => (o.1 :: more.1, more.2)
        else .ok ([o.1], t :: rest) := by
  unfold run
  rw [commaList]
  cases p ctx ts with
  | error e => rfl
  | ok o =>
    obtain ⟨a, rest, h⟩ := o
    cases rest with
    | nil => rfl
    | cons t rest =>
      by_cases hc : t.kind = .comma
      · simp only [Except.map, Except.bind, hc, if_true]
        cases commaList p ctx rest <;> rfl
      · simp only [Except.map, Except.bind, hc, if_false]

theorem run_clauses (clause : σ → Token → Parser (Option σ)) (s : σ) (ctx : Context)
    (ts : List Token) :
    (clauses clause s).run ctx ts =
      match ts with
      | [] => .ok (s, [])
      | t :: rest =>
        ((clause s t).run ctx rest).bind fun o =>
          match o.1 with
          | none => .ok (s, t :: rest)
          | some s => (clauses clause s).run ctx o.2 := by
  unfold run
  cases ts with
  | nil => rw [clauses.eq_def]; rfl
  | cons t rest =>
    rw [clauses.eq_def]
    simp only
    cases clause s t ctx rest with
    | error e => rfl
    | ok o =>
      obtain ⟨a, left, h⟩ := o
      cases a with
      | none => rfl
      | some s =>
        simp only [Except.map, Except.bind]
        cases clauses clause s ctx left <;> rfl

end DdlCatalog.Grammar.Parser
