import DdlCatalog.Proofs.Grammar.Excerpt

/-! # Parsers in front of known tokens
What the small parsers do is settled by the kind of the token in front. A parser that is put together
goes on with what the first part has left. -/

namespace DdlCatalog.Grammar.Parser

variable {α β : Type} {ctx : Context} {ts mid : List Token} {t : Token} {kind : Token.Kind} {a : α}

theorem run_bind_of_ok {p : Parser α} {f : α → Parser β} (h : p.run ctx ts = .ok (a, mid)) :
    (p >>= f).run ctx ts = (f a).run ctx mid := by
  rw [run_bind, h]
  rfl

theorem run_bind_of_error {p : Parser α} {f : α → Parser β} {e : Error}
    (h : p.run ctx ts = .error e) : (p >>= f).run ctx ts = .error e := by
  rw [run_bind, h]
  rfl

theorem run_at?_of_eq (h : (ctx.current ts).kind = kind) :
    (at? kind).run ctx ts = .ok (true, ts) := by
  show Except.ok (decide ((ctx.current ts).kind = kind), ts) = _
  rw [decide_eq_true h]

theorem run_at?_of_ne (h : (ctx.current ts).kind ≠ kind) :
    (at? kind).run ctx ts = .ok (false, ts) := by
  show Except.ok (decide ((ctx.current ts).kind = kind), ts) = _
  rw [decide_eq_false h]

theorem run_accept_of_eq (h : t.kind = kind) :
    (accept kind).run ctx (t :: ts) = .ok (true, ts) := by
  have hat : (at? kind).run ctx (t :: ts) = .ok (true, t :: ts) := run_at?_of_eq h
  rw [accept, run_bind_of_ok hat]
  rfl

theorem run_accept_of_ne (h : (ctx.current ts).kind ≠ kind) :
    (accept kind).run ctx ts = .ok (false, ts) := by
  rw [accept, run_bind_of_ok (run_at?_of_ne h)]
  rfl

theorem run_choice_of_eq {p q : Parser α} (h : t.kind = kind) :
    (do if ← accept kind then p else q : Parser α).run ctx (t :: ts) = p.run ctx ts :=
  run_bind_of_ok (run_accept_of_eq h)

theorem run_choice_of_ne {p q : Parser α} (h : (ctx.current ts).kind ≠ kind) :
    (do if ← accept kind then p else q : Parser α).run ctx ts = q.run ctx ts :=
  run_bind_of_ok (run_accept_of_ne h)

/-- A choice whose value is used afterwards. -/
theorem run_choice_bind (c : Parser Bool) (p q : Parser α) (f : α → Parser β) :
    (c >>= fun b => if b then p >>= f else q >>= f).run ctx ts =
      ((do if ← c then p else q : Parser α) >>= f).run ctx ts := by
  rw [run_bind, run_bind, run_bind]
  cases c.run ctx ts with
  | error e => rfl
  | ok o =>
    obtain ⟨b, mid⟩ := o
    cases b with
    | true => exact run_bind p f ctx mid
    | false => exact run_bind q f ctx mid

theorem run_expect_of_eq (h : t.kind = kind) : (expect kind).run ctx (t :: ts) = .ok ((), ts) := by
  rw [expect, run_choice_of_eq h]
  rfl

theorem run_name_of_some {name : String} (h : t.name? = some name) :
    Parser.name.run ctx (t :: ts) = .ok (name, ts) := by
  have hcurrent : (ctx.current (t :: ts)).name? = some name := h
  rw [Parser.name, run_bind_of_ok run_current, hcurrent]
  rfl

end DdlCatalog.Grammar.Parser
