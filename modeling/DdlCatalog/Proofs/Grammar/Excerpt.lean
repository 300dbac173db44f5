import DdlCatalog.Grammar.Index
import DdlCatalog.Grammar.Run
import DdlCatalog.Proofs.Grammar.Extent
import DdlCatalog.Proofs.Grammar.Yields
import DdlCatalog.Proofs.Token.Reads

/-! # Excerpts
The texts of expressions and calls are cut out of the text of their statement. Each is the text of some
tokens in a row, at whose end no mark is cut in two. -/

namespace DdlCatalog.Grammar

/-- Tokens that are one expression, from the first to the last. -/
def IsExpression (us : List Token) : Prop :=
  ∀ stop, expressionLength neverStops stop none 0 us = .ok us.length

/-- Tokens without brackets in front of a group. -/
def IsCall (us : List Token) : Prop :=
  ∃ front l inner, us = front ++ l :: inner ∧ l.kind = .leftParen ∧
    (∀ t ∈ front, opensBracket t.kind = false ∧ closesBracket t.kind = false) ∧
    ∀ stop, Parser.groupLength stop 0 inner = .ok inner.length

/-- Tokens in a row of a statement that read the same by themselves. -/
structure Excerpt (ctx : Context) (us : List Token) : Prop where
  ne_nil : us ≠ []
  place : ∃ before after, ctx.tokens = before ++ us ++ after ∧ Token.Severs us (ctx.current after)

/-- The tokens of an expression. -/
structure Captured (ctx : Context) (us : List Token) : Prop extends Excerpt ctx us where
  whole : IsExpression us

/-- The tokens of a call. -/
structure Called (ctx : Context) (us : List Token) : Prop extends Excerpt ctx us where
  call : IsCall us

/-- The expression is that of some tokens of the statement. -/
def Drawn (ctx : Context) (e : Expression) : Prop := ∃ us, Captured ctx us ∧ e = ctx.expression us

variable {ctx : Context} {ts us rest : List Token} {stop t : Token} {depth n : Nat}

theorem Excerpt.of_suffix (h : us ++ rest <:+ ctx.tokens) (hne : us ≠ [])
    (hsevers : Token.Severs us (ctx.current rest)) : Excerpt ctx us := by
  obtain ⟨before, hbefore⟩ := h
  exact ⟨hne, before, rest, by rw [← hbefore, List.append_assoc], hsevers⟩

namespace Parser

/-- A token of a group, with the numbers of open parentheses before and after it. -/
inductive StaysInside (t : Token) : Nat → Nat → Prop where
  | opens {depth : Nat} (kind : t.kind = .leftParen) : StaysInside t depth (depth + 1)
  | closes {depth : Nat} (kind : t.kind = .rightParen) : StaysInside t (depth + 1) depth
  | other {depth : Nat} (not_opens : t.kind ≠ .leftParen) (not_closes : t.kind ≠ .rightParen)
      (not_eof : t.kind ≠ .eof) : StaysInside t depth depth

/-- A group ends behind a token, or goes on behind it. -/
theorem groupLength_cons (h : groupLength stop depth (t :: ts) = .ok n) :
    (t.kind = .rightParen ∧ depth = 0 ∧ n = 1) ∨
      ∃ m d, n = m + 1 ∧ StaysInside t depth d ∧ groupLength stop d ts = .ok m := by
  have hmore {d : Nat} (hinside : StaysInside t depth d)
      (hd : (groupLength stop d ts).map (· + 1) = .ok n) :
      ∃ m d, n = m + 1 ∧ StaysInside t depth d ∧ groupLength stop d ts = .ok m := by
    cases hm : groupLength stop d ts with
    | error e => simp [hm, Except.map] at hd
    | ok m => exact ⟨m, d, by simpa [hm, Except.map] using hd.symm, hinside, hm⟩
  unfold groupLength at h
  split at h
  · cases h
  · next hk => exact .inr (hmore (.opens hk) h)
  · next hk =>
    cases depth with
    | zero => exact .inl ⟨hk, rfl, (Except.ok.inj h).symm⟩
    | succ depth => exact .inr (hmore (.closes hk) h)
  · next heof hopens hcloses => exact .inr (hmore (.other hopens hcloses heof) h)

theorem StaysInside.groupLength_eq {d : Nat} (h : StaysInside t depth d) :
    groupLength stop depth (t :: ts) = (groupLength stop d ts).map (· + 1) := by
  conv_lhs => unfold groupLength
  cases h with
  | opens kind | closes kind => rw [kind]
  | other not_opens not_closes not_eof => split <;> first | rfl | contradiction

/-- A group ends in the parenthesis that closes it. -/
theorem groupLength_take (h : groupLength stop depth ts = .ok n) (stop' : Token) :
    (ts.take n).length = n ∧ groupLength stop' depth (ts.take n) = .ok n ∧
      ∃ last, (ts.take n).getLast? = some last ∧ last.kind = .rightParen := by
  induction ts generalizing depth n with
  | nil => cases h
  | cons t ts ih =>
    rcases groupLength_cons h with ⟨hk, rfl, rfl⟩ | ⟨m, d, rfl, hinside, hmore⟩
    · exact ⟨rfl, by simp [groupLength, hk], t, rfl, hk⟩
    · obtain ⟨hlength, htake, last, hgetLast, hkind⟩ := ih hmore
      refine ⟨by simp [hlength], ?_, last, ?_, hkind⟩
      · rw [List.take_succ_cons, hinside.groupLength_eq, htake]
        rfl
      · rw [List.take_succ_cons, List.getLast?_cons, hgetLast]
        rfl

theorem run_bind_ok {α β : Type} {p : Parser α} {f : α → Parser β} {b : β}
    (h : (p >>= f).run ctx ts = .ok (b, rest)) :
    ∃ a mid, p.run ctx ts = .ok (a, mid) ∧ (f a).run ctx mid = .ok (b, rest) := by
  rw [run_bind] at h
  cases hp : p.run ctx ts with
  | error e => rw [hp] at h; cases h
  | ok o =>
    rw [hp] at h
    exact ⟨o.1, o.2, rfl, h⟩

theorem run_current : current.run ctx ts = .ok (ctx.current ts, ts) := rfl

theorem run_name {a : String} (hstop : ctx.stop.kind = .eof)
    (h : name.run ctx ts = .ok (a, rest)) : ∃ t, ts = t :: rest ∧ t.name? = some a := by
  obtain ⟨t, mid, ht, h⟩ := run_bind_ok h
  obtain ⟨rfl, rfl⟩ := Prod.mk.inj (Except.ok.inj (run_current.symm.trans ht))
  split at h
  · next a' ha =>
    cases ts with
    | nil =>
      have hstop' : (ctx.current []).kind = .eof := hstop
      simp [Token.name?, hstop', Token.Kind.name?] at ha
    | cons t ts =>
      cases h
      exact ⟨t, rfl, ha⟩
  · cases h

theorem run_accept {kind : Token.Kind} {b : Bool} (hstop : ctx.stop.kind = .eof)
    (hkind : kind ≠ .eof) (h : (accept kind).run ctx ts = .ok (b, rest)) :
    (b = true ∧ ∃ t, ts = t :: rest ∧ t.kind = kind) ∨ b = false ∧ rest = ts := by
  obtain ⟨present, mid, hpresent, h⟩ := run_bind_ok h
  cases hpresent
  split at h
  · next hk =>
    cases ts with
    | nil => exact absurd ((of_decide_eq_true hk).symm.trans hstop) hkind
    | cons t ts =>
      cases h
      exact .inl ⟨rfl, t, rfl, of_decide_eq_true hk⟩
  · cases h
    exact .inr ⟨rfl, rfl⟩

theorem run_expect {kind : Token.Kind} (hstop : ctx.stop.kind = .eof) (hkind : kind ≠ .eof)
    (h : (expect kind).run ctx ts = .ok ((), rest)) : ∃ t, ts = t :: rest ∧ t.kind = kind := by
  obtain ⟨b, mid, haccept, hmore⟩ := run_bind_ok h
  rcases run_accept hstop hkind haccept with ⟨rfl, t, rfl, hk⟩ | ⟨rfl, -⟩
  · cases hmore
    exact ⟨t, rfl, hk⟩
  · cases hmore

theorem run_takeMeasured {message : String} {measure : Context → List Token → Except Token Nat}
    (h : (takeMeasured message measure).run ctx ts = .ok (us, rest)) :
    ∃ n, measure ctx ts = .ok n ∧ us = ts.take n ∧ rest = ts.drop n := by
  unfold run takeMeasured at h
  cases hmeasure : measure ctx ts with
  | error t => rw [hmeasure] at h; cases h
  | ok n =>
    rw [hmeasure] at h
    cases h
    exact ⟨n, rfl, rfl, rfl⟩

theorem run_group (hstop : ctx.stop.kind = .eof) (h : group.run ctx ts = .ok ((), rest)) :
    ∃ l inner, ts = l :: inner ++ rest ∧ l.kind = .leftParen ∧
      (∀ stop, groupLength stop 0 inner = .ok inner.length) ∧
      ∃ last, inner.getLast? = some last ∧ last.kind = .rightParen := by
  obtain ⟨⟨⟩, mid, hexpect, hmore⟩ := run_bind_ok h
  obtain ⟨l, rfl, hl⟩ := run_expect hstop (by simp) hexpect
  obtain ⟨us, mid', hmeasured, hend⟩ := run_bind_ok hmore
  rw [run_pure] at hend
  cases hend
  obtain ⟨n, hn, rfl, rfl⟩ := run_takeMeasured hmeasured
  refine ⟨l, mid.take n, by simp, hl, fun stop => ?_, (groupLength_take hn ctx.stop).2.2⟩
  obtain ⟨hlength, htake, -⟩ := groupLength_take hn stop
  rw [htake, hlength]

theorem run_taking_ok {α : Type} {p : Parser α} {a : α}
    (h : (taking p).run ctx ts = .ok ((us, a), rest)) :
    p.run ctx ts = .ok (a, rest) ∧ us = ts.take (ts.length - rest.length) := by
  rw [run_taking] at h
  cases hp : p.run ctx ts with
  | error e => rw [hp] at h; cases h
  | ok o =>
    rw [hp] at h
    cases h
    exact ⟨rfl, rfl⟩

theorem kind_of_name? {a : String} (h : t.name? = some a) : opensBracket t.kind = false ∧
    closesBracket t.kind = false ∧ t.kind ≠ .eof ∧ t.kind ≠ .comma := by
  unfold Token.name? at h
  cases hk : t.kind <;> simp [hk, Token.Kind.name?, opensBracket, closesBracket] at h ⊢

theorem run_discard_name {u : Unit} (hstop : ctx.stop.kind = .eof)
    (h : (discard name).run ctx ts = .ok (u, rest)) :
    ∃ t, ts = t :: rest ∧ opensBracket t.kind = false ∧ closesBracket t.kind = false := by
  obtain ⟨a, mid, hname, hend⟩ := run_bind_ok (f := fun _ => Pure.pure ()) h
  rw [run_pure] at hend
  cases hend
  obtain ⟨t, rfl, ht⟩ := run_name hstop hname
  exact ⟨t, rfl, (kind_of_name? ht).1, (kind_of_name? ht).2.1⟩

theorem of_yieldsOn {α : Type} {p : Parser α} {P : α → Prop} (h : ∀ ts rest a, ts <:+ ctx.tokens →
    p.run ctx ts = .ok (a, rest) → P a) : YieldsOn (.within ctx) p P := by
  rintro _ ts ⟨rfl, hts⟩ o ho
  refine h ts o.rest o.value hts ?_
  rw [run, ho]
  rfl

theorem YieldsOn.of_run {α : Type} {p : Parser α} {P : α → Prop} (h : YieldsOn (.within ctx) p P)
    {a : α} (hrun : p.run ctx ts = .ok (a, rest)) (hts : ts <:+ ctx.tokens) : P a := by
  unfold run at hrun
  cases ho : p ctx ts with
  | error e =>
    rw [ho] at hrun
    cases hrun
  | ok o =>
    rw [ho] at hrun
    cases hrun
    exact h ctx ts ⟨rfl, hts⟩ o ho

theorem yields_expressionTokens {stops : StopRule} (hstops : StopsClear stops)
    (hstop : ctx.stop.kind = .eof) :
    YieldsOn (.within ctx) (expressionTokens stops) (Captured ctx) := by
  refine of_yieldsOn fun ts rest us hts h => ?_
  obtain ⟨vs, mid, hmeasured, hmore⟩ := run_bind_ok h
  obtain ⟨n, hn, rfl, rfl⟩ := run_takeMeasured hmeasured
  split at hmore
  · cases hmore
  · next hne =>
    rw [run_pure] at hmore
    cases hmore
    have hclear : (ctx.current (ts.drop n)).kind.startsClear = true := by
      cases hdrop : ts.drop n with
      | nil =>
        rw [Context.current, List.headD_nil, hstop]
        rfl
      | cons t rest =>
        exact startsClear_of_expressionLength hstops hn t (by rw [hdrop]; rfl)
    refine ⟨.of_suffix (by rwa [List.take_append_drop]) (by simpa using hne) (.clear hclear),
      fun stop => ?_⟩
    obtain ⟨hlength, htake⟩ := expressionLength_take hn stop none
    rw [htake, hlength]

theorem yields_express (us : List Token) :
    YieldsOn (.within ctx) (express us) (· = ctx.expression us) := by
  rintro _ ts ⟨rfl, -⟩ o ho
  cases ho
  rfl

theorem yields_expression {stops : StopRule} (hstops : StopsClear stops)
    (hstop : ctx.stop.kind = .eof) : YieldsOn (.within ctx) (expression stops) (Drawn ctx) := by
  refine yields_bind (yields_expressionTokens hstops hstop) fun us hus => ?_
  exact (yields_express us).mono fun e he => ⟨us, hus, he⟩

theorem yields_groupedExpression (hstop : ctx.stop.kind = .eof) :
    YieldsOn (.within ctx) groupedExpression (Drawn ctx) := by
  refine yields_next fun _ => yields_bind (yields_expression stopsClear_neverStops hstop) ?_
  exact fun e he => yields_next fun _ => yields_pure he

theorem yields_predicate (hstop : ctx.stop.kind = .eof) :
    YieldsOn (.within ctx) predicate
      fun e => ∃ us, Captured ctx us ∧ e = ctx.expression (unwrap us) := by
  refine yields_bind (yields_expressionTokens stopsClear_neverStops hstop) fun us hus => ?_
  exact (yields_express (unwrap us)).mono fun e he => ⟨us, hus, he⟩

/-- What stands in front of a group that a parser ends with. -/
theorem called_of_run (hstop : ctx.stop.kind = .eof) (front : List Token)
    (hfront : ∀ t ∈ front, opensBracket t.kind = false ∧ closesBracket t.kind = false)
    (hts : front ++ us <:+ ctx.tokens) (h : group.run ctx us = .ok ((), rest)) :
    Called ctx ((front ++ us).take ((front ++ us).length - rest.length)) := by
  obtain ⟨l, inner, rfl, hl, hinner, last, hlast, hkind⟩ := run_group hstop h
  have htake : (front ++ (l :: inner ++ rest)).take
      ((front ++ (l :: inner ++ rest)).length - rest.length) = front ++ l :: inner := by
    rw [← List.append_assoc]
    exact List.take_left' (by simp; omega)
  rw [htake]
  rw [← List.append_assoc] at hts
  have hgetLast : (front ++ l :: inner).getLast? = some last := by
    rw [List.getLast?_append, List.getLast?_cons, hlast]
    rfl
  exact ⟨.of_suffix hts (by simp) (.closed hgetLast hkind),
    front, l, inner, rfl, hl, hfront, hinner⟩

theorem yields_callTokens (hstop : ctx.stop.kind = .eof) :
    YieldsOn (.within ctx) callTokens (Called ctx) := by
  refine of_yieldsOn fun ts rest us hts h => ?_
  obtain ⟨⟨vs, ⟨⟩⟩, mid, htaking, hend⟩ := run_bind_ok h
  rw [run_pure] at hend
  cases hend
  obtain ⟨hcall, rfl⟩ := run_taking_ok htaking
  obtain ⟨⟨⟩, mid, hname, hafter⟩ := run_bind_ok hcall
  obtain ⟨b, mid', hdot, hgroup⟩ := run_bind_ok hafter
  obtain ⟨t, rfl, ht⟩ := run_discard_name hstop hname
  rcases run_accept hstop (by simp) hdot with ⟨rfl, dot, rfl, hk⟩ | ⟨rfl, rfl⟩
  · obtain ⟨⟨⟩, mid'', hsecond, hgroup'⟩ := run_bind_ok hgroup
    obtain ⟨t', rfl, ht'⟩ := run_discard_name hstop hsecond
    have hdot : opensBracket dot.kind = false ∧ closesBracket dot.kind = false := by
      rw [hk]
      exact ⟨rfl, rfl⟩
    exact called_of_run hstop [t, dot, t'] (by simp [ht, ht', hdot]) hts hgroup'
  · exact called_of_run hstop [t] (by simp [ht]) hts hgroup

/-- A name by itself is an expression. -/
theorem yields_takingName (hstop : ctx.stop.kind = .eof) :
    YieldsOn (.within ctx) (taking name) fun r => Captured ctx r.1 := by
  refine of_yieldsOn fun ts rest r hts h => ?_
  obtain ⟨us, a⟩ := r
  obtain ⟨hname, rfl⟩ := run_taking_ok h
  obtain ⟨t, rfl, ht⟩ := run_name hstop hname
  obtain ⟨hopens, hcloses, heof, hcomma⟩ := kind_of_name? ht
  have hsingle : (t :: rest).take ((t :: rest).length - rest.length) = [t] := by simp
  show Captured ctx ((t :: rest).take _)
  rw [hsingle]
  have hrow : [t] ++ rest <:+ ctx.tokens := hts
  refine ⟨.of_suffix hrow (by simp) (.single rfl), fun stop => ?_⟩
  rw [Passes.expressionLength_eq (.stays hopens hcloses heof fun _ => hcomma)]
  simp [expressionLength, Except.map]

end Parser

end DdlCatalog.Grammar
