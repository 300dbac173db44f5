import DdlCatalog.Proofs.Grammar.Repetition
import DdlCatalog.Proofs.Grammar.Defaults
import DdlCatalog.Proofs.Grammar.TypeFollow

/-! # Statements that part ways
Two statements share a row of tokens, behind which the first of them has a comma. What a parser reads of
the row in the first statement it reads in the second one as well, unless it looks for what stands behind
the row there. -/

namespace DdlCatalog.Grammar

open Token (Kind Keyword)

/-- A comma, or a word that begins a key or a reference of a column. Where what stands behind it is read,
no clause of a column goes on with it. -/
@[reducible] def partsClauses : Kind → Bool
  | .comma | .keyword .CONSTRAINT | .keyword .PRIMARY | .keyword .UNIQUE | .keyword .REFERENCES => true
  | _ => false

/-- A row of tokens is the same in two statements. -/
structure Shares (ctx ctx' : Context) (row : List Token) : Prop where
  stop_here : ctx.stop.kind = .eof
  stop_there : ctx'.stop.kind = .eof
  source_eq : ctx.source = ctx'.source
  textOf_eq : ∀ ts ⊆ row, ctx.textOf ts = ctx'.textOf ts

/-- A row of tokens in two statements, and what stands behind it in each. -/
structure Fork where
  here : Context
  there : Context
  row : List Token
  comma : Token
  rest : List Token
  next : Token
  rest' : List Token
  kind_comma : comma.kind = .comma
  parts_next : partsClauses next.kind = true
  shares : Shares here there row

namespace Fork

variable {α β σ : Type} {F : Fork} {p : Parser α} {ts us mid : List Token} {kind : Kind}

def behind (F : Fork) : List Token := F.comma :: F.rest

def behind' (F : Fork) : List Token := F.next :: F.rest'

/-- What the parser reads of the row in the first statement it reads in the second one. Instances follow
the way parsers are made. -/
class Local (F : Fork) (p : Parser α) : Prop where
  read : ∀ ⦃ts us : List Token⦄ ⦃a : α⦄, ts ⊆ F.row →
    p.run F.here (ts ++ F.behind) = .ok (a, us ++ F.behind) →
      p.run F.there (ts ++ F.behind') = .ok (a, us ++ F.behind')

/-- The second statement goes on with the comma as well. -/
class Plain (F : Fork) : Prop where
  next_eq : F.next = F.comma

/-- A condition that holds by computation. -/
class Never (b : Bool) : Prop where
  eq_false : b = false

instance : Never false := ⟨rfl⟩

theorem exists_row (h : us ++ F.behind <:+ mid) (h' : mid <:+ ts ++ F.behind) :
    ∃ vs, mid = vs ++ F.behind ∧ vs <:+ ts := by
  obtain ⟨front, rfl⟩ := h
  obtain ⟨front', h'⟩ := h'
  refine ⟨front ++ us, (List.append_assoc ..).symm, front', ?_⟩
  rw [← List.append_assoc, ← List.append_assoc] at h'
  rw [← List.append_assoc]
  exact List.append_cancel_right h'

theorem not_append_rest : F.rest ≠ us ++ F.behind := by
  intro h
  have hlength := congrArg List.length h
  simp only [behind, List.length_append, List.length_cons] at hlength
  omega

instance local_pure (a : α) : F.Local (pure a) where
  read := by
    intro ts us b _ h
    rw [Parser.run_pure] at h
    obtain ⟨rfl, heq⟩ := Prod.mk.inj (Except.ok.inj h)
    rw [List.append_cancel_right heq]
    rfl

/-- The same value without the notation of monads. -/
instance local_pure' (a : α) : F.Local (Parser.pure a) := local_pure a

/-- A parser that goes on with something that depends on the tokens taken. -/
theorem local_bind_of {f : α → Parser β} [hp : F.Local p]
    (hf : ∀ ⦃ts vs : List Token⦄ ⦃a : α⦄, ts ⊆ F.row →
      p.run F.here (ts ++ F.behind) = .ok (a, vs ++ F.behind) → F.Local (f a)) : F.Local (p >>= f) where
  read := by
    intro ts us b hts h
    obtain ⟨a, mid, ha, hb⟩ := Parser.run_bind_ok h
    obtain ⟨vs, rfl, hvs⟩ := exists_row (Parser.suffix_of_run hb) (Parser.suffix_of_run ha)
    exact (Parser.run_bind_of_ok (hp.read hts ha)).trans ((hf hts ha).read (List.Subset.trans hvs.subset hts) hb)

instance local_bind {f : α → Parser β} [F.Local p] [hf : ∀ a, F.Local (f a)] : F.Local (p >>= f) :=
  local_bind_of fun _ _ a _ _ => hf a

instance local_map {f : α → β} [F.Local p] : F.Local (f <$> p) :=
  local_bind_of (f := fun a => pure (f a)) fun _ _ _ _ _ => local_pure _

instance local_ite {c : Prop} [Decidable c] {q : Parser α} [F.Local p] [F.Local q] :
    F.Local (if c then p else q) := by
  split <;> infer_instance

/-- A choice between two parsers by the value of a third. -/
instance local_choice {c : Parser Bool} {q : Parser α} [F.Local c] [F.Local p] [F.Local q] :
    F.Local (do if ← c then p else q) :=
  local_bind

instance local_fail (e : Error) : F.Local (Parser.fail e : Parser α) := ⟨nofun⟩

instance local_errorAt (l : Text.Location) (message : String) :
    F.Local (Parser.errorAt l message : Parser α) := local_fail _

/-- A parser that looks at the token in front, and does not succeed in front of the comma. -/
theorem local_front {f : Token → Parser β} (hf : ∀ t, F.Local (f t))
    (hcomma : ∀ o, (f F.comma).run F.here F.behind ≠ .ok o) : F.Local (Parser.current >>= f) where
  read := by
    intro ts us b hts h
    rw [Parser.run_bind_of_ok Parser.run_current] at h ⊢
    cases ts with
    | nil => exact absurd h (hcomma _)
    | cons t ts => exact (hf t).read hts h

/-- A parser that notes where it begins, and does not succeed in front of the comma. -/
theorem local_location {f : Text.Location → Parser β} (hf : ∀ l, F.Local (f l))
    (hcomma : ∀ l o, (f l).run F.here F.behind ≠ .ok o) : F.Local (Parser.location >>= f) where
  read := by
    intro ts us b hts h
    have hplace (ctx : Context) (ts : List Token) :
        Parser.location.run ctx ts = .ok (ctx.locate (ctx.current ts), ts) := rfl
    rw [Parser.run_bind_of_ok (hplace ..)] at h ⊢
    cases ts with
    | nil => exact absurd h (hcomma _ _)
    | cons t ts =>
      have hlocate : F.here.locate t = F.there.locate t := congrArg t.location F.shares.source_eq
      rw [List.cons_append] at h ⊢
      rw [show F.there.current (t :: (ts ++ F.behind')) = t from rfl, ← hlocate]
      exact (hf _).read hts h

instance local_error (message : String) : F.Local (Parser.error message : Parser α) :=
  local_location (fun l => local_errorAt l message) fun _ _ => nofun

instance local_expected (what : String) : F.Local (Parser.expected what : Parser α) :=
  local_front (fun _ => local_error _) fun _ => nofun

instance local_advance : F.Local Parser.advance where
  read := by
    intro ts us a _ h
    cases ts with
    | nil => exact absurd (Prod.mk.inj (Except.ok.inj h)).2 not_append_rest
    | cons t ts =>
      have heq : ts ++ F.behind = us ++ F.behind := (Prod.mk.inj (Except.ok.inj h)).2
      rw [← List.append_cancel_right heq]
      rfl

/-- A token may be looked for that is behind the row in the second statement only if it is there in the
first one. -/
theorem local_accept_of (hkind : F.next.kind = kind → kind = .comma) : F.Local (Parser.accept kind) where
  read := by
    intro ts us b _ h
    cases ts with
    | nil =>
      by_cases hcomma : kind = .comma
      · rw [List.nil_append, behind, Parser.run_accept_of_eq (F.kind_comma.trans hcomma.symm)] at h
        exact absurd (Prod.mk.inj (Except.ok.inj h)).2 not_append_rest
      · have hne : (F.here.current F.behind).kind ≠ kind := fun hk => hcomma (hk.symm.trans F.kind_comma)
        rw [List.nil_append, Parser.run_accept_of_ne hne] at h
        obtain ⟨rfl, heq⟩ := Prod.mk.inj (Except.ok.inj h)
        obtain rfl : [] = us := List.append_cancel_right heq
        exact Parser.run_accept_of_ne fun hk => hcomma (hkind hk)
    | cons t ts =>
      by_cases hk : t.kind = kind
      · rw [List.cons_append, Parser.run_accept_of_eq hk] at h ⊢
        obtain ⟨rfl, heq⟩ := Prod.mk.inj (Except.ok.inj h)
        rw [List.append_cancel_right heq]
      · rw [Parser.run_accept_of_ne (show (F.here.current (t :: ts ++ F.behind)).kind ≠ kind from hk)] at h
        rw [Parser.run_accept_of_ne (show (F.there.current (t :: ts ++ F.behind')).kind ≠ kind from hk)]
        obtain ⟨rfl, heq⟩ := Prod.mk.inj (Except.ok.inj h)
        rw [List.append_cancel_right heq]

theorem next_ne [h : Never (partsClauses kind)] : F.next.kind ≠ kind := by
  rintro rfl
  exact Bool.false_ne_true (h.eq_false.symm.trans F.parts_next)

instance local_accept [Never (partsClauses kind)] : F.Local (Parser.accept kind) :=
  local_accept_of fun h => absurd h next_ne

instance local_accept_plain [hF : F.Plain] : F.Local (Parser.accept kind) :=
  local_accept_of fun h => by rw [← h, hF.next_eq, F.kind_comma]

instance local_acceptKeyword {k : Keyword} [F.Local (Parser.accept (.keyword k))] :
    F.Local (Parser.acceptKeyword k) := ‹_›

instance local_at? [hkind : Never (partsClauses kind)] : F.Local (Parser.at? kind) where
  read := by
    intro ts us b _ h
    have hat (ctx : Context) (ts : List Token) :
        (Parser.at? kind).run ctx ts = .ok (decide ((ctx.current ts).kind = kind), ts) := rfl
    have hcurrent : decide ((F.here.current (ts ++ F.behind)).kind = kind) =
        decide ((F.there.current (ts ++ F.behind')).kind = kind) := by
      cases ts with
      | nil =>
        have hhere : (F.here.current F.behind).kind ≠ kind := by
          rintro rfl
          exact Bool.false_ne_true (hkind.eq_false.symm.trans (congrArg partsClauses F.kind_comma))
        have hthere : (F.there.current F.behind').kind ≠ kind := next_ne
        rw [List.nil_append, List.nil_append, decide_eq_false hhere, decide_eq_false hthere]
      | cons t ts => rfl
    rw [hat] at h ⊢
    obtain ⟨rfl, heq⟩ := Prod.mk.inj (Except.ok.inj h)
    rw [hcurrent, List.append_cancel_right heq]

/-- A token that has to be there is not behind the row, unless it is taken. -/
instance local_expect : F.Local (Parser.expect kind) where
  read := by
    intro ts us b _ h
    cases ts with
    | nil =>
      by_cases hk : F.comma.kind = kind
      · rw [List.nil_append, behind, Parser.run_expect_of_eq hk] at h
        exact absurd (Prod.mk.inj (Except.ok.inj h)).2 not_append_rest
      · rw [Parser.expect,
          Parser.run_choice_of_ne (show (F.here.current ([] ++ F.behind)).kind ≠ kind from hk)] at h
        cases h
    | cons t ts =>
      by_cases hk : t.kind = kind
      · rw [List.cons_append, Parser.run_expect_of_eq hk] at h ⊢
        rw [List.append_cancel_right (Prod.mk.inj (Except.ok.inj h)).2]
      · rw [Parser.expect, Parser.run_choice_of_ne
          (show (F.here.current (t :: ts ++ F.behind)).kind ≠ kind from hk)] at h
        cases h

theorem run_expectKeyword_iff {ctx : Context} {k : Keyword} :
    (Parser.expectKeyword k).run ctx ts = .ok ((), us) ↔
      (Parser.expect (.keyword k)).run ctx ts = .ok ((), us) := by
  unfold Parser.expectKeyword Parser.expect Parser.acceptKeyword
  rw [Parser.run_bind, Parser.run_bind]
  cases (Parser.accept (.keyword k)).run ctx ts with
  | error e => rfl
  | ok o =>
    obtain ⟨present, mid⟩ := o
    cases present with
    | true => rfl
    | false => constructor <;> intro h <;> cases h

instance local_expectKeyword (k : Keyword) : F.Local (Parser.expectKeyword k) where
  read := fun _ _ _ hts h => run_expectKeyword_iff.2 (local_expect.read hts (run_expectKeyword_iff.1 h))

theorem Local.listed (hp : F.Local p) {as : List α} (hts : ts ⊆ F.row)
    (h : Listed p F.here (ts ++ F.behind) as (us ++ F.behind)) :
    Listed p F.there (ts ++ F.behind') as (us ++ F.behind') := by
  generalize hfront : ts ++ F.behind = front at h
  generalize hback : us ++ F.behind = back at h
  induction h generalizing ts with
  | nil =>
    obtain rfl : ts = us := List.append_cancel_right (hfront.trans hback.symm)
    exact .nil _
  | @cons front more back comma a as first separator others ih =>
    subst hfront hback
    have hmore : us ++ F.behind <:+ comma :: more := others.suffix.trans (List.suffix_cons ..)
    obtain ⟨vs, hvs, hsuffix⟩ := exists_row hmore (Parser.suffix_of_run first)
    cases vs with
    | nil =>
      -- the comma behind the row is not taken
      obtain ⟨rfl, rfl⟩ := List.cons.inj hvs
      have hlength := others.suffix.length_le
      simp only [behind, List.length_append, List.length_cons] at hlength
      omega
    | cons t vs =>
      obtain ⟨rfl, rfl⟩ := List.cons.inj hvs
      have hrow : comma :: vs ⊆ F.row := List.Subset.trans hsuffix.subset hts
      have hfirst : p.run F.there (ts ++ F.behind') = .ok (a, comma :: vs ++ F.behind') :=
        hp.read hts first
      exact .cons hfirst separator (ih (List.Subset.trans (List.subset_cons_self ..) hrow) rfl rfl)

instance local_commaList [hp : F.Local p] : F.Local (Parser.commaList p) where
  read := by
    intro ts us as hts h
    obtain ⟨bs, a, mid, hlisted, hlast, hend, rfl⟩ := run_commaList_iff.1 h
    obtain ⟨vs, rfl, hvs⟩ := exists_row (Parser.suffix_of_run hlast) hlisted.suffix
    have hrow : vs ⊆ F.row := List.Subset.trans hvs.subset hts
    refine run_commaList_iff.2 ⟨bs, a, _, hp.listed hts hlisted, hp.read hrow hlast, ?_, rfl⟩
    cases us with
    | nil => exact absurd F.kind_comma (hend F.comma rfl)
    | cons t us => exact hend

theorem local_claused {clause : σ → Token → Parser (Option σ)} {s s' : σ}
    (hclause : ∀ s t, F.Local (clause s t)) (hts : ts ⊆ F.row)
    (h : Claused clause F.here s (ts ++ F.behind) s' (us ++ F.behind)) :
    Claused clause F.there s (ts ++ F.behind') s' (us ++ F.behind') := by
  generalize hfront : ts ++ F.behind = front at h
  generalize hback : us ++ F.behind = back at h
  induction h generalizing ts with
  | nil =>
    obtain rfl : ts = us := List.append_cancel_right (hfront.trans hback.symm)
    exact .nil _ _
  | @cons s s₁ s' t front mid rest first others ih =>
    subst hback
    cases ts with
    | nil =>
      -- the comma behind the row is not taken
      obtain ⟨rfl, rfl⟩ := List.cons.inj hfront
      have hlength := (others.suffix.trans (Parser.suffix_of_run first)).length_le
      simp only [behind, List.length_append, List.length_cons] at hlength
      omega
    | cons u ts =>
      obtain ⟨rfl, rfl⟩ := List.cons.inj hfront
      obtain ⟨vs, rfl, hvs⟩ := exists_row others.suffix (Parser.suffix_of_run first)
      have hrow : ts ⊆ F.row := List.Subset.trans (List.subset_cons_self ..) hts
      exact .cons ((hclause s u).read hrow first) (ih (List.Subset.trans hvs.subset hrow) rfl rfl)

/-- Clauses that take nothing when they are none, and are none behind the row. -/
theorem local_clauses {clause : σ → Token → Parser (Option σ)} (hclause : ∀ s t, F.Local (clause s t))
    (hnone : ∀ s t ctx ts mid, (clause s t).run ctx ts = .ok (none, mid) → mid = ts)
    (hnext : ∀ s, ∃ mid, (clause s F.next).run F.there F.rest' = .ok (none, mid)) (s : σ) :
    F.Local (Parser.clauses clause s) where
  read := by
    intro ts us s' hts h
    obtain ⟨hclaused, hend⟩ := run_clauses_iff.1 h
    refine run_clauses_iff.2 ⟨local_claused hclause hts hclaused, ?_⟩
    have hsuffix : us <:+ ts := by
      obtain ⟨vs, hvs, hsuffix⟩ := exists_row List.suffix_rfl (Parser.suffix_of_run h)
      rwa [List.append_cancel_right hvs]
    rintro t rest heq
    cases us with
    | nil =>
      obtain ⟨rfl, rfl⟩ := List.cons.inj heq
      exact hnext s'
    | cons u us =>
      obtain ⟨rfl, rfl⟩ := List.cons.inj heq
      obtain ⟨mid, hmid⟩ := hend u (us ++ F.behind) rfl
      obtain rfl := hnone _ _ _ _ _ hmid
      have hrow : us ⊆ F.row :=
        List.Subset.trans (List.subset_cons_self ..) (List.Subset.trans hsuffix.subset hts)
      exact ⟨_, (hclause s' u).read hrow hmid⟩

end Fork

end DdlCatalog.Grammar
