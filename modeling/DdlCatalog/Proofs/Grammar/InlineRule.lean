import DdlCatalog.Proofs.Grammar.ByKinds
import DdlCatalog.Proofs.Grammar.Defaults

/-! # Keys at the table and in a column
A key or a reference of one column may be written at the table or behind its column. Two parsers read
it, and they come to the same constraint. -/

namespace DdlCatalog.Grammar

open Text (Location)
open Token (Kind)

/-- Nothing or `NULLS [NOT] DISTINCT`. -/
inductive NullsPhrase : List Kind → Prop where
  | nothing : NullsPhrase []
  | distinct : NullsPhrase [.keyword .NULLS, .keyword .DISTINCT]
  | notDistinct : NullsPhrase [.keyword .NULLS, .keyword .NOT, .keyword .DISTINCT]

/-- A key or a reference of one column at the table, and the same in the column. -/
inductive InlineKey (column : String) : List Kind → List Kind → Prop where
  | primaryKey {c : Kind} (name_eq : c.name? = some column) :
    InlineKey column [.keyword .PRIMARY, .keyword .KEY, .leftParen, c, .rightParen]
      [.keyword .PRIMARY, .keyword .KEY]
  | unique {c : Kind} {nulls : List Kind} (name_eq : c.name? = some column) (phrase : NullsPhrase nulls) :
    InlineKey column (.keyword .UNIQUE :: (nulls ++ [.leftParen, c, .rightParen]))
      (.keyword .UNIQUE :: nulls)
  | foreignKey {c : Kind} {reference : List Kind} (name_eq : c.name? = some column) :
    InlineKey column
      (.keyword .FOREIGN :: .keyword .KEY :: .leftParen :: c :: .rightParen :: .keyword .REFERENCES ::
        reference)
      (.keyword .REFERENCES :: reference)

/-- A key or a reference with or without a name of its own. -/
inductive InlineRule (column : String) : List Kind → List Kind → Prop where
  | unnamed {ks ks' : List Kind} (key : InlineKey column ks ks') : InlineRule column ks ks'
  | named {n : Kind} {name : String} {ks ks' : List Kind} (name_eq : n.name? = some name)
    (key : InlineKey column ks ks') :
    InlineRule column (.keyword .CONSTRAINT :: n :: ks) (.keyword .CONSTRAINT :: n :: ks')

def ColumnDraft.withKey (d : ColumnDraft) (kind : ConstraintDef) (l : Location) : ColumnDraft :=
  if kind = .primaryKey then (d.modify Column.notNull).constrain kind l else d.constrain kind l

open DdlCatalog.Grammar.Parser

variable {ctx ctx' : Context} {ts xs ys rest : List Token} {r r' t : Token} {d : ColumnDraft}
  {column : String}

theorem current_ne {k k' : Kind} (ht : t.kind = k) (hne : k ≠ k') : (ctx.current (t :: ts)).kind ≠ k' :=
  fun h => hne (ht.symm.trans h)

theorem exists_run_nameList {k : Kind} {ks : List Kind} (hname : k.name? = some column)
    (hts : ts.map (·.kind) = .leftParen :: k :: .rightParen :: ks) :
    ∃ l c e more, ts = l :: c :: e :: more ∧ l.kind = .leftParen ∧ more.map (·.kind) = ks ∧
      ∀ (ctx : Context) (rest : List Token),
        nameList.run ctx (l :: c :: e :: rest) = .ok ([column], rest) := by
  obtain ⟨l, _, rfl, hl, hts⟩ := List.map_eq_cons_iff.1 hts
  obtain ⟨c, _, rfl, hc, hts⟩ := List.map_eq_cons_iff.1 hts
  obtain ⟨e, more, rfl, he, hts⟩ := List.map_eq_cons_iff.1 hts
  refine ⟨l, c, e, more, rfl, hl, hts, fun ctx rest => ?_⟩
  have hc' : c.name? = some column := by rw [Token.name?, hc, hname]
  have hlist : (commaList name).run ctx (c :: e :: rest) = .ok ([column], e :: rest) := by
    rw [run_commaList, run_name_of_some hc']
    exact if_neg (by simp [he])
  rw [nameList, run_bind_of_ok (run_expect_of_eq hl), run_bind_of_ok hlist,
    run_bind_of_ok (run_expect_of_eq he)]
  rfl

theorem exists_run_nulls {ks : List Kind} (h : NullsPhrase ks) :
    ∃ b, ∀ (ctx : Context) (ts rest : List Token), ts.map (·.kind) = ks →
      (ctx.current rest).kind ≠ .keyword .NULLS → nullsNotDistinct.run ctx (ts ++ rest) = .ok (b, rest) := by
  cases h with
  | nothing =>
    refine ⟨false, fun ctx ts rest hts hrest => ?_⟩
    obtain rfl := List.map_eq_nil_iff.1 hts
    exact run_choice_of_ne hrest
  | distinct =>
    refine ⟨false, fun ctx ts rest hts _ => ?_⟩
    obtain ⟨n, _, rfl, hn, hts⟩ := List.map_eq_cons_iff.1 hts
    obtain ⟨w, _, rfl, hw, hts⟩ := List.map_eq_cons_iff.1 hts
    obtain rfl := List.map_eq_nil_iff.1 hts
    refine (run_choice_of_eq hn).trans ?_
    have hnot : (ctx.current (w :: rest)).kind ≠ .keyword .NOT := current_ne hw nofun
    exact (run_bind_of_ok (run_keyword_of_ne hnot)).trans (run_bind_of_ok (run_expectKeyword_of_eq hw))
  | notDistinct =>
    refine ⟨true, fun ctx ts rest hts _ => ?_⟩
    obtain ⟨n, _, rfl, hn, hts⟩ := List.map_eq_cons_iff.1 hts
    obtain ⟨w, _, rfl, hw, hts⟩ := List.map_eq_cons_iff.1 hts
    obtain ⟨w', _, rfl, hw', hts⟩ := List.map_eq_cons_iff.1 hts
    obtain rfl := List.map_eq_nil_iff.1 hts
    refine (run_choice_of_eq hn).trans ?_
    exact (run_bind_of_ok (run_accept_of_eq hw)).trans (run_bind_of_ok (run_expectKeyword_of_eq hw'))

theorem eq_singleton_of_suffix {us : List Token} (hsuffix : us <:+ ts ++ [r']) (hlength : us.length = 1) :
    us = [r'] := by
  have hlast : [r'] <:+ ts ++ [r'] := List.suffix_append ..
  obtain h | h := List.suffix_or_suffix_of_suffix hsuffix hlast
  · exact h.eq_of_length hlength
  · exact (h.eq_of_length hlength.symm).symm

theorem run_primaryKey {k : Kind} (hname : k.name? = some column)
    (hts : ts.map (·.kind) = [.keyword .PRIMARY, .keyword .KEY, .leftParen, k, .rightParen]) :
    tableConstraintKind.run ctx (ts ++ rest) = .ok (([column], .primaryKey), rest) := by
  obtain ⟨p, _, rfl, hp, hts⟩ := List.map_eq_cons_iff.1 hts
  obtain ⟨w, _, rfl, hw, hts⟩ := List.map_eq_cons_iff.1 hts
  obtain ⟨l, c, e, _, rfl, -, hts, hnames⟩ := exists_run_nameList hname hts
  obtain rfl := List.map_eq_nil_iff.1 hts
  refine (run_choice_of_eq hp).trans ?_
  exact (run_bind_of_ok (run_expectKeyword_of_eq hw)).trans (run_bind_of_ok (hnames ctx rest))

theorem run_unique {k : Kind} {nulls : List Kind} {b : Bool} (hname : k.name? = some column)
    (hnulls : ∀ ns rest : List Token, ns.map (·.kind) = nulls →
      (ctx.current rest).kind ≠ .keyword .NULLS → nullsNotDistinct.run ctx (ns ++ rest) = .ok (b, rest))
    (hts : ts.map (·.kind) = .keyword .UNIQUE :: (nulls ++ [.leftParen, k, .rightParen])) :
    tableConstraintKind.run ctx (ts ++ rest) = .ok (([column], .unique b), rest) := by
  obtain ⟨u, _, rfl, hu, hts⟩ := List.map_eq_cons_iff.1 hts
  obtain ⟨ns, _, rfl, hns, hts⟩ := List.map_eq_append_iff.1 hts
  obtain ⟨l, c, e, _, rfl, hl, hts, hnames⟩ := exists_run_nameList hname hts
  obtain rfl := List.map_eq_nil_iff.1 hts
  have hrow : u :: (ns ++ [l, c, e]) ++ rest = u :: (ns ++ l :: c :: e :: rest) := by simp
  rw [hrow]
  refine (run_choice_of_ne (current_ne hu (by nofun))).trans ((run_choice_of_eq hu).trans ?_)
  exact (run_bind_of_ok (hnulls ns _ hns (current_ne hl nofun))).trans
    (run_bind_of_ok (hnames ctx rest))

theorem exists_run_foreignKey {k : Kind} {ks : List Kind} (hname : k.name? = some column)
    (hts : ts.map (·.kind) =
      .keyword .FOREIGN :: .keyword .KEY :: .leftParen :: k :: .rightParen :: .keyword .REFERENCES :: ks) :
    ∃ rs : List Token, rs.map (·.kind) = ks ∧ ∀ (ctx : Context) (rest : List Token),
      tableConstraintKind.run ctx (ts ++ rest) =
        (do return ([column], .foreignKey (← reference)) : Parser _).run ctx (rs ++ rest) := by
  obtain ⟨f, _, rfl, hf, hts⟩ := List.map_eq_cons_iff.1 hts
  obtain ⟨w, _, rfl, hw, hts⟩ := List.map_eq_cons_iff.1 hts
  obtain ⟨l, c, e, _, rfl, -, hts, hnames⟩ := exists_run_nameList hname hts
  obtain ⟨w', rs, rfl, hw', hrs⟩ := List.map_eq_cons_iff.1 hts
  refine ⟨rs, hrs, fun ctx rest => ?_⟩
  refine (run_choice_of_ne (current_ne hf (by nofun))).trans ?_
  refine (run_choice_of_ne (current_ne hf (by nofun))).trans ?_
  refine (run_choice_of_ne (current_ne hf (by nofun))).trans ?_
  refine (run_choice_of_eq hf).trans ?_
  exact (run_bind_of_ok (run_expectKeyword_of_eq hw)).trans
    ((run_bind_of_ok (hnames ctx _)).trans (run_bind_of_ok (run_expectKeyword_of_eq hw')))

/-- What is referred to means the same in rows of the same kinds. -/
theorem run_reference_of_kinds {found : Reference} (hstop : ctx.stop.kind = ctx'.stop.kind)
    (hkinds : (xs ++ [r]).map (·.kind) = (ys ++ [r']).map (·.kind))
    (hx : reference.run ctx (xs ++ [r]) = .ok (found, [r])) :
    reference.run ctx' (ys ++ [r']) = .ok (found, [r']) := by
  obtain ⟨us, hy, hus⟩ := byKinds_reference.read ⟨hstop, hkinds⟩ hx
  have hlength : us.length = 1 := by simpa using (congrArg List.length hus.kinds).symm
  obtain rfl := eq_singleton_of_suffix (suffix_of_run hy) hlength
  exact hy

/-- A key at the table, and the clause of a column that adds it to the column. -/
theorem InlineKey.read {o : List String × ConstraintDef}
    (h : InlineKey column (xs.map (·.kind)) (ys.map (·.kind))) (hstop : ctx.stop.kind = ctx'.stop.kind)
    (hr : r.kind = .rightParen) (hr' : r'.kind = .rightParen)
    (hx : tableConstraintKind.run ctx (xs ++ [r]) = .ok (o, [r])) :
    o.1 = [column] ∧ (∀ e, o.2 ≠ .check e) ∧
      ∃ l, Claused columnClause ctx' d (ys ++ [r']) (d.withKey o.2 l) [r'] := by
  generalize hxs : xs.map (·.kind) = ks at h
  generalize hys : ys.map (·.kind) = ks' at h
  cases h with
  | primaryKey name_eq =>
    obtain ⟨p, _, rfl, hp, hys⟩ := List.map_eq_cons_iff.1 hys
    obtain ⟨k, _, rfl, hk, hys⟩ := List.map_eq_cons_iff.1 hys
    obtain rfl := List.map_eq_nil_iff.1 hys
    obtain ⟨rfl, -⟩ := Prod.mk.inj (Except.ok.inj ((run_primaryKey name_eq hxs).symm.trans hx))
    refine ⟨rfl, nofun, ctx'.locate p, .cons ?_ (.nil _ _)⟩
    unfold run columnClause
    rw [hp]
    exact run_bind_of_ok (run_expectKeyword_of_eq hk)
  | unique name_eq phrase =>
    obtain ⟨u, ns, rfl, hu, hns⟩ := List.map_eq_cons_iff.1 hys
    obtain ⟨b, hnulls⟩ := exists_run_nulls phrase
    have hkey : tableConstraintKind.run ctx (xs ++ [r]) = .ok (([column], .unique b), [r]) :=
      run_unique name_eq (hnulls ctx) hxs
    obtain ⟨rfl, -⟩ := Prod.mk.inj (Except.ok.inj (hkey.symm.trans hx))
    refine ⟨rfl, nofun, ctx'.locate u, .cons ?_ (.nil _ _)⟩
    unfold run columnClause
    rw [hu]
    exact run_bind_of_ok (hnulls ctx' ns _ hns (current_ne hr' nofun))
  | foreignKey name_eq =>
    obtain ⟨w, rs', rfl, hw, hrs'⟩ := List.map_eq_cons_iff.1 hys
    obtain ⟨rs, hrs, hkey⟩ := exists_run_foreignKey name_eq hxs
    obtain ⟨found, mid, hfound, ho⟩ := run_bind_ok ((hkey ctx [r]).symm.trans hx)
    obtain ⟨rfl, rfl⟩ : _ = o ∧ mid = [r] := Prod.mk.inj (Except.ok.inj ho)
    have hkinds : (rs ++ [r]).map (·.kind) = (rs' ++ [r']).map (·.kind) := by simp [hrs, hrs', hr, hr']
    have hfound' := run_reference_of_kinds hstop hkinds hfound
    refine ⟨rfl, nofun, ctx'.locate w, .cons ?_ (.nil _ _)⟩
    unfold run columnClause
    rw [hw]
    exact run_bind_of_ok hfound'

theorem InlineKey.current_ne_constraint {ks : List Kind} (h : InlineKey column (xs.map (·.kind)) ks) :
    (ctx.current (xs ++ rest)).kind ≠ .keyword .CONSTRAINT := by
  generalize hxs : xs.map (·.kind) = ks' at h
  cases h with
  | primaryKey =>
    obtain ⟨t, _, rfl, ht, -⟩ := List.map_eq_cons_iff.1 hxs
    exact current_ne ht nofun
  | unique =>
    obtain ⟨t, _, rfl, ht, -⟩ := List.map_eq_cons_iff.1 hxs
    exact current_ne ht nofun
  | foreignKey =>
    obtain ⟨t, _, rfl, ht, -⟩ := List.map_eq_cons_iff.1 hxs
    exact current_ne ht nofun

/-- A constraint at the table, and the clauses of a column that add it to the column. -/
theorem InlineRule.read {k : TableConstraint} (h : InlineRule column (xs.map (·.kind)) (ys.map (·.kind)))
    (hstop : ctx.stop.kind = ctx'.stop.kind) (hr : r.kind = .rightParen) (hr' : r'.kind = .rightParen)
    (hpending : d.pendingName = none) (hx : tableConstraint.run ctx (xs ++ [r]) = .ok (k, [r])) :
    k.columns = [column] ∧ k.inColumn = false ∧ (∀ e, k.kind ≠ .check e) ∧
      ∃ l, Claused columnClause ctx' d (ys ++ [r'])
        ({ d with pendingName := k.name }.withKey k.kind l) [r'] := by
  obtain ⟨l, mid, hl, hx⟩ := run_bind_ok hx
  obtain ⟨-, rfl⟩ : _ = l ∧ xs ++ [r] = mid := Prod.mk.inj (Except.ok.inj hl)
  obtain ⟨name, mid, hname, hx⟩ := run_bind_ok hx
  obtain ⟨o, mid', ho, hx⟩ := run_bind_ok hx
  obtain ⟨rfl, rfl⟩ : _ = k ∧ mid' = [r] := Prod.mk.inj (Except.ok.inj hx)
  generalize hxs : xs.map (·.kind) = ks at h
  generalize hys : ys.map (·.kind) = ks' at h
  cases h with
  | unnamed key =>
    subst hxs hys
    obtain ⟨rfl, rfl⟩ : none = name ∧ xs ++ [r] = mid :=
      Prod.mk.inj (Except.ok.inj ((run_choice_of_ne key.current_ne_constraint).symm.trans hname))
    obtain ⟨hcolumns, hcheck, hclaused⟩ := key.read (d := d) hstop hr hr' ho
    have hd : { d with pendingName := none } = d := by rw [← hpending]
    exact ⟨hcolumns, rfl, hcheck, hd ▸ hclaused⟩
  | @named n m _ _ name_eq key =>
    obtain ⟨w, _, rfl, hw, hxs⟩ := List.map_eq_cons_iff.1 hxs
    obtain ⟨t, xs, rfl, ht, rfl⟩ := List.map_eq_cons_iff.1 hxs
    obtain ⟨w', _, rfl, hw', hys⟩ := List.map_eq_cons_iff.1 hys
    obtain ⟨t', ys, rfl, ht', rfl⟩ := List.map_eq_cons_iff.1 hys
    have hm : t.name? = some m := by rw [Token.name?, ht, name_eq]
    have hm' : t'.name? = some m := by rw [Token.name?, ht', name_eq]
    have hconstraint : constraintName.run ctx (w :: t :: xs ++ [r]) = .ok (some m, xs ++ [r]) :=
      (run_choice_of_eq hw).trans (run_bind_of_ok (run_name_of_some hm))
    obtain ⟨rfl, rfl⟩ : some m = name ∧ xs ++ [r] = mid :=
      Prod.mk.inj (Except.ok.inj (hconstraint.symm.trans hname))
    obtain ⟨hcolumns, hcheck, l', hclaused⟩ := key.read (d := { d with pendingName := some m }) hstop hr hr' ho
    refine ⟨hcolumns, rfl, hcheck, l', .cons ?_ hclaused⟩
    unfold run columnClause
    rw [hw']
    exact run_bind_of_ok (run_name_of_some hm')

end DdlCatalog.Grammar
