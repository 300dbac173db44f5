import DdlCatalog.Proofs.Grammar.Single

/-! # Select lists
The columns of a view without a list of them are read off its select list. The list is cut at commas
outside of parentheses; square brackets are not looked at. -/

namespace DdlCatalog

namespace Grammar

open Token (Kind)

variable {ks : List Kind} {us rest item : List Token} {t : Token} {depth : Nat}

/-- What ends an item if no bracket is open. -/
def endsItem (k : Kind) : Bool :=
  k = .comma || k = .semicolon || k = .eof || k.word? = some "from"

/-- Nested brackets, where what may end an item stands only inside of them. -/
inductive SelectItem (b : Brackets) : List Kind → Prop where
  | nil : SelectItem b []
  | plain {k : Kind} {ks : List Kind} (opens : b.opens k = false) (closes : b.closes k = false)
    (inside : endsItem k = false) (more : SelectItem b ks) : SelectItem b (k :: ks)
  | pair {o c : Kind} {inner ks : List Kind} (opens : b.opens o = true) (closes : b.closes c = true)
    (pairs : b.pairs o c = true) (inside : Nested b inner) (more : SelectItem b ks) :
    SelectItem b (o :: (inner ++ c :: ks))

/-- The items of a select list, which does not begin with `DISTINCT`. -/
structure SelectList (b : Brackets) (items : List (List Token)) : Prop where
  ne_nil : items ≠ []
  item : ∀ item ∈ items, SelectItem b (item.map (·.kind))
  not_distinct : ∀ item ∈ items.head?, ∀ t ∈ item.head?, t.kind ≠ .keyword .DISTINCT

/-- The kinds of the tokens of `CREATE VIEW v AS SELECT item, …, item FROM t`. -/
def selectViewKinds (v t : Kind) (items : List (List Kind)) : List Kind :=
  .keyword .CREATE :: .keyword .VIEW :: v :: .keyword .AS :: .ofWord "select" ::
    ([.comma].intercalate items ++ [.ofWord "from", t])

/-- Whether nothing that may end an item stands outside of parentheses, where so many are open in
front. -/
def Sheltered (depth : Nat) : List Token → Prop
  | [] => True
  | t :: ts => (depth = 0 → endsItem t.kind = false) ∧ Sheltered (depthAfter depth t) ts

theorem Sheltered.append {vs : List Token} (hus : Sheltered depth us)
    (hvs : Sheltered (us.foldl depthAfter depth) vs) : Sheltered depth (us ++ vs) := by
  induction us generalizing depth with
  | nil => exact hvs
  | cons u us ih => exact ⟨hus.1, ih hus.2 hvs⟩

theorem depthAfter_opens (h : Brackets.round.opens t.kind = true) :
    depthAfter depth t = depth + 1 := by
  rw [depthAfter, of_decide_eq_true h]

theorem depthAfter_closes (h : Brackets.round.closes t.kind = true) :
    depthAfter (depth + 1) t = depth := by
  rw [depthAfter, of_decide_eq_true h]
  rfl

theorem depthAfter_plain (hopens : Brackets.round.opens t.kind = false)
    (hcloses : Brackets.round.closes t.kind = false) : depthAfter depth t = depth := by
  unfold depthAfter
  split
  · next h => exact absurd h (of_decide_eq_false hopens)
  · next h => exact absurd h (of_decide_eq_false hcloses)
  · rfl

/-- Nested parentheses shelter all that is inside of others. -/
theorem sheltered_of_nested (h : Nested .round ks) (hus : us.map (·.kind) = ks) (depth : Nat) :
    Sheltered (depth + 1) us ∧ us.foldl depthAfter (depth + 1) = depth + 1 := by
  induction h generalizing us depth with
  | nil =>
    obtain rfl := List.map_eq_nil_iff.1 hus
    exact ⟨trivial, rfl⟩
  | plain opens closes _ ih =>
    obtain ⟨u, vs, rfl, rfl, hvs⟩ := List.map_eq_cons_iff.1 hus
    rw [List.foldl_cons, Sheltered, depthAfter_plain opens closes]
    obtain ⟨hmore, hdepth⟩ := ih hvs depth
    exact ⟨⟨nofun, hmore⟩, hdepth⟩
  | pair opens closes _ _ _ ihinside ihmore =>
    obtain ⟨o, _, rfl, rfl, hinside⟩ := List.map_eq_cons_iff.1 hus
    obtain ⟨inner, _, rfl, hinner, hclose⟩ := List.map_eq_append_iff.1 hinside
    obtain ⟨c, vs, rfl, rfl, hvs⟩ := List.map_eq_cons_iff.1 hclose
    obtain ⟨hinside, hinnerDepth⟩ := ihinside hinner (depth + 1)
    obtain ⟨hmore, hdepth⟩ := ihmore hvs depth
    rw [List.foldl_cons, List.foldl_append, Sheltered, depthAfter_opens opens, hinnerDepth,
      List.foldl_cons, depthAfter_closes closes]
    refine ⟨⟨nofun, hinside.append ?_⟩, hdepth⟩
    rw [hinnerDepth]
    exact ⟨nofun, by rwa [depthAfter_closes closes]⟩

/-- An item shelters what may end it, and leaves no parenthesis open. -/
theorem SelectItem.sheltered (h : SelectItem .round ks) (hus : us.map (·.kind) = ks) :
    Sheltered 0 us ∧ us.foldl depthAfter 0 = 0 := by
  induction h generalizing us with
  | nil =>
    obtain rfl := List.map_eq_nil_iff.1 hus
    exact ⟨trivial, rfl⟩
  | plain opens closes inside _ ih =>
    obtain ⟨u, vs, rfl, rfl, hvs⟩ := List.map_eq_cons_iff.1 hus
    rw [List.foldl_cons, Sheltered, depthAfter_plain opens closes]
    obtain ⟨hmore, hdepth⟩ := ih hvs
    exact ⟨⟨fun _ => inside, hmore⟩, hdepth⟩
  | pair opens closes _ inside _ ih =>
    obtain ⟨o, _, rfl, rfl, hinside⟩ := List.map_eq_cons_iff.1 hus
    obtain ⟨inner, _, rfl, hinner, hclose⟩ := List.map_eq_append_iff.1 hinside
    obtain ⟨c, vs, rfl, rfl, hvs⟩ := List.map_eq_cons_iff.1 hclose
    obtain ⟨hinside, hinnerDepth⟩ := sheltered_of_nested inside hinner 0
    obtain ⟨hmore, hdepth⟩ := ih hvs
    have ho : endsItem o.kind = false := by
      rw [of_decide_eq_true opens]
      rfl
    rw [List.foldl_cons, List.foldl_append, Sheltered, depthAfter_opens opens, hinnerDepth,
      List.foldl_cons, depthAfter_closes closes]
    refine ⟨⟨fun _ => ho, hinside.append ?_⟩, hdepth⟩
    rw [hinnerDepth]
    exact ⟨nofun, by rwa [depthAfter_closes closes]⟩

/-- What is sheltered belongs to the item begun. -/
theorem Sheltered.selectItems_append (h : Sheltered depth us) (item rest : List Token) :
    selectItems depth item (us ++ rest) =
      selectItems (us.foldl depthAfter depth) (item ++ us) rest := by
  induction us generalizing depth item with
  | nil => rw [List.append_nil]; rfl
  | cons u us ih =>
    have hcomma : ¬(depth = 0 ∧ u.kind = .comma) := by
      rintro ⟨hdepth, hu⟩
      have hends := h.1 hdepth
      rw [hu] at hends
      cases hends
    have hend : ¬(depth = 0 ∧ endsSelectList u = true) := by
      rintro ⟨hdepth, hu⟩
      have hends := h.1 hdepth
      simp only [endsItem, Bool.or_eq_false_iff, decide_eq_false_iff_not] at hends
      simp only [endsSelectList, Token.word?, Bool.or_eq_true, decide_eq_true_eq] at hu
      rcases hu with hu | hu
      · exact hends.1.2 hu
      · exact hends.2 (of_decide_eq_true hu)
    rw [List.cons_append, selectItems, if_neg hcomma, if_neg hend]
    have hmore := ih h.2 (item ++ [u])
    rw [List.append_assoc] at hmore
    exact hmore

/-- The items of a select list are those between its commas. -/
theorem selectItems_row {items : List (List Kind)} (hne : items ≠ [])
    (hitems : ∀ ks ∈ items, SelectItem .round ks) (hus : us.map (·.kind) = [.comma].intercalate items)
    (ht : t.kind.word? = some "from") :
    (selectItems 0 [] (us ++ t :: rest)).map (·.map (·.kind)) = items := by
  have hend : ¬(0 = 0 ∧ t.kind = .comma) := by
    rintro ⟨-, h⟩
    rw [h] at ht
    cases ht
  have hfrom : 0 = 0 ∧ endsSelectList t = true := ⟨rfl, by simp [endsSelectList, Token.word?, ht]⟩
  induction items generalizing us with
  | nil => exact absurd rfl hne
  | cons ks items ih =>
    obtain ⟨hks, hmore⟩ := List.forall_mem_cons.1 hitems
    cases items with
    | nil =>
      rw [List.intercalate_singleton] at hus
      obtain ⟨hsheltered, hdepth⟩ := hks.sheltered hus
      rw [hsheltered.selectItems_append, hdepth, selectItems, if_neg hend, if_pos hfrom]
      simp [hus]
    | cons ks' items =>
      rw [List.intercalate_cons_cons, List.append_assoc] at hus
      obtain ⟨vs, _, rfl, hvs, hrest⟩ := List.map_eq_append_iff.1 hus
      obtain ⟨c, ws, rfl, hc, hws⟩ := List.map_eq_cons_iff.1 hrest
      obtain ⟨hsheltered, hdepth⟩ := hks.sheltered hvs
      rw [List.append_assoc, hsheltered.selectItems_append, hdepth, List.cons_append, selectItems,
        if_pos ⟨rfl, hc⟩, List.map_cons, ih (by simp) hmore hws, List.nil_append, hvs]

theorem selectItemName?_congr {us vs : List Token} (h : us.map (·.kind) = vs.map (·.kind)) :
    selectItemName? us = selectItemName? vs := by
  rw [← selectItemName?_bare us, Token.map_bare_eq h, selectItemName?_bare]

theorem filterMap_selectItemName?_congr {as bs : List (List Token)}
    (h : as.map (·.map (·.kind)) = bs.map (·.map (·.kind))) :
    as.filterMap selectItemName? = bs.filterMap selectItemName? := by
  induction as generalizing bs with
  | nil =>
    obtain rfl := List.map_eq_nil_iff.1 h.symm
    rfl
  | cons a as ih =>
    obtain ⟨b, bs, rfl, hb, hbs⟩ := List.map_eq_cons_iff.1 h.symm
    rw [List.filterMap_cons, List.filterMap_cons, selectItemName?_congr hb.symm, ih hbs.symm]

/-- The columns of a select list are the names of its items. -/
theorem selectColumns_row {items : List (List Token)} {s : Token} (h : SelectList .round items)
    (hus : us.map (·.kind) = [.comma].intercalate (items.map (·.map (·.kind))))
    (hs : s.kind.word? = some "select") (ht : t.kind.word? = some "from") :
    selectColumns (s :: (us ++ t :: rest)) = items.filterMap selectItemName? := by
  have hnames : (selectItems 0 [] (us ++ t :: rest)).filterMap selectItemName? =
      items.filterMap selectItemName? := by
    refine filterMap_selectItemName?_congr (selectItems_row (by simpa using h.ne_nil) ?_ hus ht)
    simpa using h.item
  have hhead : ∀ d ∈ (us ++ t :: rest).head?, d.kind ≠ .keyword .DISTINCT := by
    cases us with
    | nil =>
      rintro d ⟨⟩ hd
      rw [hd] at ht
      exact absurd ht (by decide)
    | cons u us =>
      rintro d ⟨⟩ hd
      cases items with
      | nil => exact h.ne_nil rfl
      | cons item items =>
        cases item with
        | cons x xs =>
          have hx : u.kind = x.kind := by
            cases items with
            | nil => exact (List.cons.inj hus).1
            | cons item' items => exact (List.cons.inj (hus.trans (List.intercalate_cons_cons ..))).1
          exact h.not_distinct _ rfl x rfl (hx.symm.trans hd)
        | nil =>
          cases items with
          | nil => cases hus
          | cons item' items =>
            exact nomatch hd.symm.trans (List.cons.inj (hus.trans (List.intercalate_cons_cons ..))).1
  have hselect : s.word? = some "select" := hs
  rw [← hnames]
  cases hrow : us ++ t :: rest with
  | nil => simp at hrow
  | cons d ts =>
    rw [hrow] at hhead
    have hd : ¬ d.isKeyword .DISTINCT = true := by simpa [Token.isKeyword] using hhead d rfl
    show (if s.word? = some "select" then
      (selectItems 0 [] (if d.isKeyword .DISTINCT then ts else d :: ts)).filterMap selectItemName?
      else []) = _
    rw [if_pos hselect, if_neg hd]

theorem Sheltered.staysTogether (h : Sheltered depth us) (hus : ∀ u ∈ us, u.kind ≠ .eof) :
    StaysTogether depth us := by
  induction us generalizing depth with
  | nil => trivial
  | cons u us ih =>
    obtain ⟨hu, hus⟩ := List.forall_mem_cons.1 hus
    refine ⟨hu, ?_, ih h.2 hus⟩
    rintro ⟨hsemi, hdepth⟩
    have hends := h.1 hdepth
    rw [hsemi] at hends
    cases hends

theorem staysTogether_row {items : List (List Kind)} (hitems : ∀ ks ∈ items, SelectItem .round ks)
    (hus : us.map (·.kind) = [.comma].intercalate items) (heof : ∀ u ∈ us, u.kind ≠ .eof) :
    StaysTogether 0 us ∧ us.foldl depthAfter 0 = 0 := by
  induction items generalizing us with
  | nil =>
    obtain rfl := List.map_eq_nil_iff.1 hus
    exact ⟨trivial, rfl⟩
  | cons ks items ih =>
    obtain ⟨hks, hmore⟩ := List.forall_mem_cons.1 hitems
    cases items with
    | nil =>
      rw [List.intercalate_singleton] at hus
      obtain ⟨hsheltered, hdepth⟩ := hks.sheltered hus
      exact ⟨hsheltered.staysTogether heof, hdepth⟩
    | cons ks' items =>
      rw [List.intercalate_cons_cons, List.append_assoc] at hus
      obtain ⟨vs, _, rfl, hvs, hrest⟩ := List.map_eq_append_iff.1 hus
      obtain ⟨c, ws, rfl, hc, hws⟩ := List.map_eq_cons_iff.1 hrest
      obtain ⟨hvseof, hceof⟩ := List.forall_mem_append.1 heof
      obtain ⟨hcne, hwseof⟩ := List.forall_mem_cons.1 hceof
      obtain ⟨hsheltered, hdepth⟩ := hks.sheltered hvs
      obtain ⟨htogether, hrestDepth⟩ := ih hmore hws hwseof
      have hcomma : depthAfter 0 c = 0 := by rw [depthAfter, hc]
      rw [List.foldl_append, hdepth, List.foldl_cons, hcomma]
      refine ⟨(hsheltered.staysTogether hvseof).append ?_, hrestDepth⟩
      rw [hdepth]
      rw [StaysTogether, hcomma]
      exact ⟨hcne, fun h => absurd (hc.symm.trans h.1) (by simp), htogether⟩

namespace Parser

variable {ctx : Context} {c w n a s : Token} {name : String}

theorem run_toEnd (h : ∀ t ∈ us, t.kind ≠ .eof) : toEnd.run ctx us = .ok (us, []) := by
  have htake : us.takeWhile (·.kind ≠ .eof) = us := by simpa using h
  show Except.ok (us.take (us.takeWhile (·.kind ≠ .eof)).length,
    us.drop (us.takeWhile (·.kind ≠ .eof)).length) = _
  rw [htake, List.take_length, List.drop_length]

theorem run_viewQuery (h : ∀ t ∈ s :: rest, t.kind ≠ .eof) :
    viewQuery.run ctx (s :: rest) =
      .ok ((ctx.textOf (s :: rest), selectColumns (s :: rest ++ [ctx.stop])), []) := by
  show (do
    let taken ← toEnd
    if taken.isEmpty then error "expected view query"
    else return (ctx.textOf taken, selectColumns (s :: rest ++ [ctx.stop])) :
    Parser (String × List String)).run ctx (s :: rest) = _
  rw [run_bind_of_ok (run_toEnd h)]
  rfl

theorem run_createView_plain (hw : w.kind = .keyword .VIEW) (hn : n.name? = some name)
    (hif : n.kind ≠ .keyword .IF) (ha : a.kind = .keyword .AS) (h : ∀ t ∈ s :: rest, t.kind ≠ .eof) :
    (createView false false).run ctx (w :: n :: a :: s :: rest) =
      .ok (⟨⟨none, name⟩, false, false, false, false, false,
        selectColumns (s :: rest ++ [ctx.stop]), ctx.textOf (s :: rest)⟩, []) := by
  have hview (k : Token.Keyword) (hk : k ≠ .VIEW) :
      (acceptKeyword k).run ctx (w :: n :: a :: s :: rest) =
        .ok (false, w :: n :: a :: s :: rest) :=
    run_keyword_of_ne fun h => hk (Kind.keyword.inj (h.symm.trans hw))
  have hexists : ifNotExists.run ctx (n :: a :: s :: rest) = .ok (false, n :: a :: s :: rest) :=
    run_choice_of_ne hif
  have hname : objectName.run ctx (n :: a :: s :: rest) = .ok (⟨none, name⟩, a :: s :: rest) := by
    rw [objectName, run_bind_of_ok (run_name_of_some hn), run_choice_of_ne]
    · rfl
    · intro h
      exact nomatch ha.symm.trans h
  have hlist : (at? .leftParen).run ctx (a :: s :: rest) = .ok (false, a :: s :: rest) :=
    run_at?_of_ne fun h => nomatch ha.symm.trans h
  have hnil : (Pure.pure [] : Parser (List String)).run ctx (a :: s :: rest) =
      .ok ([], a :: s :: rest) := rfl
  rw [createView, run_bind_of_ok (hview .MATERIALIZED (by decide))]
  refine (run_bind_of_ok (hview .RECURSIVE (by decide))).trans ?_
  rw [run_bind_of_ok (run_expectKeyword_of_eq hw), run_bind_of_ok hexists, run_bind_of_ok hname,
    run_bind_of_ok hlist]
  refine (run_bind_of_ok hnil).trans ((run_bind_of_ok (run_expectKeyword_of_eq ha)).trans ?_)
  rw [run_bind_of_ok (run_viewQuery h)]
  rfl

theorem run_selectView (hstop : ctx.stop.kind = .eof) (hc : c.kind = .keyword .CREATE)
    (hw : w.kind = .keyword .VIEW) (hn : n.name? = some name) (hif : n.kind ≠ .keyword .IF)
    (ha : a.kind = .keyword .AS) (h : ∀ t ∈ s :: rest, t.kind ≠ .eof) :
    statement.run ctx (c :: w :: n :: a :: s :: rest) =
      .ok (.createView ⟨⟨none, name⟩, false, false, false, false, false,
        selectColumns (s :: rest ++ [ctx.stop]), ctx.textOf (s :: rest)⟩, []) := by
  have hcreated : (created ⟨false, false, false, false⟩).run ctx (w :: n :: a :: s :: rest) =
      .ok (.createView ⟨⟨none, name⟩, false, false, false, false, false,
        selectColumns (s :: rest ++ [ctx.stop]), ctx.textOf (s :: rest)⟩, []) := by
    rw [created, run_bind_of_ok run_current]
    have hcurrent : (ctx.current (w :: n :: a :: s :: rest)).kind = .keyword .VIEW := hw
    rw [hcurrent]
    exact run_bind_of_ok (run_createView_plain hw hn hif ha h)
  refine (run_statement_created_iff hstop hc fun k hk hkind => ?_).2 hcreated
  cases Kind.keyword.inj (hkind.symm.trans hw)
  simp at hk

end Parser

end Grammar

end DdlCatalog
