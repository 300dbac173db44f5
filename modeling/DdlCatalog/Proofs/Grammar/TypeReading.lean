import DdlCatalog.Proofs.Grammar.Reparse
import DdlCatalog.Proofs.Grammar.TypePhrase

/-! # Reading types
The longest phrase that is a type is read, and nothing else is. -/

namespace DdlCatalog.Grammar

open Token (Kind)

namespace Parser

variable {ctx : Context} {ts : List Token} {t : Token} {k : Kind} {n p : UInt32}

/-! ## Numbers -/

theorem smallNumber?_eq_some_iff : smallNumber? k = some n ↔ IsSize k n := by
  unfold smallNumber? IsSize Decimal.natural?
  cases k with
  | number digits =>
    simp only [Option.map_eq_some_iff, Option.filter_eq_some_iff, Option.ite_none_right_eq_some,
      List.all_eq_true, Option.some.injEq, Kind.number.injEq, decide_eq_true_eq]
    constructor
    · rintro ⟨_, ⟨⟨⟨hne, hdigits⟩, rfl⟩, hlt⟩, rfl⟩
      exact ⟨digits, rfl, hne, hdigits, (UInt32.toNat_ofNat_of_lt' hlt).symm⟩
    · rintro ⟨_, rfl, hne, hdigits, hvalue⟩
      refine ⟨n.toNat, ⟨⟨⟨hne, hdigits⟩, hvalue⟩, n.toNat_lt⟩, ?_⟩
      simp
  | _ => simp

theorem not_isSize_eof : ¬ IsSize .eof n := by
  rintro ⟨digits, h, -⟩
  cases h

theorem smallNumber_cases (hstop : ctx.stop.kind = .eof) (what : String) (ts : List Token) :
    (∃ t rest n, ts = t :: rest ∧ IsSize t.kind n ∧ (smallNumber what).run ctx ts = .ok (n, rest)) ∨
      (∃ l message, (smallNumber what).run ctx ts = .error (.typeSyntax l message)) ∧
        ∀ t rest n, ts = t :: rest → ¬ IsSize t.kind n := by
  cases hn : smallNumber? (ctx.current ts).kind with
  | none =>
    refine .inr ⟨⟨_, _, by rw [smallNumber, run_bind_of_ok run_current, hn]; rfl⟩, ?_⟩
    rintro t rest n rfl hsize
    cases hn.symm.trans (smallNumber?_eq_some_iff.2 hsize)
  | some n =>
    have hsize := smallNumber?_eq_some_iff.1 hn
    cases ts with
    | nil =>
      rw [Context.current, List.headD_nil, hstop] at hsize
      exact absurd hsize not_isSize_eof
    | cons t rest =>
      exact .inl ⟨t, rest, n, rfl, hsize, by rw [smallNumber, run_bind_of_ok run_current, hn]; rfl⟩

/-- What is looked for stands in front, unless it is the end. -/
theorem exists_cons_of_current (hstop : ctx.stop.kind = .eof) (h : (ctx.current ts).kind = k)
    (hk : k ≠ .eof) : ∃ t rest, ts = t :: rest ∧ t.kind = k := by
  cases ts with
  | nil => exact absurd (h.symm.trans hstop) hk
  | cons t rest => exact ⟨t, rest, rfl, h⟩

theorem closing_cases (hstop : ctx.stop.kind = .eof) (hk : k ≠ .eof) (a : α)
    (message : Token → String) (ts : List Token) :
    (∃ c rest, ts = c :: rest ∧ c.kind = k ∧
      (do if ← accept k then return a else typeError (message (← current)) : Parser α).run ctx ts =
        .ok (a, rest)) ∨
      (∃ l m,
        (do if ← accept k then return a else typeError (message (← current)) : Parser α).run ctx ts =
          .error (.typeSyntax l m)) ∧
        ∀ c rest, ts = c :: rest → c.kind ≠ k := by
  by_cases h : (ctx.current ts).kind = k
  · obtain ⟨c, rest, rfl, hc⟩ := exists_cons_of_current hstop h hk
    exact .inl ⟨c, rest, rfl, hc, run_choice_of_eq hc⟩
  · refine .inr ⟨⟨_, _, run_choice_of_ne h⟩, ?_⟩
    rintro c rest rfl
    exact h

/-! ## Dimensions -/

theorem cons_prefix_kinds_iff {ks : List Kind} {ts : List Token} :
    k :: ks <+: ts.map (·.kind) ↔ ∃ t rest, ts = t :: rest ∧ t.kind = k ∧ ks <+: rest.map (·.kind) := by
  cases ts with
  | nil => simp
  | cons t rest => simp [List.cons_prefix_cons, eq_comm]

/-- A size and a closing bracket are taken, or the bracket alone, or neither is there. -/
theorem arrayBound_cases (hstop : ctx.stop.kind = .eof) (ts : List Token) :
    (∃ front rest dim, ts = front ++ rest ∧ DimensionEnd (front.map (·.kind)) dim ∧
      arrayBound.run ctx ts = .ok (dim, rest)) ∨
      (∃ l message, arrayBound.run ctx ts = .error (.typeSyntax l message)) ∧
        ∀ ks dim, DimensionEnd ks dim → ¬ ks <+: ts.map (·.kind) := by
  by_cases h : (ctx.current ts).kind = .rightBracket
  · obtain ⟨c, rest, rfl, hc⟩ := exists_cons_of_current hstop h (by simp)
    refine .inl ⟨[c], rest, none, rfl, ?_, ?_⟩
    · rw [List.map_singleton, hc]
      exact .unsized
    · have hnone : (Pure.pure none : Parser (Option UInt32)).run ctx (c :: rest) =
          .ok (none, c :: rest) := rfl
      rw [arrayBound, run_bind_of_ok (run_at?_of_eq h)]
      exact (run_bind_of_ok hnone).trans (run_choice_of_eq hc)
  · have hhead (ks : List Kind) : ¬ .rightBracket :: ks <+: ts.map (·.kind) := by
      rw [cons_prefix_kinds_iff]
      rintro ⟨t, rest, rfl, ht, -⟩
      exact h ht
    have hrun : arrayBound.run ctx ts = (do
        let size ← some <$> smallNumber "array dimension"
        if ← accept .rightBracket then return size
        else typeError s!"expected ] in array dimension, found {(← current).describe}" :
        Parser (Option UInt32)).run ctx ts := by
      rw [arrayBound, run_bind_of_ok (run_at?_of_ne h)]
      rfl
    rw [hrun]
    rcases smallNumber_cases hstop "array dimension" ts with
      ⟨t, rest, n, rfl, hsize, hnumber⟩ | ⟨⟨l, message, hnumber⟩, hnone⟩
    · have hsome : (some <$> smallNumber "array dimension").run ctx (t :: rest) = .ok (some n, rest) :=
        run_bind_of_ok hnumber
      rw [run_bind_of_ok hsome]
      rcases closing_cases (k := .rightBracket) hstop (by simp) (some n)
        (fun t => s!"expected ] in array dimension, found {t.describe}") rest with
        ⟨c, rest, rfl, hc, hclose⟩ | ⟨hclose, hmissing⟩
      · refine .inl ⟨[t, c], rest, some n, rfl, ?_, hclose⟩
        rw [List.map_cons, List.map_singleton, hc]
        exact .sized hsize
      · refine .inr ⟨hclose, fun ks dim hks hpre => ?_⟩
        cases hks with
        | unsized => exact hhead _ hpre
        | sized =>
          rw [List.map_cons, List.cons_prefix_cons] at hpre
          obtain ⟨c, rest, rfl, hc, -⟩ := cons_prefix_kinds_iff.1 hpre.2
          exact hmissing c rest rfl hc
    · have herror : (some <$> smallNumber "array dimension").run ctx ts =
          .error (.typeSyntax l message) := run_bind_of_error hnumber
      refine .inr ⟨⟨l, message, run_bind_of_error herror⟩, fun ks dim hks hpre => ?_⟩
      cases hks with
      | unsized => exact hhead _ hpre
      | sized size =>
        obtain ⟨t, rest, rfl, rfl, -⟩ := cons_prefix_kinds_iff.1 hpre
        exact hnone t rest _ rfl size

def modifierScale : Parser (Option UInt32) := do
  if ← accept .comma then some <$> smallNumber "type modifier" else return none

theorem modifierScale_cases (hstop : ctx.stop.kind = .eof) (ts : List Token) :
    ((∀ rest, ts.map (·.kind) ≠ .comma :: rest) ∧ modifierScale.run ctx ts = .ok (none, ts)) ∨
      (∃ c t rest s, ts = c :: t :: rest ∧ c.kind = .comma ∧ IsSize t.kind s ∧
        modifierScale.run ctx ts = .ok (some s, rest)) ∨
      (∃ l message, modifierScale.run ctx ts = .error (.typeSyntax l message)) ∧
        ∃ c rest, ts = c :: rest ∧ c.kind = .comma ∧ ∀ t us n, rest = t :: us → ¬ IsSize t.kind n := by
  by_cases h : (ctx.current ts).kind = .comma
  · obtain ⟨c, rest, rfl, hc⟩ := exists_cons_of_current hstop h (by simp)
    rw [modifierScale, run_choice_of_eq hc]
    rcases smallNumber_cases hstop "type modifier" rest with
      ⟨t, rest, s, rfl, hs, hscale⟩ | ⟨⟨l, message, hscale⟩, hnone⟩
    · exact .inr (.inl ⟨c, t, rest, s, rfl, hc, hs, run_bind_of_ok hscale⟩)
    · exact .inr (.inr ⟨⟨l, message, run_bind_of_error hscale⟩, c, rest, rfl, hc, hnone⟩)
  · refine .inl ⟨fun rest hts => ?_, run_choice_of_ne h⟩
    obtain ⟨c, rest, rfl, hc, -⟩ := List.map_eq_cons_iff.1 hts
    exact h hc

theorem modifierEnd_cases (hstop : ctx.stop.kind = .eof) (hk : IsSize k p) (u : TypeRef)
    (ts : List Token) :
    let close (s : Option UInt32) : Parser TypeRef := do
      if ← accept .rightParen then return { u with precision := some p, scale := s }
      else typeError s!"expected ) after type modifiers, found {(← current).describe}"
    (∃ front rest s, ts = front ++ rest ∧ ModifierEnd (k :: front.map (·.kind)) p s ∧
      (modifierScale >>= close).run ctx ts =
        .ok ({ u with precision := some p, scale := s }, rest)) ∨
      (∃ l message, (modifierScale >>= close).run ctx ts = .error (.typeSyntax l message)) ∧
        ∀ ks p s, ModifierEnd (k :: ks) p s → ¬ ks <+: ts.map (·.kind) := by
  intro close
  have hclose (s : Option UInt32) (rest : List Token) := closing_cases (k := .rightParen) hstop
    (by simp) { u with precision := some p, scale := s }
    (fun t => s!"expected ) after type modifiers, found {t.describe}") rest
  rcases modifierScale_cases hstop ts with
    ⟨hcomma, hscale⟩ | ⟨c, k', rest, s, rfl, hc, hs, hscale⟩ | ⟨⟨l, message, hscale⟩, hmissing⟩
  · rw [run_bind_of_ok hscale]
    rcases hclose none ts with ⟨d, rest, rfl, hd, hok⟩ | ⟨herror, hother⟩
    · refine .inl ⟨[d], rest, none, rfl, ?_, hok⟩
      rw [List.map_singleton, hd]
      exact .precision hk
    · refine .inr ⟨herror, fun ks p s hks hpre => ?_⟩
      cases hks with
      | precision =>
        obtain ⟨d, _, rfl, hd, -⟩ := cons_prefix_kinds_iff.1 hpre
        exact hother d _ rfl hd
      | scale =>
        obtain ⟨c, _, rfl, hc, -⟩ := cons_prefix_kinds_iff.1 hpre
        exact hcomma _ (by rw [List.map_cons, hc])
  · rw [run_bind_of_ok hscale]
    rcases hclose (some s) rest with ⟨d, rest, rfl, hd, hok⟩ | ⟨herror, hother⟩
    · refine .inl ⟨[c, k', d], rest, some s, rfl, ?_, hok⟩
      simp only [List.map_cons, List.map_nil, hc, hd]
      exact .scale hk hs
    · refine .inr ⟨herror, fun ks p s hks hpre => ?_⟩
      simp only [List.map_cons, hc] at hpre
      cases hks with
      | precision => simp at hpre
      | scale =>
        simp only [List.cons_prefix_cons] at hpre
        obtain ⟨d, _, rfl, hd, -⟩ := cons_prefix_kinds_iff.1 hpre.2.2
        exact hother d _ rfl hd
  · obtain ⟨c, us, rfl, hc, hnone⟩ := hmissing
    refine .inr ⟨⟨l, message, run_bind_of_error hscale⟩, fun ks p s hks hpre => ?_⟩
    rw [List.map_cons, hc] at hpre
    cases hks with
    | precision => simp at hpre
    | scale size size' =>
      obtain ⟨k', _, rfl, rfl, -⟩ := cons_prefix_kinds_iff.1 (List.cons_prefix_cons.1 hpre).2
      exact hnone k' _ _ rfl size'

theorem typeModifiers_cases (hstop : ctx.stop.kind = .eof) (ht : t.kind = .leftParen) (u : TypeRef)
    (ts : List Token) :
    (∃ front rest p s, ts = front ++ rest ∧ ModifierEnd (front.map (·.kind)) p s ∧
      (typeModifiers u).run ctx (t :: ts) =
        .ok ({ u with precision := some p, scale := s }, rest)) ∨
      (∃ l message, (typeModifiers u).run ctx (t :: ts) = .error (.typeSyntax l message)) ∧
        ∀ ks p s, ModifierEnd ks p s → ¬ ks <+: ts.map (·.kind) := by
  rcases smallNumber_cases hstop "type modifier" ts with
    ⟨k, rest, p, rfl, hp, hprecision⟩ | ⟨⟨l, message, hprecision⟩, hnone⟩
  · have hrun : (typeModifiers u).run ctx (t :: k :: rest) =
        (modifierScale >>= fun s => do
          if ← accept .rightParen then return { u with precision := some p, scale := s }
          else typeError s!"expected ) after type modifiers, found {(← current).describe}" :
          Parser TypeRef).run ctx rest := by
      rw [typeModifiers, run_choice_of_eq ht, run_bind_of_ok hprecision]
      exact run_choice_bind (accept .comma) (some <$> smallNumber "type modifier") (Pure.pure none) _
    rw [hrun]
    rcases modifierEnd_cases hstop hp u rest with ⟨front, rest, s, rfl, hend, hok⟩ | ⟨herror, hnone⟩
    · exact .inl ⟨k :: front, rest, p, s, rfl, hend, hok⟩
    · refine .inr ⟨herror, fun ks p s hks hpre => ?_⟩
      obtain ⟨k', us, rfl⟩ : ∃ k us, ks = k :: us := by cases hks <;> exact ⟨_, _, rfl⟩
      obtain ⟨rfl, hus⟩ := List.cons_prefix_cons.1 hpre
      exact hnone us p s hks hus
  · refine .inr ⟨⟨l, message, ?_⟩, fun ks p s hks hpre => ?_⟩
    · rw [typeModifiers, run_choice_of_eq ht]
      exact run_bind_of_error hprecision
    · cases hks with
      | precision size | scale size =>
        obtain ⟨t, rest, rfl, rfl, -⟩ := cons_prefix_kinds_iff.1 hpre
        exact hnone t rest _ rfl size

/-! ## Arrays -/

def boundClause (dims : List (Option UInt32)) (t : Token) : Parser (Option (List (Option UInt32))) := do
  if t.kind = .leftBracket then return some (dims ++ [← arrayBound]) else return none

/-- Dimensions behind those that have been read. -/
def MoreDimensions (dims : List (Option UInt32)) (ks : List Kind) (all : List (Option UInt32)) : Prop :=
  ∃ more, Dimensions ks more ∧ all = dims ++ more

theorem moreDimensions_nil_iff {dims all : List (Option UInt32)} :
    MoreDimensions dims [] all ↔ all = dims := by
  constructor
  · rintro ⟨_, ⟨⟩, rfl⟩
    exact List.append_nil dims
  · rintro rfl
    exact ⟨[], .nil, (List.append_nil _).symm⟩

/-- There are no more dimensions where no bracket opens. -/
theorem reading_bounded {dims : List (Option UInt32)}
    (h : (ts.map (·.kind)).head? ≠ some .leftBracket) :
    Reading (MoreDimensions dims) ts (.ok (dims, ts)) := by
  refine .nothing (fun _ => moreDimensions_nil_iff) ?_
  rintro ks _ hks ⟨more, hmore, -⟩
  cases hmore with
  | nil => rfl
  | cons => exact absurd hks.head? h

/-- A dimension in front of more of them is one of them. -/
theorem reading_bound {dims : List (Option UInt32)} {dim : Option UInt32} {front : List Token}
    {r : Except Error (List (Option UInt32) × List Token)} (ht : t.kind = .leftBracket)
    (hdim : DimensionEnd (front.map (·.kind)) dim)
    (h : Reading (MoreDimensions (dims ++ [dim])) ts r) :
    Reading (MoreDimensions dims) (t :: (front ++ ts)) r := by
  have hfront : (t :: front).map (·.kind) = .leftBracket :: front.map (·.kind) := by
    rw [List.map_cons, ht]
  refine h.behind_self (t :: front) ?_ ?_ ?_
  · rintro ks _ ⟨more, hmore, rfl⟩
    rw [hfront]
    exact ⟨dim :: more, .cons hdim hmore, by simp⟩
  · rintro ks _ - ⟨more, hmore, rfl⟩
    rw [hfront] at hmore
    rcases Dimensions.of_isPrefix hmore hdim List.prefix_rfl with h | ⟨ks', ds', h, rfl, hks'⟩
    · cases h
    · obtain rfl := List.append_cancel_left (List.cons.inj h).2
      exact ⟨ds', hks', by simp⟩
  · rintro ks _ hks ⟨more, hmore, rfl⟩
    rw [List.map_append, hfront] at hks
    rw [hfront]
    rcases Dimensions.of_isPrefix hmore hdim hks with rfl | ⟨ks', ds', rfl, rfl, hks'⟩
    · exact .inr (Nat.zero_le _)
    · exact .inl (List.prefix_append (_ :: _) ks')

/-- A bracket opens and its dimension is missing. -/
theorem reading_unbound {dims : List (Option UInt32)} {l : Text.Location} {message : String}
    (ht : t.kind = .leftBracket)
    (hnone : ∀ ks dim, DimensionEnd ks dim → ¬ ks <+: ts.map (·.kind)) :
    Reading (MoreDimensions dims) (t :: ts) (.error (.typeSyntax l message)) := by
  have hbegun : MoreDimensions dims (t.kind :: [.rightBracket]) (dims ++ [none]) := by
    rw [ht]
    exact ⟨[none], .cons .unsized .nil, rfl⟩
  refine .unfinished (moreDimensions_nil_iff.2 rfl) (by rw [ht]; rfl) hbegun ?_
  rintro ks _ hks ⟨more, hmore, -⟩
  cases hmore with
  | nil => rfl
  | cons first rest =>
    have hks := (List.cons_prefix_cons.1 hks).2
    exact absurd ((List.prefix_append _ _).trans hks) (hnone _ _ first)

/-- The dimensions in front are read behind those that have been read. -/
theorem reading_boundClauses (hstop : ctx.stop.kind = .eof) (dims : List (Option UInt32))
    (ts : List Token) : Reading (MoreDimensions dims) ts ((clauses boundClause dims).run ctx ts) := by
  induction hn : ts.length using Nat.strong_induction_on generalizing ts dims with
  | h n ih =>
    subst hn
    rw [run_clauses]
    cases ts with
    | nil => exact reading_bounded (by simp)
    | cons t ts =>
      by_cases ht : t.kind = .leftBracket
      · have hrun : (boundClause dims t).run ctx ts =
            (do return some (dims ++ [← arrayBound]) : Parser _).run ctx ts := by
          rw [boundClause, if_pos ht]
        rcases arrayBound_cases hstop ts with
          ⟨front, rest, dim, rfl, hdim, hok⟩ | ⟨⟨l, message, herror⟩, hnone⟩
        · have hclause : (boundClause dims t).run ctx (front ++ rest) =
              .ok (some (dims ++ [dim]), rest) := hrun.trans (run_bind_of_ok hok)
          have hlater := ih rest.length
            (by rw [List.length_cons, List.length_append]; omega) (dims ++ [dim]) rest rfl
          simp only [hclause, Except.bind]
          exact reading_bound ht hdim hlater
        · simp only [hrun.trans (run_bind_of_error herror), Except.bind]
          exact reading_unbound ht hnone
      · have hclause : (boundClause dims t).run ctx ts = .ok (none, ts) := by
          rw [boundClause, if_neg ht]
          rfl
        simp only [hclause, Except.bind]
        exact reading_bounded (by simpa using ht)

theorem reading_arrayBounds (hstop : ctx.stop.kind = .eof) (ts : List Token) :
    Reading Dimensions ts (arrayBounds.run ctx ts) := by
  have hall : MoreDimensions [] = Dimensions := by
    funext ks dims
    simp [MoreDimensions]
  exact hall ▸ reading_boundClauses hstop [] ts

/-- The dimension that may follow `ARRAY`. -/
theorem reading_arrayBound (hstop : ctx.stop.kind = .eof) (ts : List Token) :
    Reading (fun ks => ArrayPhrase (.keyword .ARRAY :: ks)) ts
      ((do if ← accept .leftBracket then return [← arrayBound] else return [none] :
        Parser (List (Option UInt32))).run ctx ts) := by
  have hnil (dims : List (Option UInt32)) :
      ArrayPhrase [.keyword .ARRAY] dims ↔ dims = [none] := by
    refine ⟨fun h => ?_, fun h => h ▸ .array⟩
    rcases h.of_array with ⟨-, hdims⟩ | ⟨dim, us, ⟨⟩, -⟩
    exact hdims
  by_cases h : (ctx.current ts).kind = .leftBracket
  · obtain ⟨t, ts, rfl, ht⟩ := exists_cons_of_current hstop h (by simp)
    rw [run_choice_of_eq ht]
    rcases arrayBound_cases hstop ts with
      ⟨front, rest, dim, rfl, hdim, hok⟩ | ⟨⟨l, message, herror⟩, hnone⟩
    · have hend : Reading (fun ks dims => ks = [] ∧ dims = [dim]) rest (.ok ([dim], rest)) :=
        .nothing (fun _ => ⟨And.right, fun h => ⟨rfl, h⟩⟩) fun _ _ _ h => h.1
      rw [run_bind_of_ok hok]
      refine hend.behind_self (t :: front) ?_ ?_ ?_
      · rintro _ _ ⟨rfl, rfl⟩
        rw [List.map_cons, ht, List.append_nil]
        exact .bounded hdim
      · rintro ks dims - hdims
        rw [List.map_cons, ht] at hdims
        rcases hdims.of_array with ⟨⟨⟩, -⟩ | ⟨dim', us, hus, rfl, hdim'⟩
        obtain ⟨h, rfl, rfl⟩ :=
          hdim.append_inj hdim' ((List.cons.inj hus).2.trans (List.append_nil us).symm)
        exact ⟨rfl, rfl⟩
      · intro ks dims hks hdims
        rw [List.cons_append, List.map_cons, List.map_append, ht] at hks
        rcases hdims.of_array with ⟨rfl, -⟩ | ⟨dim', us, rfl, rfl, hdim'⟩
        · exact .inr (Nat.zero_le _)
        · obtain ⟨more, heq⟩ := (List.cons_prefix_cons.1 hks).2
          obtain ⟨rfl, -⟩ := hdim'.append_inj hdim heq
          rw [List.map_cons, ht]
          exact .inl List.prefix_rfl
    · rw [run_bind_of_error herror]
      have hbegun : ArrayPhrase (.keyword .ARRAY :: t.kind :: [.rightBracket]) [none] := by
        rw [ht]
        exact .bounded .unsized
      refine .unfinished ((hnil _).2 rfl) (by rw [ht]; rfl) hbegun fun ks dims hks hdims => ?_
      rcases hdims.of_array with ⟨rfl, -⟩ | ⟨dim, us, rfl, -, hdim⟩
      · rfl
      · exact absurd (List.cons_prefix_cons.1 hks).2 (hnone us dim hdim)
  · rw [run_choice_of_ne h]
    refine .nothing hnil fun ks dims hks hdims => ?_
    rcases hdims.of_array with ⟨rfl, -⟩ | ⟨dim, us, rfl, -⟩
    · rfl
    · exact absurd hks.current_eq h

theorem reading_arrayDims (hstop : ctx.stop.kind = .eof) (ts : List Token) :
    Reading ArrayPhrase ts (arrayDims.run ctx ts) := by
  by_cases h : (ctx.current ts).kind = .keyword .ARRAY
  · obtain ⟨t, ts, rfl, ht⟩ := exists_cons_of_current hstop h (by simp)
    rw [arrayDims, acceptKeyword, run_choice_of_eq ht]
    refine (reading_arrayBound hstop ts).behind_self [t] ?_ ?_ ?_
    · intro ks dims hdims
      rw [List.map_singleton, ht]
      exact hdims
    · rintro ks dims - hdims
      rw [List.map_singleton, ht] at hdims
      exact hdims
    · intro ks dims hks hdims
      rw [List.singleton_append, List.map_cons, ht] at hks
      rw [List.map_singleton, ht]
      cases hdims with
      | brackets dimensions =>
        cases dimensions with
        | nil => exact .inr (Nat.zero_le _)
        | cons => exact nomatch (List.cons_prefix_cons.1 hks).1
      | array | bounded => exact .inl (List.prefix_append [_] _)
  · have hrun : arrayDims.run ctx ts = arrayBounds.run ctx ts := run_choice_of_ne h
    rw [hrun]
    refine (reading_arrayBounds hstop ts).here_self (fun ks dims => .brackets) ?_
    intro ks dims hks hdims
    cases hdims with
    | brackets dimensions => exact dimensions
    | array | bounded => exact absurd hks.current_eq h

/-! ## Zones -/

theorem zoneClause_cases (ctx : Context) (ts : List Token) :
    (∃ a b c rest zone, ts = a :: b :: c :: rest ∧ ZoneWord a.kind zone ∧ b.kind = .keyword .TIME ∧
      c.kind = .keyword .ZONE ∧ zoneClause.run ctx ts = .ok (some zone, rest)) ∨
      zoneClause.run ctx ts = .ok (none, ts) ∧ ∀ k zone, ZoneWord k zone →
        ¬ [k, .keyword .TIME, .keyword .ZONE] <+: ts.map (·.kind) := by
  match ts with
  | [] | [_] | [_, _] => exact .inr ⟨rfl, fun k zone hk hpre => by simpa using hpre.length_le⟩
  | a :: b :: c :: rest =>
    by_cases hbc : b.kind = .keyword .TIME ∧ c.kind = .keyword .ZONE
    · obtain ⟨hb, hc⟩ := hbc
      by_cases hwith : a.kind = .keyword .WITH
      · refine .inl ⟨a, b, c, rest, _, rfl, by rw [hwith]; exact .with, hb, hc, ?_⟩
        unfold Parser.run zoneClause
        simp only [Token.isKeyword, hb, hc, hwith, decide_true, Bool.and_self, if_true]
        rfl
      by_cases hwithout : a.kind = .keyword .WITHOUT
      · refine .inl ⟨a, b, c, rest, _, rfl, by rw [hwithout]; exact .without, hb, hc, ?_⟩
        unfold Parser.run zoneClause
        simp only [Token.isKeyword, hb, hc, hwithout, decide_true, Bool.and_self, if_true]
        rfl
      · refine .inr ⟨?_, fun k zone hk hpre => ?_⟩
        · unfold Parser.run zoneClause
          simp only [Token.isKeyword, hwith, hwithout, decide_false, Bool.false_eq_true, if_false,
            ite_self]
          rfl
        · have ha : k = a.kind := (List.cons_prefix_cons.1 hpre).1
          cases hk with
          | «with» => exact hwith ha.symm
          | without => exact hwithout ha.symm
    · have hnone : (b.isKeyword .TIME && c.isKeyword .ZONE) = false := by
        simpa [Token.isKeyword] using hbc
      refine .inr ⟨?_, fun k zone hk hpre => hbc ?_⟩
      · unfold Parser.run zoneClause
        simp only [hnone, Bool.false_eq_true, if_false]
        rfl
      · simp only [List.map_cons, List.cons_prefix_cons] at hpre
        exact ⟨hpre.2.1.symm, hpre.2.2.1.symm⟩

/-- What follows the name and the modifiers of a type. -/
def zoneAndDims (t : TypeRef) : Parser TypeRef := do
  let t ← typeZone t
  return { t with arrayDims := ← arrayDims }

theorem run_typeZone_of_isTime {u : TypeRef} (hu : u.IsTime) {zone : String} {rest : List Token}
    (h : zoneClause.run ctx ts = .ok (some zone, rest)) :
    (typeZone u).run ctx ts = .ok ({ u with name := u.name ++ " " ++ zone }, rest) := by
  have htime : u.schema.isNone = true ∧ (u.name = "time" ∨ u.name = "timestamp") :=
    ⟨by rw [hu.1]; rfl, hu.2⟩
  rw [typeZone, if_pos htime, run_bind_of_ok h]
  rfl

theorem run_typeZone_of_not {u : TypeRef}
    (h : ¬ u.IsTime ∨ zoneClause.run ctx ts = .ok (none, ts)) :
    (typeZone u).run ctx ts = .ok (u, ts) := by
  unfold typeZone
  split
  · next htime =>
    have hu : u.IsTime := ⟨Option.isNone_iff_eq_none.1 htime.1, htime.2⟩
    rw [run_bind_of_ok (h.resolve_left (not_not_intro hu))]
    rfl
  · rfl

theorem reading_zoneAndDims (hstop : ctx.stop.kind = .eof) (u : TypeRef) (ts : List Token) :
    Reading (ZonePhrase u) ts ((zoneAndDims u).run ctx ts) := by
  have hplain (h : (typeZone u).run ctx ts = .ok (u, ts))
      (hnone : ∀ k zone us, ZoneWord k zone → u.IsTime →
        ¬ Meets (k :: .keyword .TIME :: .keyword .ZONE :: us) (ts.map (·.kind))) :
      Reading (ZonePhrase u) ts ((zoneAndDims u).run ctx ts) := by
    rw [zoneAndDims, run_bind_of_ok h, run_bind]
    refine (reading_arrayDims hstop ts).from_here (f := fun dims => { u with arrayDims := dims })
      (fun ks dims => ZonePhrase.plain) ?_
    intro ks v hks hv
    cases hv with
    | plain rest => exact ⟨_, rest, rfl⟩
    | zone time word rest => exact absurd hks (hnone _ _ _ word time)
  by_cases hu : u.IsTime
  · rcases zoneClause_cases ctx ts with
      ⟨a, b, c, rest, zone, rfl, ha, hb, hc, hzone⟩ | ⟨hnone, hother⟩
    · rw [zoneAndDims, run_bind_of_ok (run_typeZone_of_isTime hu hzone), run_bind]
      have hfront : [a, b, c].map (·.kind) = [a.kind, .keyword .TIME, .keyword .ZONE] := by
        simp only [List.map_cons, List.map_nil, hb, hc]
      refine (reading_arrayDims hstop rest).behind [a, b, c]
        (f := fun dims => { u with name := u.name ++ " " ++ zone, arrayDims := dims }) ?_ ?_ ?_
      · intro ks dims hdims
        rw [hfront]
        exact .zone hu ha hdims
      · rintro ks v - hv
        rw [hfront] at hv
        cases hv with
        | plain rest => exact absurd rest ha.not_arrayPhrase
        | zone time word rest => exact ⟨_, rest, by rw [word.unique ha]⟩
      · intro ks v hks hv
        rw [List.map_append, hfront] at hks
        rw [hfront]
        cases hv with
        | plain rest =>
          cases ks with
          | nil => exact .inr (Nat.zero_le _)
          | cons k ks =>
            obtain ⟨rfl, -⟩ := List.cons_prefix_cons.1 hks
            exact absurd rest ha.not_arrayPhrase
        | zone time word rest =>
          obtain ⟨rfl, -⟩ := List.cons_prefix_cons.1 hks
          exact .inl (List.prefix_append [_, _, _] _)
    · refine hplain (run_typeZone_of_not (.inr hnone)) fun k zone us hk _ hmeets => ?_
      exact hother k zone hk (hk.prefix_of_meets hmeets)
  · exact hplain (run_typeZone_of_not (.inl hu)) fun k zone us _ htime => absurd htime hu

/-! ## Modifiers -/

theorem reading_modifiers (hstop : ctx.stop.kind = .eof) (u : TypeRef) (ts : List Token) :
    Reading (ModifierPhrase u) ts ((typeModifiers u >>= zoneAndDims).run ctx ts) := by
  by_cases h : (ctx.current ts).kind = .leftParen
  · obtain ⟨t, ts, rfl, ht⟩ := exists_cons_of_current hstop h (by simp)
    rcases typeModifiers_cases hstop ht u ts with
      ⟨front, rest, p, s, rfl, hend, hok⟩ | ⟨⟨l, message, herror⟩, hnone⟩
    · rw [run_bind_of_ok hok]
      refine (reading_zoneAndDims hstop _ rest).behind_self (t :: front) ?_ ?_ ?_
      · intro ks v hv
        rw [List.map_cons, ht]
        exact .modified hend hv
      · rintro ks v - hv
        rw [List.map_cons, ht] at hv
        rcases hv.of_isPrefix hend List.prefix_rfl with h | ⟨ks', h, hv⟩
        · cases h
        · obtain rfl := List.append_cancel_left (List.cons.inj h).2
          exact hv
      · intro ks v hks hv
        rw [List.cons_append, List.map_cons, List.map_append, ht] at hks
        rcases hv.of_isPrefix hend hks with rfl | ⟨ks', rfl, -⟩
        · exact .inr (Nat.zero_le _)
        · rw [List.map_cons, ht]
          exact .inl (List.prefix_append (_ :: _) ks')
    · rw [run_bind_of_error herror]
      have hnil : ModifierPhrase u [] { u with arrayDims := [] } := .plain (.plain (.brackets .nil))
      have hbegun : ModifierPhrase u (t.kind :: [.number "0", .rightParen])
          { u with precision := some 0, scale := none, arrayDims := [] } := by
        rw [ht]
        refine .modified (.precision ⟨"0", rfl, by simp, by simp, rfl⟩) (.plain (.brackets .nil))
      refine .unfinished hnil (by rw [ht]; rfl) hbegun fun ks v hks hv => ?_
      cases hv with
      | plain rest =>
        cases ks with
        | nil => rfl
        | cons k ks =>
          rw [List.map_cons, ht] at hks
          obtain ⟨rfl, -⟩ := List.cons_prefix_cons.1 hks
          exact absurd rest ZonePhrase.not_leftParen
      | modified modifiers rest =>
        have hks := (List.cons_prefix_cons.1 hks).2
        exact absurd ((List.prefix_append _ _).trans hks) (hnone _ _ _ modifiers)
  · have hnone : (typeModifiers u).run ctx ts = .ok (u, ts) := run_choice_of_ne h
    rw [run_bind_of_ok hnone]
    refine (reading_zoneAndDims hstop u ts).here_self (fun ks v => .plain) ?_
    intro ks v hks hv
    cases hv with
    | plain rest => exact rest
    | modified => exact absurd hks.current_eq h

/-! ## Names -/

theorem typeWord_cases (hstop : ctx.stop.kind = .eof) (after : String) (ts : List Token) :
    (∃ t rest name, ts = t :: rest ∧ t.kind.name? = some name ∧
      (typeWord after).run ctx ts = .ok (name, rest)) ∨
      (∃ l message, (typeWord after).run ctx ts = .error (.typeSyntax l message)) ∧
        ∀ t rest, ts = t :: rest → t.kind.name? = none := by
  cases hname : (ctx.current ts).name? with
  | none =>
    refine .inr ⟨⟨_, _, by rw [typeWord, run_bind_of_ok run_current, hname]; rfl⟩, ?_⟩
    rintro t rest rfl
    exact hname
  | some name =>
    cases ts with
    | nil =>
      have hstop' : (ctx.current []).kind = .eof := hstop
      simp [Token.name?, hstop', Token.Kind.name?] at hname
    | cons t rest =>
      exact .inl ⟨t, rest, name, rfl, hname,
        by rw [typeWord, run_bind_of_ok run_current, hname]; rfl⟩

theorem secondWord_cases (hstop : ctx.stop.kind = .eof) (first : String) (ts : List Token) :
    (∃ t rest second name, ts = t :: rest ∧ t.kind = .keyword second ∧
      (first, second, name) ∈ foldedNames ∧ (secondWord first).run ctx ts = .ok (name, rest)) ∨
      (secondWord first).run ctx ts = .ok (first, ts) ∧ ∀ second name,
        (first, second, name) ∈ foldedNames → (ctx.current ts).kind ≠ .keyword second := by
  have hword (second : Token.Keyword) (name : String) (hpair : (first, second, name) ∈ foldedNames)
      (hrun : (secondWord first).run ctx ts = (do
        if ← acceptKeyword second then return name else return first : Parser String).run ctx ts)
      (hunique : ∀ second' name', (first, second', name') ∈ foldedNames → second' = second) :
      (∃ t rest second name, ts = t :: rest ∧ t.kind = .keyword second ∧
        (first, second, name) ∈ foldedNames ∧ (secondWord first).run ctx ts = .ok (name, rest)) ∨
        (secondWord first).run ctx ts = .ok (first, ts) ∧ ∀ second name,
          (first, second, name) ∈ foldedNames → (ctx.current ts).kind ≠ .keyword second := by
    by_cases h : (ctx.current ts).kind = .keyword second
    · obtain ⟨t, rest, rfl, -⟩ := exists_cons_of_current hstop h (by simp)
      exact .inl ⟨t, rest, second, name, rfl, h, hpair, hrun.trans (run_choice_of_eq h)⟩
    · refine .inr ⟨hrun.trans (run_choice_of_ne h), fun second' name' hpair' => ?_⟩
      rw [hunique second' name' hpair']
      exact h
  by_cases hdouble : first = "double"
  · subst hdouble
    exact hword .PRECISION "double precision" (by simp [foldedNames]) rfl (by simp [foldedNames])
  by_cases hchar : first = "character" ∨ first = "char"
  · refine hword .VARYING "character varying" (by rcases hchar with rfl | rfl <;> simp [foldedNames]) ?_
      (by rcases hchar with rfl | rfl <;> simp [foldedNames])
    rw [secondWord, if_neg hdouble, if_pos hchar]
  by_cases hbit : first = "bit"
  · subst hbit
    exact hword .VARYING "bit varying" (by simp [foldedNames]) rfl (by simp [foldedNames])
  · refine .inr ⟨?_, ?_⟩
    · rw [secondWord, if_neg hdouble, if_neg hchar, if_neg hbit]
      rfl
    · obtain ⟨hcharacter, hchar⟩ := not_or.1 hchar
      simp [foldedNames, hdouble, hcharacter, hchar, hbit]

theorem reading_single (hstop : ctx.stop.kind = .eof) {name : String} (hname : t.kind.name? = some name)
    (hdot : (ctx.current ts).kind ≠ .dot)
    (hfold : ∀ first second full, t.kind.word? = some first → (first, second, full) ∈ foldedNames →
      (ctx.current ts).kind ≠ .keyword second) :
    Reading TypePhrase (t :: ts)
      ((typeModifiers (TypeRef.ofName name) >>= zoneAndDims).run ctx ts) := by
  refine (reading_modifiers hstop _ ts).behind_self [t] (fun ks u => .name hname) ?_ ?_
  · intro ks u hks hu
    rw [List.map_singleton, List.singleton_append] at hu
    cases hu with
    | name word rest =>
      cases hname.symm.trans word
      exact rest
    | qualified => exact absurd hks.current_eq hdot
    | folded word pair => exact absurd hks.current_eq (hfold _ _ _ word pair)
  · intro ks u hks hu
    obtain ⟨k, us, rfl, -⟩ := TypePhrase.exists_cons hu
    obtain ⟨rfl, -⟩ := List.cons_prefix_cons.1 hks
    exact .inl (List.prefix_append [_] us)

theorem reading_qualified (hstop : ctx.stop.kind = .eof) {d t' : Token} {schema name : String}
    (hschema : t.kind.name? = some schema) (hd : d.kind = .dot) (hname : t'.kind.name? = some name) :
    Reading TypePhrase (t :: d :: t' :: ts)
      ((typeModifiers { TypeRef.ofName name with schema := some schema } >>= zoneAndDims).run ctx ts) := by
  have hfront : [t, d, t'].map (·.kind) = [t.kind, .dot, t'.kind] := by
    simp only [List.map_cons, List.map_nil, hd]
  refine (reading_modifiers hstop _ ts).behind_self [t, d, t'] ?_ ?_ ?_
  · intro ks u hu
    rw [hfront]
    exact .qualified hschema hname hu
  · rintro ks u - hu
    rw [hfront] at hu
    cases hu with
    | name _ rest => exact absurd rest not_modifierPhrase_dot
    | qualified word word' rest =>
      cases hschema.symm.trans word
      cases hname.symm.trans word'
      exact rest
  · intro ks u hks hu
    rw [List.map_append, hfront] at hks
    rw [hfront]
    cases hu with
    | @name _ _ us _ _ rest =>
      cases us with
      | nil => exact .inr (by simp)
      | cons k us =>
        obtain ⟨rfl, -⟩ := List.cons_prefix_cons.1 (List.cons_prefix_cons.1 hks).2
        exact absurd rest not_modifierPhrase_dot
    | qualified =>
      simp only [List.cons_append, List.cons_prefix_cons] at hks
      obtain ⟨rfl, -, rfl, -⟩ := hks
      exact .inl (List.prefix_append [_, _, _] _)
    | folded => simp at hks

theorem reading_folded (hstop : ctx.stop.kind = .eof) {s : Token} {first name : String}
    {second : Token.Keyword} (hfirst : t.kind.word? = some first) (hs : s.kind = .keyword second)
    (hpair : (first, second, name) ∈ foldedNames) :
    Reading TypePhrase (t :: s :: ts)
      ((typeModifiers (TypeRef.ofName name) >>= zoneAndDims).run ctx ts) := by
  have hfront : [t, s].map (·.kind) = [t.kind, .keyword second] := by
    simp only [List.map_cons, List.map_nil, hs]
  refine (reading_modifiers hstop _ ts).behind_self [t, s] ?_ ?_ ?_
  · intro ks u hu
    rw [hfront]
    exact .folded hfirst hpair hu
  · rintro ks u - hu
    rw [hfront] at hu
    cases hu with
    | name _ rest => exact absurd rest (not_modifierPhrase_folded hpair)
    | folded word pair rest =>
      cases hfirst.symm.trans word
      cases foldedNames_unique hpair pair
      exact rest
  · intro ks u hks hu
    rw [List.map_append, hfront] at hks
    rw [hfront]
    cases hu with
    | @name _ _ us _ _ rest =>
      cases us with
      | nil => exact .inr (by simp)
      | cons k us =>
        obtain ⟨rfl, -⟩ := List.cons_prefix_cons.1 (List.cons_prefix_cons.1 hks).2
        exact absurd rest (not_modifierPhrase_folded hpair)
    | qualified => simp at hks
    | folded =>
      simp only [List.cons_append, List.cons_prefix_cons] at hks
      obtain ⟨rfl, ⟨⟩, -⟩ := hks
      exact .inl (List.prefix_append [_, _] _)

/-- A dot that is not followed by a name. -/
theorem reading_dangling {d : Token} {schema : String} {l : Text.Location} {message : String}
    (hschema : t.kind.name? = some schema) (hd : d.kind = .dot)
    (hnone : ∀ t' rest, ts = t' :: rest → t'.kind.name? = none) :
    Reading TypePhrase (t :: d :: ts) (.error (.typeSyntax l message)) := by
  have hphrase : TypePhrase ([t].map (·.kind)) (TypeRef.ofName schema) :=
    .name hschema (.plain (.plain (.brackets .nil)))
  have hbegun : TypePhrase ([t].map (·.kind) ++ d.kind :: [.identifier "a"])
      { TypeRef.ofName "a" with schema := some schema } := by
    rw [hd]
    exact .qualified hschema rfl (.plain (.plain (.brackets .nil)))
  refine .broken (List.singleton_append ..).symm hphrase (fun ks u hks hu => ?_)
    ⟨d, rfl, by rw [hd]; rfl, _, _, hbegun⟩
  simp only [List.map_cons, hd] at hks
  cases hu with
  | @name _ _ us _ _ rest =>
    cases us with
    | nil => exact le_rfl
    | cons k us =>
      obtain ⟨rfl, -⟩ := List.cons_prefix_cons.1 (List.cons_prefix_cons.1 hks).2
      exact absurd rest not_modifierPhrase_dot
  | qualified _ word' =>
    have hks := (List.cons_prefix_cons.1 (List.cons_prefix_cons.1 hks).2).2
    obtain ⟨t', rest, rfl, rfl, -⟩ := cons_prefix_kinds_iff.1 hks
    rw [hnone t' rest rfl] at word'
    cases word'
  | folded => simp at hks

theorem run_typeRef_of_typeName {u : TypeRef} {rest : List Token}
    (h : typeName.run ctx ts = .ok (u, rest)) :
    typeRef.run ctx ts = (typeModifiers u >>= zoneAndDims).run ctx rest :=
  run_bind_of_ok h

/-- The longest type in front is read, or there is none. -/
theorem reading_typeRef (hstop : ctx.stop.kind = .eof) (ts : List Token) :
    Reading TypePhrase ts (typeRef.run ctx ts) ∨
      (∃ l message, typeRef.run ctx ts = .error (.typeSyntax l message)) ∧
        ∀ ks u, TypePhrase ks u → ¬ ks <+: ts.map (·.kind) := by
  rcases typeWord_cases hstop "" ts with
    ⟨t, rest, first, rfl, hfirst, hok⟩ | ⟨⟨l, message, herror⟩, hnone⟩
  · have hname : typeName.run ctx (t :: rest) = (do
        if ← accept .dot then
          let name ← typeWord s!" after {first}."
          return { TypeRef.ofName name with schema := some first }
        else if t.word?.isNone then return TypeRef.ofName first
        else return TypeRef.ofName (← secondWord first) : Parser TypeRef).run ctx rest := by
      rw [typeName, run_bind_of_ok run_current, run_bind_of_ok hok]
      rfl
    refine .inl ?_
    by_cases hdot : (ctx.current rest).kind = .dot
    · obtain ⟨d, rest, rfl, hd⟩ := exists_cons_of_current hstop hdot (by simp)
      rw [run_choice_of_eq hd] at hname
      rcases typeWord_cases hstop s!" after {first}." rest with
        ⟨t', rest, second, rfl, hsecond, hok⟩ | ⟨⟨l, message, herror⟩, hnone⟩
      · rw [run_bind_of_ok hok] at hname
        rw [run_typeRef_of_typeName hname]
        exact reading_qualified hstop hfirst hd hsecond
      · rw [run_bind_of_error herror] at hname
        have hrun : typeRef.run ctx (t :: d :: rest) = .error (.typeSyntax l message) :=
          run_bind_of_error hname
        rw [hrun]
        exact reading_dangling hfirst hd hnone
    · rw [run_choice_of_ne hdot] at hname
      cases hword : t.word? with
      | none =>
        rw [hword] at hname
        rw [run_typeRef_of_typeName hname]
        refine reading_single hstop hfirst hdot fun first' _ _ hfirst' => ?_
        exact nomatch hword.symm.trans hfirst'
      | some word =>
        rw [hword] at hname
        have hfirst' : word = first := Option.some.inj ((name?_of_word? hword).symm.trans hfirst)
        subst hfirst'
        rcases secondWord_cases hstop word rest with
          ⟨s, rest, second, name, rfl, hs, hpair, hsecond⟩ | ⟨hsecond, hother⟩
        · have hrun := hname.trans (run_bind_of_ok hsecond)
          rw [run_typeRef_of_typeName hrun]
          exact reading_folded hstop hword hs hpair
        · have hrun := hname.trans (run_bind_of_ok hsecond)
          rw [run_typeRef_of_typeName hrun]
          refine reading_single hstop hfirst hdot fun first' second name hfirst' hpair => ?_
          cases hword.symm.trans hfirst'
          exact hother second name hpair
  · have hname : typeName.run ctx ts = .error (.typeSyntax l message) := by
      rw [typeName, run_bind_of_ok run_current, run_bind_of_error herror]
    refine .inr ⟨⟨l, message, run_bind_of_error hname⟩, fun ks u hu hks => ?_⟩
    obtain ⟨k, us, rfl, name, hk⟩ := hu.exists_cons
    obtain ⟨t, rest, rfl, rfl, -⟩ := cons_prefix_kinds_iff.1 hks
    exact nomatch (hnone t rest rfl).symm.trans hk

/-- Types are exactly what their grammar says: a type is read if a phrase stands in front and each
part that begins is complete. Then it is the longest phrase in front, which is this type and no other.
Otherwise there is an error in the syntax of a type. -/
theorem typeRef_accepts (source : String) (text : List Char) (ts : List Token) (span : Token.Span)
    (line column : Nat) :
    let ctx := Context.ofTokens source text (ts ++ [⟨.eof, span, line, column⟩])
    let outcome := typeRef.run ctx ctx.tokens
    ((∃ t rest, outcome = .ok (t, rest)) ↔ Acceptable TypePhrase (ts.map (·.kind))) ∧
      (∀ t rest, outcome = .ok (t, rest) → ∃ front, ts = front ++ rest ∧
        (∀ u, TypePhrase (front.map (·.kind)) u ↔ u = t) ∧ Longest TypePhrase ts front) ∧
      ∀ e, outcome = .error e → ∃ l message, e = .typeSyntax l message := by
  intro ctx outcome
  have hctx : ctx = ⟨source, text, ts, ⟨.eof, span, line, column⟩⟩ :=
    Context.ofTokens_of_eof rfl source text ts
  have hstop : ctx.stop.kind = .eof := by rw [hctx]
  have htokens : ctx.tokens = ts := by rw [hctx]
  have houtcome : outcome = typeRef.run ctx ts := congrArg (typeRef.run ctx) htokens
  rcases reading_typeRef hstop ts with hreading | ⟨⟨l, message, herror⟩, hnone⟩
  · rw [← houtcome] at hreading
    generalize outcome = r at hreading
    refine ⟨⟨?_, fun hacceptable => ?_⟩, fun t rest hr => ?_, fun e hr => ?_⟩
    · rintro ⟨t, rest, rfl⟩
      exact hreading.acceptable
    · cases r with
      | ok o => exact ⟨o.1, o.2, rfl⟩
      | error e => exact absurd hacceptable hreading.not_acceptable
    · subst hr
      cases hreading with
      | complete split phrase longest => exact ⟨_, split, phrase, longest⟩
    · subst hr
      cases hreading with
      | broken => exact ⟨_, _, rfl⟩
  · rw [houtcome, herror]
    refine ⟨⟨?_, ?_⟩, ?_, fun e he => ⟨l, message, (Except.error.inj he).symm⟩⟩
    · rintro ⟨_, _, ⟨⟩⟩
    · rintro ⟨⟨ks, t, hks, ht⟩, -⟩
      exact absurd hks (hnone ks t ht)
    · rintro _ _ ⟨⟩

/-- Types in which the brackets behind `ARRAY` have a size in them. -/
def SizedPhrase (ks : List Kind) (t : TypeRef) : Prop :=
  TypePhrase ks t ∧ ¬ [.keyword .ARRAY, .leftBracket, .rightBracket] <:+ ks

/-- The brackets behind `ARRAY` need no size. -/
theorem typeRef_accepts_empty_array :
    let ts : List Token := [⟨.identifier "int", ⟨0, 3⟩, 1, 1⟩, ⟨.keyword .ARRAY, ⟨4, 9⟩, 1, 5⟩,
      ⟨.leftBracket, ⟨9, 10⟩, 1, 10⟩, ⟨.rightBracket, ⟨10, 11⟩, 1, 11⟩]
    let ctx := Context.ofTokens anonymousSource "int ARRAY[]".toList (ts ++ [⟨.eof, ⟨11, 11⟩, 1, 12⟩])
    typeRef.run ctx ctx.tokens = .ok (⟨none, "int", none, none, [none]⟩, []) ∧
      ¬ Acceptable SizedPhrase (ts.map (·.kind)) := by
  refine ⟨rfl, fun hall => ?_⟩
  have hfront : SizedPhrase [.identifier "int", .keyword .ARRAY] ⟨none, "int", none, none, [none]⟩ :=
    ⟨.name rfl (.plain (.plain .array)), by decide⟩
  have hmore : SizedPhrase
      [.identifier "int", .keyword .ARRAY, .leftBracket, .number "3", .rightBracket]
      ⟨none, "int", none, none, [some 3]⟩ :=
    ⟨.name rfl (.plain (.plain (.bounded (.sized ⟨"3", rfl, by decide, by simp, rfl⟩)))), by decide⟩
  obtain ⟨more, t, hpre, hphrase, hsized⟩ := hall.2 [.identifier "int", .keyword .ARRAY] .leftBracket
    [.rightBracket] rfl ⟨_, hfront⟩ rfl ⟨_, _, hmore⟩
  rcases List.prefix_cons_iff.1 hpre with rfl | ⟨us, rfl, hus⟩
  · cases hphrase with
    | name _ rest =>
      cases rest with
      | plain rest =>
        cases rest with
        | plain rest =>
          obtain ⟨⟨⟩, -⟩ | ⟨_, _, ⟨⟩, -, ⟨⟩⟩ := rest.of_array
    | folded _ pair => simp [foldedNames] at pair
  · obtain rfl := List.prefix_nil.1 hus
    exact hsized ⟨[.identifier "int"], rfl⟩

end Parser

end DdlCatalog.Grammar
