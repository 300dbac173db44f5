import DdlCatalog.Proofs.Grammar.Forward
import DdlCatalog.Proofs.Grammar.Recapture
import DdlCatalog.Proofs.Token.Row

/-! # Placeholders of prepared statements
The parameters of a prepared statement are the placeholders of its query, each once, and the text of the
query has the same placeholders. -/

namespace DdlCatalog.Grammar

open Token (Kind Keyword)

section FirstUses

variable {α : Type} [DecidableEq α]

theorem firstUses_filter (p : α → Bool) (as : List α) :
    firstUses (as.filter p) = (firstUses as).filter p := by
  induction as with
  | nil => rfl
  | cons a as ih =>
    by_cases ha : p a = true
    · rw [List.filter_cons_of_pos ha, firstUses, firstUses, List.filter_cons_of_pos ha, ih,
        List.filter_comm]
    · rw [List.filter_cons_of_neg ha, ih, firstUses, List.filter_cons_of_neg ha, List.filter_filter]
      refine List.filter_congr fun b _ => ?_
      by_cases hb : b = a
      · simp [hb, ha]
      · simp [hb]

/-- What is met first is kept, and in its order. -/
theorem firstUses_eq_eraseDups (as : List α) : firstUses as = as.eraseDups := by
  induction hn : as.length using Nat.strong_induction_on generalizing as with
  | _ n ih =>
    cases as with
    | nil => rfl
    | cons a as =>
      have hshorter : (as.filter fun b => !b == a).length < n := by
        have hle := List.length_filter_le (fun b => !b == a) as
        rw [← hn, List.length_cons]
        omega
      rw [List.eraseDups_cons, ← ih _ hshorter _ rfl, firstUses_filter, firstUses]
      congr 2
      funext b
      rw [decide_not, beq_eq_decide]

end FirstUses

def placeholdersOf (ts : List Token) : List Placeholder := ts.filterMap Placeholder.ofToken?

def namedOf (ts : List Token) : List String := (placeholdersOf ts).filterMap (·.name?)

def positionalOf (ts : List Token) : List UInt32 := (placeholdersOf ts).filterMap (·.number?)

/-- The first placeholder that is not of the kind of those in front of it. -/
def Strays (query : List Token) (t : Token) : Prop :=
  ∃ front back p, query = front ++ t :: back ∧ Placeholder.ofToken? t = some p ∧
    placeholdersOf front ≠ [] ∧ ∀ q ∈ placeholdersOf front, q.isNamed ≠ p.isNamed

variable {query : List Token} {t : Token}

theorem placeholders_snd (query : List Token) :
    (placeholders query).map Prod.snd = placeholdersOf query := by
  unfold placeholders placeholdersOf
  rw [List.map_filterMap]
  congr 1
  funext t
  cases Placeholder.ofToken? t <;> rfl

theorem namedOf_eq_nil_iff :
    namedOf query = [] ↔ ∀ p ∈ placeholdersOf query, p.isNamed = false := by
  rw [namedOf, List.filterMap_eq_nil_iff]
  refine forall₂_congr fun p _ => ?_
  cases p <;> simp [Placeholder.name?, Placeholder.isNamed]

theorem positionalOf_eq_nil_iff :
    positionalOf query = [] ↔ ∀ p ∈ placeholdersOf query, p.isNamed = true := by
  rw [positionalOf, List.filterMap_eq_nil_iff]
  refine forall₂_congr fun p _ => ?_
  cases p <;> simp [Placeholder.number?, Placeholder.isNamed]

theorem strays_of_strayPlaceholder? (h : strayPlaceholder? (placeholders query) = some t) :
    Strays query t := by
  unfold strayPlaceholder? at h
  split at h
  · cases h
  · next t₀ first rest hfound =>
    obtain ⟨⟨_, p⟩, hfind, rfl⟩ := Option.map_eq_some_iff.1 h
    obtain ⟨hp, as, bs, rfl, has⟩ := List.find?_eq_some_iff_append.1 hfind
    obtain ⟨before, behind, rfl, hbefore, hbehind⟩ := List.filterMap_eq_append_iff.1
      (hfound.trans (List.cons_append ..).symm)
    obtain ⟨between, u, back, rfl, hbetween, hu, -⟩ := List.filterMap_eq_cons_iff.1 hbehind
    obtain ⟨_, hp', heq⟩ := Option.map_eq_some_iff.1 hu
    obtain ⟨rfl, hsame⟩ := Prod.mk.inj heq
    rw [hsame] at hp'
    have hfront : placeholdersOf (before ++ between) = first :: as.map Prod.snd := by
      rw [← placeholders_snd, placeholders, List.filterMap_append, hbefore,
        List.filterMap_eq_nil_iff.2 hbetween]
      simp
    have hother : p.isNamed ≠ first.isNamed := of_decide_eq_true hp
    refine ⟨before ++ between, back, p, (List.append_assoc ..).symm, hp', by simp [hfront], ?_⟩
    rw [hfront]
    refine List.forall_mem_cons.2 ⟨hother.symm, fun q hq => ?_⟩
    obtain ⟨a, ha, rfl⟩ := List.mem_map.1 hq
    have hsame : a.2.isNamed = first.isNamed := by simpa using has a ha
    rw [hsame]
    exact hother.symm

/-- Placeholders are of two kinds if one of them strays. -/
theorem Strays.both (h : Strays query t) : namedOf query ≠ [] ∧ positionalOf query ≠ [] := by
  obtain ⟨front, back, p, rfl, hp, hne, hfront⟩ := h
  obtain ⟨q, hq⟩ := List.exists_mem_of_ne_nil _ hne
  have hmem : p ∈ placeholdersOf (front ++ t :: back) ∧ q ∈ placeholdersOf (front ++ t :: back) := by
    constructor
    · exact List.mem_filterMap.2 ⟨t, by simp, hp⟩
    · rw [placeholdersOf, List.filterMap_append]
      exact List.mem_append_left _ hq
  rw [Ne, Ne, namedOf_eq_nil_iff, positionalOf_eq_nil_iff]
  exact ⟨fun h => hfront q hq ((h q hmem.2).trans (h p hmem.1).symm),
    fun h => hfront q hq ((h q hmem.2).trans (h p hmem.1).symm)⟩

theorem nil_of_strayPlaceholder? (h : strayPlaceholder? (placeholders query) = none) :
    namedOf query = [] ∨ positionalOf query = [] := by
  rw [namedOf_eq_nil_iff, positionalOf_eq_nil_iff, ← placeholders_snd]
  unfold strayPlaceholder? at h
  split at h
  · next hfound => exact .inl (by simp [hfound])
  · next t₀ first rest hfound =>
    rw [Option.map_eq_none_iff, List.find?_eq_none] at h
    have hsame : ∀ p ∈ ((t₀, first) :: rest).map Prod.snd, p.isNamed = first.isNamed := by
      rw [List.map_cons]
      refine List.forall_mem_cons.2 ⟨rfl, fun p hp => ?_⟩
      obtain ⟨a, ha, rfl⟩ := List.mem_map.1 hp
      simpa using h a ha
    rw [hfound]
    cases hfirst : first.isNamed with
    | false => exact .inl (hfirst ▸ hsame)
    | true => exact .inr (hfirst ▸ hsame)

namespace Parser

variable {ctx : Context} {ts : List Token}

def prepareHeader : Parser (ObjectName × List TypeRef) := do
  expectKeyword .PREPARE
  let name ← objectName
  let types ← parameterTypes
  expectKeyword .AS
  return (name, types)

/-- What a prepared statement with the given header and query is. -/
def preparedStatement (name : ObjectName) (types : List TypeRef) (ctx : Context) (query : List Token) :
    Except Error Prepare :=
  match strayPlaceholder? (placeholders query) with
  | some t => .error
      (.parse (ctx.locate t) s!"prepared statement {name} mixes :name and $n placeholders")
  | none => .ok ⟨name, types, preparedParameters (placeholdersOf query), ctx.textOf query⟩

theorem run_preparedQuery {name : ObjectName} {types : List TypeRef} (hne : query ≠ [])
    (heof : ∀ t ∈ query, t.kind ≠ .eof) :
    (do let (body, ps) ← preparedQuery name; return ⟨name, types, ps, body⟩ : Parser Prepare).run
        ctx query = (preparedStatement name types ctx query).map (·, []) := by
  have htoEnd : toEnd.run ctx query = .ok (query, []) := by
    have hall : query.takeWhile (·.kind ≠ .eof) = query :=
      List.takeWhile_eq_self_iff.2 fun t ht => decide_eq_true (heof t ht)
    unfold run toEnd
    rw [hall]
    simp [take, Except.map]
  have hquery : (preparedQuery name).run ctx query =
      (match strayPlaceholder? (placeholders query) with
        | some t => errorAt (ctx.locate t)
            s!"prepared statement {name} mixes :name and $n placeholders"
        | none => Pure.pure (ctx.textOf query, preparedParameters ((placeholders query).map Prod.snd)) :
        Parser (String × PreparedParameters)).run ctx [] :=
    (run_bind_of_ok htoEnd).trans
      (congrArg (fun p : Parser _ => p.run ctx []) (if_neg (by simpa using hne)))
  rw [run_bind, hquery, placeholders_snd, preparedStatement]
  cases strayPlaceholder? (placeholders query) <;> rfl

/-- A header that is read leaves the query, and nothing else has to be read. -/
theorem run_statement_prepare {name : ObjectName} {types : List TypeRef} (hstop : ctx.stop.kind = .eof)
    (heof : ∀ t ∈ ts, t.kind ≠ .eof) (hheader : prepareHeader.run ctx ts = .ok ((name, types), query))
    (hne : query ≠ []) :
    statement.run ctx ts = (preparedStatement name types ctx query).map (.prepare ·, []) := by
  have hquery : ∀ t ∈ query, t.kind ≠ .eof := fun t ht =>
    heof t ((suffix_of_run hheader).subset ht)
  obtain ⟨⟨⟩, mid₁, hword, hmore⟩ := run_bind_ok hheader
  obtain ⟨_, mid₂, hname, hmore⟩ := run_bind_ok hmore
  obtain ⟨_, mid₃, htypes, hmore⟩ := run_bind_ok hmore
  obtain ⟨⟨⟩, mid₄, has, hmore⟩ := run_bind_ok hmore
  rw [run_pure] at hmore
  cases hmore
  have hprepare : prepare.run ctx ts = (preparedStatement name types ctx query).map (·, []) := by
    rw [prepare, run_bind_of_ok hword, run_bind_of_ok hname, run_bind_of_ok htypes,
      run_bind_of_ok has]
    exact run_preparedQuery hne hquery
  have hfirst : (ctx.current ts).kind = .keyword .PREPARE := by
    obtain ⟨b, mid, haccept, hend⟩ := run_bind_ok hword
    rcases run_accept hstop (by simp) haccept with ⟨rfl, t, rfl, ht⟩ | ⟨rfl, -⟩
    · exact ht
    · cases hend
  have hany : anyStatement.run ctx ts =
      (preparedStatement name types ctx query).map (.prepare ·, []) := by
    rw [anyStatement, run_bind_of_ok run_current, hfirst]
    show (prepare >>= fun s => Pure.pure (Statement.prepare s)).run ctx ts = _
    rw [run_bind, hprepare]
    cases preparedStatement name types ctx query <;> rfl
  rw [statement, run_bind, hany]
  cases preparedStatement name types ctx query with
  | error e => rfl
  | ok s =>
    have hend : atEnd.run ctx [] = .ok (true, []) := by
      show Except.ok (decide (ctx.stop.kind = .eof), []) = _
      rw [decide_eq_true hstop]
    exact run_bind_of_ok hend

end Parser

theorem exists_tokens_of_suffix {ctx : Context} (hctx : ctx.InText) (hquery : query <:+ ctx.tokens)
    (hne : query ≠ []) (source : String) :
    ∃ tokens, Token.tokenize source (ctx.textOf query).toList = .ok tokens ∧
      tokens.map (·.kind) = query.map (·.kind) ++ [.eof] := by
  have hwhole : query ++ [] <:+ ctx.tokens := by rwa [List.append_nil]
  have hexcerpt : Excerpt ctx query := .of_suffix hwhole hne
    (.clear (by rw [Context.current, List.headD_nil, hctx.stop]; rfl))
  obtain ⟨C, -, hrows, -, htokens, htext⟩ := hexcerpt.exists_cut hctx
  refine ⟨C.part.tokens ++ [C.part.stop], ?_, ?_⟩
  · rw [htext, String.toList_ofList, Token.tokenize, Token.tokens_of_tokenize htokens]
    rfl
  · rw [List.map_append, List.map_singleton, C.stop_part,
      Token.map_kind_of_moves (hrows.imp fun _ _ h => h.toMoves)]

theorem placeholdersOf_congr {ts us : List Token} (h : ts.map (·.kind) = us.map (·.kind) ++ [.eof]) :
    placeholdersOf ts = placeholdersOf us := by
  let ofKind? (k : Kind) : Option Placeholder := Placeholder.ofToken? ⟨k, ⟨0, 0⟩, 0, 0⟩
  have hofKind (vs : List Token) : placeholdersOf vs = (vs.map (·.kind)).filterMap ofKind? := by
    rw [List.filterMap_map]
    rfl
  rw [hofKind, hofKind, h, List.filterMap_append]
  exact List.append_nil _

/-- The parameters are of the kind of the placeholders, and each of these is among them once. -/
theorem preparedParameters_eq (query : List Token) :
    preparedParameters (placeholdersOf query) =
      if namedOf query ≠ [] then .named (namedOf query).eraseDups
      else if positionalOf query ≠ [] then .positional (positionalOf query).eraseDups
      else .none := by
  have hnamed : (placeholdersOf query).filterMap (·.name?) = namedOf query := rfl
  have hpositional : (placeholdersOf query).filterMap (·.number?) = positionalOf query := rfl
  rw [preparedParameters, hnamed, hpositional, ← firstUses_eq_eraseDups, ← firstUses_eq_eraseDups]
  cases namedOf query <;> cases positionalOf query <;> rfl

/-- A prepared statement with placeholders of both kinds is rejected at the first that differs from those
in front of it. Any other takes its placeholders as parameters, each where it is met first, and its text
has them too. -/
theorem parseRaw_prepare {source : String} {text : List Char} {raws : List RawStatement}
    {raw : RawStatement} {name : ObjectName} {types : List TypeRef}
    (hsplit : splitText source text = .ok raws) (hraw : raw ∈ raws)
    (hheader : Parser.prepareHeader.run ⟨source, text, raw.tokens, raw.stop⟩ raw.tokens =
      .ok ((name, types), query)) (hne : query ≠ []) :
    (namedOf query ≠ [] → positionalOf query ≠ [] → ∃ t, Strays query t ∧
      parseRaw source text raw = .error
        (.parse (t.location source) s!"prepared statement {name} mixes :name and $n placeholders")) ∧
    (namedOf query = [] ∨ positionalOf query = [] → ∃ parameters body,
      parseRaw source text raw = .ok ⟨.prepare ⟨name, types, parameters, body⟩,
        String.ofList (raw.text text), raw.first.location source⟩ ∧
      (namedOf query ≠ [] → parameters = .named (namedOf query).eraseDups) ∧
      (positionalOf query ≠ [] → parameters = .positional (positionalOf query).eraseDups) ∧
      (namedOf query = [] → positionalOf query = [] → parameters = .none) ∧
      ∀ source', ∃ tokens, Token.tokenize source' body.toList = .ok tokens ∧
        placeholdersOf tokens = placeholdersOf query) := by
  obtain ⟨before, stop, after, htokens, htogether, hstops⟩ := exists_stop_of_splitText hsplit hraw
  have hstop := hstops.kind_stop
  have hrun := Parser.run_statement_prepare hstop (StaysTogether.kinds htogether) hheader hne
  rw [parseRaw_eq hstop, hrun]
  cases hstray : strayPlaceholder? (placeholders query) with
  | some t =>
    have hstrays := strays_of_strayPlaceholder? hstray
    refine ⟨fun _ _ => ⟨t, hstrays, by rw [Parser.preparedStatement, hstray]; rfl⟩, ?_⟩
    rintro (hnil | hnil)
    · exact absurd hnil hstrays.both.1
    · exact absurd hnil hstrays.both.2
  | none =>
    refine ⟨fun hnamed hpositional => ?_, fun hkinds => ?_⟩
    · exact ((nil_of_strayPlaceholder? hstray).elim hnamed hpositional).elim
    · have hctx : (Context.mk source text raw.tokens raw.stop).InText :=
        ⟨⟨before, stop, after, htokens, hstops.startsClear⟩, hstop⟩
      refine ⟨preparedParameters (placeholdersOf query), _,
        by rw [Parser.preparedStatement, hstray]; rfl, ?_, ?_, ?_, fun source' => ?_⟩
      · intro hnamed
        rw [preparedParameters_eq, if_pos hnamed]
      · intro hpositional
        have hnamed : namedOf query = [] := hkinds.resolve_right hpositional
        rw [preparedParameters_eq, if_neg (by simp [hnamed]), if_pos hpositional]
      · intro hnamed hpositional
        rw [preparedParameters_eq, if_neg (by simp [hnamed]), if_neg (by simp [hpositional])]
      · obtain ⟨tokens, htokens', hsame⟩ :=
          exists_tokens_of_suffix hctx (Parser.suffix_of_run hheader) hne source'
        exact ⟨tokens, htokens', placeholdersOf_congr hsame⟩

/-- The first of the other kind is behind two of the same kind. -/
example : (match parseSource "a.sql" "PREPARE p AS select $1, $2, :a, $3, :b" with
    | .error e => e.location?
    | .ok _ => none) = some ⟨"a.sql", 28, 1, 29⟩ := by decide +kernel

/-- A query with a cast, a string and a comment, in which a placeholder is repeated. -/
def preparedText : String :=
  "PREPARE s.find (int) AS select * from t where a = :b and c = :a::text and d <> ':c' /* :d */ or e > :b;"

theorem parseRaw_prepare_repeated : ∃ raw query body,
    splitText "a.sql" preparedText.toList = .ok [raw] ∧
    Parser.prepareHeader.run ⟨"a.sql", preparedText.toList, raw.tokens, raw.stop⟩ raw.tokens =
      .ok ((⟨some "s", "find"⟩, [.ofName "int"]), query) ∧
    query ≠ [] ∧ namedOf query = ["b", "a", "b"] ∧ positionalOf query = [] ∧
    parseRaw "a.sql" preparedText.toList raw =
      .ok ⟨.prepare ⟨⟨some "s", "find"⟩, [.ofName "int"], .named ["b", "a"], body⟩,
        String.ofList (raw.text preparedText.toList), raw.first.location "a.sql"⟩ ∧
    ∀ source', ∃ tokens, Token.tokenize source' body.toList = .ok tokens ∧
      placeholdersOf tokens = placeholdersOf query := by
  have hoption : (splitText "a.sql" preparedText.toList).toOption.map (·.map fun raw =>
      (Parser.prepareHeader.run ⟨"a.sql", preparedText.toList, raw.tokens, raw.stop⟩
        raw.tokens).toOption.map fun o => decide (o.1 = (⟨some "s", "find"⟩, [.ofName "int"]) ∧
          o.2 ≠ [] ∧ namedOf o.2 = ["b", "a", "b"] ∧ positionalOf o.2 = [])) =
      some [some true] := by decide +kernel
  obtain ⟨raws, hsplit, hraws⟩ := exists_ok_of_map_toOption hoption
  obtain ⟨raw, rfl, hraw⟩ := List.map_eq_singleton_iff.1 hraws
  obtain ⟨⟨header, query⟩, hheader, hquery⟩ := exists_ok_of_map_toOption hraw
  obtain ⟨rfl, hne, hnamed, hpositional⟩ := of_decide_eq_true hquery
  obtain ⟨parameters, body, hparsed, hnames, -, -, htokens⟩ :=
    (parseRaw_prepare hsplit (List.mem_singleton_self raw) hheader hne).2 (.inr hpositional)
  have hparameters : parameters = .named ["b", "a"] := by
    rw [hnames (by simp [hnamed]), hnamed]
    rfl
  exact ⟨raw, query, body, hsplit, hheader, hne, hnamed, hpositional, hparameters ▸ hparsed, htokens⟩

end DdlCatalog.Grammar
