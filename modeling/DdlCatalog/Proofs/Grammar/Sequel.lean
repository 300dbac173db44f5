import DdlCatalog.Proofs.Grammar.Parameters
import DdlCatalog.Proofs.Grammar.SharedElements

/-! # Indexes that go on with a predicate
A statement of an index ends where another one goes on with `WHERE`. Nothing that is read in front
of a predicate looks for that word, so the second statement is read like the first one up to it. -/

namespace DdlCatalog.Grammar

open Token (Kind Keyword)
open Fork (Never)

/-- The end of a statement, and the word that goes on behind it. -/
@[reducible] def endsOrGoesOn : Kind → Bool
  | .eof | .keyword .WHERE => true
  | _ => false

/-- A statement, and one of the same text that has a predicate behind it. -/
structure Sequel where
  here : Context
  there : Context
  word : Token
  rest : List Token
  kind_word : word.kind = .keyword .WHERE
  stop_here : here.stop.kind = .eof
  stop_there : there.stop.kind = .eof
  source_eq : here.source = there.source
  text_eq : here.text = there.text

namespace Sequel

variable {α β : Type} {K : Sequel} {p : Parser α} {ts us : List Token} {kind : Kind}

/-- What stands behind the end of the first statement in the second one. -/
def behind (K : Sequel) : List Token := K.word :: K.rest

/-- What the parser reads of the first statement it reads of the second one. Instances follow the
way parsers are made. -/
class Keeps (K : Sequel) (p : Parser α) : Prop where
  read : ∀ ⦃ts us : List Token⦄ ⦃a : α⦄, p.run K.here ts = .ok (a, us) →
    p.run K.there (ts ++ K.behind) = .ok (a, us ++ K.behind)

theorem stop_ne [h : Never (endsOrGoesOn kind)] : K.here.stop.kind ≠ kind := by
  rintro rfl
  rw [K.stop_here] at h
  cases h.eq_false

theorem word_ne [h : Never (endsOrGoesOn kind)] : K.word.kind ≠ kind := by
  rintro rfl
  rw [K.kind_word] at h
  cases h.eq_false

instance keeps_pure (a : α) : K.Keeps (pure a) where
  read := by
    intro ts us b h
    obtain ⟨rfl, rfl⟩ := Prod.mk.inj (Except.ok.inj h)
    rfl

/-- The same value without the notation of monads. -/
instance keeps_pure' (a : α) : K.Keeps (Parser.pure a) := keeps_pure a

theorem keeps_next {f : α → Parser β} [hp : K.Keeps p] (hf : ∀ a, K.Keeps (f a)) :
    K.Keeps (p >>= f) where
  read := by
    intro ts us b h
    obtain ⟨a, mid, ha, hb⟩ := Parser.run_bind_ok h
    exact (Parser.run_bind_of_ok (hp.read ha)).trans ((hf a).read hb)

instance keeps_bind {f : α → Parser β} [K.Keeps p] [hf : ∀ a, K.Keeps (f a)] :
    K.Keeps (p >>= f) :=
  keeps_next hf

instance keeps_map {f : α → β} [K.Keeps p] : K.Keeps (f <$> p) :=
  keeps_bind (f := fun a => pure (f a))

instance keeps_discard [K.Keeps p] : K.Keeps (discard p) :=
  keeps_bind (f := fun _ => (pure PUnit.unit : Parser PUnit))

instance keeps_ite {c : Prop} [Decidable c] {q : Parser α} [K.Keeps p] [K.Keeps q] :
    K.Keeps (if c then p else q) := by
  split <;> infer_instance

instance keeps_error (message : String) : K.Keeps (Parser.error message : Parser α) := ⟨nofun⟩

instance keeps_expected (what : String) : K.Keeps (Parser.expected what : Parser α) := ⟨nofun⟩

instance keeps_at? [Never (endsOrGoesOn kind)] : K.Keeps (Parser.at? kind) where
  read := by
    intro ts us b h
    have hat (ctx : Context) (ts : List Token) :
        (Parser.at? kind).run ctx ts = .ok (decide ((ctx.current ts).kind = kind), ts) := rfl
    rw [hat] at h ⊢
    obtain ⟨rfl, rfl⟩ := Prod.mk.inj (Except.ok.inj h)
    cases ts with
    | nil =>
      have hhere : (K.here.current []).kind ≠ kind := stop_ne
      have hthere : (K.there.current K.behind).kind ≠ kind := word_ne
      rw [List.nil_append, decide_eq_false hhere, decide_eq_false hthere]
    | cons t ts => rfl

instance keeps_atKeyword {k : Keyword} [Never (endsOrGoesOn (.keyword k))] :
    K.Keeps (Parser.atKeyword k) :=
  inferInstanceAs (K.Keeps (Parser.at? (.keyword k)))

instance keeps_accept [h : Never (endsOrGoesOn kind)] : K.Keeps (Parser.accept kind) where
  read := by
    intro ts us b hrun
    have hkind : kind ≠ .eof := by
      rintro rfl
      cases h.eq_false
    rcases Parser.run_accept K.stop_here hkind hrun with ⟨rfl, t, rfl, hk⟩ | ⟨rfl, rfl⟩
    · exact Parser.run_accept_of_eq hk
    · refine Parser.run_accept_of_ne ?_
      cases us with
      | nil => exact word_ne
      | cons t us =>
        rintro hk
        rw [Parser.run_accept_of_eq (show t.kind = kind from hk)] at hrun
        cases hrun

instance keeps_acceptKeyword {k : Keyword} [K.Keeps (Parser.accept (.keyword k))] :
    K.Keeps (Parser.acceptKeyword k) :=
  ‹_›

instance keeps_expect [K.Keeps (Parser.accept kind)] : K.Keeps (Parser.expect kind) := by
  unfold Parser.expect
  infer_instance

instance keeps_expectKeyword {k : Keyword} [K.Keeps (Parser.acceptKeyword k)] :
    K.Keeps (Parser.expectKeyword k) := by
  unfold Parser.expectKeyword
  infer_instance

instance keeps_name : K.Keeps Parser.name where
  read := by
    intro ts us a h
    obtain ⟨t, rfl, ht⟩ := Parser.run_name K.stop_here h
    exact Parser.run_name_of_some ht

/-- A parser that looks at the token in front. At the end it is as if the word were there. -/
theorem keeps_front {f : Token → Parser β} (hf : ∀ t, K.Keeps (f t))
    (hword : f K.word = f K.here.stop) : K.Keeps (Parser.current >>= f) where
  read := by
    intro ts us b h
    rw [Parser.run_bind_of_ok Parser.run_current] at h ⊢
    cases ts with
    | nil =>
      have hend := (hf K.here.stop).read h
      rw [← hword] at hend
      exact hend
    | cons t ts => exact (hf t).read h

/-- A parser that looks at the token behind the one in front, which has to be there. -/
theorem keeps_following {f : Token → Parser β} (hf : ∀ t, K.Keeps (f t))
    (hword : f K.word = f K.here.stop) (hend : ∀ o, (f K.here.stop).run K.here [] ≠ .ok o) :
    K.Keeps (Parser.following >>= f) where
  read := by
    intro ts us b h
    have hnext (ctx : Context) (ts : List Token) :
        Parser.following.run ctx ts = .ok (ctx.current ts.tail, ts) := rfl
    rw [Parser.run_bind_of_ok (hnext ..)] at h ⊢
    match ts with
    | [] => exact absurd h (hend _)
    | [t] =>
      have hlast := (hf K.here.stop).read h
      rw [← hword] at hlast
      exact hlast
    | t :: u :: ts => exact (hf u).read h

open DdlCatalog.Grammar.Parser

theorem run_takeMeasured_of_ok {ctx : Context} {message : String} {n : Nat}
    {measure : Context → List Token → Except Token Nat} (h : measure ctx ts = .ok n) :
    (takeMeasured message measure).run ctx ts = .ok (ts.take n, ts.drop n) := by
  unfold Parser.run takeMeasured
  rw [h]
  rfl

theorem keeps_takeMeasured {message : String} {measure : Context → List Token → Except Token Nat}
    (h : ∀ ts n, measure K.here ts = .ok n →
      n ≤ ts.length ∧ measure K.there (ts ++ K.behind) = .ok n) :
    K.Keeps (takeMeasured message measure) where
  read := by
    intro ts us taken hrun
    obtain ⟨n, hn, rfl, rfl⟩ := run_takeMeasured hrun
    obtain ⟨hle, hthere⟩ := h ts n hn
    rw [run_takeMeasured_of_ok hthere, List.take_append_of_le_length hle,
      List.drop_append_of_le_length hle]

theorem groupLength_append {stop stop' : Token} {depth n : Nat}
    (h : groupLength stop depth ts = .ok n) (more : List Token) :
    n ≤ ts.length ∧ groupLength stop' depth (ts ++ more) = .ok n := by
  induction ts generalizing depth n with
  | nil => cases h
  | cons t ts ih =>
    rw [List.cons_append]
    rcases groupLength_cons h with ⟨hk, rfl, rfl⟩ | ⟨m, d, rfl, hinside, hmore⟩
    · exact ⟨by simp, by simp [groupLength, hk]⟩
    · obtain ⟨hle, hlength⟩ := ih hmore
      rw [hinside.groupLength_eq, hlength]
      exact ⟨Nat.succ_le_succ hle, rfl⟩

instance keeps_group : K.Keeps group := by
  have hmeasured : K.Keeps
      (takeMeasured "unbalanced parentheses" fun ctx ts => groupLength ctx.stop 0 ts) :=
    keeps_takeMeasured fun ts n h => groupLength_append h K.behind
  unfold group
  infer_instance

instance keeps_taking [hp : K.Keeps p] : K.Keeps (taking p) where
  read := by
    intro ts us o h
    obtain ⟨taken, a⟩ := o
    obtain ⟨ha, rfl⟩ := run_taking_ok h
    have hlength : (ts ++ K.behind).length - (us ++ K.behind).length = ts.length - us.length := by
      simp only [List.length_append]
      omega
    rw [run_taking, hp.read ha]
    dsimp only [Except.map]
    rw [hlength, List.take_append_of_le_length (Nat.sub_le ..)]

instance keeps_express : K.Keeps (express us) where
  read := by
    intro ts vs e h
    have hrun (ctx : Context) (ts : List Token) :
        (express us).run ctx ts = .ok (ctx.expression us, ts) := rfl
    have hexpression : K.here.expression us = K.there.expression us := by
      unfold Context.expression Context.textOf
      rw [K.text_eq]
    rw [hrun] at h ⊢
    obtain ⟨rfl, rfl⟩ := Prod.mk.inj (Except.ok.inj h)
    rw [hexpression]

/-- An expression between parentheses ends in front of the second one. -/
instance keeps_groupedExpression : K.Keeps groupedExpression := by
  have hinner : K.Keeps (do let e ← expression neverStops; expect .rightParen; return e) := by
    refine ⟨fun ts us e h => ?_⟩
    obtain ⟨x, mid, hx, hmore⟩ := run_bind_ok h
    obtain ⟨vs, _, hvs, hexpress⟩ := run_bind_ok hx
    obtain ⟨⟨⟩, left, hexpect, -⟩ := run_bind_ok hmore
    obtain rfl := (Prod.mk.inj (Except.ok.inj hexpress)).2
    obtain ⟨r, rfl, hr⟩ := run_expect K.stop_here (by simp) hexpect
    obtain ⟨hne, rfl, hlength⟩ := run_expressionTokens_iff.1 hvs
    have htake := (expressionLength_take hlength K.there.stop none).2
    rw [List.take_left] at htake
    have hthere : (expression neverStops).run K.there (vs ++ (r :: left) ++ K.behind) =
        .ok (x, r :: left ++ K.behind) := by
      have hlength' : expressionLength neverStops K.there.stop none 0
          (vs ++ (r :: left) ++ K.behind) = .ok vs.length := by
        rw [List.append_assoc]
        refine expressionLength_append htake fun previous => ?_
        rw [List.cons_append]
        unfold expressionLength
        rw [hr]
      have htokens := run_expressionTokens_iff.2 ⟨hne, List.append_assoc .., hlength'⟩
      exact (run_bind_of_ok htokens).trans (keeps_express.read hexpress)
    have hclose : K.Keeps (do expect .rightParen; return x) := inferInstance
    exact (run_bind_of_ok hthere).trans (hclose.read hmore)
  unfold groupedExpression
  infer_instance

theorem Keeps.listed (hp : K.Keeps p) {as : List α} (h : Listed p K.here ts as us) :
    Listed p K.there (ts ++ K.behind) as (us ++ K.behind) := by
  induction h with
  | nil => exact .nil _
  | cons first separator _ ih => exact .cons (hp.read first) separator ih

instance keeps_commaList [hp : K.Keeps p] : K.Keeps (commaList p) where
  read := by
    intro ts us as h
    obtain ⟨bs, a, mid, hlisted, hlast, hend, rfl⟩ := run_commaList_iff.1 h
    refine run_commaList_iff.2 ⟨bs, a, _, hp.listed hlisted, hp.read hlast, ?_, rfl⟩
    cases us with
    | nil =>
      rintro t ⟨⟩
      exact word_ne
    | cons t us => exact hend

instance keeps_nameList : K.Keeps nameList := by
  unfold nameList
  infer_instance

instance keeps_ifNotExists : K.Keeps ifNotExists := by
  unfold ifNotExists
  infer_instance

instance keeps_nullsNotDistinct : K.Keeps nullsNotDistinct := by
  unfold nullsNotDistinct
  infer_instance

instance keeps_objectName : K.Keeps objectName := by
  unfold objectName
  infer_instance

instance keeps_accessMethod : K.Keeps accessMethod := by
  unfold accessMethod
  infer_instance

instance keeps_indexName (present : Bool) : K.Keeps (indexName present) := by
  unfold indexName
  infer_instance

instance keeps_callTokens : K.Keeps callTokens := by
  have htaken : K.Keeps (taking do
      discard Parser.name
      if ← accept .dot then discard Parser.name
      group) := inferInstance
  unfold callTokens
  exact keeps_next fun ⟨_, _⟩ => inferInstance

/-- A call and a column are told apart by the token behind the name, which is not the word. -/
instance keeps_indexKey : K.Keeps indexKey := by
  unfold indexKey
  have hcolumn : K.Keeps (do
      let (ts, column) ← taking Parser.name
      return (← express ts, some column)) := keeps_next fun ⟨_, _⟩ => inferInstance
  have hname : K.Keeps (do
      let next := (← following).kind
      if next = .leftParen ∨ next = .dot then
        return (← express (← callTokens), none)
      else
        let (ts, column) ← taking Parser.name
        return (← express ts, some column)) := by
    refine keeps_following (fun t => ?_) ?_ fun o h => ?_
    · dsimp only
      infer_instance
    · simp [K.kind_word, K.stop_here]
    · have hplain : ¬(K.here.stop.kind = .leftParen ∨ K.here.stop.kind = .dot) := by
        simp [K.stop_here]
      dsimp only at h
      rw [if_neg hplain] at h
      obtain ⟨⟨taken, column⟩, mid, htaken, -⟩ := run_bind_ok h
      obtain ⟨t, hnil, -⟩ := run_name K.stop_here (run_taking_ok htaken).1
      cases hnil
  infer_instance

instance keeps_collation : K.Keeps collation := by
  unfold collation
  infer_instance

instance keeps_operatorClass : K.Keeps operatorClass := by
  unfold operatorClass
  refine keeps_front (fun t => ?_) ?_
  · split <;> infer_instance
  · rw [K.kind_word, K.stop_here]

instance keeps_sortOrder : K.Keeps sortOrder := by
  unfold sortOrder
  infer_instance

instance keeps_nullsOrder : K.Keeps nullsOrder := by
  unfold nullsOrder
  infer_instance

instance keeps_indexElement : K.Keeps indexElement := by
  unfold indexElement
  exact keeps_next fun ⟨_, _⟩ => inferInstance

instance keeps_modifiers : K.Keeps modifiers := by
  unfold modifiers orReplace temporary
  infer_instance

variable {R : α → α → Prop} {S : β → β → Prop} {x : Expression}

/-- What reads the first statement to its end reads the second one to its end as well, with the
values that are related to those of the first. -/
def Leads (K : Sequel) (R : α → α → Prop) (p : Parser α) : Prop :=
  ∀ ⦃ts : List Token⦄ ⦃a b : α⦄, p.run K.here ts = .ok (a, []) → R a b →
    p.run K.there (ts ++ K.behind) = .ok (b, [])

theorem leads_bind {f : α → Parser β} [hp : K.Keeps p] (hf : ∀ a, K.Leads S (f a)) :
    K.Leads S (p >>= f) := by
  intro ts b b' h hb
  obtain ⟨a, mid, ha, hmore⟩ := run_bind_ok h
  exact (run_bind_of_ok (hp.read ha)).trans (hf a hmore hb)

theorem leads_ite {c : Prop} [Decidable c] {q : Parser α} (hp : K.Leads R p) (hq : K.Leads R q) :
    K.Leads R (if c then p else q) := by
  split
  · exact hp
  · exact hq

theorem leads_error (message : Token → String) :
    K.Leads R (do error (message (← current)) : Parser α) := by
  intro ts a b h
  rw [run_bind_of_ok run_current] at h
  cases h

theorem leads_map {g : α → β} (hp : K.Leads R p)
    (hg : ∀ a b', S (g a) b' → ∃ b, R a b ∧ b' = g b) : K.Leads S (do return g (← p)) := by
  intro ts a b' h hb
  obtain ⟨a, mid, ha, hmore⟩ := run_bind_ok h
  obtain ⟨rfl, rfl⟩ := Prod.mk.inj (Except.ok.inj hmore)
  obtain ⟨b, hR, rfl⟩ := hg a b' hb
  exact run_bind_of_ok (hp ha hR)

theorem leads_unsupported (construct : Context → List Token → String) :
    K.Leads R (fun ctx ts => unsupported (construct ctx ts) ctx ts) := by
  intro ts a b h
  have hrun (ctx : Context) :
      Parser.run (fun ctx ts => unsupported (construct ctx ts) ctx ts : Parser α) ctx ts =
        .error (.unsupportedStatement (ctx.locate (ctx.current ctx.tokens)) (construct ctx ts)) := rfl
  rw [hrun] at h
  cases h

theorem leads_front {f : Token → Parser β} (hf : ∀ t, K.Leads S (f t))
    (hend : ∀ o, (f K.here.stop).run K.here [] ≠ .ok o) : K.Leads S (current >>= f) := by
  intro ts b b' h hb
  rw [run_bind_of_ok run_current] at h ⊢
  cases ts with
  | nil => exact absurd h (hend _)
  | cons t ts => exact hf t h hb

/-- An index without a predicate, and the same index with one. -/
structure Restricts (x : Expression) (s s' : CreateIndex) : Prop where
  none_before : s.predicate = none
  eq : s' = { s with predicate := some x }

/-- The predicate is where the second statement goes on. -/
theorem leads_predicate {make : Option Expression → CreateIndex}
    (hmake : ∀ o, make o = { make none with predicate := o })
    (hpredicate : predicate.run K.there K.rest = .ok (x, [])) :
    K.Leads (Restricts x) (do
      let o ← if ← acceptKeyword .WHERE then some <$> predicate else Pure.pure none
      return make o) := by
  intro ts s s' h hs
  obtain ⟨present, mid, hpresent, hmore⟩ := run_bind_ok h
  rcases run_accept K.stop_here (by simp) hpresent with ⟨rfl, -, -, -⟩ | ⟨rfl, hmid⟩
  · -- a statement with a predicate is not asked for
    obtain ⟨o, left, ho, hreturn⟩ := run_bind_ok hmore
    obtain ⟨e, left', -, hsome⟩ := run_bind_ok ho
    obtain ⟨rfl, rfl⟩ := Prod.mk.inj (Except.ok.inj hsome)
    obtain ⟨rfl, -⟩ := Prod.mk.inj (Except.ok.inj hreturn)
    have hnone := hs.none_before
    rw [hmake] at hnone
    cases hnone
  · have hnone : Except.ok (make none, mid) = (.ok (s, []) : Except Error _) := hmore
    obtain ⟨rfl, rfl⟩ := Prod.mk.inj (Except.ok.inj hnone)
    subst hmid
    have hsome : (some <$> predicate).run K.there K.rest = .ok (some x, []) :=
      run_bind_of_ok hpredicate
    rw [hs.eq.trans (hmake (some x)).symm]
    exact (run_choice_of_eq K.kind_word).trans (run_bind_of_ok hsome)

theorem leads_createIndex (hpredicate : predicate.run K.there K.rest = .ok (x, []))
    (unique : Bool) : K.Leads (Restricts x) (createIndex unique) := by
  unfold createIndex
  refine leads_bind fun _ => leads_bind fun concurrently => leads_bind fun present =>
    leads_bind fun name => leads_bind fun _ => leads_bind fun only => leads_bind fun table =>
    leads_bind fun method => leads_bind fun _ => leads_bind fun elements => leads_bind fun _ =>
    leads_bind fun includes => ?_
  have hnulls (included : List String) : K.Leads (Restricts x) (do
      let nulls ← nullsNotDistinct
      let predicate ← if ← acceptKeyword .WHERE then some <$> predicate else Pure.pure none
      return ⟨name, present, unique, concurrently, only, table, method, elements, included, nulls,
        predicate⟩) :=
    leads_bind fun nulls => leads_predicate (fun _ => rfl) hpredicate
  exact leads_ite (leads_bind hnulls) (leads_bind hnulls)

/-- An index as a statement, without a predicate and with one. -/
inductive RestrictsStatement (x : Expression) : Statement → Statement → Prop where
  | createIndex {s s' : CreateIndex} (index : Restricts x s s') :
    RestrictsStatement x (.createIndex s) (.createIndex s')

theorem leads_unlessModified {R : Statement → Statement → Prop} {p : Parser Statement}
    {modifier : String} {present : Bool} (hp : K.Leads R p) :
    K.Leads R (unlessModified modifier present p) :=
  leads_ite (leads_error _) hp

theorem leads_otherStatement {p : Parser α} {make : α → Statement}
    (hmake : ∀ a s, make a ≠ .createIndex s) :
    K.Leads (RestrictsStatement x) (do return make (← p)) := by
  rintro ts _ _ h ⟨_⟩
  obtain ⟨a, mid, -, hmore⟩ := run_bind_ok h
  exact absurd (Prod.mk.inj (Except.ok.inj hmore)).1 (hmake a _)

theorem leads_created (hpredicate : predicate.run K.there K.rest = .ok (x, [])) (m : Modifiers) :
    K.Leads (RestrictsStatement x) (created m) := by
  unfold created
  refine leads_front (fun t => ?_) fun o h => ?_
  · cases t.kind with
    | keyword k =>
      cases k with
      | SCHEMA => exact leads_unlessModified (leads_otherStatement (by simp))
      | TYPE => exact leads_unlessModified (leads_otherStatement (by simp))
      | TABLE => exact leads_unlessModified (leads_unlessModified (leads_otherStatement (by simp)))
      | VIEW | MATERIALIZED | RECURSIVE => exact leads_unlessModified (leads_otherStatement (by simp))
      | INDEX =>
        refine leads_unlessModified (leads_map (leads_createIndex hpredicate m.unique) ?_)
        rintro s _ ⟨hindex⟩
        exact ⟨_, hindex, rfl⟩
      | FUNCTION => exact leads_unlessModified (leads_otherStatement (by simp))
      | PROCEDURE => exact leads_unlessModified (leads_otherStatement (by simp))
      | _ => exact leads_unsupported ..
    | _ => exact leads_unsupported ..
  · rw [K.stop_here] at h
    cases h

theorem leads_anyStatement (hpredicate : predicate.run K.there K.rest = .ok (x, [])) :
    K.Leads (RestrictsStatement x) anyStatement := by
  unfold anyStatement
  refine leads_front (fun t => ?_) fun o h => ?_
  · cases t.kind with
    | keyword k =>
      cases k with
      | CREATE => exact leads_bind fun _ => leads_bind fun m => leads_created hpredicate m
      | PREPARE => exact leads_otherStatement (by simp)
      | _ => exact leads_unsupported ..
    | _ => exact leads_unsupported ..
  · rw [K.stop_here] at h
    cases h

/-- The statement of an index that goes on with a predicate is that of the index with the
predicate. -/
theorem leads_statement (hpredicate : predicate.run K.there K.rest = .ok (x, [])) :
    K.Leads (RestrictsStatement x) statement := by
  intro ts s s' h hs
  obtain ⟨s, mid, hany, hmore⟩ := run_bind_ok h
  obtain ⟨atEnd?, mid', hend, hreturn⟩ := run_bind_ok hmore
  cases hend
  split at hreturn
  · obtain ⟨rfl, rfl⟩ := Prod.mk.inj (Except.ok.inj hreturn)
    have hend : atEnd.run K.there [] = .ok (true, []) := by
      show Except.ok (decide (K.there.stop.kind = .eof), []) = _
      rw [decide_eq_true K.stop_there]
    rw [statement, run_bind_of_ok (leads_anyStatement hpredicate hany hs), run_bind_of_ok hend]
    rfl
  · cases hreturn

end Sequel

end DdlCatalog.Grammar
