import DdlCatalog.Proofs.Grammar.Bare
import DdlCatalog.Proofs.Grammar.Forward
import DdlCatalog.Proofs.Grammar.Repetition

/-! # Parsers that look at kinds only
Names and references are read alike wherever they stand, as long as the kinds of the tokens are the
same up to the end of the statement. -/

namespace DdlCatalog.Grammar

open Token (Kind Keyword)

/-- Rows of tokens of the same kinds, each up to the end of its statement. -/
structure SameKinds (ctx ctx' : Context) (ts ts' : List Token) : Prop where
  stop : ctx.stop.kind = ctx'.stop.kind
  kinds : ts.map (·.kind) = ts'.map (·.kind)

/-- What the parser reads it reads from every row of the same kinds. Instances follow the way parsers are
made. -/
class ByKinds {α : Type} (p : Parser α) : Prop where
  read : ∀ ⦃ctx ctx' : Context⦄ ⦃ts ts' us : List Token⦄ ⦃a : α⦄, SameKinds ctx ctx' ts ts' →
    p.run ctx ts = .ok (a, us) → ∃ us', p.run ctx' ts' = .ok (a, us') ∧ SameKinds ctx ctx' us us'

namespace SameKinds

variable {ctx ctx' : Context} {ts ts' : List Token} {t : Token}

theorem current (h : SameKinds ctx ctx' ts ts') : (ctx.current ts).kind = (ctx'.current ts').kind := by
  cases ts with
  | nil =>
    obtain rfl := List.map_eq_nil_iff.1 h.kinds.symm
    exact h.stop
  | cons t ts =>
    obtain ⟨t', ts', rfl, ht, -⟩ := List.map_eq_cons_iff.1 h.kinds.symm
    exact ht.symm

theorem tail (h : SameKinds ctx ctx' ts ts') : SameKinds ctx ctx' ts.tail ts'.tail where
  stop := h.stop
  kinds := by rw [List.map_tail, List.map_tail, h.kinds]

theorem exists_cons (h : SameKinds ctx ctx' (t :: ts) ts') :
    ∃ t' ts'', ts' = t' :: ts'' ∧ t'.kind = t.kind ∧ SameKinds ctx ctx' ts ts'' := by
  obtain ⟨t', ts'', rfl, ht, hts⟩ := List.map_eq_cons_iff.1 h.kinds.symm
  exact ⟨t', ts'', rfl, ht, h.stop, hts.symm⟩

theorem eq_nil (h : SameKinds ctx ctx' [] ts') : ts' = [] := List.map_eq_nil_iff.1 h.kinds.symm

end SameKinds

namespace Parser

variable {α β σ : Type} {p : Parser α}

instance byKinds_pure (a : α) : ByKinds (Pure.pure a : Parser α) where
  read := by
    intro ctx ctx' ts ts' us b hts h
    obtain ⟨rfl, rfl⟩ := Prod.mk.inj (Except.ok.inj h)
    exact ⟨ts', rfl, hts⟩

instance byKinds_pure' (a : α) : ByKinds (Parser.pure a) := byKinds_pure a

instance byKinds_bind {f : α → Parser β} [hp : ByKinds p] [hf : ∀ a, ByKinds (f a)] :
    ByKinds (p >>= f) where
  read := by
    intro ctx ctx' ts ts' us b hts h
    obtain ⟨a, mid, ha, hb⟩ := run_bind_ok h
    obtain ⟨mid', ha', hmid⟩ := hp.read hts ha
    rw [run_bind_of_ok ha']
    exact (hf a).read hmid hb

instance byKinds_ite {c : Prop} [Decidable c] {q : Parser α} [ByKinds p] [ByKinds q] :
    ByKinds (if c then p else q) := by
  split <;> infer_instance

instance byKinds_choice {c : Parser Bool} {q : Parser α} [ByKinds c] [ByKinds p] [ByKinds q] :
    ByKinds (do if ← c then p else q) :=
  byKinds_bind

/-- A parser that fails, whatever stands in front of it. -/
theorem byKinds_of_fails (h : ∀ ctx ts o, p.run ctx ts ≠ .ok o) : ByKinds p where
  read _ _ _ _ _ _ _ hrun := absurd hrun (h _ _ _)

instance byKinds_error (message : String) : ByKinds (Parser.error message : Parser α) :=
  byKinds_of_fails fun _ _ _ => nofun

instance byKinds_expected (what : String) : ByKinds (Parser.expected what : Parser α) :=
  byKinds_of_fails fun _ _ _ => nofun

theorem byKinds_front {f : Token → Parser α} (hbare : ∀ t, f t.bare = f t) (hf : ∀ t, ByKinds (f t)) :
    ByKinds (Parser.current >>= f) where
  read := by
    intro ctx ctx' ts ts' us a hts h
    rw [run_bind_of_ok run_current] at h ⊢
    rw [← hbare, Token.bare_eq hts.current, hbare] at h
    exact (hf _).read hts h

instance byKinds_advance : ByKinds Parser.advance where
  read := by
    intro ctx ctx' ts ts' us a hts h
    obtain ⟨-, rfl⟩ : _ ∧ ts.tail = us := Prod.mk.inj (Except.ok.inj h)
    exact ⟨ts'.tail, rfl, hts.tail⟩

instance byKinds_at? (kind : Kind) : ByKinds (Parser.at? kind) :=
  byKinds_front (fun _ => rfl) fun _ => inferInstance

instance byKinds_accept (kind : Kind) : ByKinds (Parser.accept kind) := by
  unfold Parser.accept
  infer_instance

instance byKinds_acceptKeyword (k : Keyword) : ByKinds (Parser.acceptKeyword k) := byKinds_accept _

instance byKinds_expect (kind : Kind) : ByKinds (Parser.expect kind) := by
  unfold Parser.expect
  infer_instance

instance byKinds_expectKeyword (k : Keyword) : ByKinds (Parser.expectKeyword k) := by
  unfold Parser.expectKeyword
  infer_instance

instance byKinds_commaList [hp : ByKinds p] : ByKinds (commaList p) where
  read := by
    intro ctx ctx' ts ts' us as hts h
    obtain ⟨bs, a, mid, hlisted, hlast, hend, rfl⟩ := run_commaList_iff.1 h
    obtain ⟨mid', hlisted', hmid⟩ : ∃ mid', Listed p ctx' ts' bs mid' ∧ SameKinds ctx ctx' mid mid' := by
      clear hlast hend h
      induction hlisted generalizing ts' with
      | nil => exact ⟨ts', .nil _, hts⟩
      | cons first separator _ ih =>
        obtain ⟨rest', hfirst, hrest⟩ := hp.read hts first
        obtain ⟨comma', more', rfl, hcomma, hmore⟩ := hrest.exists_cons
        obtain ⟨mid', hothers, hmid⟩ := ih hmore
        exact ⟨mid', .cons hfirst (hcomma.trans separator) hothers, hmid⟩
    obtain ⟨us', hlast', hus⟩ := hp.read hmid hlast
    refine ⟨us', run_commaList_iff.2 ⟨bs, a, mid', hlisted', hlast', ?_, rfl⟩, hus⟩
    intro t ht
    obtain ⟨us', rfl⟩ := List.head?_eq_some_iff.1 ht
    cases us with
    | nil => cases hus.eq_nil
    | cons u us =>
      obtain ⟨_, _, heq, hkind, -⟩ := hus.exists_cons
      obtain ⟨rfl, -⟩ := List.cons.inj heq
      rw [hkind]
      exact hend u rfl

theorem byKinds_clauses {clause : σ → Token → Parser (Option σ)} (hbare : ∀ s t, clause s t.bare = clause s t)
    (hclause : ∀ s t, ByKinds (clause s t)) (s : σ) : ByKinds (clauses clause s) where
  read := by
    intro ctx ctx' ts ts' us s' hts h
    have hkind (s : σ) {t t' : Token} (ht : t'.kind = t.kind) : clause s t' = clause s t := by
      rw [← hbare, Token.bare_eq ht, hbare]
    obtain ⟨hclaused, hend⟩ := run_clauses_iff.1 h
    obtain ⟨us', hclaused', hus⟩ :
        ∃ us', Claused clause ctx' s ts' s' us' ∧ SameKinds ctx ctx' us us' := by
      clear hend h
      induction hclaused generalizing ts' with
      | nil => exact ⟨ts', .nil _ _, hts⟩
      | @cons s _ _ _ _ _ _ first _ ih =>
        obtain ⟨t', ts'', rfl, ht, hmore⟩ := hts.exists_cons
        obtain ⟨mid', hfirst, hmid⟩ := (hclause _ _).read hmore first
        obtain ⟨us', hothers, hus⟩ := ih hmid
        exact ⟨us', .cons (hkind s ht ▸ hfirst) hothers, hus⟩
    refine ⟨us', run_clauses_iff.2 ⟨hclaused', ?_⟩, hus⟩
    rintro t' rest' rfl
    cases us with
    | nil => cases hus.eq_nil
    | cons u us =>
      obtain ⟨_, _, heq, ht, hmore⟩ := hus.exists_cons
      obtain ⟨rfl, rfl⟩ := List.cons.inj heq
      obtain ⟨mid, hnone⟩ := hend u us rfl
      obtain ⟨mid', hnone', -⟩ := (hclause _ _).read hmore hnone
      exact ⟨mid', hkind s' ht ▸ hnone'⟩

instance byKinds_name : ByKinds name := by
  refine byKinds_front (fun _ => rfl) fun t => ?_
  split <;> infer_instance

instance byKinds_objectName : ByKinds objectName := by
  unfold objectName
  infer_instance

instance byKinds_nameList : ByKinds nameList := by
  unfold nameList
  infer_instance

instance byKinds_referentialAction : ByKinds referentialAction := by
  unfold referentialAction
  infer_instance

instance byKinds_matchType : ByKinds matchType := by
  unfold matchType
  infer_instance

instance byKinds_referenceOption : ByKinds referenceOption := by
  refine byKinds_front (fun _ => rfl) fun t => ?_
  infer_instance

instance byKinds_referenceClause (r : Reference) (word : Token) : ByKinds (referenceClause r word) := by
  unfold referenceClause
  split <;> infer_instance

instance byKinds_reference : ByKinds reference := by
  have hclauses (r : Reference) : ByKinds (clauses referenceClause r) :=
    byKinds_clauses (fun _ _ => rfl) inferInstance r
  unfold reference
  infer_instance

end Parser

end DdlCatalog.Grammar
