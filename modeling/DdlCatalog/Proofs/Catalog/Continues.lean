import DdlCatalog.Proofs.Catalog.WellFormed
import DdlCatalog.Proofs.OrderedMap

/-! # Catalogs that go on from others
All that a catalog holds is still there in its order, up to the changes that are allowed for single
relations and routines. What is new comes last. -/

namespace DdlCatalog

/-- What may become of a relation or routine of a name. -/
structure Change where
  relation : QualifiedName → Relation → Relation → Prop
  function : QualifiedName → StoredFunction → StoredFunction → Prop
  procedure : QualifiedName → StoredProcedure → StoredProcedure → Prop

namespace Change

/-- Everything stays what it is. -/
def none : Change := ⟨fun _ r r' => r' = r, fun _ f f' => f' = f, fun _ p p' => p' = p⟩

def ofRelation (R : QualifiedName → Relation → Relation → Prop) : Change :=
  { none with relation := R }

def ofFunction (R : QualifiedName → StoredFunction → StoredFunction → Prop) : Change :=
  { none with function := R }

def ofProcedure (R : QualifiedName → StoredProcedure → StoredProcedure → Prop) : Change :=
  { none with procedure := R }

/-- All that has this name may stay what it is. -/
structure Spares (change : Change) (q : QualifiedName) : Prop where
  relation : ∀ r, change.relation q r r
  function : ∀ f, change.function q f f
  procedure : ∀ p, change.procedure q p p

theorem none_spares (q : QualifiedName) : Change.none.Spares q :=
  ⟨fun _ => rfl, fun _ => rfl, fun _ => rfl⟩

end Change

/-- The overloads are still there, and new ones come last. -/
def OverloadsContinue {α : Type} (R : α → α → Prop) (as as' : List α) : Prop :=
  ∃ front added, as' = front ++ added ∧ List.Forall₂ R as front

section Overloads

variable {α : Type} {routine : α → Routine} {R : α → α → Prop} {name : QualifiedName} {a : α}
  {as : List α}

theorem OverloadsContinue.refl (h : ∀ a, R a a) : OverloadsContinue R as as :=
  ⟨as, [], (List.append_nil as).symm, List.forall₂_same.2 fun a _ => h a⟩

/-- A routine replaces the only one with its signature. -/
theorem overloadsContinue_putOverload (h : as = [] ∨ Overloads routine name as)
    (hR : ∀ b ∈ as, R b (if (routine b).sameSignature (routine a) then a else b)) :
    OverloadsContinue R as
      (Schema.putOverload (fun b => (routine b).sameSignature (routine a)) a as) := by
  have hdistinct : as.Pairwise fun a b => (routine a).sameSignature (routine b) = false := by
    rcases h with rfl | h
    · exact .nil
    · exact h.distinct
  clear h
  induction as with
  | nil => exact ⟨[], [a], rfl, .nil⟩
  | cons b bs ih =>
    rw [List.pairwise_cons] at hdistinct
    rw [List.forall_mem_cons] at hR
    unfold Schema.putOverload
    split
    · next hsame =>
      rw [if_pos hsame] at hR
      refine ⟨a :: bs, [], (List.append_nil _).symm, .cons hR.1 (List.forall₂_same.2 ?_)⟩
      intro b' hb'
      have hdiffer : (routine b').sameSignature (routine a) = false := by
        have hpair := hdistinct.1 b' hb'
        simp only [Routine.sameSignature, decide_eq_true_eq, decide_eq_false_iff_not] at hsame hpair ⊢
        exact fun he => hpair (hsame.trans he.symm)
      have hb := hR.2 b' hb'
      rwa [hdiffer, if_neg Bool.false_ne_true] at hb
    · next hdiffer =>
      rw [if_neg hdiffer] at hR
      obtain ⟨front, added, he, hall⟩ := ih hR.2 hdistinct.2
      exact ⟨b :: front, added, by rw [he, List.cons_append], .cons hR.1 hall⟩

theorem OrderedMap.continues_putOverload {m : OrderedMap String (List α)}
    {R : String → α → α → Prop} {n : String}
    (h : (m.get? n).getD [] = [] ∨ Overloads routine name ((m.get? n).getD []))
    (hR : ∀ b ∈ (m.get? n).getD [], R n b (if (routine b).sameSignature (routine a) then a else b))
    (hothers : ∀ k ≠ n, ∀ b, R k b b) :
    m.Continues (fun k => OverloadsContinue (R k)) (m.alter n fun overloads =>
      Schema.putOverload (fun b => (routine b).sameSignature (routine a)) a (overloads.getD [])) := by
  refine (OrderedMap.Continues.refl fun k _ _ hk => .refl (hothers k hk)).insert fun as has => ?_
  have hput := overloadsContinue_putOverload h hR
  rw [has] at hput
  rwa [has]

end Overloads

/-- Everything in the schema is still there, in its order and up to the change. -/
structure Schema.Continues (change : Change) (name : String) (s s' : Schema) : Prop where
  name_eq : s'.name = s.name
  enums : s.enums.Continues (fun _ e e' => e' = e) s'.enums
  relations : s.relations.Continues (fun n => change.relation ⟨name, n⟩) s'.relations
  functions : s.functions.Continues (fun n => OverloadsContinue (change.function ⟨name, n⟩))
    s'.functions
  procedures : s.procedures.Continues (fun n => OverloadsContinue (change.procedure ⟨name, n⟩))
    s'.procedures
  prepared : s.prepared.Continues (fun _ p p' => p' = p) s'.prepared

namespace Schema

variable {change : Change} {name : String} {s s' : Schema}

/-- Only relations may have to change. -/
theorem Continues.refl
    (hrelations : ∀ n r, s.relations.get? n = some r → change.relation ⟨name, n⟩ r r)
    (hfunctions : ∀ n f, change.function ⟨name, n⟩ f f)
    (hprocedures : ∀ n p, change.procedure ⟨name, n⟩ p p) : s.Continues change name s where
  name_eq := rfl
  enums := .refl fun _ _ _ => rfl
  relations := .refl hrelations
  functions := .refl fun n _ _ => .refl (hfunctions n)
  procedures := .refl fun n _ _ => .refl (hprocedures n)
  prepared := .refl fun _ _ _ => rfl

theorem Continues.of_spares (h : ∀ n, change.Spares ⟨name, n⟩) : s.Continues change name s :=
  .refl (fun n r _ => (h n).relation r) (fun n => (h n).function) fun n => (h n).procedure

theorem continues_insertEnum {e : EnumType} (hfree : s.enums.get? e.name.name = none) :
    s.Continues .none name (s.insertEnum e) where
  __ : s.Continues .none name s := .of_spares fun _ => Change.none_spares _
  enums := (OrderedMap.Continues.refl fun _ _ _ _ => rfl).insert fun v hv => by
    rw [hfree] at hv
    cases hv

theorem continues_insertPrepared {p : PreparedStatement}
    (hfree : s.prepared.get? p.name.name = none) :
    s.Continues .none name (s.insertPrepared p) where
  __ : s.Continues .none name s := .of_spares fun _ => Change.none_spares _
  prepared := (OrderedMap.Continues.refl fun _ _ _ _ => rfl).insert fun v hv => by
    rw [hfree] at hv
    cases hv

theorem continues_putRelation {R : QualifiedName → Relation → Relation → Prop} {n : String}
    {r : Relation} (hrelation : ∀ old, s.relations.get? n = some old → R ⟨name, n⟩ old r)
    (hothers : ∀ m ≠ n, ∀ old, R ⟨name, m⟩ old old) :
    s.Continues (.ofRelation R) name
      { s with relations := s.relations.insert n r } where
  name_eq := rfl
  enums := .refl fun _ _ _ => rfl
  relations := (OrderedMap.Continues.refl fun m old _ hm => hothers m hm old).insert hrelation
  functions := .refl fun _ _ _ => .refl fun _ => rfl
  procedures := .refl fun _ _ _ => .refl fun _ => rfl
  prepared := .refl fun _ _ _ => rfl

theorem continues_insertFunction {R : QualifiedName → StoredFunction → StoredFunction → Prop}
    {f : StoredFunction} (h : s.WellFormed name)
    (hfunction : ∀ g ∈ s.functionsNamed f.routine.name.name,
      R ⟨name, f.routine.name.name⟩ g (if g.routine.sameSignature f.routine then f else g))
    (hothers : ∀ n ≠ f.routine.name.name, ∀ g, R ⟨name, n⟩ g g) :
    s.Continues (.ofFunction R) name (s.insertFunction f) where
  name_eq := rfl
  enums := .refl fun _ _ _ => rfl
  relations := .refl fun _ _ _ => rfl
  functions := OrderedMap.continues_putOverload (h.functionsNamed _) hfunction hothers
  procedures := .refl fun _ _ _ => .refl fun _ => rfl
  prepared := .refl fun _ _ _ => rfl

theorem continues_insertProcedure {R : QualifiedName → StoredProcedure → StoredProcedure → Prop}
    {p : StoredProcedure} (h : s.WellFormed name)
    (hprocedure : ∀ q ∈ s.proceduresNamed p.routine.name.name,
      R ⟨name, p.routine.name.name⟩ q (if q.routine.sameSignature p.routine then p else q))
    (hothers : ∀ n ≠ p.routine.name.name, ∀ q, R ⟨name, n⟩ q q) :
    s.Continues (.ofProcedure R) name (s.insertProcedure p) where
  name_eq := rfl
  enums := .refl fun _ _ _ => rfl
  relations := .refl fun _ _ _ => rfl
  functions := .refl fun _ _ _ => .refl fun _ => rfl
  procedures := OrderedMap.continues_putOverload (h.proceduresNamed _) hprocedure hothers
  prepared := .refl fun _ _ _ => rfl

/-- Nothing was known before of the relation that changes. -/
theorem Continues.modifyRelation (h : s.Continues change name s') {n : String}
    (hnew : s.relations.get? n = none) (f : Relation → Relation) :
    s.Continues change name (s'.modifyRelation n f) where
  __ := h
  relations := h.relations.modify fun v _ hv _ => by
    rw [hnew] at hv
    cases hv

end Schema

/-- Everything in the catalog is still there, in its order and up to the change. -/
structure Catalog.Continues (change : Change) (c c' : Catalog) : Prop where
  defaultSchema_eq : c'.defaultSchema = c.defaultSchema
  schemas : c.schemas.Continues (fun n s s' => s.Continues change n s') c'.schemas
  relationOrder : c.relationOrder <+: c'.relationOrder

namespace Catalog

variable {change : Change} {c c' : Catalog}

theorem Continues.refl (hrelations : ∀ q r, c.relation? q = some r → change.relation q r r)
    (hfunctions : ∀ q f, change.function q f f) (hprocedures : ∀ q p, change.procedure q p p) :
    c.Continues change c where
  defaultSchema_eq := rfl
  schemas := .refl fun n s hs => .refl
    (fun m r hr => hrelations ⟨n, m⟩ r (by rw [relation?_eq_bind]; simp [schema?, hs, hr]))
    (fun _ => hfunctions _) fun _ => hprocedures _
  relationOrder := List.prefix_rfl

theorem continues_insertSchema {n : String} {s' : Schema}
    (hschema : ∀ s, c.schema? n = some s → s.Continues change n s')
    (hothers : ∀ m ≠ n, ∀ k, change.Spares ⟨m, k⟩) :
    c.Continues change { c with schemas := c.schemas.insert n s' } where
  defaultSchema_eq := rfl
  schemas := (OrderedMap.Continues.refl fun m _ _ hm => .of_spares (hothers m hm)).insert hschema
  relationOrder := List.prefix_rfl

theorem continues_modifySchema {n : String} {f : Schema → Schema}
    (hschema : ∀ s, c.schema? n = some s → s.Continues change n (f s))
    (hothers : ∀ m ≠ n, ∀ k, change.Spares ⟨m, k⟩) :
    c.Continues change (c.modifySchema n f) := by
  refine continues_insertSchema (fun s hs => ?_) hothers
  have hget : c.schemas.get? n = some s := hs
  rw [hget]
  exact hschema s hs

theorem Continues.ensureSchema (h : c.Continues change c) (n : String) :
    c.Continues change (c.ensureSchema n) := by
  cases hs : c.schema? n with
  | some s => rwa [ensureSchema_of_schema? hs]
  | none =>
    have hhas : c.hasSchema n = false := by
      unfold hasSchema OrderedMap.contains
      rw [show c.schemas.get? n = none from hs]
      rfl
    unfold Catalog.ensureSchema
    rw [hhas]
    have hothers : c.schemas.Continues (fun m s s' => m ≠ n → s.Continues change m s') c.schemas :=
      h.schemas.mono fun _ _ _ hs' _ => hs'
    exact { h with schemas := hothers.insert fun s hs' => by cases hs.symm.trans hs' }

theorem Continues.modifyRelation (h : c.Continues change c') {q : QualifiedName}
    (hnew : c.relation? q = none) (f : Relation → Relation) :
    c.Continues change (c'.modifyRelation q f) where
  __ := h
  schemas := h.schemas.modify fun s s' hs hcontinues => by
    rw [relation?_eq_bind, show c.schema? q.schema = some s from hs] at hnew
    exact hcontinues.modifyRelation hnew f

theorem continues_insertRelation {R : QualifiedName → Relation → Relation → Prop} {r : Relation}
    (hrelation : ∀ old, c.relation? r.name = some old → R r.name old r)
    (hothers : ∀ q ≠ r.name, ∀ old, R q old old) :
    c.Continues (.ofRelation R) (c.insertRelation r) := by
  have hmodify : c.Continues (.ofRelation R)
      (c.modifySchema r.name.schema (·.insertRelation r)) := by
    refine continues_modifySchema (fun s hs => ?_) fun m hm k => ?_
    · refine Schema.continues_putRelation (fun old hold => hrelation old ?_) fun k hk => ?_
      · rw [relation?_eq_bind, hs]
        exact hold
      · exact hothers _ fun he => hk (congrArg QualifiedName.name he)
    · have hne : (⟨m, k⟩ : QualifiedName) ≠ r.name := fun he => hm (congrArg QualifiedName.schema he)
      exact ⟨hothers _ hne, fun _ => rfl, fun _ => rfl⟩
  unfold insertRelation
  dsimp only
  split
  · exact hmodify
  · exact { hmodify with relationOrder := List.prefix_append _ _ }

theorem continues_modifyRelation {R : QualifiedName → Relation → Relation → Prop}
    {q : QualifiedName} {r : Relation} {f : Relation → Relation} (hr : c.relation? q = some r)
    (hrelation : R q r (f r)) (hothers : ∀ q' ≠ q, ∀ old, R q' old old) :
    c.Continues (.ofRelation R) (c.modifyRelation q f) := by
  rw [relation?_eq_bind] at hr
  obtain ⟨s, hs, hr⟩ := Option.bind_eq_some_iff.1 hr
  have hinsert : c.Continues (.ofRelation R)
      { c with schemas := c.schemas.insert q.schema (s.modifyRelation q.name f) } := by
    refine continues_insertSchema (fun t ht => ?_) fun m hm k => ?_
    · cases hs.symm.trans ht
      unfold Schema.modifyRelation
      rw [OrderedMap.modify_eq_insert hr]
      refine Schema.continues_putRelation (fun old hold => ?_) fun k hk => ?_
      · cases hr.symm.trans hold
        exact hrelation
      · exact hothers _ fun he => hk (congrArg QualifiedName.name he)
    · have hne : (⟨m, k⟩ : QualifiedName) ≠ q := fun he => hm (congrArg QualifiedName.schema he)
      exact ⟨hothers _ hne, fun _ => rfl, fun _ => rfl⟩
  unfold modifyRelation
  rwa [OrderedMap.modify_eq_insert hs]

theorem continues_insertFunction {R : QualifiedName → StoredFunction → StoredFunction → Prop}
    {f : StoredFunction} (h : c.WellFormed)
    (hfunction : ∀ s, c.schema? f.routine.name.schema = some s →
      ∀ g ∈ s.functionsNamed f.routine.name.name,
        R f.routine.name g (if g.routine.sameSignature f.routine then f else g))
    (hothers : ∀ q ≠ f.routine.name, ∀ g, R q g g) :
    c.Continues (.ofFunction R)
      (c.modifySchema f.routine.name.schema (·.insertFunction f)) := by
  refine continues_modifySchema (fun s hs => ?_) fun m hm k => ?_
  · exact Schema.continues_insertFunction (h.schemas _ s hs) (hfunction s hs) fun k hk =>
      hothers _ fun he => hk (congrArg QualifiedName.name he)
  · have hne : (⟨m, k⟩ : QualifiedName) ≠ f.routine.name :=
      fun he => hm (congrArg QualifiedName.schema he)
    exact ⟨fun _ => rfl, hothers _ hne, fun _ => rfl⟩

theorem continues_insertProcedure {R : QualifiedName → StoredProcedure → StoredProcedure → Prop}
    {p : StoredProcedure} (h : c.WellFormed)
    (hprocedure : ∀ s, c.schema? p.routine.name.schema = some s →
      ∀ q ∈ s.proceduresNamed p.routine.name.name,
        R p.routine.name q (if q.routine.sameSignature p.routine then p else q))
    (hothers : ∀ q ≠ p.routine.name, ∀ p', R q p' p') :
    c.Continues (.ofProcedure R)
      (c.modifySchema p.routine.name.schema (·.insertProcedure p)) := by
  refine continues_modifySchema (fun s hs => ?_) fun m hm k => ?_
  · exact Schema.continues_insertProcedure (h.schemas _ s hs) (hprocedure s hs) fun k hk =>
      hothers _ fun he => hk (congrArg QualifiedName.name he)
  · have hne : (⟨m, k⟩ : QualifiedName) ≠ p.routine.name :=
      fun he => hm (congrArg QualifiedName.schema he)
    exact ⟨fun _ => rfl, fun _ => rfl, hothers _ hne⟩

theorem continues_insertEnum {e : EnumType} (hfree : c.enum? e.name = none) :
    c.Continues .none (c.modifySchema e.name.schema (·.insertEnum e)) := by
  refine continues_modifySchema (fun s hs => Schema.continues_insertEnum ?_) fun _ _ _ =>
    Change.none_spares _
  rwa [enum?_eq_bind, hs] at hfree

theorem continues_insertPrepared {p : PreparedStatement} (hfree : c.prepared? p.name = none) :
    c.Continues .none (c.modifySchema p.name.schema (·.insertPrepared p)) := by
  refine continues_modifySchema (fun s hs => Schema.continues_insertPrepared ?_) fun _ _ _ =>
    Change.none_spares _
  rwa [prepared?, hs] at hfree

end Catalog

end DdlCatalog
