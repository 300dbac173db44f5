import DdlCatalog.Build.ForeignKey
import DdlCatalog.Proofs.Catalog.Lookup
import DdlCatalog.Proofs.Catalog.Relation

/-! # Catalogs that differ in the state of their keys
Linking fills in what a foreign key refers to and says how far it came. All else of a catalog stays
as declared. -/

namespace DdlCatalog

/-- A key without the state of its link. -/
def ForeignKey.unlinked (key : ForeignKey) : ForeignKey :=
  { key with referencedColumns := [], useAlter := false, resolved := false }

namespace Constraint

variable (k : Constraint) {f : ForeignKey → ForeignKey}

@[simp] theorem modifyForeignKey_name : (k.modifyForeignKey f).name = k.name := by
  unfold modifyForeignKey
  split <;> rfl

@[simp] theorem modifyForeignKey_columns : (k.modifyForeignKey f).columns = k.columns := by
  unfold modifyForeignKey
  split <;> rfl

@[simp] theorem modifyForeignKey_location : (k.modifyForeignKey f).location = k.location := by
  unfold modifyForeignKey
  split <;> rfl

@[simp] theorem foreignKey?_modifyForeignKey :
    (k.modifyForeignKey f).foreignKey? = k.foreignKey?.map f := by
  unfold modifyForeignKey
  cases h : k.kind <;> simp [foreignKey?, h]

theorem modifyForeignKey_modifyForeignKey (g : ForeignKey → ForeignKey) :
    (k.modifyForeignKey f).modifyForeignKey g = k.modifyForeignKey fun key => g (f key) := by
  cases h : k.kind <;> simp [modifyForeignKey, h]

/-- Only what a change does to the key of a constraint matters. -/
theorem modifyForeignKey_congr {g : ForeignKey → ForeignKey}
    (h : ∀ key, k.foreignKey? = some key → f key = g key) :
    k.modifyForeignKey f = k.modifyForeignKey g := by
  unfold modifyForeignKey
  split
  · next key hk => rw [h key (by simp [foreignKey?, hk])]
  · rfl

theorem modifyForeignKey_self (h : ∀ key, k.foreignKey? = some key → f key = key) :
    k.modifyForeignKey f = k := by
  unfold modifyForeignKey
  split
  · next key hk => rw [h key (by simp [foreignKey?, hk]), ← hk]
  · rfl

theorem modifyForeignKey_kind_eq_primaryKey :
    (k.modifyForeignKey f).kind = .primaryKey ↔ k.kind = .primaryKey := by
  unfold modifyForeignKey
  cases h : k.kind <;> simp [h]

def unlinked (k : Constraint) : Constraint := k.modifyForeignKey ForeignKey.unlinked

theorem unlinked_modifyForeignKey (hf : ∀ key, (f key).unlinked = key.unlinked) :
    (k.modifyForeignKey f).unlinked = k.unlinked := by
  unfold unlinked
  rw [modifyForeignKey_modifyForeignKey]
  exact modifyForeignKey_congr k fun key _ => hf key

end Constraint

namespace Relation

variable (r : Relation)

def unlinked (r : Relation) : Relation :=
  { r with constraints := r.constraints.map Constraint.unlinked }

theorem unlinked_modifyConstraint {name : String} {f : ForeignKey → ForeignKey}
    (hf : ∀ key, (f key).unlinked = key.unlinked) :
    (r.modifyConstraint name (·.modifyForeignKey f)).unlinked = r.unlinked := by
  unfold unlinked modifyConstraint
  rw [map_modifyFirst fun k => Constraint.unlinked_modifyForeignKey k hf]

@[simp] theorem map_name_unlinked :
    r.unlinked.constraints.map (·.name) = r.constraints.map (·.name) := by
  simp [unlinked, Constraint.unlinked]

theorem primaryKeyColumns_unlinked : r.unlinked.primaryKeyColumns = r.primaryKeyColumns := by
  have h : r.unlinked.primaryKey? = r.primaryKey?.map Constraint.unlinked := by
    unfold primaryKey? unlinked
    rw [List.find?_map]
    congr 2
    funext k
    simp [Constraint.unlinked, Constraint.modifyForeignKey_kind_eq_primaryKey]
  unfold primaryKeyColumns
  rw [h]
  cases r.primaryKey? with
  | none => rfl
  | some k => simp [Constraint.unlinked]

end Relation

/-- A schema without its relations. -/
def Schema.bare (s : Schema) : Schema := { s with relations := ∅ }

namespace Catalog

theorem defaultSchema_insertRelation (c : Catalog) (r : Relation) :
    (c.insertRelation r).defaultSchema = c.defaultSchema := by
  unfold insertRelation
  split <;> rfl

/-- A new relation makes sure that its schema exists. -/
theorem bare_schema?_insertRelation (c : Catalog) (r : Relation) (n : String) :
    ((c.insertRelation r).schema? n).map Schema.bare =
      if r.name.schema = n then some (((c.schema? n).map Schema.bare).getD (Schema.ofName n))
      else (c.schema? n).map Schema.bare := by
  rw [schema?_insertRelation]
  split
  · cases c.schema? n <;> rfl
  · rfl

/-- The catalogs hold the same schemas, and relations that `g` does not tell apart. -/
structure SameUpTo (g : Relation → Relation) (c c' : Catalog) : Prop where
  default_eq : c'.defaultSchema = c.defaultSchema
  schemas : ∀ n, (c'.schema? n).map Schema.bare = (c.schema? n).map Schema.bare
  relations : ∀ q, (c'.relation? q).map g = (c.relation? q).map g

namespace SameUpTo

variable {g : Relation → Relation} {c c' c'' : Catalog}

theorem refl (c : Catalog) : SameUpTo g c c := ⟨rfl, fun _ => rfl, fun _ => rfl⟩

theorem trans (h : SameUpTo g c c') (h' : SameUpTo g c' c'') : SameUpTo g c c'' where
  default_eq := h'.default_eq.trans h.default_eq
  schemas n := (h'.schemas n).trans (h.schemas n)
  relations q := (h'.relations q).trans (h.relations q)

theorem symm (h : SameUpTo g c c') : SameUpTo g c' c where
  default_eq := h.default_eq.symm
  schemas n := (h.schemas n).symm
  relations q := (h.relations q).symm

theorem isSome_relation? (h : SameUpTo g c c') (q : QualifiedName) :
    (c'.relation? q).isSome = (c.relation? q).isSome := by
  have hq := congrArg Option.isSome (h.relations q)
  simpa using hq

theorem relation?_eq_none (h : SameUpTo g c c') {q : QualifiedName} (hq : c.relation? q = none) :
    c'.relation? q = none := by
  have hsome := h.isSome_relation? q
  rw [hq] at hsome
  simpa using hsome

theorem exists_relation? (h : SameUpTo g c c') {q : QualifiedName} {r : Relation}
    (hq : c.relation? q = some r) : ∃ r', c'.relation? q = some r' ∧ g r' = g r := by
  have hr := h.relations q
  rw [hq] at hr
  exact Option.map_eq_some_iff.1 hr

theorem enum?_eq (h : SameUpTo g c c') (q : QualifiedName) : c'.enum? q = c.enum? q := by
  have hs := h.schemas q.schema
  rw [enum?_eq_bind, enum?_eq_bind]
  cases hc : c.schema? q.schema with
  | none => simp_all
  | some s =>
    rw [hc] at hs
    obtain ⟨s', hc', hbare⟩ := Option.map_eq_some_iff.1 hs
    have henums : s'.enums = s.enums := (congrArg Schema.enums hbare :)
    simp [hc', henums]

theorem insertRelation (h : SameUpTo g c c') (r : Relation) :
    SameUpTo g (c.insertRelation r) (c'.insertRelation r) where
  default_eq := by
    rw [defaultSchema_insertRelation, defaultSchema_insertRelation]
    exact h.default_eq
  schemas n := by rw [bare_schema?_insertRelation, bare_schema?_insertRelation, h.schemas n]
  relations q := by
    rw [relation?_insertRelation, relation?_insertRelation]
    split
    · rfl
    · exact h.relations q

end SameUpTo

/-- The catalogs differ at most in the state of their keys. -/
structure Relinked (c c' : Catalog) : Prop extends SameUpTo Relation.unlinked c c' where
  order_eq : c'.relationOrder = c.relationOrder

namespace Relinked

variable {c c' c'' : Catalog}

theorem refl (c : Catalog) : Relinked c c := ⟨.refl c, rfl⟩

theorem trans (h : Relinked c c') (h' : Relinked c' c'') : Relinked c c'' :=
  ⟨h.toSameUpTo.trans h'.toSameUpTo, h'.order_eq.trans h.order_eq⟩

theorem insertRelation (h : Relinked c c') (r : Relation) :
    Relinked (c.insertRelation r) (c'.insertRelation r) where
  toSameUpTo := h.toSameUpTo.insertRelation r
  order_eq := by
    rw [relationOrder_insertRelation, relationOrder_insertRelation, h.isSome_relation?, h.order_eq]

end Relinked

/-- A change of one key that keeps all but the state of its link. -/
theorem relinked_modifyForeignKey (c : Catalog) (owner : QualifiedName) (name : String)
    {f : ForeignKey → ForeignKey} (hf : ∀ key, (f key).unlinked = key.unlinked) :
    Relinked c (c.modifyForeignKey owner name f) where
  default_eq := rfl
  order_eq := rfl
  schemas n := by
    unfold modifyForeignKey
    rw [schema?_modifyRelation]
    split
    · cases c.schema? n <;> rfl
    · rfl
  relations q := by
    unfold modifyForeignKey
    rw [relation?_modifyRelation]
    split
    · rw [Option.map_map]
      congr 1
      funext r
      exact r.unlinked_modifyConstraint hf
    · rfl

end Catalog

end DdlCatalog
