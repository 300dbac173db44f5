import DdlCatalog.Proofs.Catalog.Alike

/-! # How far keys have come
A key that has been declared stays as it is until it is completed, and it is completed once. When this
happens depends on the order of declarations; the completed key does not. -/

namespace DdlCatalog

namespace Catalog

variable {c c' c'' : Catalog} {k k' : Constraint}

theorem completedKey_congr (h : ∀ key columns l,
      c'.checkReference key columns l = c.checkReference key columns l) :
    c'.completedKey = c.completedKey := by
  funext columns l key
  unfold completedKey
  rw [h]

theorem completed_congr (h : ∀ key columns l,
      c'.checkReference key columns l = c.checkReference key columns l) (k : Constraint) :
    c'.completed k = c.completed k := by
  unfold completed
  rw [completedKey_congr h]

theorem completed_of_error (h : ∀ key, k.foreignKey? = some key →
      ∃ issues, c.checkReference key k.columns k.location = .error issues) : c.completed k = k := by
  refine k.modifyForeignKey_self fun key hkey => ?_
  obtain ⟨issues, hissues⟩ := h key hkey
  unfold completedKey
  rw [hissues]

theorem completedKey_completedKey (c : Catalog) (columns : List String) (l : Text.Location)
    (key : ForeignKey) :
    c.completedKey columns l (c.completedKey columns l key) = c.completedKey columns l key := by
  rw [completedKey, checkReference_completedKey, completedKey]
  cases c.checkReference key columns l <;> rfl

/-- Keys are completed once. -/
theorem completed_completed (c : Catalog) (k : Constraint) :
    c.completed (c.completed k) = c.completed k := by
  unfold completed
  rw [Constraint.modifyForeignKey_columns, Constraint.modifyForeignKey_location,
    Constraint.modifyForeignKey_modifyForeignKey]
  exact k.modifyForeignKey_congr fun key _ => c.completedKey_completedKey _ _ key

theorem completedKey_withoutAlter (c : Catalog) (columns : List String) (l : Text.Location)
    (key : ForeignKey) :
    c.completedKey columns l key.withoutAlter = (c.completedKey columns l key).withoutAlter := by
  have hcheck : c.checkReference key.withoutAlter columns l = c.checkReference key columns l := rfl
  unfold completedKey
  rw [hcheck]
  cases c.checkReference key columns l <;> rfl

theorem completed_withoutAlter (c : Catalog) (k : Constraint) :
    c.completed k.withoutAlter = (c.completed k).withoutAlter := by
  unfold completed Constraint.withoutAlter
  rw [Constraint.modifyForeignKey_columns, Constraint.modifyForeignKey_location,
    Constraint.modifyForeignKey_modifyForeignKey, Constraint.modifyForeignKey_modifyForeignKey]
  exact k.modifyForeignKey_congr fun key _ => c.completedKey_withoutAlter _ _ key

/-- The second constraint is the first one or the first one completed, but for when its key is
added. -/
def Follows (c : Catalog) (k k' : Constraint) : Prop :=
  k'.withoutAlter = k.withoutAlter ∨ k'.withoutAlter = (c.completed k).withoutAlter

theorem Follows.refl (c : Catalog) (k : Constraint) : c.Follows k k := .inl rfl

theorem Follows.trans {k'' : Constraint} (h : c.Follows k k') (h' : c.Follows k' k'') :
    c.Follows k k'' := by
  have hcompleted {a b : Constraint} (hab : a.withoutAlter = b.withoutAlter) :
      (c.completed a).withoutAlter = (c.completed b).withoutAlter := by
    rw [← completed_withoutAlter, hab, completed_withoutAlter]
  rcases h' with h' | h'
  · unfold Follows
    rw [h']
    exact h
  · apply Or.inr
    rcases h with h | h
    · exact h'.trans (hcompleted h)
    · rw [h', hcompleted h, completed_completed]

/-- A key with a target that is known has been completed for good. -/
theorem Follows.grow (hgrows : c.Grows c') (h : c.Follows k k') : c'.Follows k k' := by
  rcases h with h | h
  · exact .inl h
  · by_cases hknown : ∃ key, k.foreignKey? = some key ∧
        (c.relation? key.referencedTable).isSome = true
    · rcases hknown with ⟨key, hkey, ht⟩
      have hk : c'.completed k = c.completed k := by
        apply completed_eq hkey
        unfold completedKey
        rw [hgrows.checkReference_eq ht]
      rw [← hk] at h
      exact .inr h
    · have hk : c.completed k = k := by
        refine completed_of_error fun key hkey => ⟨_, checkReference_of_none ?_⟩
        by_contra ht
        exact hknown ⟨key, hkey, Option.isSome_iff_ne_none.2 ht⟩
      rw [hk] at h
      exact .inl h

theorem follows_relink (h : c.Relinked c') : c'.Follows k k' ↔ c.Follows k k' := by
  unfold Follows
  rw [completed_congr fun _ _ _ => checkReference_relink h]

/-- All keys of the second catalog follow those of the first one. -/
structure Advances (c c' : Catalog) : Prop extends Relinked c c' where
  follows : ∀ q r r', c.relation? q = some r → c'.relation? q = some r' →
    List.Forall₂ c.Follows r.constraints r'.constraints

theorem forall₂_trans {α : Type} {R : α → α → Prop} (htrans : ∀ {a b c}, R a b → R b c → R a c)
    {as bs cs : List α} (h : List.Forall₂ R as bs) (h' : List.Forall₂ R bs cs) :
    List.Forall₂ R as cs := by
  induction h generalizing cs with
  | nil => exact h'
  | cons hab _ ih =>
    cases h' with
    | cons hbc h' => exact .cons (htrans hab hbc) (ih h')

namespace Advances

theorem refl (c : Catalog) : c.Advances c where
  toRelinked := .refl c
  follows q r r' hr hr' := by
    rw [hr] at hr'
    cases hr'
    exact List.forall₂_same.2 fun k _ => .refl c k

theorem trans (h : c.Advances c') (h' : c'.Advances c'') : c.Advances c'' where
  toRelinked := h.toRelinked.trans h'.toRelinked
  follows q r r'' hr hr'' := by
    obtain ⟨r', hr', -⟩ := h.exists_relation? hr
    have hlater := (h'.follows q r' r'' hr' hr'').imp fun k k' hk =>
      (follows_relink h.toRelinked).1 hk
    exact forall₂_trans .trans (h.follows q r r' hr hr') hlater

theorem insertRelation (h : c.Advances c') {r : Relation} (hnew : c.relation? r.name = none) :
    (c.insertRelation r).Advances (c'.insertRelation r) where
  toRelinked := h.toRelinked.insertRelation r
  follows q r₀ r₁ hr₀ hr₁ := by
    rw [relation?_insertRelation] at hr₀ hr₁
    by_cases hq : r.name = q
    · rw [if_pos hq] at hr₀ hr₁
      cases hr₀
      cases hr₁
      exact List.forall₂_same.2 fun k _ => .refl _ k
    · rw [if_neg hq] at hr₀ hr₁
      have hgrows : c.Grows (c.insertRelation r) := by
        apply grows_insertRelation
        intro r₂ hr₂
        rw [hnew] at hr₂
        cases hr₂
      exact (h.follows q r₀ r₁ hr₀ hr₁).imp fun _ _ hk => hk.grow hgrows

end Advances

theorem advances_modifyForeignKey (c : Catalog) (owner : QualifiedName) (name : String)
    {f : ForeignKey → ForeignKey} (hf : ∀ key, (f key).unlinked = key.unlinked)
    (hk : ∀ r k, c.relation? owner = some r → r.constraint? name = some k →
      c.Follows k (k.modifyForeignKey f)) :
    c.Advances (c.modifyForeignKey owner name f) where
  toRelinked := c.relinked_modifyForeignKey owner name hf
  follows q r r' hr hr' := by
    unfold modifyForeignKey at hr'
    rw [relation?_modifyRelation] at hr'
    split at hr'
    · next hq =>
      subst hq
      rw [hr] at hr'
      cases hr'
      exact Relation.forall₂_modifyFirst (Follows.refl c) fun k hfind => hk r k hr hfind
    · rw [hr] at hr'
      cases hr'
      exact List.forall₂_same.2 fun k _ => .refl c k

theorem advances_addedLater (c : Catalog) (owner : QualifiedName) (name : String) :
    c.Advances (c.modifyForeignKey owner name (·.addedLater)) :=
  c.advances_modifyForeignKey owner name (fun _ => rfl) fun _ k _ _ =>
    .inl (k.withoutAlter_modifyForeignKey fun _ => rfl)

theorem advances_linkKey (c : Catalog) (id : KeyId) : c.Advances (c.linkKey id) := by
  cases hid : c.foreignKey? id.1 id.2 with
  | none =>
    rw [linkKey_of_none hid]
    exact .refl c
  | some found =>
    rcases found with ⟨k, key⟩
    obtain ⟨r, hr, hk, hkey⟩ := foreignKey?_eq_some_iff.1 hid
    cases hcheck : c.checkReference key k.columns k.location with
    | error issues =>
      rw [linkKey_of_error hid hcheck]
      exact .refl c
    | ok referenced =>
      rw [linkKey_of_ok hid hcheck]
      refine c.advances_modifyForeignKey id.1 id.2 (fun _ => rfl) fun r' k' hr' hk' => .inr ?_
      rw [hr] at hr'
      cases hr'
      rw [hk] at hk'
      cases hk'
      have hcompleted : c.completedKey k.columns k.location key = key.linkedTo referenced := by
        unfold completedKey
        rw [hcheck]
      rw [completed_eq (f := (·.linkedTo referenced)) hkey hcompleted]

/-- Every key that passes its check is completed. -/
def Complete (c : Catalog) : Prop :=
  ∀ q r, c.relation? q = some r → ∀ k ∈ r.constraints, c.completed k = k

/-- A relation with its keys completed. -/
def completedRelation (c : Catalog) (r : Relation) : Relation :=
  { r with constraints := r.constraints.map c.completed }

theorem Follows.eq_completed (h : c.Follows k k') (hk' : c.completed k' = k') :
    k'.withoutAlter = (c.completed k).withoutAlter := by
  rcases h with h | h
  · rw [← hk', ← completed_withoutAlter, h, completed_withoutAlter]
  · exact h

theorem map_withoutAlter_of_follows {ks ks' : List Constraint} (h : List.Forall₂ c.Follows ks ks')
    (hks' : ∀ k' ∈ ks', c.completed k' = k') :
    ks'.map Constraint.withoutAlter = (ks.map c.completed).map Constraint.withoutAlter := by
  induction h with
  | nil => rfl
  | cons hk _ ih =>
    rw [List.forall_mem_cons] at hks'
    simp only [List.map_cons]
    rw [hk.eq_completed hks'.1, ih hks'.2]

/-- What keys have come to in the end follows from the declarations. -/
theorem Advances.relation?_of_complete (h : c.Advances c') (hc : c'.Complete) (q : QualifiedName) :
    (c'.relation? q).map Relation.withoutAlter =
      (c.relation? q).map fun r => (c.completedRelation r).withoutAlter := by
  cases hr : c.relation? q with
  | none =>
    rw [h.relation?_eq_none hr]
    rfl
  | some r =>
    obtain ⟨r', hr', hunlinked⟩ := h.exists_relation? hr
    have hcompleted : ∀ k ∈ r'.constraints, c.completed k = k := by
      intro k hk
      rw [← completed_congr fun _ _ _ => checkReference_relink h.toRelinked]
      exact hc q r' hr' k hk
    have hkeys := map_withoutAlter_of_follows (h.follows q r r' hr hr') hcompleted
    rw [hr', Option.map_some, Option.map_some, Relation.withoutAlter_eq_of_unlinked hunlinked]
    unfold completedRelation Relation.withoutAlter
    rw [← hkeys]

theorem Alike.withoutAlter_completedRelation (h : c.Alike c') {r r' : Relation}
    (hr : r'.withoutAlter = r.withoutAlter) :
    (c'.completedRelation r').withoutAlter = (c.completedRelation r).withoutAlter := by
  have hcompleted (c : Catalog) (r : Relation) :
      (c.completedRelation r).withoutAlter = c.completedRelation r.withoutAlter := by
    unfold completedRelation Relation.withoutAlter
    simp [Function.comp_def, completed_withoutAlter]
  rw [hcompleted, hr, hcompleted]
  unfold completedRelation
  rw [funext (completed_congr h.checkReference_eq)]

/-- Catalogs that have been completed from alike ones are alike. -/
theorem Alike.of_complete {o o' : Catalog} (h : o.Alike o') (hc : o.Advances c)
    (hc' : o'.Advances c') (complete : c.Complete) (complete' : c'.Complete) : c.Alike c' where
  default_eq := hc'.default_eq.trans (h.default_eq.trans hc.default_eq.symm)
  schemas n := (hc'.schemas n).trans ((h.schemas n).trans (hc.schemas n).symm)
  relations q := by
    rw [hc.relation?_of_complete complete q, hc'.relation?_of_complete complete' q]
    cases hr : o.relation? q with
    | none =>
      rw [h.relation?_eq_none hr]
      rfl
    | some r =>
      obtain ⟨r', hr', hrr⟩ := h.exists_relation? hr
      rw [hr', Option.map_some, Option.map_some, h.withoutAlter_completedRelation hrr]
  order_perm := by
    rw [hc.order_eq, hc'.order_eq]
    exact h.order_perm

end Catalog

end DdlCatalog
