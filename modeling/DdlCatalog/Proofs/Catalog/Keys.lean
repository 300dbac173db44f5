import DdlCatalog.Proofs.Catalog.Reference
import DdlCatalog.Proofs.Catalog.WellFormed

/-! # The foreign keys of a catalog
Every foreign key is known by its owner and its name. Linking one of them changes no other. -/

namespace DdlCatalog

open Text (Location)

/-- A key whose check has found the columns it refers to. -/
def ForeignKey.linkedTo (referenced : List String) (key : ForeignKey) : ForeignKey :=
  { key with referencedColumns := referenced, resolved := true }

/-- A key that has to be added after its target. -/
def ForeignKey.addedLater (key : ForeignKey) : ForeignKey := { key with useAlter := true }

/-- A foreign key by its owner and its name. -/
abbrev KeyId := QualifiedName × String

namespace Catalog

variable (c : Catalog)

/-- A key after its check, which fills in the columns it refers to. -/
def completedKey (columns : List String) (l : Location) (key : ForeignKey) : ForeignKey :=
  match c.checkReference key columns l with
  | .ok referenced => key.linkedTo referenced
  | .error _ => key

@[simp] theorem completedKey_referencedTable (columns : List String) (l : Location)
    (key : ForeignKey) : (c.completedKey columns l key).referencedTable = key.referencedTable := by
  unfold completedKey
  split <;> rfl

/-- A constraint after the check of its key, if it is one. -/
def completed (k : Constraint) : Constraint :=
  k.modifyForeignKey (c.completedKey k.columns k.location)

/-- All that is wrong with the key of a constraint, if it is one. -/
def referenceIssues (k : Constraint) : List Error :=
  match k.foreignKey? with
  | some key =>
    match c.checkReference key k.columns k.location with
    | .ok _ => []
    | .error issues => issues
  | none => []

def keyIssues (id : KeyId) : List Error :=
  match c.foreignKey? id.1 id.2 with
  | some (k, _) => c.referenceIssues k
  | none => []

/-- The catalog after the check of one key. -/
def linkKey (id : KeyId) : Catalog :=
  match c.foreignKey? id.1 id.2 with
  | some (k, key) =>
    match c.checkReference key k.columns k.location with
    | .ok referenced => c.modifyForeignKey id.1 id.2 (·.linkedTo referenced)
    | .error _ => c
  | none => c

theorem relinked_linkKey (id : KeyId) : c.Relinked (c.linkKey id) := by
  unfold linkKey
  split
  · split
    · exact c.relinked_modifyForeignKey id.1 id.2 fun _ => rfl
    · exact .refl c
  · exact .refl c

variable {c} {q : QualifiedName} {name : String} {k : Constraint} {key : ForeignKey}

theorem foreignKey?_eq_some_iff :
    c.foreignKey? q name = some (k, key) ↔
      ∃ r, c.relation? q = some r ∧ r.constraint? name = some k ∧ k.foreignKey? = some key := by
  unfold foreignKey?
  simp only [Option.bind_eq_bind, Option.bind_eq_some_iff]
  constructor
  · rintro ⟨r, hr, k', hk, key', hkey, h⟩
    cases h
    exact ⟨r, hr, hk, hkey⟩
  · rintro ⟨r, hr, hk, hkey⟩
    exact ⟨r, hr, k, hk, key, hkey, rfl⟩

theorem foreignKey?_congr {c' : Catalog}
    (h : (c'.relation? q).map (·.constraints) = (c.relation? q).map (·.constraints)) :
    c'.foreignKey? q name = c.foreignKey? q name := by
  unfold foreignKey?
  cases hr : c.relation? q with
  | none => simp_all
  | some r =>
    rw [hr] at h
    obtain ⟨r', hr', hk⟩ := Option.map_eq_some_iff.1 h
    simp [hr', Relation.constraint?, hk]

theorem foreignKey?_modifyForeignKey (c : Catalog) (owner : QualifiedName) (n : String)
    (f : ForeignKey → ForeignKey) (q : QualifiedName) (name : String) :
    (c.modifyForeignKey owner n f).foreignKey? q name =
      if (owner, n) = (q, name) then
        (c.foreignKey? q name).map fun found => (found.1.modifyForeignKey f, f found.2)
      else c.foreignKey? q name := by
  unfold foreignKey? modifyForeignKey
  rw [relation?_modifyRelation]
  by_cases ho : owner = q
  · subst ho
    cases hr : c.relation? owner with
    | none => simp
    | some r =>
      by_cases hn : n = name
      · subst hn
        have hfind : (r.modifyConstraint n (·.modifyForeignKey f)).constraint? n =
            (r.constraint? n).map (·.modifyForeignKey f) :=
          Relation.find?_modifyFirst fun k => by simp
        simp only [if_true, Option.map_some, Option.bind_eq_bind, Option.bind_some, hfind]
        cases r.constraint? n with
        | none => rfl
        | some k => cases hk : k.foreignKey? <;> simp [hk]
      · have hfind : (r.modifyConstraint n (·.modifyForeignKey f)).constraint? name =
            r.constraint? name := by
          refine Relation.find?_modifyFirst_of_disjoint fun k hk => ?_
          have hk : k.name = n := by simpa using hk
          simp [hk, hn]
        simp [hn, hfind]
  · simp [ho]

theorem linkKey_of_ok {id : KeyId} {referenced : List String}
    (hid : c.foreignKey? id.1 id.2 = some (k, key))
    (h : c.checkReference key k.columns k.location = .ok referenced) :
    c.linkKey id = c.modifyForeignKey id.1 id.2 (·.linkedTo referenced) := by
  unfold linkKey
  rw [hid]
  dsimp only
  rw [h]

theorem linkKey_of_error {id : KeyId} {issues : List Error}
    (hid : c.foreignKey? id.1 id.2 = some (k, key))
    (h : c.checkReference key k.columns k.location = .error issues) : c.linkKey id = c := by
  unfold linkKey
  rw [hid]
  dsimp only
  rw [h]

theorem linkKey_of_none {id : KeyId} (hid : c.foreignKey? id.1 id.2 = none) : c.linkKey id = c := by
  unfold linkKey
  rw [hid]

theorem completed_eq {f : ForeignKey → ForeignKey} (hkey : k.foreignKey? = some key)
    (h : c.completedKey k.columns k.location key = f key) : c.completed k = k.modifyForeignKey f := by
  refine k.modifyForeignKey_congr fun key' hkey' => ?_
  rw [hkey] at hkey'
  cases hkey'
  exact h

/-- Linking a key completes it and leaves all others alone. -/
theorem foreignKey?_linkKey (c : Catalog) (id : KeyId) (q : QualifiedName) (name : String) :
    (c.linkKey id).foreignKey? q name =
      if id = (q, name) then
        (c.foreignKey? q name).map fun found =>
          (c.completed found.1, c.completedKey found.1.columns found.1.location found.2)
      else c.foreignKey? q name := by
  cases hid : c.foreignKey? id.1 id.2 with
  | none =>
    rw [linkKey_of_none hid]
    split
    · next he =>
      subst he
      rw [hid, Option.map_none]
    · rfl
  | some found =>
    rcases found with ⟨k, key⟩
    obtain ⟨-, -, -, hkey⟩ := foreignKey?_eq_some_iff.1 hid
    cases hcheck : c.checkReference key k.columns k.location with
    | ok referenced =>
      rw [linkKey_of_ok hid hcheck, foreignKey?_modifyForeignKey]
      split
      · next he =>
        cases he
        rw [hid, Option.map_some, Option.map_some]
        have hcompleted : c.completedKey k.columns k.location key = key.linkedTo referenced := by
          unfold completedKey
          rw [hcheck]
        rw [completed_eq (f := (·.linkedTo referenced)) hkey hcompleted, hcompleted]
      · rfl
    | error issues =>
      rw [linkKey_of_error hid hcheck]
      split
      · next he =>
        subst he
        have hcompleted : c.completedKey k.columns k.location key = key := by
          unfold completedKey
          rw [hcheck]
        rw [hid, Option.map_some, completed_eq (f := id) hkey hcompleted, hcompleted]
        rw [k.modifyForeignKey_self (f := id) fun _ _ => rfl]
      · rfl

/-- Checking a key once more gives the same answer. -/
theorem checkReference_completedKey (c : Catalog) (columns : List String) (l : Location)
    (key : ForeignKey) :
    c.checkReference (c.completedKey columns l key) columns l = c.checkReference key columns l := by
  unfold completedKey
  cases h : c.checkReference key columns l with
  | error issues => exact h
  | ok referenced =>
    obtain ⟨target, ht, hv, hr, hall⟩ := checkReference_eq_ok_iff.1 h
    have hne : referenced ≠ [] := by
      rcases referencedColumns_eq_ok_iff.1 hr with ⟨-, -, hne, -⟩ | ⟨hne, rfl⟩
      · exact hne
      · exact hne
    refine checkReference_eq_ok_iff.2 ⟨target, ht, hv, ?_, hall⟩
    exact referencedColumns_eq_ok_iff.2 (.inr ⟨hne, rfl⟩)

theorem referenceIssues_eq {c : Catalog} (hkey : k.foreignKey? = some key) :
    c.referenceIssues k =
      match c.checkReference key k.columns k.location with
      | .ok _ => []
      | .error issues => issues := by
  unfold referenceIssues
  rw [hkey]

/-- A change of a key that its check does not see does not change its issues. -/
theorem referenceIssues_modifyForeignKey {c c' : Catalog} {f : ForeignKey → ForeignKey}
    (h : ∀ key, k.foreignKey? = some key →
      c'.checkReference (f key) k.columns k.location = c.checkReference key k.columns k.location) :
    c'.referenceIssues (k.modifyForeignKey f) = c.referenceIssues k := by
  cases hkey : k.foreignKey? with
  | none => simp [referenceIssues, hkey]
  | some key =>
    have hmodified : (k.modifyForeignKey f).foreignKey? = some (f key) := by simp [hkey]
    rw [referenceIssues_eq hkey, referenceIssues_eq hmodified]
    simp [h key hkey]

theorem referenceIssues_relink {c c' : Catalog} (h : c.Relinked c') (k : Constraint) :
    c'.referenceIssues k = c.referenceIssues k := by
  unfold referenceIssues
  simp only [checkReference_relink h]

theorem keyIssues_eq {c : Catalog} {id : KeyId} (h : c.foreignKey? id.1 id.2 = some (k, key)) :
    c.keyIssues id = c.referenceIssues k := by
  unfold keyIssues
  rw [h]

theorem keyIssues_linkKey (c : Catalog) (id other : KeyId) :
    (c.linkKey id).keyIssues other = c.keyIssues other := by
  unfold keyIssues
  rw [foreignKey?_linkKey]
  cases c.foreignKey? other.1 other.2 with
  | none => simp
  | some found =>
    by_cases he : id = (other.1, other.2)
    · rw [if_pos he, Option.map_some]
      refine referenceIssues_modifyForeignKey fun key _ => ?_
      rw [checkReference_relink (c.relinked_linkKey id), checkReference_completedKey]
    · rw [if_neg he]
      exact referenceIssues_relink (c.relinked_linkKey id) found.1

theorem foreignKey?_of_mem (h : c.WellFormed) {r : Relation} (hr : c.relation? q = some r)
    (hk : k ∈ r.constraints) (hkey : k.foreignKey? = some key) :
    c.foreignKey? q k.name = some (k, key) :=
  foreignKey?_eq_some_iff.2
    ⟨r, hr, Relation.find?_of_nodup (h.constraint_names_nodup hr) hk, hkey⟩

/-- The foreign keys of all relations, in order of declaration. -/
def keyIds (c : Catalog) : List KeyId :=
  c.relationOrder.flatMap fun q =>
    ((c.relation? q).map fun r => r.foreignKeys.map fun k => (q, k.name)).getD []

theorem mem_keyIds (h : c.WellFormed) (id : KeyId) :
    id ∈ c.keyIds ↔ (c.foreignKey? id.1 id.2).isSome = true := by
  rcases id with ⟨q, name⟩
  unfold keyIds
  rw [List.mem_flatMap, Option.isSome_iff_exists]
  constructor
  · rintro ⟨q', -, hm⟩
    cases hr : c.relation? q' with
    | none => simp [hr] at hm
    | some r =>
      rw [hr, Option.map_some, Option.getD_some] at hm
      obtain ⟨k, hk, he⟩ := List.mem_map.1 hm
      cases he
      obtain ⟨hk, hkey⟩ := List.mem_filter.1 hk
      obtain ⟨key, hkey⟩ := Option.isSome_iff_exists.1 hkey
      exact ⟨(k, key), foreignKey?_of_mem h hr hk hkey⟩
  · rintro ⟨⟨k, key⟩, hk⟩
    obtain ⟨r, hr, hk, hkey⟩ := foreignKey?_eq_some_iff.1 hk
    refine ⟨q, (h.mem_order q).2 (by rw [hr]; rfl), ?_⟩
    rw [hr, Option.map_some, Option.getD_some]
    have hname : k.name = name := by simpa using List.find?_some hk
    refine List.mem_map.2 ⟨k, List.mem_filter.2 ⟨List.mem_of_find?_eq_some hk, ?_⟩, by rw [hname]⟩
    rw [hkey]
    rfl

theorem keyIds_nodup (h : c.WellFormed) : c.keyIds.Nodup := by
  refine List.nodup_flatMap.2 ⟨?_, ?_⟩
  · intro q _
    cases hr : c.relation? q with
    | none => exact List.nodup_nil
    | some r =>
      have hsub : (r.foreignKeys.map (·.name)).Nodup :=
        (h.constraint_names_nodup hr).sublist (List.filter_sublist.map _)
      rw [Option.map_some, Option.getD_some]
      apply List.Nodup.of_map Prod.snd
      simpa [Function.comp_def] using hsub
  · refine h.order_nodup.imp fun {q q'} hne => ?_
    intro id hid hid'
    have howner {q : QualifiedName} (hm : id ∈ ((c.relation? q).map fun r =>
        r.foreignKeys.map fun k => (q, k.name)).getD []) : id.1 = q := by
      cases hr : c.relation? q with
      | none => simp [hr] at hm
      | some r =>
        rw [hr, Option.map_some, Option.getD_some] at hm
        obtain ⟨k, -, rfl⟩ := List.mem_map.1 hm
        rfl
    exact hne ((howner hid).symm.trans (howner hid'))

theorem keyIds_relink {c c' : Catalog} (h : c.Relinked c') : c'.keyIds = c.keyIds := by
  have hnames (r : Relation) : r.unlinked.foreignKeys.map (·.name) = r.foreignKeys.map (·.name) := by
    have hp : (fun k : Constraint => k.foreignKey?.isSome) ∘ Constraint.unlinked =
        fun k => k.foreignKey?.isSome := by
      funext k
      simp [Constraint.unlinked]
    simp only [Relation.foreignKeys, Relation.unlinked, List.filter_map, List.map_map, hp]
    congr 1
    funext k
    simp [Constraint.unlinked]
  unfold keyIds
  rw [h.order_eq]
  congr 1
  funext q
  have hids (r : Relation) : (r.foreignKeys.map fun k => (q, k.name)) =
      (r.foreignKeys.map (·.name)).map (Prod.mk q) := by simp
  cases hr : c.relation? q with
  | none => rw [h.relation?_eq_none hr]
  | some r =>
    obtain ⟨r', hr', hrr⟩ := h.exists_relation? hr
    rw [hr', Option.map_some, Option.map_some, hids, hids, ← hnames r', hrr, hnames r]

def allKeyIssues (c : Catalog) : List Error :=
  c.constraints.flatMap fun found => c.referenceIssues found.2

theorem allKeyIssues_eq (c : Catalog) :
    c.allKeyIssues = c.relationOrder.flatMap fun q =>
      (c.relation? q).toList.flatMap fun r => r.constraints.flatMap c.referenceIssues := by
  unfold allKeyIssues constraints relations
  rw [List.filterMap_eq_flatMap_toList, List.flatMap_assoc, List.flatMap_assoc]
  simp only [List.flatMap_map]

theorem flatMap_foreignKeys (c : Catalog) (r : Relation) :
    r.foreignKeys.flatMap c.referenceIssues = r.constraints.flatMap c.referenceIssues := by
  unfold Relation.foreignKeys
  induction r.constraints with
  | nil => rfl
  | cons k ks ih =>
    cases hkey : k.foreignKey? with
    | none => simp [hkey, ih, referenceIssues]
    | some key => simp [hkey, ih]

theorem flatMap_keyIssues (h : c.WellFormed) : c.keyIds.flatMap c.keyIssues = c.allKeyIssues := by
  have hrelation (q : QualifiedName) (r : Relation) (hr : c.relation? q = some r) :
      (r.foreignKeys.map fun k => (q, k.name)).flatMap c.keyIssues =
        r.constraints.flatMap c.referenceIssues := by
    have hkeys : ∀ k ∈ r.foreignKeys, c.keyIssues (q, k.name) = c.referenceIssues k := by
      intro k hk
      obtain ⟨hk, hkey⟩ := List.mem_filter.1 hk
      obtain ⟨key, hkey⟩ := Option.isSome_iff_exists.1 hkey
      exact keyIssues_eq (foreignKey?_of_mem h hr hk hkey)
    rw [List.flatMap_map, List.flatMap_congr hkeys]
    exact flatMap_foreignKeys c r
  rw [allKeyIssues_eq, keyIds, List.flatMap_assoc]
  refine List.flatMap_congr fun q _ => ?_
  cases hr : c.relation? q with
  | none => rfl
  | some r =>
    rw [Option.map_some, Option.getD_some, hrelation q r hr]
    simp

/-- Every foreign key passes its check. -/
def KeysValid (c : Catalog) : Prop :=
  ∀ r k key, (r, k) ∈ c.constraints → k.foreignKey? = some key →
    ∃ referenced, c.checkReference key k.columns k.location = .ok referenced

theorem referenceIssues_eq_nil_iff {c : Catalog} :
    c.referenceIssues k = [] ↔ ∀ key, k.foreignKey? = some key →
      ∃ referenced, c.checkReference key k.columns k.location = .ok referenced := by
  cases hkey : k.foreignKey? with
  | none => simp [referenceIssues, hkey]
  | some key =>
    rw [referenceIssues_eq hkey]
    cases hcheck : c.checkReference key k.columns k.location with
    | ok referenced => simp [hcheck]
    | error issues => simp [hcheck, checkReference_error_ne_nil hcheck]

/-- Nothing is wrong with keys exactly if all are valid. -/
theorem allKeyIssues_eq_nil_iff : c.allKeyIssues = [] ↔ c.KeysValid := by
  unfold allKeyIssues KeysValid
  rw [List.flatMap_eq_nil_iff]
  constructor
  · exact fun h r k key hm => referenceIssues_eq_nil_iff.1 (h (r, k) hm) key
  · exact fun h found hm => referenceIssues_eq_nil_iff.2 fun key => h found.1 found.2 key hm

end Catalog

end DdlCatalog
