import DdlCatalog.Proofs.Build.History
import DdlCatalog.Proofs.Build.Integrity

/-! # Keys and the order of declaration
A key has to be added after its table exactly if its reference says so or its target was declared after
its table. All other keys can be written where their table is created. -/

namespace DdlCatalog

section Places

variable {α : Type} [DecidableEq α] {a b : α} {as : List α}

/-- What is appended comes after everything else. -/
theorem idxOf_lt_append_iff (ha : a ∈ as) (added : List α) :
    (as ++ added).idxOf a < (as ++ added).idxOf b ↔ as.idxOf a < as.idxOf b := by
  have hlength := List.idxOf_lt_length_of_mem ha
  rw [List.idxOf_append_of_mem ha, List.idxOf_append]
  split
  · rfl
  · next hb =>
    rw [List.idxOf_eq_length hb]
    omega

theorem idxOf_lt_concat_iff (ha : a ∉ as) :
    (as ++ [a]).idxOf a < (as ++ [a]).idxOf b ↔ b ∉ as ++ [a] := by
  have hlast : (as ++ [a]).idxOf a = as.length := by
    rw [List.idxOf_append_of_notMem ha, List.idxOf_cons_self, Nat.add_zero]
  rw [hlast]
  constructor
  · intro hlt hb
    have hlength := List.idxOf_lt_length_of_mem hb
    rw [List.length_append, List.length_singleton] at hlength
    omega
  · intro hb
    rw [List.idxOf_eq_length hb, List.length_append, List.length_singleton]
    omega

end Places

variable {config : Config} {p : ParsedStatement} {ps : List ParsedStatement}
  {scope scope' : Scope} {d d' mid : Draft} {found : NewTable} {q owner : QualifiedName}
  {k : Constraint} {key : ForeignKey}

theorem Step.exists_relationOrder (step : Step config p scope d scope' found mid) :
    ∃ added, mid.catalog.relationOrder = d.catalog.relationOrder ++ added ∧
      ∀ q ks, found = some (q, ks) → d.catalog.relation? q = none ∧ added = [q] := by
  have same (hnone : found = none) (h : mid.catalog.relationOrder = d.catalog.relationOrder) :
      ∃ added, mid.catalog.relationOrder = d.catalog.relationOrder ++ added ∧
        ∀ q ks, found = some (q, ks) → d.catalog.relation? q = none ∧ added = [q] := by
    refine ⟨[], h.trans (List.append_nil _).symm, fun q ks he => ?_⟩
    rw [hnone] at he
    cases he
  cases step with
  | schema | tableSkipped | viewSkipped => exact same rfl (Catalog.relationOrder_ensureSchema _ _)
  | enum | function | procedure | prepared =>
    exact same rfl (Catalog.relationOrder_ensureSchema _ _)
  | indexUnplaced | indexSkipped | index => exact same rfl rfl
  | @table s q t log _ _ free drawn =>
    have hnone := ((Catalog.relationKind?_eq_none_iff _ q).1 free).2
    refine ⟨[q], ?_, fun _ _ he => ?_⟩
    · dsimp only
      rw [Catalog.relationOrder_insertRelation, drawn.name_eq, hnone,
        Catalog.relationOrder_ensureSchema]
      rfl
    · cases he
      rw [Catalog.relation?_ensureSchema] at hnone
      exact ⟨hnone, rfl⟩
  | view =>
    dsimp only
    rw [Catalog.relationOrder_insertRelation, Catalog.relationOrder_ensureSchema]
    split
    · exact ⟨[], (List.append_nil _).symm, nofun⟩
    · exact ⟨_, rfl, nofun⟩

namespace Draft

theorem foreignKey?_registerAll_of_notMem {ks : List Constraint} {name : String}
    (h : name ∉ ks.map (·.name)) (d : Draft) :
    (ks.foldl (register owner) d).catalog.foreignKey? owner name =
      d.catalog.foreignKey? owner name := by
  induction ks generalizing d with
  | nil => rfl
  | cons k ks ih =>
    rw [List.map_cons, List.mem_cons, not_or] at h
    rw [List.foldl_cons, ih h.2]
    exact foreignKey?_register_of_ne fun he => h.1 (congrArg Prod.snd he).symm

/-- A key is added later if it asked for that or its target is not there yet. -/
theorem foreignKey?_register (h : d.catalog.foreignKey? owner k.name = some (k, key)) :
    ∃ k' key', (d.register owner k).catalog.foreignKey? owner k.name = some (k', key') ∧
      key'.useAlter = (key.useAlter || (d.catalog.relation? key.referencedTable).isNone) := by
  obtain ⟨-, -, -, hkey⟩ := Catalog.foreignKey?_eq_some_iff.1 h
  unfold register
  simp only [hkey]
  split
  · next hknown =>
    refine ⟨d.catalog.completed k, d.catalog.completedKey k.columns k.location key, ?_, ?_⟩
    · rw [link_catalog, Catalog.foreignKey?_linkKey, if_pos rfl, h]
      rfl
    · rw [Option.isNone_eq_false_iff.2 hknown, Bool.or_false]
      unfold Catalog.completedKey
      split <;> rfl
  · next hunknown =>
    refine ⟨k.modifyForeignKey (·.addedLater), key.addedLater, ?_, ?_⟩
    · rw [suspend_catalog, Catalog.foreignKey?_modifyForeignKey, if_pos rfl, h]
      rfl
    · have hnone : (d.catalog.relation? key.referencedTable).isNone = true := by
        simpa using hunknown
      rw [hnone, Bool.or_true]
      rfl

/-- So are all keys of a new table. -/
theorem foreignKey?_registerAll {ks : List Constraint} (hnames : (ks.map (·.name)).Nodup)
    (hk : k ∈ ks) (h : d.catalog.foreignKey? owner k.name = some (k, key)) :
    ∃ k' key', (ks.foldl (register owner) d).catalog.foreignKey? owner k.name = some (k', key') ∧
      key'.useAlter = (key.useAlter || (d.catalog.relation? key.referencedTable).isNone) := by
  induction ks generalizing d with
  | nil => cases hk
  | cons first ks ih =>
    rw [List.map_cons, List.nodup_cons] at hnames
    rw [List.foldl_cons]
    rcases List.mem_cons.1 hk with rfl | hk
    · rw [foreignKey?_registerAll_of_notMem hnames.1]
      exact foreignKey?_register h
    · have hne : (owner, first.name) ≠ (owner, k.name) := by
        intro he
        have hname : first.name = k.name := congrArg Prod.snd he
        exact hnames.1 (hname ▸ List.mem_map_of_mem hk)
      have hknown := (advances_register owner d first).isSome_relation? key.referencedTable
      obtain ⟨k', key', hk', halter⟩ :=
        ih hnames.2 hk ((foreignKey?_register_of_ne hne).trans h)
      refine ⟨k', key', hk', halter.trans ?_⟩
      rw [← Option.not_isSome, ← Option.not_isSome, hknown]

end Draft

/-- The key is that of a reference in the statement that its table has been stored from. -/
def ReadFrom (config : Config) (ps : List ParsedStatement) (q : QualifiedName) (r : Relation)
    (k : Constraint) (key : ForeignKey) (reference : Reference) : Prop :=
  ∃ p ∈ ps, ∃ s, p.statement = .createTable s ∧ s.name.qualify config.defaultSchema = q ∧
    r.ddl = p.text ∧ r.location = p.location ∧ ∃ d ∈ s.constraints,
      d.kind = .foreignKey reference ∧ k.columns = d.columns ∧ k.location = d.location ∧
        key.referencedTable = reference.table.qualify config.defaultSchema

theorem ReadFrom.mono {ps' : List ParsedStatement} {r r' : Relation} {k' : Constraint}
    {key' : ForeignKey} {reference : Reference} (h : ReadFrom config ps q r k key reference)
    (hps : ps ⊆ ps') (hddl : r'.ddl = r.ddl) (hplace : r'.location = r.location)
    (hk : k'.unlinked = k.unlinked) (hkey : key'.unlinked = key.unlinked) :
    ReadFrom config ps' q r' k' key' reference := by
  rcases h with ⟨p, hp, s, said, placed, hp_ddl, hp_place, cd, hcd, hkind, hcolumns, hlocation,
    htarget⟩
  have hcolumns' : k'.unlinked.columns = k.unlinked.columns := congrArg Constraint.columns hk
  have hlocation' : k'.unlinked.location = k.unlinked.location := congrArg Constraint.location hk
  have htarget' : key'.referencedTable = key.referencedTable :=
    (congrArg ForeignKey.referencedTable hkey :)
  rw [Constraint.unlinked, Constraint.unlinked, Constraint.modifyForeignKey_columns,
    Constraint.modifyForeignKey_columns] at hcolumns'
  rw [Constraint.unlinked, Constraint.unlinked, Constraint.modifyForeignKey_location,
    Constraint.modifyForeignKey_location] at hlocation'
  exact ⟨p, hps hp, s, said, placed, hddl.trans hp_ddl, hplace.trans hp_place, cd, hcd, hkind,
    hcolumns'.trans hcolumns, hlocation'.trans hlocation, htarget'.trans htarget⟩

theorem Declares.exists_reference {cd : TableConstraint} (h : Declares config q cd k)
    (hkey : k.foreignKey? = some key) :
    ∃ reference, cd.kind = .foreignKey reference ∧
      key.referencedTable = reference.table.qualify config.defaultSchema ∧
      key.useAlter = reference.useAlter := by
  have hkind := h.kind_eq
  unfold Constraint.foreignKey? at hkey
  generalize k.kind = kind at hkind hkey
  unfold DraftM.constraintKind at hkind
  cases hcd : cd.kind with
  | foreignKey reference =>
    simp only [hcd] at hkind
    split at hkind
    · cases hkind
    · cases hkind
      cases hkey
      exact ⟨reference, rfl, rfl, rfl⟩
  | _ =>
    simp only [hcd] at hkind
    cases hkind
    cases hkey

theorem Constraint.exists_foreignKey_of_unlinked {k k' : Constraint} {key' : ForeignKey}
    (h : k'.unlinked = k.unlinked) (hkey' : k'.foreignKey? = some key') :
    ∃ key, k.foreignKey? = some key ∧ key'.unlinked = key.unlinked := by
  have hkeys := congrArg Constraint.foreignKey? h
  unfold Constraint.unlinked at hkeys
  rw [foreignKey?_modifyForeignKey, foreignKey?_modifyForeignKey, hkey'] at hkeys
  obtain ⟨key, hkey, hunlinked⟩ := Option.map_eq_some_iff.1 hkeys.symm
  exact ⟨key, hkey, hunlinked.symm⟩

theorem Constraint.name_eq_of_unlinked {k k' : Constraint} (h : k'.unlinked = k.unlinked) :
    k'.name = k.name := by
  have hname := congrArg Constraint.name h
  rwa [unlinked, unlinked, modifyForeignKey_name, modifyForeignKey_name] at hname

theorem Relation.exists_constraint_of_unlinked {r r' : Relation} {k' : Constraint}
    (h : r'.unlinked = r.unlinked) (hk' : k' ∈ r'.constraints) :
    ∃ k ∈ r.constraints, k'.unlinked = k.unlinked := by
  have hks := congrArg Relation.constraints h
  have hmem : k'.unlinked ∈ r.unlinked.constraints := hks ▸ List.mem_map_of_mem hk'
  obtain ⟨k, hk, hunlinked⟩ := List.mem_map.1 hmem
  exact ⟨k, hk, hunlinked.symm⟩

/-- Whether keys are added later follows from their references and an order of declaration. -/
def Catalog.KeysOrdered (config : Config) (ps : List ParsedStatement) (c : Catalog) : Prop :=
  ∀ q r k key, c.relation? q = some r → k ∈ r.constraints → k.foreignKey? = some key →
    ∃ reference, ReadFrom config ps q r k key reference ∧
      (key.useAlter = true ↔ reference.useAlter = true ∨
        c.relationOrder.idxOf q < c.relationOrder.idxOf key.referencedTable)

theorem Catalog.KeysOrdered.kept {c c' : Catalog} (h : c.KeysOrdered config ps)
    (hc : c.WellFormed) {added : List QualifiedName}
    (horder : c'.relationOrder = c.relationOrder ++ added) {r₀ r : Relation}
    (hr₀ : c.relation? q = some r₀) (hr : r = { r₀ with indexes := r.indexes })
    (hk : k ∈ r.constraints) (hkey : k.foreignKey? = some key) :
    ∃ reference, ReadFrom config (ps ++ [p]) q r k key reference ∧
      (key.useAlter = true ↔ reference.useAlter = true ∨
        c'.relationOrder.idxOf q < c'.relationOrder.idxOf key.referencedTable) := by
  rw [hr] at hk ⊢
  obtain ⟨reference, hread, halter⟩ := h q r₀ k key hr₀ hk hkey
  refine ⟨reference, hread.mono (List.subset_append_left ps [p]) rfl rfl rfl rfl, ?_⟩
  have hmem : q ∈ c.relationOrder := (hc.mem_order q).2 (by rw [hr₀]; rfl)
  rw [horder, idxOf_lt_append_iff hmem]
  exact halter

/-- The keys of a new table are added later if their references say so or their targets are not there
yet. -/
theorem Catalog.KeysOrdered.drawn {s : CreateTable} {t r : Relation} {c : Catalog}
    (said : p.statement = .createTable s) (placed : s.name.qualify config.defaultSchema = q)
    (hfree : q ∉ d.catalog.relationOrder) (drawn : Drawn config c q s t)
    (hddl : t.ddl = p.text) (hlocation : t.location = p.location)
    (ht : mid.catalog.relation? q = some t) (hmid : mid.catalog.WellFormed)
    (horder : mid.catalog.relationOrder = d.catalog.relationOrder ++ [q])
    (hr : (mid.registerDeclared (some (q, t.constraints))).catalog.relation? q = some r)
    (hk : k ∈ r.constraints) (hkey : k.foreignKey? = some key) :
    ∃ reference, ReadFrom config (ps ++ [p]) q r k key reference ∧
      (key.useAlter = true ↔ reference.useAlter = true ∨
        (d.catalog.relationOrder ++ [q]).idxOf q <
          (d.catalog.relationOrder ++ [q]).idxOf key.referencedTable) := by
  have hadvances := mid.advances_registerDeclared (some (q, t.constraints))
  have hafter := hmid.relink hadvances.toRelinked
  have hunlinked : r.unlinked = t.unlinked := by
    obtain ⟨r', hr', hrt⟩ := hadvances.exists_relation? ht
    rw [hr] at hr'
    cases hr'
    exact hrt
  obtain ⟨k₀, hk₀, hkk₀⟩ := Relation.exists_constraint_of_unlinked hunlinked hk
  obtain ⟨key₀, hkey₀, hkeys⟩ := Constraint.exists_foreignKey_of_unlinked hkk₀ hkey
  obtain ⟨cd, hcd, hdeclares⟩ := drawn.exists_declares hk₀
  obtain ⟨reference, hkind, htarget, halter₀⟩ := hdeclares.exists_reference hkey₀
  have hread₀ : ReadFrom config (ps ++ [p]) q t k₀ key₀ reference :=
    ⟨p, List.mem_append_right ps (List.mem_singleton_self p), s, said, placed, hddl, hlocation, cd,
      hcd, hkind, hdeclares.columns_eq, hdeclares.location_eq, htarget⟩
  refine ⟨reference, hread₀.mono (List.Subset.refl _) ?_ ?_ hkk₀ hkeys, ?_⟩
  · exact (congrArg Relation.ddl hunlinked :)
  · exact (congrArg Relation.location hunlinked :)
  · have hid := Catalog.foreignKey?_of_mem hafter hr hk hkey
    obtain ⟨k', key', hid', halter⟩ := Draft.foreignKey?_registerAll drawn.names_nodup hk₀
      (Catalog.foreignKey?_of_mem hmid ht hk₀ hkey₀)
    rw [Constraint.name_eq_of_unlinked hkk₀] at hid
    obtain ⟨rfl, rfl⟩ := Prod.mk.inj (Option.some.inj (hid.symm.trans hid'))
    have htargets : key.referencedTable = key₀.referencedTable :=
      (congrArg ForeignKey.referencedTable hkeys :)
    have hknown := hmid.mem_order key₀.referencedTable
    rw [idxOf_lt_concat_iff hfree, ← horder, htargets, hknown, halter, halter₀, Bool.or_eq_true,
      Option.isNone_iff_eq_none, Option.isSome_iff_ne_none, not_not]

theorem DraftM.Runs.keysOrdered (hp : Grammar.Parsed p) (hc : d.catalog.WellFormed)
    (declared : Runs (declare config scope p) d (scope', found) mid)
    (h : d.catalog.KeysOrdered config ps) :
    (mid.registerDeclared found).catalog.KeysOrdered config (ps ++ [p]) := by
  intro q r k key hr hk hkey
  have hmid := declared.step.wellFormed hp hc
  obtain ⟨added, horder, hadded⟩ := declared.step.exists_relationOrder
  have horder' : (mid.registerDeclared found).catalog.relationOrder =
      d.catalog.relationOrder ++ added :=
    (mid.advances_registerDeclared found).order_eq.trans horder
  by_cases hown : ∃ ks, found = some (q, ks)
  · rcases hown with ⟨ks, rfl⟩
    obtain ⟨t, ht, rfl⟩ := declared.step.exists_newTable
    obtain ⟨hnone, rfl⟩ := hadded q _ rfl
    have hfree : q ∉ d.catalog.relationOrder := by
      rw [hc.mem_order, hnone]
      exact Bool.false_ne_true
    rw [horder']
    cases declared.stored ht with
    | kept _ _ other => exact absurd rfl (other _)
    | view _ _ _ found_eq => cases found_eq
    | table said placed built =>
      obtain ⟨hddl, hlocation⟩ := built.table_text
      exact Catalog.KeysOrdered.drawn said placed hfree built.table.1 hddl hlocation ht hmid horder hr
        hk hkey
  · have hother (ks : List Constraint) : found ≠ some (q, ks) := fun he => hown ⟨ks, he⟩
    rw [Draft.relation?_registerDeclared_of_ne hother] at hr
    cases declared.stored hr with
    | kept before same => exact h.kept hc horder' before same hk hkey
    | table _ _ _ found_eq => exact absurd found_eq (hother _)
    | view _ _ drawn =>
      rw [drawn] at hk
      cases hk

namespace Draft

/-- Settling does not change when a key is added. -/
theorem foreignKey?_resolve {w : QualifiedName × PendingReference} {name : String}
    {k' : Constraint} {key' : ForeignKey}
    (h : (d.resolve w).catalog.foreignKey? q name = some (k', key')) :
    ∃ k key, d.catalog.foreignKey? q name = some (k, key) ∧ key'.useAlter = key.useAlter := by
  unfold resolve at h
  split at h
  · rw [link_catalog, Catalog.foreignKey?_linkKey] at h
    split at h
    · obtain ⟨⟨k, key⟩, hk, he⟩ := Option.map_eq_some_iff.1 h
      cases he
      refine ⟨k, key, hk, ?_⟩
      unfold Catalog.completedKey
      split <;> rfl
    · exact ⟨k', key', h, rfl⟩
  · exact ⟨k', key', h, rfl⟩

theorem foreignKey?_resolveAll {ws : List (QualifiedName × PendingReference)} {name : String}
    {k' : Constraint} {key' : ForeignKey}
    (h : (ws.foldl resolve d).catalog.foreignKey? q name = some (k', key')) :
    ∃ k key, d.catalog.foreignKey? q name = some (k, key) ∧ key'.useAlter = key.useAlter := by
  induction ws generalizing d with
  | nil => exact ⟨k', key', h, rfl⟩
  | cons w ws ih =>
    rw [List.foldl_cons] at h
    obtain ⟨k₁, key₁, hk₁, halter₁⟩ := ih h
    obtain ⟨k, key, hk, halter⟩ := foreignKey?_resolve hk₁
    exact ⟨k, key, hk, halter₁.trans halter⟩

theorem keysOrdered_settle (hc : d.catalog.WellFormed) (h : d.catalog.KeysOrdered config ps) :
    d.settle.catalog.KeysOrdered config ps := by
  intro q r' k' key' hr' hk' hkey'
  have hadvances := d.advances_settle
  have hid' := Catalog.foreignKey?_of_mem (hc.relink hadvances.toRelinked) hr' hk' hkey'
  rw [settle_eq] at hid'
  obtain ⟨k, key, hid, halter⟩ := foreignKey?_resolveAll hid'
  obtain ⟨r, hr, -⟩ := Catalog.foreignKey?_eq_some_iff.1 hid
  obtain ⟨r₁, hr₁, hunlinked⟩ := hadvances.exists_relation? hr
  obtain rfl : r' = r₁ := Option.some.inj (hr'.symm.trans hr₁)
  obtain ⟨k₀, hk₀, hkk₀⟩ := Relation.exists_constraint_of_unlinked hunlinked hk'
  obtain ⟨key₀, hkey₀, hkeys⟩ := Constraint.exists_foreignKey_of_unlinked hkk₀ hkey'
  have hid₀ := Catalog.foreignKey?_of_mem hc hr hk₀ hkey₀
  rw [← Constraint.name_eq_of_unlinked hkk₀] at hid₀
  obtain ⟨rfl, rfl⟩ := Prod.mk.inj (Option.some.inj (hid₀.symm.trans hid))
  obtain ⟨reference, hread, horder⟩ := h q r k₀ key₀ hr hk₀ hkey₀
  refine ⟨reference, hread.mono (List.Subset.refl _) ?_ ?_ hkk₀ hkeys, ?_⟩
  · exact (congrArg Relation.ddl hunlinked :)
  · exact (congrArg Relation.location hunlinked :)
  · have htarget : key'.referencedTable = key₀.referencedTable :=
      (congrArg ForeignKey.referencedTable hkeys :)
    rw [hadvances.order_eq, halter, htarget]
    exact horder

end Draft

/-- The first relation was declared before the second. -/
def Catalog.Precedes (c : Catalog) (q q' : QualifiedName) : Prop :=
  q' ∈ c.relationOrder ∧ c.relationOrder.idxOf q < c.relationOrder.idxOf q'

namespace Builder

variable {b : Builder} {c : Catalog}

theorem Accepts.keysOrdered (h : Accepts config b ps) : b.draft.catalog.KeysOrdered config ps :=
  h.history (P := fun ps d => d.catalog.KeysOrdered config ps) (fun _ _ _ _ hr => nomatch hr)
    (fun h => h) fun hp hc declared h => declared.keysOrdered hp hc h

/-- In a finished catalog a key is added later exactly if its reference says so or its target was
declared after its table. So where tables are created in order, with all other keys in their places, no
key refers to a table that is still to come. -/
theorem useAlter_of_finish (h : Reachable config b) (hf : b.finish = .ok c) :
    (∃ ps, Accepts config b ps) ∧ ∀ ps, Accepts config b ps →
      (∀ q r k key, c.relation? q = some r → k ∈ r.constraints → k.foreignKey? = some key →
        ∃ reference, ReadFrom config ps q r k key reference ∧
          (key.useAlter = true ↔ reference.useAlter = true ∨ c.Precedes q key.referencedTable)) ∧
      ∀ before q after, c.relationOrder = before ++ q :: after →
        ∀ r k key, c.relation? q = some r → k ∈ r.constraints → k.foreignKey? = some key →
          key.useAlter = false → key.referencedTable ∈ before ++ [q] := by
  refine ⟨exists_accepts h, fun ps hps => ?_⟩
  obtain ⟨trace, ht⟩ := exists_traced h
  have hordered : c.KeysOrdered config ps := by
    obtain ⟨-, rfl⟩ := finish_eq_ok_iff.1 hf
    exact Draft.keysOrdered_settle ht.wellFormed hps.keysOrdered
  have hwf : c.WellFormed := by
    obtain ⟨-, rfl⟩ := finish_eq_ok_iff.1 hf
    exact ht.wellFormed.relink b.draft.advances_settle.toRelinked
  have hknown {q r k key} (hr : c.relation? q = some r) (hk : k ∈ r.constraints)
      (hkey : k.foreignKey? = some key) : key.referencedTable ∈ c.relationOrder := by
    obtain ⟨t, htarget, -⟩ := (ht.keyResolved hf hr hk hkey).target
    rw [hwf.mem_order, htarget]
    rfl
  constructor
  · intro q r k key hr hk hkey
    obtain ⟨reference, hread, halter⟩ := hordered q r k key hr hk hkey
    refine ⟨reference, hread, halter.trans (or_congr_right ?_)⟩
    exact (and_iff_right (hknown hr hk hkey)).symm
  · intro before q after horder r k key hr hk hkey hlater
    obtain ⟨reference, -, halter⟩ := hordered q r k key hr hk hkey
    by_contra hmissing
    have hq : q ∈ before ++ [q] := List.mem_append_right before (List.mem_singleton_self q)
    have hlt : c.relationOrder.idxOf q < c.relationOrder.idxOf key.referencedTable := by
      rw [horder, List.append_cons, idxOf_lt_append_iff hq, List.idxOf_eq_length hmissing]
      exact List.idxOf_lt_length_of_mem hq
    rw [halter.2 (.inr hlt)] at hlater
    cases hlater

/-- A table whose keys refer forward, backward, to itself and backward with a pragma. -/
def orderedBuilder : { b // Reachable Config.default b } :=
  ⟨(((Builder.ofConfig Config.default).addSource "a.sql"
    "create table a (x int primary key)").2.addSource "b.sql"
    ("create table b (x int primary key, y int references c, z int references a, " ++
      "v int references b, w int references a pragma (use_alter)); " ++
      "create table c (x int primary key)")).2,
    .addSource (.addSource .start _ _) _ _⟩

theorem useAlter_of_orderedBuilder :
    ∃ c, orderedBuilder.1.finish = .ok c ∧
      c.constraints.filterMap (fun found => found.2.foreignKey?.map fun key =>
        (key.referencedTable.name, key.useAlter)) =
          [("c", true), ("a", false), ("b", false), ("a", true)] ∧
      (∃ ps, Accepts Config.default orderedBuilder ps) ∧
      ∀ ps, Accepts Config.default orderedBuilder ps →
        (∀ q r k key, c.relation? q = some r → k ∈ r.constraints → k.foreignKey? = some key →
          ∃ reference, ReadFrom Config.default ps q r k key reference ∧
            (key.useAlter = true ↔ reference.useAlter = true ∨ c.Precedes q key.referencedTable)) ∧
        ∀ before q after, c.relationOrder = before ++ q :: after →
          ∀ r k key, c.relation? q = some r → k ∈ r.constraints → k.foreignKey? = some key →
            key.useAlter = false → key.referencedTable ∈ before ++ [q] := by
  have hruns : orderedBuilder.1.draft.settle.issues.isEmpty = true ∧
      orderedBuilder.1.draft.settle.catalog.constraints.filterMap (fun found =>
        found.2.foreignKey?.map fun key => (key.referencedTable.name, key.useAlter)) =
          [("c", true), ("a", false), ("b", false), ("a", true)] := by decide +kernel
  have hf : orderedBuilder.1.finish = .ok orderedBuilder.1.draft.settle.catalog :=
    finish_eq_ok_iff.2 ⟨List.isEmpty_iff.1 hruns.1, rfl⟩
  exact ⟨_, hf, hruns.2, useAlter_of_finish orderedBuilder.2 hf⟩

end Builder

end DdlCatalog
