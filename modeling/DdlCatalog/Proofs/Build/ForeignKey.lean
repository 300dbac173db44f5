import DdlCatalog.Build.Builder
import DdlCatalog.Proofs.Build.Runs
import DdlCatalog.Proofs.Catalog.Advances

/-! # What linking does to a draft
Linking a key always succeeds. It completes the key or adds all that is wrong with it to the
issues. -/

namespace DdlCatalog

namespace Draft

/-- A draft after the check of one key. -/
def link (d : Draft) (id : KeyId) : Draft :=
  { d with catalog := d.catalog.linkKey id, issues := d.issues ++ d.catalog.keyIssues id }

/-- A draft after a key has been left to wait for its target. -/
def suspend (d : Draft) (owner : QualifiedName) (k : Constraint) (target : QualifiedName) : Draft where
  catalog := d.catalog.modifyForeignKey owner k.name (·.addedLater)
  pending := d.pending.alter target fun rs => rs.getD [] ++ [⟨owner, k.name, k.location⟩]
  issues := d.issues
  log := d.log ++ [.pendingKey owner k.name target]

/-- A draft after a constraint of a new table has been taken care of. -/
def register (owner : QualifiedName) (d : Draft) (k : Constraint) : Draft :=
  match k.foreignKey? with
  | some key =>
    if (d.catalog.relation? key.referencedTable).isSome then d.link (owner, k.name)
    else d.suspend owner k key.referencedTable
  | none => d

/-- A draft after a waiting key has been settled. -/
def resolve (d : Draft) (waiting : QualifiedName × PendingReference) : Draft :=
  if (d.catalog.relation? waiting.1).isSome then d.link (waiting.2.table, waiting.2.constraint)
  else { d with issues := d.issues ++
    [.unresolvedReference waiting.2.location (toString waiting.1) none] }

end Draft

namespace DraftM

variable {d d' : Draft} {u : Unit}

theorem runs_linkForeignKey {owner : QualifiedName} {name : String} :
    Runs (linkForeignKey owner name) d u d' ↔ d' = d.link (owner, name) := by
  unfold linkForeignKey Draft.link Catalog.linkKey Catalog.keyIssues
  rw [runs_catalog_bind]
  cases hk : d.catalog.foreignKey? owner name with
  | none => simp
  | some found =>
    rcases found with ⟨k, key⟩
    have hkey : k.foreignKey? = some key := by
      unfold Catalog.foreignKey? at hk
      simp only [Option.bind_eq_bind, Option.bind_eq_some_iff] at hk
      rcases hk with ⟨r, -, k', -, key', hkey, hk⟩
      cases hk
      exact hkey
    dsimp only
    rw [runs_catalog_bind]
    cases hcheck : d.catalog.checkReference key k.columns k.location with
    | ok referenced => simp [hcheck, Catalog.referenceIssues, hkey, ForeignKey.linkedTo]
    | error issues =>
      have hids : Runs (forM issues report) d u d' ↔
          d' = { d with issues := d.issues ++ issues } := by
        rw [runs_forM_report (f := fun e => e), List.map_id']
      simp [hcheck, Catalog.referenceIssues, hkey, hids]

theorem runs_registerForeignKey {owner : QualifiedName} {k : Constraint} {key : ForeignKey} :
    Runs (registerForeignKey owner k key) d u d' ↔
      d' = if (d.catalog.relation? key.referencedTable).isSome then d.link (owner, k.name)
        else d.suspend owner k key.referencedTable := by
  unfold registerForeignKey
  rw [runs_catalog_bind]
  by_cases h : (d.catalog.relation? key.referencedTable).isSome
  · simp [h, runs_linkForeignKey]
  · simp [h, Draft.suspend, ForeignKey.addedLater]

theorem runs_registerForeignKeys {owner : QualifiedName} {ks : List Constraint} :
    Runs (registerForeignKeys owner ks) d u d' ↔ d' = ks.foldl (Draft.register owner) d := by
  unfold registerForeignKeys
  rw [List.forM_eq_forM]
  induction ks generalizing d with
  | nil => simp
  | cons k ks ih =>
    rw [runs_forM_cons, List.foldl_cons]
    simp only [ih]
    unfold Draft.register
    cases hk : k.foreignKey? with
    | none => simp
    | some key => simp [runs_registerForeignKey]

theorem runs_resolvePending {target : QualifiedName} {r : PendingReference} :
    Runs (resolvePending target r) d u d' ↔ d' = d.resolve (target, r) := by
  unfold resolvePending Draft.resolve
  rw [runs_catalog_bind]
  by_cases h : (d.catalog.relation? target).isSome
  · simp [h, runs_linkForeignKey]
  · simp [h]

end DraftM

namespace Draft

/-- Settling takes the waiting keys one after another. -/
theorem settle_eq (d : Draft) :
    d.settle = d.pendingReferences.foldl resolve
      { d with pending := ∅, log := d.log ++ [.finalize d.pendingReferences.length] } := by
  have hrun (waiting : List (QualifiedName × PendingReference)) (d : Draft) :
      DraftM.Runs (forM waiting fun w => DraftM.resolvePending w.1 w.2) d ()
        (waiting.foldl resolve d) := by
    induction waiting generalizing d with
    | nil => simp
    | cons w ws ih =>
      rw [DraftM.runs_forM_cons]
      exact ⟨d.resolve w, DraftM.runs_resolvePending.2 rfl, ih _⟩
  exact congrArg Prod.snd (hrun d.pendingReferences _)

theorem catalog_register {P : Catalog → Prop} {owner : QualifiedName}
    (modify : ∀ c name f, P c → P (c.modifyForeignKey owner name f)) (k : Constraint) {d : Draft}
    (h : P d.catalog) : P (d.register owner k).catalog := by
  unfold register
  split
  · split
    · show P (d.catalog.linkKey (owner, k.name))
      unfold Catalog.linkKey
      split
      · split
        · exact modify _ _ _ h
        · exact h
      · exact h
    · exact modify _ _ _ h
  · exact h

theorem catalog_registerAll {P : Catalog → Prop} {owner : QualifiedName}
    (modify : ∀ c name f, P c → P (c.modifyForeignKey owner name f)) (ks : List Constraint) {d : Draft}
    (h : P d.catalog) : P (ks.foldl (register owner) d).catalog := by
  induction ks generalizing d with
  | nil => exact h
  | cons k ks ih => exact ih (catalog_register modify k h)

theorem advances_register (owner : QualifiedName) (d : Draft) (k : Constraint) :
    d.catalog.Advances (d.register owner k).catalog := by
  unfold register
  split
  · split
    · exact d.catalog.advances_linkKey _
    · exact d.catalog.advances_addedLater _ _
  · exact .refl _

theorem advances_registerAll (owner : QualifiedName) (d : Draft) (ks : List Constraint) :
    d.catalog.Advances (ks.foldl (register owner) d).catalog := by
  induction ks generalizing d with
  | nil => exact .refl _
  | cons k ks ih => exact (advances_register owner d k).trans (ih _)

theorem exists_issues_register (owner : QualifiedName) (d : Draft) (k : Constraint) :
    ∃ added, (d.register owner k).issues = d.issues ++ added := by
  unfold register
  split
  · split
    · exact ⟨_, rfl⟩
    · exact ⟨[], (List.append_nil _).symm⟩
  · exact ⟨[], (List.append_nil _).symm⟩

theorem exists_issues_registerAll (owner : QualifiedName) (d : Draft) (ks : List Constraint) :
    ∃ added, (ks.foldl (register owner) d).issues = d.issues ++ added := by
  induction ks generalizing d with
  | nil => exact ⟨[], (List.append_nil _).symm⟩
  | cons k ks ih =>
    obtain ⟨first, hfirst⟩ := exists_issues_register owner d k
    obtain ⟨rest, hrest⟩ := ih (d.register owner k)
    exact ⟨first ++ rest, by rw [List.foldl_cons, hrest, hfirst, List.append_assoc]⟩

theorem advances_resolve (d : Draft) (w : QualifiedName × PendingReference) :
    d.catalog.Advances (d.resolve w).catalog := by
  unfold resolve
  split
  · exact d.catalog.advances_linkKey _
  · exact .refl _

theorem advances_settle (d : Draft) : d.catalog.Advances d.settle.catalog := by
  have hall (ws : List (QualifiedName × PendingReference)) (d : Draft) :
      d.catalog.Advances (ws.foldl resolve d).catalog := by
    induction ws generalizing d with
    | nil => exact .refl _
    | cons w ws ih => exact (advances_resolve d w).trans (ih _)
  rw [settle_eq]
  exact hall d.pendingReferences { d with pending := ∅, log := _ }

end Draft

end DdlCatalog
