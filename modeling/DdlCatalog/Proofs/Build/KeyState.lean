import DdlCatalog.Proofs.Build.Resolution

/-! # What becomes of a foreign key
At any time a key is linked, or it waits for its target, or it has been refused with an issue that
points at it. Nothing else waits. -/

namespace DdlCatalog

open Text (Location)

namespace Catalog

variable {c : Catalog} {key : ForeignKey} {columns : List String} {l : Location}

theorem referencedColumns_error_location {target : Relation} {e : Error}
    (h : referencedColumns target key columns l = .error e) : e.location? = some l := by
  unfold referencedColumns at h
  dsimp only at h
  split at h
  · split at h
    · cases h
      rfl
    · split at h <;> cases h
      rfl
  · cases h

/-- All that a check finds wrong with a key is reported where the key is. -/
theorem checkReference_error_location {issues : List Error}
    (h : c.checkReference key columns l = .error issues) : ∀ e ∈ issues, e.location? = some l := by
  unfold checkReference at h
  cases ht : c.relation? key.referencedTable with
  | none =>
    rw [ht] at h
    cases h
    exact List.forall_mem_singleton.2 rfl
  | some target =>
    simp only [ht] at h
    split at h
    · cases h
      exact List.forall_mem_singleton.2 rfl
    · cases hr : referencedColumns target key columns l with
      | error e =>
        simp only [hr] at h
        cases h
        exact List.forall_mem_singleton.2 (referencedColumns_error_location hr)
      | ok found =>
        simp only [hr] at h
        split at h
        · cases h
        · cases h
          exact List.forall_mem_map.2 fun _ _ => rfl

end Catalog

theorem filter_eq_singleton {α β : Type} [DecidableEq β] {f : α → β} {as : List α}
    (hnodup : (as.map f).Nodup) {a : α} (ha : a ∈ as) : (as.filter fun b => f b = f a) = [a] := by
  induction as with
  | nil => cases ha
  | cons first rest ih =>
    rw [List.map_cons, List.nodup_cons] at hnodup
    rcases List.mem_cons.1 ha with rfl | ha
    · have hrest : (rest.filter fun b => f b = f a) = [] := by
        rw [List.filter_eq_nil_iff]
        intro b hb he
        exact hnodup.1 (of_decide_eq_true he ▸ List.mem_map_of_mem hb)
      rw [List.filter_cons_of_pos (by simp), hrest]
    · have hne : f first ≠ f a := fun he => hnodup.1 (he ▸ List.mem_map_of_mem ha)
      rw [List.filter_cons_of_neg (by simpa using hne)]
      exact ih hnodup.2 ha

/-- What can become of a foreign key. -/
inductive KeyState where
  | linked
  | waiting
  | refused
deriving DecidableEq, Repr

namespace Draft

def waitingOf (d : Draft) (id : KeyId) : List (QualifiedName × PendingReference) :=
  d.pendingReferences.filter fun w => (w.2.table, w.2.constraint) = id

/-- The state of a key at a location. -/
def KeyIs (d : Draft) (id : KeyId) (l : Location) (key : ForeignKey) : KeyState → Prop
  | .linked => key.resolved = true ∧ d.waitingOf id = []
  | .waiting =>
    d.waitingOf id = [(key.referencedTable, ⟨id.1, id.2, l⟩)] ∧ key.resolved = false ∧
      key.useAlter = true
  | .refused =>
    key.resolved = false ∧ d.waitingOf id = [] ∧ ∃ e ∈ d.issues, e.location? = some l

variable {d : Draft} {id : KeyId} {l : Location} {key : ForeignKey}

theorem KeyIs.unique {state state' : KeyState} (h : d.KeyIs id l key state)
    (h' : d.KeyIs id l key state') : state = state' := by
  cases state <;> cases state' <;> simp_all [KeyIs]

theorem waitingOf_eq_nil (h : id ∉ d.waitingIds) : d.waitingOf id = [] := by
  unfold waitingOf
  rw [List.filter_eq_nil_iff]
  intro w hw he
  exact h (of_decide_eq_true he ▸ List.mem_map_of_mem hw)

/-- A key does not wait twice. -/
theorem waitingOf_eq_singleton (hnodup : d.waitingIds.Nodup) {w : QualifiedName × PendingReference}
    (hw : w ∈ d.pendingReferences) : d.waitingOf (w.2.table, w.2.constraint) = [w] :=
  filter_eq_singleton hnodup hw

namespace Balanced

variable {closed : List KeyId} {reported : List Error} {k : Constraint}

/-- A closed key has been linked or refused. -/
theorem keyIs_of_closed (h : d.Balanced closed [] reported) (hc : d.catalog.WellFormed)
    (hreported : ∀ e ∈ reported, e ∈ d.issues)
    (hk : d.catalog.foreignKey? id.1 id.2 = some (k, key)) (hid : id ∈ closed) :
    ∃ state, d.KeyIs id k.location key state := by
  have hwaiting : d.waitingOf id = [] := by
    apply waitingOf_eq_nil
    intro hopen
    have hdisjoint := (List.nodup_append.1 (h.ledger.nodup hc)).2.2
    exact hdisjoint id hid id (List.mem_append_left [] hopen) rfl
  have hsettled := h.ledger.settled id hid k key hk
  obtain ⟨-, -, -, hkey⟩ := Catalog.foreignKey?_eq_some_iff.1 hk
  cases hcheck : d.catalog.checkReference key k.columns k.location with
  | ok referenced =>
    rw [hcheck] at hsettled
    exact ⟨.linked, hsettled.1, hwaiting⟩
  | error issues =>
    rw [hcheck] at hsettled
    obtain ⟨e, he⟩ := List.exists_mem_of_ne_nil issues (Catalog.checkReference_error_ne_nil hcheck)
    have hissues : d.catalog.keyIssues id = issues := by
      rw [Catalog.keyIssues_eq hk, Catalog.referenceIssues_eq hkey, hcheck]
    have hmem : e ∈ closed.flatMap d.catalog.keyIssues :=
      List.mem_flatMap.2 ⟨id, hid, hissues ▸ he⟩
    exact ⟨.refused, hsettled, hwaiting, e, hreported e (h.ledger.reported_perm.mem_iff.2 hmem),
      Catalog.checkReference_error_location hcheck e he⟩

theorem keyIs_of_waiting (h : d.Balanced closed [] reported) (hc : d.catalog.WellFormed)
    {w : QualifiedName × PendingReference} (hw : w ∈ d.pendingReferences) :
    ∃ k key, d.catalog.foreignKey? w.2.table w.2.constraint = some (k, key) ∧
      d.KeyIs (w.2.table, w.2.constraint) k.location key .waiting := by
  rcases h.awaits w hw with ⟨k, key, hk, htarget, hlocation, halter⟩
  have hopen : (w.2.table, w.2.constraint) ∈ d.waitingIds ++ [] :=
    List.mem_append_left [] (List.mem_map_of_mem hw)
  have hnodup := (List.nodup_append.1 (h.ledger.nodup hc)).2.1
  rw [List.append_nil] at hnodup
  refine ⟨k, key, hk, ?_, h.ledger.unresolved _ hopen k key hk, halter⟩
  rw [waitingOf_eq_singleton hnodup hw, htarget, hlocation]

/-- Every key is in one of the states. -/
theorem exists_keyIs (h : d.Balanced closed [] reported) (hc : d.catalog.WellFormed)
    (hreported : ∀ e ∈ reported, e ∈ d.issues)
    (hk : d.catalog.foreignKey? id.1 id.2 = some (k, key)) :
    ∃ state, d.KeyIs id k.location key state := by
  have hmem : id ∈ d.catalog.keyIds := (Catalog.mem_keyIds hc id).2 (by rw [hk]; rfl)
  have hkeys := h.ledger.keys.mem_iff.2 hmem
  rw [List.append_nil] at hkeys
  rcases List.mem_append.1 hkeys with hclosed | hopen
  · exact h.keyIs_of_closed hc hreported hk hclosed
  · obtain ⟨w, hw, rfl⟩ := List.mem_map.1 hopen
    obtain ⟨k', key', hk', hwaiting⟩ := h.keyIs_of_waiting hc hw
    rw [hk] at hk'
    cases hk'
    exact ⟨.waiting, hwaiting⟩

end Balanced

end Draft

namespace Builder

variable {config : Config} {b : Builder} {trace : Trace}

theorem Traced.mem_issues (h : Traced config b trace) :
    ∀ e ∈ trace.issuesOf .foreignKey, e ∈ b.draft.issues := by
  intro e he
  rw [h.issues_eq]
  exact (List.filter_sublist.map Prod.snd).subset he

/-- Every foreign key is linked, waits exactly once under the table it refers to, or has been refused
with an issue at its location, and what waits is a foreign key of the catalog. -/
theorem keyState_of_reachable (h : Reachable config b) :
    (∀ q r k key, b.draft.catalog.relation? q = some r → k ∈ r.constraints →
      k.foreignKey? = some key → ∃! state, b.draft.KeyIs (q, k.name) k.location key state) ∧
    ∀ w ∈ b.draft.pendingReferences, ∃ r k key,
      b.draft.catalog.relation? w.2.table = some r ∧ k ∈ r.constraints ∧
        k.name = w.2.constraint ∧ k.foreignKey? = some key ∧
        b.draft.KeyIs (w.2.table, k.name) k.location key .waiting := by
  obtain ⟨trace, ht⟩ := exists_traced h
  rcases ht.balanced with ⟨closed, hbalanced⟩
  have hc := ht.wellFormed
  constructor
  · intro q r k key hr hk hkey
    obtain ⟨state, hstate⟩ : ∃ state, b.draft.KeyIs (q, k.name) k.location key state :=
      hbalanced.exists_keyIs hc ht.mem_issues (Catalog.foreignKey?_of_mem hc hr hk hkey)
    exact ⟨state, hstate, fun _ hother => hother.unique hstate⟩
  · intro w hw
    obtain ⟨k, key, hk, hwaiting⟩ := hbalanced.keyIs_of_waiting hc hw
    obtain ⟨r, hr, hfound, hkey⟩ := Catalog.foreignKey?_eq_some_iff.1 hk
    have hname : k.name = w.2.constraint := by simpa using List.find?_some hfound
    exact ⟨r, k, key, hr, List.mem_of_find?_eq_some hfound, hname, hkey, hname ▸ hwaiting⟩

/-- A key to a table declared before, one to a table that has not come yet and one to a view, with a
source after them that fails. -/
def mixedBuilder : { b // Reachable Config.default b } :=
  ⟨(((Builder.ofConfig Config.default).addSource "a.sql"
    ("create table a (x int primary key); create view v as select 1 as x;" ++
      "create table b (x int references a, y int references c, z int references v)")).2.addSource
    "b.sql" "create table d (x int references e); create table a (x int)").2,
    .addSource (.addSource .start _ _) _ _⟩

theorem keyState_of_mixedBuilder :
    (mixedBuilder.1.draft.catalog.keyIds.length = 3 ∧ mixedBuilder.1.draft.issues.length = 1 ∧
      mixedBuilder.1.draft.pendingReferences.map (fun w => (w.1.name, w.2.table.name)) =
        [("c", "b")]) ∧
    (∀ q r k key, mixedBuilder.1.draft.catalog.relation? q = some r → k ∈ r.constraints →
      k.foreignKey? = some key →
      ∃! state, mixedBuilder.1.draft.KeyIs (q, k.name) k.location key state) ∧
    ∀ w ∈ mixedBuilder.1.draft.pendingReferences, ∃ r k key,
      mixedBuilder.1.draft.catalog.relation? w.2.table = some r ∧ k ∈ r.constraints ∧
        k.name = w.2.constraint ∧ k.foreignKey? = some key ∧
        mixedBuilder.1.draft.KeyIs (w.2.table, k.name) k.location key .waiting :=
  ⟨by decide +kernel, keyState_of_reachable mixedBuilder.2⟩

end Builder

end DdlCatalog
