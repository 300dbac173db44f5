import DdlCatalog.Proofs.Build.ForeignKey

/-! # The ledger of foreign keys
Every foreign key is closed or open. What has been reported about keys is what is wrong with the closed
ones, and linking closes one that is open. -/

namespace DdlCatalog

namespace Catalog

/-- The state of a key says what its check answers. -/
def Settled (c : Catalog) (id : KeyId) : Prop :=
  ∀ k key, c.foreignKey? id.1 id.2 = some (k, key) →
    match c.checkReference key k.columns k.location with
    | .ok referenced => key.resolved = true ∧ key.referencedColumns = referenced
    | .error _ => key.resolved = false

def Unresolved (c : Catalog) (id : KeyId) : Prop :=
  ∀ k key, c.foreignKey? id.1 id.2 = some (k, key) → key.resolved = false

def TargetKnown (c : Catalog) (id : KeyId) : Prop :=
  ∀ k key, c.foreignKey? id.1 id.2 = some (k, key) → (c.relation? key.referencedTable).isSome = true

variable {c c' : Catalog} {id : KeyId}

theorem Settled.congr (h : c.Settled id) (hk : c'.foreignKey? id.1 id.2 = c.foreignKey? id.1 id.2)
    (hcheck : ∀ k key, c.foreignKey? id.1 id.2 = some (k, key) →
      c'.checkReference key k.columns k.location = c.checkReference key k.columns k.location) :
    c'.Settled id := by
  intro k key hid
  rw [hk] at hid
  rw [hcheck k key hid]
  exact h k key hid

theorem keyIssues_congr (hk : c'.foreignKey? id.1 id.2 = c.foreignKey? id.1 id.2)
    (hcheck : ∀ k key, c.foreignKey? id.1 id.2 = some (k, key) →
      c'.checkReference key k.columns k.location = c.checkReference key k.columns k.location) :
    c'.keyIssues id = c.keyIssues id := by
  unfold keyIssues
  rw [hk]
  cases hid : c.foreignKey? id.1 id.2 with
  | none => rfl
  | some found =>
    rcases found with ⟨k, key⟩
    obtain ⟨-, -, -, hkey⟩ := foreignKey?_eq_some_iff.1 hid
    dsimp only
    rw [referenceIssues_eq hkey, referenceIssues_eq hkey, hcheck k key hid]

theorem settled_linkKey (h : c.Unresolved id) : (c.linkKey id).Settled id := by
  intro k key hid
  rw [foreignKey?_linkKey, if_pos rfl] at hid
  obtain ⟨⟨k₀, key₀⟩, hk₀, he⟩ := Option.map_eq_some_iff.1 hid
  cases he
  have hcolumns : (c.completed k₀).columns = k₀.columns := k₀.modifyForeignKey_columns
  have hlocation : (c.completed k₀).location = k₀.location := k₀.modifyForeignKey_location
  rw [hcolumns, hlocation, checkReference_relink (c.relinked_linkKey id), checkReference_completedKey]
  unfold completedKey
  cases hcheck : c.checkReference key₀ k₀.columns k₀.location with
  | ok referenced => exact ⟨rfl, rfl⟩
  | error issues => exact h k₀ key₀ hk₀

end Catalog

/-- An account of all foreign keys. -/
structure Ledger (c : Catalog) (closed opens : List KeyId) (reported : List Error) : Prop where
  keys : (closed ++ opens).Perm c.keyIds
  reported_perm : reported.Perm (closed.flatMap c.keyIssues)
  settled : ∀ id ∈ closed, c.Settled id
  unresolved : ∀ id ∈ opens, c.Unresolved id

namespace Ledger

variable {c c' : Catalog} {closed opens added : List KeyId} {reported : List Error} {id : KeyId}

theorem perm_opens (h : Ledger c closed opens reported) {opens' : List KeyId}
    (ho : opens.Perm opens') : Ledger c closed opens' reported where
  keys := (ho.symm.append_left closed).trans h.keys
  reported_perm := h.reported_perm
  settled := h.settled
  unresolved id hid := h.unresolved id (ho.mem_iff.2 hid)

theorem nodup (h : Ledger c closed opens reported) (hc : c.WellFormed) : (closed ++ opens).Nodup :=
  h.keys.nodup_iff.2 (Catalog.keyIds_nodup hc)

/-- Keys that are neither changed nor checked differently keep their place, and new ones are open. -/
theorem carry (h : Ledger c closed opens reported) (hkeys : c'.keyIds.Perm (c.keyIds ++ added))
    (hsame : ∀ id ∈ closed ++ opens, c'.foreignKey? id.1 id.2 = c.foreignKey? id.1 id.2)
    (hcheck : ∀ id ∈ closed, ∀ k key, c.foreignKey? id.1 id.2 = some (k, key) →
      c'.checkReference key k.columns k.location = c.checkReference key k.columns k.location)
    (hadded : ∀ id ∈ added, c'.Unresolved id) : Ledger c' closed (opens ++ added) reported where
  keys := by
    rw [← List.append_assoc]
    exact (h.keys.append_right added).trans hkeys.symm
  reported_perm := by
    rw [List.flatMap_congr fun id hid =>
      Catalog.keyIssues_congr (hsame id (List.mem_append_left _ hid)) (hcheck id hid)]
    exact h.reported_perm
  settled id hid := (h.settled id hid).congr (hsame id (List.mem_append_left _ hid)) (hcheck id hid)
  unresolved id hid := by
    rcases List.mem_append.1 hid with hid | hid
    · intro k key hk
      rw [hsame id (List.mem_append_right _ hid)] at hk
      exact h.unresolved id hid k key hk
    · exact hadded id hid

theorem link (h : Ledger c closed (id :: opens) reported) (hc : c.WellFormed) :
    Ledger (c.linkKey id) (id :: closed) opens (reported ++ c.keyIssues id) where
  keys := by
    rw [Catalog.keyIds_relink (c.relinked_linkKey id)]
    exact List.perm_middle.symm.trans h.keys
  reported_perm := by
    rw [List.flatMap_congr fun other _ => c.keyIssues_linkKey id other, List.flatMap_cons]
    exact (h.reported_perm.append_right _).trans List.perm_append_comm
  settled other hother := by
    by_cases he : id = other
    · subst he
      exact Catalog.settled_linkKey (h.unresolved id (List.mem_cons_self ..))
    · have hclosed : other ∈ closed := (List.mem_cons.1 hother).resolve_left (Ne.symm he)
      refine (h.settled other hclosed).congr ?_ fun k key _ => ?_
      · rw [Catalog.foreignKey?_linkKey, if_neg he]
      · exact Catalog.checkReference_relink (c.relinked_linkKey id)
  unresolved other hother k key hk := by
    have hne : id ≠ other := by
      rintro rfl
      have hnodup := (List.nodup_append.1 (h.nodup hc)).2.1
      exact (List.nodup_cons.1 hnodup).1 hother
    rw [Catalog.foreignKey?_linkKey, if_neg hne] at hk
    exact h.unresolved other (List.mem_cons_of_mem _ hother) k key hk

/-- An open key that is to be added later stays open. -/
theorem alter (h : Ledger c closed opens reported) (hc : c.WellFormed) (hid : id ∈ opens) :
    Ledger (c.modifyForeignKey id.1 id.2 (·.addedLater)) closed opens
      reported := by
  have hrelinked := c.relinked_modifyForeignKey id.1 id.2
    (f := (·.addedLater)) fun _ => rfl
  have hclosed (other : KeyId) (hother : other ∈ closed) :
      (c.modifyForeignKey id.1 id.2 (·.addedLater)).foreignKey?
        other.1 other.2 = c.foreignKey? other.1 other.2 := by
    have hne : id ≠ other := by
      rintro rfl
      exact (List.nodup_append.1 (h.nodup hc)).2.2 id hother id hid rfl
    rw [Catalog.foreignKey?_modifyForeignKey, if_neg hne]
  refine ⟨?_, ?_, fun other hother => ?_, fun other hother k key hk => ?_⟩
  · rw [Catalog.keyIds_relink hrelinked]
    exact h.keys
  · rw [List.flatMap_congr fun other hother => Catalog.keyIssues_congr (hclosed other hother)
      fun _ _ _ => Catalog.checkReference_relink hrelinked]
    exact h.reported_perm
  · exact (h.settled other hother).congr (hclosed other hother)
      fun _ _ _ => Catalog.checkReference_relink hrelinked
  · rw [Catalog.foreignKey?_modifyForeignKey] at hk
    split at hk
    · obtain ⟨⟨k₀, key₀⟩, hk₀, he⟩ := Option.map_eq_some_iff.1 hk
      cases he
      exact h.unresolved other hother k₀ key₀ hk₀
    · exact h.unresolved other hother k key hk

/-- Once all keys are closed, everything that is wrong with keys has been reported. -/
theorem reported_perm_all (h : Ledger c closed [] reported) (hc : c.WellFormed) :
    reported.Perm c.allKeyIssues := by
  have hkeys : closed.Perm c.keyIds := by simpa using h.keys
  rw [← Catalog.flatMap_keyIssues hc]
  exact h.reported_perm.trans (hkeys.flatMap_right _)

theorem settled_all (h : Ledger c closed [] reported) (hc : c.WellFormed)
    {q : QualifiedName} {name : String} {found : Constraint × ForeignKey}
    (hid : c.foreignKey? q name = some found) : c.Settled (q, name) := by
  apply h.settled
  have hm := (Catalog.mem_keyIds hc (q, name)).2 (by rw [hid]; rfl)
  simpa using h.keys.mem_iff.2 hm

theorem complete (h : Ledger c closed [] reported) (hc : c.WellFormed) : c.Complete := by
  intro q r hr k hk
  cases hkey : k.foreignKey? with
  | none => exact Catalog.completed_of_error fun key hkey' => by simp [hkey] at hkey'
  | some key =>
    have hfound := Catalog.foreignKey?_of_mem hc hr hk hkey
    have hsettled := h.settled_all hc hfound k key hfound
    refine k.modifyForeignKey_self fun key' hkey' => ?_
    rw [hkey] at hkey'
    cases hkey'
    unfold Catalog.completedKey
    cases hcheck : c.checkReference key k.columns k.location with
    | error issues => rfl
    | ok referenced =>
      rw [hcheck] at hsettled
      rcases hsettled with ⟨hresolved, rfl⟩
      unfold ForeignKey.linkedTo
      rw [← hresolved]

end Ledger

/-- A key waits as it was left. -/
def Catalog.Awaits (c : Catalog) (w : QualifiedName × PendingReference) : Prop :=
  ∃ k key, c.foreignKey? w.2.table w.2.constraint = some (k, key) ∧ key.referencedTable = w.1 ∧
    k.location = w.2.location ∧ key.useAlter = true

namespace Draft

def waitingIds (d : Draft) : List KeyId :=
  d.pendingReferences.map fun w => (w.2.table, w.2.constraint)

/-- The open keys are those that wait and those of `rest`, which have not been looked at yet. -/
structure Balanced (d : Draft) (closed rest : List KeyId) (reported : List Error) : Prop where
  ledger : Ledger d.catalog closed (d.waitingIds ++ rest) reported
  known : ∀ id ∈ closed, d.catalog.TargetKnown id
  awaits : ∀ w ∈ d.pendingReferences, d.catalog.Awaits w

theorem perm_put (target : QualifiedName) (r : PendingReference)
    (entries : List (QualifiedName × List PendingReference)) :
    ((OrderedMap.put target ((OrderedMap.lookup target entries).getD [] ++ [r]) entries).flatMap
        fun entry => entry.2.map (entry.1, ·)).Perm
      ((entries.flatMap fun entry => entry.2.map (entry.1, ·)) ++ [(target, r)]) := by
  induction entries with
  | nil => simp [OrderedMap.put, OrderedMap.lookup]
  | cons entry entries ih =>
    rcases entry with ⟨q, rs⟩
    by_cases hq : q = target
    · subst hq
      simp only [OrderedMap.put, OrderedMap.lookup, if_true, Option.getD_some, List.flatMap_cons,
        List.map_append, List.map_singleton, List.append_assoc]
      exact List.perm_append_comm.append_left _
    · simp only [OrderedMap.put, OrderedMap.lookup, if_neg hq, List.flatMap_cons, List.append_assoc]
      exact ih.append_left _

theorem suspend_catalog (d : Draft) (owner : QualifiedName) (k : Constraint)
    (target : QualifiedName) : (d.suspend owner k target).catalog =
      d.catalog.modifyForeignKey owner k.name (·.addedLater) := rfl

theorem link_catalog (d : Draft) (id : KeyId) : (d.link id).catalog = d.catalog.linkKey id := rfl

/-- Taking care of one constraint leaves all other keys alone. -/
theorem foreignKey?_register_of_ne {owner q : QualifiedName} {d : Draft} {k : Constraint}
    {name : String} (h : (owner, k.name) ≠ (q, name)) :
    (d.register owner k).catalog.foreignKey? q name = d.catalog.foreignKey? q name := by
  unfold register
  split
  · split
    · rw [link_catalog, Catalog.foreignKey?_linkKey, if_neg h]
    · rw [suspend_catalog, Catalog.foreignKey?_modifyForeignKey, if_neg h]
  · rfl

theorem pendingReferences_suspend (d : Draft) (owner : QualifiedName) (k : Constraint)
    (target : QualifiedName) :
    (d.suspend owner k target).pendingReferences.Perm
      (d.pendingReferences ++ [(target, ⟨owner, k.name, k.location⟩)]) :=
  perm_put target _ d.pending.entries

namespace Balanced

variable {d d' : Draft} {closed rest : List KeyId} {reported : List Error} {id : KeyId}

theorem carry (h : d.Balanced closed [] reported) {added : List KeyId}
    (hpending : d'.pending = d.pending) (hgrows : d.catalog.Grows d'.catalog)
    (hkeys : d'.catalog.keyIds.Perm (d.catalog.keyIds ++ added))
    (hsame : ∀ id ∈ d.catalog.keyIds,
      d'.catalog.foreignKey? id.1 id.2 = d.catalog.foreignKey? id.1 id.2)
    (hadded : ∀ id ∈ added, d'.catalog.Unresolved id) : d'.Balanced closed added reported := by
  have hreferences : d'.pendingReferences = d.pendingReferences := by
    unfold pendingReferences
    rw [hpending]
  have hids : d'.waitingIds = d.waitingIds := by
    unfold waitingIds
    rw [hreferences]
  have hledger := h.ledger
  rw [List.append_nil] at hledger
  have hmem {id : KeyId} (hid : id ∈ closed ++ d.waitingIds) : id ∈ d.catalog.keyIds :=
    hledger.keys.mem_iff.1 hid
  refine ⟨?_, fun id hid k key hk => ?_, fun w hw => ?_⟩
  · rw [hids]
    refine hledger.carry hkeys (fun id hid => hsame id (hmem hid)) ?_ hadded
    exact fun id hid k key hk => hgrows.checkReference_eq (h.known id hid k key hk)
  · rw [hsame id (hmem (List.mem_append_left _ hid))] at hk
    obtain ⟨r, hr⟩ := Option.isSome_iff_exists.1 (h.known id hid k key hk)
    obtain ⟨r', hr', -⟩ := hgrows _ r hr
    rw [hr']
    rfl
  · rw [hreferences] at hw
    obtain ⟨k, key, hk, hrest⟩ := h.awaits w hw
    refine ⟨k, key, ?_, hrest⟩
    rw [hsame (w.2.table, w.2.constraint)
      (hmem (List.mem_append_right _ (List.mem_map_of_mem hw)))]
    exact hk

theorem link (h : d.Balanced closed (id :: rest) reported) (hc : d.catalog.WellFormed)
    (ht : d.catalog.TargetKnown id) :
    (d.link id).Balanced (id :: closed) rest (reported ++ d.catalog.keyIssues id) := by
  have hledger := h.ledger.perm_opens List.perm_middle
  have hnodup := hledger.nodup hc
  have hrelinked := d.catalog.relinked_linkKey id
  refine ⟨hledger.link hc, fun other hother k key hk => ?_, fun w hw => ?_⟩
  · have hknown : d.catalog.TargetKnown other := by
      rcases List.mem_cons.1 hother with rfl | hm
      · exact ht
      · exact h.known other hm
    have htarget : (d.catalog.relation? key.referencedTable).isSome = true := by
      rw [link_catalog, Catalog.foreignKey?_linkKey] at hk
      split at hk
      · obtain ⟨⟨k₀, key₀⟩, hk₀, he⟩ := Option.map_eq_some_iff.1 hk
        cases he
        rw [Catalog.completedKey_referencedTable]
        exact hknown k₀ key₀ hk₀
      · exact hknown k key hk
    obtain ⟨r, hr⟩ := Option.isSome_iff_exists.1 htarget
    obtain ⟨r', hr', -⟩ := hrelinked.exists_relation? hr
    rw [link_catalog, hr']
    rfl
  · obtain ⟨k, key, hk, hrest⟩ := h.awaits w hw
    refine ⟨k, key, ?_, hrest⟩
    have hne : id ≠ (w.2.table, w.2.constraint) := by
      rintro rfl
      refine (List.nodup_cons.1 (List.nodup_append.1 hnodup).2.1).1 (List.mem_append_left _ ?_)
      exact List.mem_map_of_mem hw
    rw [link_catalog, Catalog.foreignKey?_linkKey,
      if_neg hne]
    exact hk

theorem suspend {owner : QualifiedName} {k : Constraint} {key : ForeignKey}
    (h : d.Balanced closed ((owner, k.name) :: rest) reported) (hc : d.catalog.WellFormed)
    (hk : d.catalog.foreignKey? owner k.name = some (k, key)) :
    (d.suspend owner k key.referencedTable).Balanced closed rest reported := by
  have hperm := d.pendingReferences_suspend owner k key.referencedTable
  have hids : (d.suspend owner k key.referencedTable).waitingIds.Perm
      (d.waitingIds ++ [(owner, k.name)]) := by
    have hmap := hperm.map fun w => ((w.2.table, w.2.constraint) : KeyId)
    rwa [List.map_append] at hmap
  have hopen : (owner, k.name) ∈ d.waitingIds ++ (owner, k.name) :: rest := by simp
  have hledger := h.ledger.alter hc hopen
  have hlookup := d.catalog.foreignKey?_modifyForeignKey owner k.name (·.addedLater)
  have hrelinked := d.catalog.relinked_modifyForeignKey owner k.name
    (f := (·.addedLater)) fun _ => rfl
  have hnodup := h.ledger.nodup hc
  refine ⟨?_, fun id hid k' key' hk' => ?_, fun w hw => ?_⟩
  · apply hledger.perm_opens
    refine List.Perm.trans ?_ (hids.symm.append_right rest)
    rw [List.append_assoc, List.singleton_append]
  · have hne : (owner, k.name) ≠ id := by
      rintro rfl
      exact (List.nodup_append.1 hnodup).2.2 _ hid _ hopen rfl
    rw [suspend_catalog, hlookup, if_neg hne] at hk'
    obtain ⟨r, hr⟩ := Option.isSome_iff_exists.1 (h.known id hid k' key' hk')
    obtain ⟨r', hr', -⟩ := hrelinked.exists_relation? hr
    rw [suspend_catalog, hr']
    rfl
  · rcases List.mem_append.1 (hperm.mem_iff.1 hw) with hw | hw
    · obtain ⟨k', key', hk', hrest⟩ := h.awaits w hw
      refine ⟨k', key', ?_, hrest⟩
      have hne : (owner, k.name) ≠ (w.2.table, w.2.constraint) := by
        intro he
        have hopens := (List.nodup_append.1 hnodup).2.1
        refine (List.nodup_append.1 hopens).2.2 _ (List.mem_map_of_mem hw) _ ?_ rfl
        rw [← he]
        exact List.mem_cons_self ..
      rw [suspend_catalog, hlookup, if_neg hne]
      exact hk'
    · rw [List.mem_singleton.1 hw]
      refine ⟨k.modifyForeignKey (·.addedLater), key.addedLater, ?_, rfl,
        k.modifyForeignKey_location, rfl⟩
      rw [suspend_catalog, hlookup, if_pos rfl, hk]
      rfl

/-- Taking care of a constraint of a new table reports what is wrong with it, if its target is known,
and nothing otherwise. -/
theorem register {owner : QualifiedName} {k : Constraint} {key : ForeignKey}
    (h : d.Balanced closed ((owner, k.name) :: rest) reported) (hc : d.catalog.WellFormed)
    (hkey : k.foreignKey? = some key)
    (hk : d.catalog.foreignKey? owner k.name = some (k, key)) :
    ∃ closed' issues, (d.register owner k).issues = d.issues ++ issues ∧
      (d.register owner k).Balanced closed' rest (reported ++ issues) := by
  unfold Draft.register
  rw [hkey]
  dsimp only
  split
  · next ht =>
    refine ⟨_, _, rfl, h.link hc fun k' key' hk' => ?_⟩
    rw [hk] at hk'
    cases hk'
    exact ht
  · exact ⟨closed, [], (List.append_nil _).symm, by rw [List.append_nil]; exact h.suspend hc hk⟩

theorem registerAll {owner : QualifiedName} {ks : List Constraint}
    (h : d.Balanced closed ((ks.filter (·.foreignKey?.isSome)).map fun k => (owner, k.name)) reported)
    (hc : d.catalog.WellFormed) (hnames : (ks.map (·.name)).Nodup)
    (hks : ∀ k ∈ ks, ∀ key, k.foreignKey? = some key →
      d.catalog.foreignKey? owner k.name = some (k, key)) :
    ∃ closed' issues, (ks.foldl (Draft.register owner) d).issues = d.issues ++ issues ∧
      (ks.foldl (Draft.register owner) d).Balanced closed' [] (reported ++ issues) := by
  induction ks generalizing d closed reported with
  | nil => exact ⟨closed, [], by simp, by simpa using h⟩
  | cons k ks ih =>
    rw [List.map_cons, List.nodup_cons] at hnames
    rw [List.foldl_cons]
    cases hkey : k.foreignKey? with
    | none =>
      have hregister : d.register owner k = d := by
        unfold Draft.register
        rw [hkey]
      rw [hregister]
      refine ih (by simpa [hkey] using h) hc hnames.2 fun k' hk' => ?_
      exact hks k' (List.mem_cons_of_mem _ hk')
    | some key =>
      have hrest : d.Balanced closed ((owner, k.name) ::
          (ks.filter (·.foreignKey?.isSome)).map fun k => (owner, k.name)) reported := by
        simpa [hkey] using h
      obtain ⟨closed₁, issues₁, hissues₁, hbalanced⟩ :=
        hrest.register hc hkey (hks k (List.mem_cons_self ..) key hkey)
      have hlater : ∀ k' ∈ ks, ∀ key', k'.foreignKey? = some key' →
          (d.register owner k).catalog.foreignKey? owner k'.name = some (k', key') := by
        intro k' hk' key' hkey'
        rw [foreignKey?_register_of_ne]
        · exact hks k' (List.mem_cons_of_mem _ hk') key' hkey'
        · intro he
          have hname : k.name = k'.name := congrArg Prod.snd he
          exact hnames.1 (hname ▸ List.mem_map_of_mem hk')
      obtain ⟨closed₂, issues₂, hissues₂, hall⟩ :=
        ih hbalanced (hc.relink (Draft.advances_register owner d k).toRelinked) hnames.2 hlater
      refine ⟨closed₂, issues₁ ++ issues₂, ?_, ?_⟩
      · rw [hissues₂, hissues₁, List.append_assoc]
      · rw [← List.append_assoc]
        exact hall

end Balanced

end Draft

end DdlCatalog
