import DdlCatalog.Proofs.Build.Ledger
import DdlCatalog.Proofs.Build.WellFormed

/-! # The ledger along a build
Declarations leave the account of keys alone, up to the keys of a new table, which are open. Registering
them closes those whose targets are known. -/

namespace DdlCatalog

namespace Catalog

variable {c c' : Catalog}

theorem keyIds_congr (horder : c'.relationOrder = c.relationOrder)
    (h : ∀ q, (c'.relation? q).map (·.constraints) = (c.relation? q).map (·.constraints)) :
    c'.keyIds = c.keyIds := by
  unfold keyIds
  rw [horder]
  congr 1
  funext q
  have hq := h q
  unfold Relation.foreignKeys
  cases hr : c.relation? q with
  | none =>
    rw [hr] at hq
    rw [Option.map_eq_none_iff.1 hq]
  | some r =>
    rw [hr] at hq
    obtain ⟨r', hr', hk⟩ := Option.map_eq_some_iff.1 hq
    rw [hr', Option.map_some, Option.map_some, hk]

section InsertRelation

variable {r : Relation}

theorem foreignKey?_insertRelation (h : c.WellFormed) (hr : c.ReplacesView r) {id : KeyId}
    (hid : id ∈ c.keyIds) :
    (c.insertRelation r).foreignKey? id.1 id.2 = c.foreignKey? id.1 id.2 := by
  have hne : r.name ≠ id.1 := by
    intro he
    obtain ⟨⟨k, key⟩, hk⟩ := Option.isSome_iff_exists.1 ((mem_keyIds h id).1 hid)
    obtain ⟨r₀, hr₀, hk, -⟩ := foreignKey?_eq_some_iff.1 hk
    have hv := (hr r₀ (he ▸ hr₀)).1
    unfold Relation.constraint? at hk
    rw [(h.relation hr₀).2.view_constraints hv] at hk
    cases hk
  unfold foreignKey?
  rw [relation?_insertRelation, if_neg hne]

theorem keyIds_insertRelation (h : c.WellFormed) (hr : c.ReplacesView r) :
    (c.insertRelation r).keyIds = c.keyIds ++ r.foreignKeys.map fun k => (r.name, k.name) := by
  unfold keyIds
  cases hr₀ : c.relation? r.name with
  | none =>
    have hnew : (c.relation? r.name).isSome = false := by rw [hr₀]; rfl
    rw [relationOrder_insertRelation, hnew, if_neg Bool.false_ne_true, List.flatMap_append]
    congr 1
    · refine List.flatMap_congr fun q hq => ?_
      rw [relation?_insertRelation, if_neg]
      rintro rfl
      rw [(h.mem_order _).1 hq] at hnew
      cases hnew
    · simp [relation?_insertRelation]
  | some r₀ =>
    obtain ⟨hv₀, -, hnone⟩ := hr r₀ hr₀
    have hold : (c.relation? r.name).isSome = true := by rw [hr₀]; rfl
    rw [relationOrder_insertRelation, hold, if_pos rfl]
    have hkeys : r.foreignKeys = [] := by
      unfold Relation.foreignKeys
      rw [hnone]
      rfl
    have hkeys₀ : r₀.foreignKeys = [] := by
      unfold Relation.foreignKeys
      rw [(h.relation hr₀).2.view_constraints hv₀]
      rfl
    rw [hkeys, List.map_nil, List.append_nil]
    refine List.flatMap_congr fun q _ => ?_
    rw [relation?_insertRelation]
    split
    · next hq =>
      subst hq
      rw [hr₀, Option.map_some, Option.map_some, hkeys, hkeys₀]
    · rfl

end InsertRelation

end Catalog

def NewTable.keyIds : NewTable → List KeyId
  | some (owner, ks) => (ks.filter (·.foreignKey?.isSome)).map fun k => (owner, k.name)
  | none => []

variable {config : Config} {p : ParsedStatement} {scope scope' : Scope} {d d' : Draft}
  {found : NewTable} {closed : List KeyId} {reported : List Error}

namespace Draft.Balanced

/-- What keeps relations keeps a draft balanced. -/
theorem frame (h : d.Balanced closed [] reported) (hpending : d'.pending = d.pending)
    (horder : d'.catalog.relationOrder = d.catalog.relationOrder)
    (hrelation : ∀ q, d'.catalog.relation? q = d.catalog.relation? q) :
    d'.Balanced closed [] reported := by
  refine h.carry hpending (Catalog.grows_of_relation?_eq hrelation) ?_ ?_ (by simp)
  · rw [Catalog.keyIds_congr horder fun q => by rw [hrelation], List.append_nil]
  · exact fun id _ => Catalog.foreignKey?_congr (by rw [hrelation])

/-- A new relation brings its keys, which are open. -/
theorem insertRelation {r : Relation} (h : d.Balanced closed [] reported)
    (hc : d.catalog.WellFormed) (hr : d.catalog.ReplacesView r)
    (hopen : ∀ k ∈ r.constraints, ∀ key, k.foreignKey? = some key → key.resolved = false)
    (hpending : d'.pending = d.pending) (hinserted : d'.catalog = d.catalog.insertRelation r) :
    d'.Balanced closed (r.foreignKeys.map fun k => (r.name, k.name)) reported := by
  refine h.carry hpending ?_ ?_ ?_ ?_
  · rw [hinserted]
    exact Catalog.grows_insertRelation hr
  · rw [hinserted, Catalog.keyIds_insertRelation hc hr]
  · intro id hid
    rw [hinserted, Catalog.foreignKey?_insertRelation hc hr hid]
  · intro id hid k key hk
    obtain ⟨_, -, rfl⟩ := List.mem_map.1 hid
    rw [hinserted] at hk
    obtain ⟨r', hr', hk, hkey⟩ := Catalog.foreignKey?_eq_some_iff.1 hk
    rw [Catalog.relation?_insertRelation, if_pos rfl] at hr'
    cases hr'
    exact hopen k (List.mem_of_find?_eq_some hk) key hkey

theorem modifyRelation {q : QualifiedName} {f : Relation → Relation}
    (h : d.Balanced closed [] reported) (hpending : d'.pending = d.pending)
    (hmodified : d'.catalog = d.catalog.modifyRelation q f) (htarget : ∀ r : Relation, r.SameTarget (f r))
    (hconstraints : ∀ r, (f r).constraints = r.constraints) : d'.Balanced closed [] reported := by
  have hsame (q' : QualifiedName) : (d'.catalog.relation? q').map (·.constraints) =
      (d.catalog.relation? q').map (·.constraints) := by
    rw [hmodified, Catalog.relation?_modifyRelation]
    split
    · simp [hconstraints, Function.comp_def]
    · rfl
  refine h.carry hpending ?_ ?_ (fun id _ => Catalog.foreignKey?_congr (hsame id.1)) (by simp)
  · intro q' r hr
    rw [hmodified, Catalog.relation?_modifyRelation]
    split
    · rw [hr]
      exact ⟨f r, rfl, htarget r⟩
    · exact ⟨r, hr, .refl r⟩
  · rw [Catalog.keyIds_congr (by rw [hmodified]; rfl) hsame, List.append_nil]

end Draft.Balanced

theorem Step.balanced (step : Step config p scope d scope' found d')
    (h : d.Balanced closed [] reported) (hc : d.catalog.WellFormed) :
    d'.Balanced closed found.keyIds reported := by
  have hplaced (q : QualifiedName) :
      ({ d with catalog := d.catalog.ensureSchema q.schema } : Draft).Balanced closed [] reported :=
    h.frame rfl (Catalog.relationOrder_ensureSchema _ _) (Catalog.relation?_ensureSchema _ _)
  cases step with
  | schema | tableSkipped | viewSkipped =>
    exact h.frame rfl (Catalog.relationOrder_ensureSchema _ _) (Catalog.relation?_ensureSchema _ _)
  | enum | function | procedure | prepared =>
    exact (hplaced _).frame rfl rfl
      fun q => Catalog.relation?_modifySchema _ (by exact fun _ => rfl) _ q
  | indexUnplaced | indexSkipped => exact h.frame rfl rfl fun _ => rfl
  | @table s q t log _ _ free drawn =>
    have hnone := ((Catalog.relationKind?_eq_none_iff _ q).1 free).2
    have hreplaces : (d.catalog.ensureSchema q.schema).ReplacesView t := by
      intro r₀ hr₀
      rw [drawn.name_eq, hnone] at hr₀
      cases hr₀
    have hids : (t.foreignKeys.map fun k => (t.name, k.name)) =
        NewTable.keyIds (some (q, t.constraints)) := by
      rw [drawn.name_eq]
      rfl
    rw [← hids]
    refine (hplaced q).insertRelation (hc.ensureSchema q.schema) hreplaces ?_ rfl rfl
    intro k hk key hkey
    obtain ⟨_, -, hdeclares⟩ := drawn.exists_declares hk
    exact (hdeclares.foreignKey hkey).1
  | @view s q _ _ _ free =>
    refine (hplaced q).insertRelation (r := s.view q p.text p.location) (hc.ensureSchema q.schema)
      ?_ (fun k hk => nomatch hk) rfl rfl
    intro r₀ hr₀
    rcases free with hnone | ⟨hview, -⟩
    · rw [show (s.view q p.text p.location).name = q from rfl,
        ((Catalog.relationKind?_eq_none_iff _ q).1 hnone).2] at hr₀
      cases hr₀
    · obtain ⟨r₁, hr₁, hv⟩ := Catalog.relation?_of_relationKind?_view _ hview
      rw [show (s.view q p.text p.location).name = q from rfl, hr₁] at hr₀
      cases hr₀
      exact ⟨hv, rfl, rfl⟩
  | index =>
    exact h.modifyRelation rfl rfl (fun r => ⟨rfl, fun _ => rfl, fun _ => rfl⟩) fun _ => rfl

theorem Step.exists_newTable {owner : QualifiedName} {ks : List Constraint}
    (step : Step config p scope d scope' (some (owner, ks)) d') :
    ∃ t, d'.catalog.relation? owner = some t ∧ t.constraints = ks := by
  cases step with
  | @table s q t log _ _ free drawn =>
    refine ⟨t, ?_, rfl⟩
    rw [← drawn.name_eq]
    exact (Catalog.relation?_insertRelation _ t t.name).trans (if_pos rfl)

/-- Registering the keys of a new table reports what is wrong with those whose targets are known. -/
theorem Step.balanced_registerDeclared (step : Step config p scope d scope' found d')
    (h : d'.Balanced closed found.keyIds reported) (hc : d'.catalog.WellFormed) :
    ∃ closed' keys, (d'.registerDeclared found).issues = d'.issues ++ keys ∧
      (d'.registerDeclared found).Balanced closed' [] (reported ++ keys) := by
  cases found with
  | none => exact ⟨closed, [], (List.append_nil _).symm, by rw [List.append_nil]; exact h⟩
  | some table =>
    rcases table with ⟨owner, ks⟩
    rcases step.exists_newTable with ⟨t, ht, rfl⟩
    exact h.registerAll hc (hc.constraint_names_nodup ht) fun k hk key hkey =>
      Catalog.foreignKey?_of_mem hc ht hk hkey

theorem Draft.balanced_ofConfig (config : Config) : (Draft.ofConfig config).Balanced [] [] [] where
  ledger := ⟨.nil, .nil, by simp, fun _ h => absurd h List.not_mem_nil⟩
  known := by simp
  awaits := fun _ h => absurd h List.not_mem_nil

variable {ps : List ParsedStatement} {trace : Trace}

/-- Accepted statements report to the ledger what a trace says about foreign keys. -/
theorem Steps.balanced (hps : ∀ p ∈ ps, Grammar.Parsed p)
    (steps : Steps config ps scope d scope' d' trace) (h : d.Balanced closed [] reported)
    (hc : d.catalog.WellFormed) :
    d'.catalog.WellFormed ∧
      ∃ closed', d'.Balanced closed' [] (reported ++ trace.issuesOf .foreignKey) := by
  induction steps generalizing closed reported with
  | nil =>
    refine ⟨hc, closed, ?_⟩
    rw [show Trace.issuesOf [] .foreignKey = [] from rfl, List.append_nil]
    exact h
  | cons declared _ keys_eq _ ih =>
    rw [List.forall_mem_cons] at hps
    have hmid := declared.step.wellFormed hps.1 hc
    obtain ⟨closed₁, keys, hkeys, hbalanced⟩ :=
      declared.step.balanced_registerDeclared (declared.step.balanced h hc) hmid
    rw [keys_eq] at hkeys
    obtain rfl := List.append_cancel_left hkeys
    obtain ⟨hc', closed₂, hall⟩ :=
      ih hps.2 hbalanced (hmid.relink (Draft.advances_registerDeclared _ _).toRelinked)
    refine ⟨hc', closed₂, ?_⟩
    rw [Trace.issuesOf_append, Trace.issuesOf_ofStatement_foreignKey, ← List.append_assoc]
    exact hall

namespace Draft

theorem resolve_eq_link {w : QualifiedName × PendingReference} (h : d.catalog.Awaits w) :
    d.resolve w = d.link (w.2.table, w.2.constraint) := by
  rcases h with ⟨k, key, hk, htarget, hlocation, -⟩
  unfold resolve
  split
  · rfl
  · next hnone =>
    have hnone : d.catalog.relation? key.referencedTable = none := by
      rw [htarget]
      simpa using hnone
    have hcheck : d.catalog.checkReference key k.columns k.location =
        .error [.unresolvedReference k.location (toString key.referencedTable) none] :=
      Catalog.checkReference_of_none hnone
    obtain ⟨-, -, -, hkey⟩ := Catalog.foreignKey?_eq_some_iff.1 hk
    have hissues : d.catalog.keyIssues (w.2.table, w.2.constraint) =
        [.unresolvedReference w.2.location (toString w.1) none] := by
      rw [Catalog.keyIssues_eq hk, Catalog.referenceIssues_eq hkey, hcheck, hlocation, htarget]
    have hcatalog : d.catalog.linkKey (w.2.table, w.2.constraint) = d.catalog :=
      Catalog.linkKey_of_error hk hcheck
    unfold link
    rw [hissues, hcatalog]

theorem ledger_resolveAll {ws : List (QualifiedName × PendingReference)}
    (h : Ledger d.catalog closed (ws.map fun w => (w.2.table, w.2.constraint)) reported)
    (hc : d.catalog.WellFormed) (hawaits : ∀ w ∈ ws, d.catalog.Awaits w) :
    ∃ closed' issues, (ws.foldl resolve d).issues = d.issues ++ issues ∧
      Ledger (ws.foldl resolve d).catalog closed' [] (reported ++ issues) := by
  induction ws generalizing d closed reported with
  | nil => exact ⟨closed, [], by simp, by simpa using h⟩
  | cons w ws ih =>
    rw [List.forall_mem_cons] at hawaits
    rw [List.foldl_cons, resolve_eq_link hawaits.1]
    rw [List.map_cons] at h
    have hnodup := (List.nodup_append.1 (h.nodup hc)).2.1
    obtain ⟨closed', issues, hissues, hall⟩ :=
      ih (d := d.link (w.2.table, w.2.constraint)) (h.link hc)
        (hc.relink (d.catalog.relinked_linkKey _)) fun w' hw' => by
        obtain ⟨k, key, hk, hrest⟩ := hawaits.2 w' hw'
        refine ⟨k, key, ?_, hrest⟩
        rw [link_catalog, Catalog.foreignKey?_linkKey, if_neg]
        · exact hk
        · intro he
          refine (List.nodup_cons.1 hnodup).1 (he ▸ List.mem_map_of_mem hw')
    refine ⟨closed', d.catalog.keyIssues (w.2.table, w.2.constraint) ++ issues, ?_, ?_⟩
    · rw [hissues, ← List.append_assoc]
      rfl
    · rw [← List.append_assoc]
      exact hall

theorem Balanced.settle (h : d.Balanced closed [] reported) (hc : d.catalog.WellFormed) :
    ∃ closed' issues, d.settle.issues = d.issues ++ issues ∧
      Ledger d.settle.catalog closed' [] (reported ++ issues) := by
  have hledger := h.ledger
  rw [List.append_nil] at hledger
  rw [settle_eq]
  exact ledger_resolveAll (d := { d with pending := ∅, log := _ }) hledger hc h.awaits

end Draft

namespace Builder

variable {b : Builder}

/-- The ledger of every builder holds what its trace says about foreign keys. -/
theorem Traced.balanced (h : Traced config b trace) :
    ∃ closed, b.draft.Balanced closed [] (trace.issuesOf .foreignKey) := by
  have log {d : Draft} {closed : List KeyId} {reported : List Error} (log : List Event)
      (h : d.Balanced closed [] reported) :
      ({ d with log } : Draft).Balanced closed [] reported :=
    h.frame rfl rfl fun _ => rfl
  induction h with
  | start => exact ⟨[], Draft.balanced_ofConfig config⟩
  | accepted h _ _ _ parsed _ steps ih =>
    rcases ih with ⟨closed, hb⟩
    obtain ⟨-, closed', hb'⟩ := steps.balanced parsed (log _ hb) h.wellFormed
    rw [Trace.issuesOf_append]
    exact ⟨closed', hb'⟩
  | rejected _ _ _ _ failed ih =>
    rcases ih with ⟨closed, hb⟩
    obtain ⟨_, hlog⟩ := exists_log_of_error failed
    rw [hlog]
    exact ⟨closed, log _ hb⟩
  | remembered _ _ _ ih => exact ih

theorem Traced.ledger (h : Traced config b trace) :
    b.draft.settle.catalog.WellFormed ∧ ∃ closed late,
      b.draft.settle.issues = b.draft.issues ++ late ∧
        Ledger b.draft.settle.catalog closed [] (trace.issuesOf .foreignKey ++ late) := by
  rcases h.balanced with ⟨closed, hbalanced⟩
  refine ⟨h.wellFormed.relink b.draft.advances_settle.toRelinked, ?_⟩
  exact hbalanced.settle h.wellFormed

end Builder

end DdlCatalog
