import DdlCatalog.Proofs.Build.WellFormed

/-! # The history of a builder
A builder remembers nothing of the statements it has accepted but what they have stored. What holds of
drafts and the statements before them is carried along them. -/

namespace DdlCatalog

open Text (Location)

variable {config : Config} {p : ParsedStatement} {ps : List ParsedStatement}
  {scope scope' : Scope} {d d' mid : Draft} {found : NewTable} {trace : Trace} {q : QualifiedName}

namespace Builder

/-- A builder with the statements of all sources that it has accepted. -/
inductive Accepts (config : Config) : Builder → List ParsedStatement → Prop where
  | start : Accepts config (Builder.ofConfig config) []
  | accepted {b ps statements} (h : Accepts config b ps) (name text : String)
      (parsed : ∀ p ∈ statements, Grammar.Parsed p)
      (added : (b.addParsed name text statements).1 = .ok ()) :
      Accepts config (b.addParsed name text statements).2 (ps ++ statements)
  | rejected {b ps statements e} (h : Accepts config b ps) (name text : String)
      (parsed : ∀ p ∈ statements, Grammar.Parsed p)
      (failed : (b.addParsed name text statements).1 = .error e) :
      Accepts config (b.addParsed name text statements).2 ps
  | remembered {b ps} (h : Accepts config b ps) (name text : String) :
      Accepts config { b with sources := b.sources.remember name text } ps

variable {b : Builder}

theorem Accepts.exists_addParsed (h : Accepts config b ps) (name text : String)
    {statements : List ParsedStatement} (parsed : ∀ p ∈ statements, Grammar.Parsed p) :
    ∃ ps', Accepts config (b.addParsed name text statements).2 ps' := by
  rcases hadd : (b.addParsed name text statements).1 with e | u
  · exact ⟨ps, h.rejected name text parsed hadd⟩
  · exact ⟨_, h.accepted name text parsed hadd⟩

theorem exists_accepts (h : Reachable config b) : ∃ ps, Accepts config b ps := by
  induction h with
  | start => exact ⟨[], .start⟩
  | @addSource b h name text ih =>
    rcases ih with ⟨ps, hps⟩
    have hremembered := hps.remembered name text
    cases hp : Grammar.parseSource name text with
    | ok statements =>
      rw [addSource_of_ok hp]
      exact hremembered.exists_addParsed name text (Grammar.parsed_of_parseSource hp)
    | error e =>
      rw [addSource_of_error hp]
      exact ⟨ps, hremembered⟩
  | addParsed h name text parsed ih =>
    rcases ih with ⟨ps, hps⟩
    exact hps.exists_addParsed name text parsed

theorem Accepts.exists_traced (h : Accepts config b ps) :
    b.config = config ∧ ∃ trace, Traced config b trace := by
  induction h with
  | start => exact ⟨rfl, [], .start⟩
  | accepted _ name text parsed _ ih =>
    obtain ⟨hconfig, trace, ht⟩ := ih
    obtain ⟨more, hmore⟩ := ht.exists_addParsed hconfig name text parsed
    exact ⟨hconfig, _, hmore⟩
  | rejected _ name text parsed _ ih =>
    obtain ⟨hconfig, trace, ht⟩ := ih
    obtain ⟨more, hmore⟩ := ht.exists_addParsed hconfig name text parsed
    exact ⟨hconfig, _, hmore⟩
  | remembered _ name text ih =>
    obtain ⟨hconfig, trace, ht⟩ := ih
    exact ⟨hconfig, trace, ht.remembered name text⟩

theorem Accepts.parsed (h : Accepts config b ps) : ∀ p ∈ ps, Grammar.Parsed p := by
  induction h with
  | start => exact fun _ hp => nomatch hp
  | accepted _ _ _ parsed _ ih => exact List.forall_mem_append.2 ⟨ih, parsed⟩
  | rejected _ _ _ _ _ ih => exact ih
  | remembered _ _ _ ih => exact ih

end Builder

/-- What holds of a draft and of the statements before it, and is kept by every accepted statement. -/
theorem Steps.history {P : List ParsedStatement → Draft → Prop} {before : List ParsedStatement}
    (step : ∀ {ps p scope d scope' found mid}, Grammar.Parsed p → d.catalog.WellFormed →
      DraftM.Runs (DraftM.declare config scope p) d (scope', found) mid → P ps d →
      P (ps ++ [p]) (mid.registerDeclared found))
    (hps : ∀ p ∈ ps, Grammar.Parsed p) (h : Steps config ps scope d scope' d' trace)
    (hc : d.catalog.WellFormed) (hd : P before d) : P (before ++ ps) d' := by
  induction h generalizing before with
  | nil => rwa [List.append_nil]
  | cons declared _ _ _ ih =>
    rw [List.forall_mem_cons] at hps
    rw [List.append_cons]
    have hmid := declared.step.wellFormed hps.1 hc
    exact ih hps.2 (hmid.relink (Draft.advances_registerDeclared _ _).toRelinked)
      (step hps.1 hc declared hd)

/-- An invariant of drafts and their histories that does not look at the log. -/
theorem Builder.Accepts.history {P : List ParsedStatement → Draft → Prop} {b : Builder}
    (start : P [] (Draft.ofConfig config)) (log : ∀ {ps d log}, P ps d → P ps { d with log })
    (step : ∀ {ps p scope d scope' found mid}, Grammar.Parsed p → d.catalog.WellFormed →
      DraftM.Runs (DraftM.declare config scope p) d (scope', found) mid → P ps d →
      P (ps ++ [p]) (mid.registerDeclared found))
    (h : Accepts config b ps) : P ps b.draft := by
  induction h with
  | start => exact start
  | @accepted b ps statements h name text parsed added ih =>
    obtain ⟨rfl, trace, ht⟩ := h.exists_traced
    have hadd : b.draft.addStatements b.config name statements =
        (.ok (), (b.addParsed name text statements).2.draft) := Prod.ext added rfl
    obtain ⟨scope, more, hsteps⟩ := Draft.exists_steps hadd
    exact hsteps.history step parsed ht.wellFormed (log ih)
  | @rejected b ps statements e h name text parsed failed ih =>
    have hadd : b.addParsed name text statements =
        (.error e, (b.addParsed name text statements).2) := Prod.ext failed rfl
    obtain ⟨_, hlog⟩ := exists_log_of_error hadd
    rw [hlog]
    exact log ih
  | remembered _ _ _ ih => exact ih

theorem DraftM.Runs.table_text {s : CreateTable} {ddl : String} {l : Location} {t : Relation}
    (h : Runs (buildTable config q s ddl l) d t d') : t.ddl = ddl ∧ t.location = l := by
  unfold buildTable at h
  simp only [runs_bind, runs_pure] at h
  rcases h with ⟨columns, d₁, -, ks, d₂, -, rfl, rfl⟩
  exact ⟨rfl, rfl⟩

/-- How a relation that is there once a statement has been declared has come about. -/
inductive Relation.Stored (config : Config) (p : ParsedStatement) (d : Draft) (found : NewTable)
    (q : QualifiedName) (r : Relation) : Prop where
  | kept {r₀} (before : d.catalog.relation? q = some r₀) (same : r = { r₀ with indexes := r.indexes })
      (other : ∀ ks, found ≠ some (q, ks))
  | table {s before after} (said : p.statement = .createTable s)
      (placed : s.name.qualify config.defaultSchema = q)
      (built : DraftM.Runs (DraftM.buildTable config q s p.text p.location) before r after)
      (found_eq : found = some (q, r.constraints))
  | view {s} (said : p.statement = .createView s)
      (placed : s.name.qualify config.defaultSchema = q) (drawn : r = s.view q p.text p.location)
      (found_eq : found = none)

namespace DraftM

variable {r : Relation}

theorem Runs.stored_of_step (step : Step config p scope d scope' found mid)
    (htable : ∀ s, p.statement ≠ .createTable s) (hr : mid.catalog.relation? q = some r) :
    Relation.Stored config p d found q r := by
  have kept (hnone : found = none) (h : d.catalog.relation? q = some r) :
      Relation.Stored config p d found q r := by
    refine .kept h rfl fun ks he => ?_
    rw [hnone] at he
    cases he
  cases step with
  | schema | viewSkipped => exact kept rfl ((Catalog.relation?_ensureSchema _ _ _).symm.trans hr)
  | enum | function | procedure | prepared =>
    refine kept rfl ?_
    rwa [Catalog.relation?_modifySchema _ (by exact fun _ => rfl), Catalog.relation?_ensureSchema]
      at hr
  | tableSkipped said => exact absurd said (htable _)
  | table said => exact absurd said (htable _)
  | indexUnplaced | indexSkipped => exact kept rfl hr
  | @view s q' log said placed =>
    rw [Catalog.relation?_insertRelation, Catalog.relation?_ensureSchema] at hr
    split at hr
    · next hq =>
      cases hr
      obtain rfl : q' = q := hq
      exact .view said (Scope.qualify_eq placed).symm rfl rfl
    · exact kept rfl hr
  | index =>
    rw [Catalog.relation?_modifyRelation] at hr
    split at hr
    · obtain ⟨r₀, hr₀, rfl⟩ := Option.map_eq_some_iff.1 hr
      exact .kept hr₀ rfl nofun
    · exact kept rfl hr

theorem Runs.stored_of_createTable {s : CreateTable} (said : p.statement = .createTable s)
    (declared : Runs (declare config scope p) d (scope', found) mid)
    (hr : mid.catalog.relation? q = some r) : Relation.Stored config p d found q r := by
  obtain ⟨rfl, hruns⟩ := (runs_declare_of_createTable said).1 declared
  obtain ⟨q', hplaced, ⟨kind, -, -, rfl, hmid⟩ | ⟨-, t, after, hbuilt, rfl, hmid⟩⟩ :=
    runs_declareTable.1 hruns
  · rw [hmid, Catalog.relation?_ensureSchema] at hr
    exact .kept hr rfl nofun
  · obtain ⟨hdrawn, hafter⟩ := hbuilt.table
    rw [hmid, hafter, Catalog.relation?_insertRelation, Catalog.relation?_ensureSchema,
      hdrawn.name_eq] at hr
    split at hr
    · next hq =>
      subst hq
      cases hr
      exact .table said (Scope.qualify_eq hplaced).symm hbuilt rfl
    · next hq =>
      refine .kept hr rfl fun ks he => ?_
      cases he
      exact hq rfl

theorem Runs.stored (declared : Runs (declare config scope p) d (scope', found) mid)
    (hr : mid.catalog.relation? q = some r) : Relation.Stored config p d found q r := by
  by_cases htable : ∃ s, p.statement = .createTable s
  · rcases htable with ⟨s, said⟩
    exact stored_of_createTable said declared hr
  · exact stored_of_step declared.step (fun s said => htable ⟨s, said⟩) hr

end DraftM

namespace Draft

/-- Registering the keys of a table leaves all other relations alone. -/
theorem relation?_registerAll_of_ne {owner : QualifiedName} (h : owner ≠ q) (ks : List Constraint)
    (d : Draft) : (ks.foldl (register owner) d).catalog.relation? q = d.catalog.relation? q := by
  have hmodify (c : Catalog) (name : String) (f : ForeignKey → ForeignKey) :
      (c.modifyForeignKey owner name f).relation? q = c.relation? q :=
    (c.relation?_modifyRelation owner _ q).trans (if_neg h)
  exact catalog_registerAll (P := fun c => c.relation? q = d.catalog.relation? q)
    (fun c name f hc => (hmodify c name f).trans hc) ks rfl

theorem relation?_registerDeclared_of_ne (h : ∀ ks, found ≠ some (q, ks)) (d : Draft) :
    (d.registerDeclared found).catalog.relation? q = d.catalog.relation? q := by
  cases found with
  | none => rfl
  | some table =>
    refine relation?_registerAll_of_ne ?_ table.2 d
    rintro rfl
    exact h table.2 rfl

end Draft

end DdlCatalog
