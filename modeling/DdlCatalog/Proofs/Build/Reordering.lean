import DdlCatalog.Proofs.Build.Addition
import DdlCatalog.Proofs.Build.Resolution

/-! # New tables in any order
New tables of base types may be declared in any order. Keys are then linked at different times, but
they come to the same in the end. -/

namespace DdlCatalog

/-- The statement declares a table of base types under a name that no relation has. -/
def ParsedStatement.DeclaresNew (config : Config) (c : Catalog) (p : ParsedStatement) : Prop :=
  ∃ s ∈ p.table?, c.relation? (s.name.qualify config.defaultSchema) = none ∧ s.HasBaseTypes config

instance (config : Config) (c : Catalog) (p : ParsedStatement) :
    Decidable (p.DeclaresNew config c) :=
  inferInstanceAs (Decidable (∃ s ∈ p.table?, _ ∧ _))

/-- Parsed declarations of new tables of base types under distinct names. -/
structure NewTables (config : Config) (c : Catalog) (ps : List ParsedStatement) : Prop where
  parsed : ∀ p ∈ ps, Grammar.Parsed p
  declares : ∀ p ∈ ps, p.DeclaresNew config c
  names_nodup : (ps.map (·.tableName? config)).Nodup

theorem NewTables.perm {config : Config} {c : Catalog} {ps ps' : List ParsedStatement}
    (h : NewTables config c ps) (hperm : ps.Perm ps') : NewTables config c ps' where
  parsed p hp := h.parsed p (hperm.mem_iff.2 hp)
  declares p hp := h.declares p (hperm.mem_iff.2 hp)
  names_nodup := (hperm.map _).nodup_iff.1 h.names_nodup

/-- There is room for what statements add to `o`: their names are free, and enums are the same. -/
structure RoomFor (o c : Catalog) (as : List Addition) : Prop where
  free : ∀ a ∈ as, c.relation? a.name = none
  names_nodup : (as.map (·.name)).Nodup
  enum_eq : ∀ q, c.enum? q = o.enum? q

variable {config : Config} {o c c' : Catalog} {p : ParsedStatement} {ps : List ParsedStatement}
  {a : Addition} {as : List Addition} {scope scope' : Scope} {d d' mid : Draft} {found : NewTable}
  {trace : Trace}

theorem enum?_of_added (henum : ∀ q, c.enum? q = o.enum? q) (hc : (c.add a).Relinked c')
    (q : QualifiedName) : c'.enum? q = o.enum? q := by
  rw [hc.enum?_eq, Catalog.enum?_add, henum]

theorem RoomFor.tail (h : RoomFor o c (a :: as)) (hc : (c.add a).Relinked c') :
    RoomFor o c' as where
  free b hb := by
    have hnames := h.names_nodup
    rw [List.map_cons, List.nodup_cons] at hnames
    apply hc.relation?_eq_none
    rw [Catalog.relation?_add_of_ne]
    · exact h.free b (List.mem_cons_of_mem _ hb)
    · intro he
      exact hnames.1 (he ▸ List.mem_map_of_mem hb)
  names_nodup := (List.nodup_cons.1 h.names_nodup).2
  enum_eq := enum?_of_added h.enum_eq hc

theorem Adds.declared (h : Adds config o p a) (hnew : d.catalog.relation? a.name = none)
    (henum : ∀ q, d.catalog.enum? q = o.enum? q)
    (declared : DraftM.Runs (DraftM.declare config none p) d (scope, found) mid) :
    scope = none ∧ found = a.newTable ∧ mid.catalog = d.catalog.add a ∧
      mid.issues = d.issues ++ a.issues := by
  obtain ⟨log, hruns⟩ := h.runs d hnew henum
  obtain ⟨he, rfl⟩ := declared.unique hruns
  cases he
  exact ⟨rfl, rfl, rfl, rfl⟩

theorem Adds.congr (h : Adds config c p a) (henum : ∀ q, c'.enum? q = c.enum? q) :
    Adds config c' p a where
  name_eq := h.name_eq
  runs d hnew hd := h.runs d hnew fun q => (hd q).trans (henum q)

/-- Tables of other names are still new after an addition. -/
theorem ParsedStatement.DeclaresNew.add (h : p.DeclaresNew config c)
    (hne : p.tableName? config ≠ some a.name) (hc : (c.add a).Relinked c') :
    p.DeclaresNew config c' := by
  rcases h with ⟨s, hs, hnew, hbase⟩
  refine ⟨s, hs, hc.relation?_eq_none ?_, hbase⟩
  rw [Catalog.relation?_add_of_ne]
  · exact hnew
  · intro he
    exact hne (by rw [ParsedStatement.tableName?_of_table? hs, he])

/-- New tables that are accepted add the same elsewhere. -/
theorem Steps.exists_additions (steps : Steps config ps none d scope' d' trace)
    (henum : ∀ q, d.catalog.enum? q = o.enum? q)
    (declares : ∀ p ∈ ps, p.DeclaresNew config d.catalog)
    (hnodup : (ps.map (·.tableName? config)).Nodup) : ∃ as, List.Forall₂ (Adds config o) ps as := by
  induction ps generalizing d trace with
  | nil => exact ⟨[], .nil⟩
  | cons p ps ih =>
    rw [List.forall_mem_cons] at declares
    rw [List.map_cons, List.nodup_cons] at hnodup
    rcases declares.1 with ⟨s, hs, hnew, hbase⟩
    cases steps with
    | @cons _ _ _ _ _ found _ mid _ _ _ _ declared _ _ rest =>
      obtain ⟨a, ha⟩ :=
        declared.exists_adds (ParsedStatement.table?_eq_some_iff.1 hs) hbase hnew
      rw [← ha.name_eq_qualify hs] at hnew
      obtain ⟨rfl, rfl, hcatalog, -⟩ := ha.declared hnew (fun _ => rfl) declared
      have hrelinked := (mid.advances_registerDeclared a.newTable).toRelinked
      rw [hcatalog] at hrelinked
      have hlater : ∀ p' ∈ ps, p'.DeclaresNew config
          (mid.registerDeclared a.newTable).catalog := by
        intro p' hp'
        refine (declares.2 p' hp').add (fun he => hnodup.1 ?_) hrelinked
        rw [ha.name_eq, ← he]
        exact List.mem_map_of_mem hp'
      obtain ⟨as, has⟩ := ih rest (enum?_of_added henum hrelinked) hlater hnodup.2
      exact ⟨a :: as, .cons (ha.congr fun q => (henum q).symm) has⟩

/-- Statements add what they say, and the keys of the new tables come along. -/
theorem Steps.additions (steps : Steps config ps none d scope' d' trace)
    (adds : List.Forall₂ (Adds config o) ps as) (room : RoomFor o d.catalog as)
    (h : c.Advances d.catalog) :
    (as.foldl Catalog.add c).Advances d'.catalog ∧
      trace.issuesOf .declaration = as.flatMap (·.issues) := by
  induction adds generalizing d c trace with
  | nil =>
    cases steps
    exact ⟨h, rfl⟩
  | @cons p a ps as ha _ ih =>
    have hnew := room.free a (List.mem_cons_self ..)
    have hnew' : c.relation? a.name = none := by
      have hsome := h.isSome_relation? a.name
      rw [hnew] at hsome
      simpa using hsome.symm
    cases steps with
    | @cons _ _ _ _ _ found _ mid _ own _ trace declared own_eq _ rest =>
      obtain ⟨rfl, rfl, hcatalog, hissues⟩ := ha.declared hnew room.enum_eq declared
      have hadvances := mid.advances_registerDeclared a.newTable
      rw [hcatalog] at hadvances
      obtain ⟨hcatalog', hissues'⟩ :=
        ih rest (room.tail hadvances.toRelinked) ((h.add hnew').trans hadvances)
      refine ⟨hcatalog', ?_⟩
      rw [own_eq] at hissues
      rw [Trace.issuesOf_append, Trace.issuesOf_ofStatement_declaration, hissues',
        List.append_cancel_left hissues, List.flatMap_cons]

theorem exists_runs_of_adds (adds : List.Forall₂ (Adds config o) ps as)
    (room : RoomFor o d.catalog as) :
    ∃ d', DraftM.Runs (ps.foldlM (DraftM.accumulate config) none) d none d' := by
  induction adds generalizing d with
  | nil => exact ⟨d, DraftM.runs_foldlM_nil.2 ⟨rfl, rfl⟩⟩
  | @cons p a ps as ha _ ih =>
    obtain ⟨log, hruns⟩ := ha.runs d (room.free a (List.mem_cons_self ..)) room.enum_eq
    have hrelinked := (Draft.advances_registerDeclared
      { d with catalog := d.catalog.add a, issues := d.issues ++ a.issues, log }
      a.newTable).toRelinked
    obtain ⟨d', hrest⟩ := ih (room.tail hrelinked)
    exact ⟨d', DraftM.runs_foldlM_cons.2 ⟨none, _, DraftM.runs_accumulate.2 ⟨_, _, hruns, rfl⟩, hrest⟩⟩

theorem map_name_of_adds (adds : List.Forall₂ (Adds config c) ps as) :
    ps.map (·.tableName? config) = (as.map (·.name)).map some := by
  induction adds with
  | nil => rfl
  | cons ha _ ih => simp only [List.map_cons, ha.name_eq, ih]

theorem NewTables.roomFor (h : NewTables config c ps) (adds : List.Forall₂ (Adds config c) ps as) :
    RoomFor c c as where
  free a ha := by
    obtain ⟨p, hp, hadds⟩ := exists_of_mem_forall₂ adds ha
    obtain ⟨s, hs, hnew, -⟩ := h.declares p hp
    rw [hadds.name_eq_qualify hs]
    exact hnew
  names_nodup := by
    have hnodup := h.names_nodup
    rw [map_name_of_adds adds] at hnodup
    exact hnodup.of_map
  enum_eq _ := rfl

namespace Builder

variable {b : Builder} {name text : String}

theorem Traced.complete (h : Traced config b trace) : b.draft.settle.catalog.Complete := by
  rcases h.ledger with ⟨hc, closed, late, -, hledger⟩
  exact hledger.complete hc

theorem Traced.exists_steps (h : Traced config b trace) (hconfig : b.config = config)
    (parsed : ∀ p ∈ ps, Grammar.Parsed p) (hok : (b.addParsed name text ps).1 = .ok ()) :
    ∃ scope more, Traced config (b.addParsed name text ps).2 (trace ++ more) ∧
      Steps config ps none { b.draft with log := b.draft.log ++ [.accumulate name ps.length] } scope
        (b.addParsed name text ps).2.draft more := by
  have hadded : b.addParsed name text ps = (.ok (), (b.addParsed name text ps).2) :=
    Prod.ext hok rfl
  have hadd : b.draft.addStatements config name ps =
      (.ok (), (b.draft.addStatements config name ps).2) := by
    rw [addParsed_eq, hconfig] at hok
    exact Prod.ext hok rfl
  have hdraft : (b.addParsed name text ps).2.draft = (b.draft.addStatements config name ps).2 := by
    rw [addParsed_eq, hconfig]
  obtain ⟨scope, more, hsteps⟩ := Draft.exists_steps hadd
  rw [← hdraft] at hsteps
  exact ⟨scope, more, h.accepted name text ps parsed hadded hsteps, hsteps⟩

/-- What a build comes to after new tables follows from what they add. -/
theorem Traced.additions (h : Traced config b trace) (hconfig : b.config = config)
    (hnew : NewTables config b.draft.catalog ps)
    (adds : List.Forall₂ (Adds config b.draft.catalog) ps as)
    (hok : (b.addParsed name text ps).1 = .ok ()) :
    (as.foldl Catalog.add b.draft.catalog).Advances
        (b.addParsed name text ps).2.draft.settle.catalog ∧
      (b.addParsed name text ps).2.draft.settle.catalog.Complete ∧
      (b.addParsed name text ps).2.draft.settle.issues.Perm
        ((trace.issuesOf .declaration ++ as.flatMap (·.issues)) ++
          (b.addParsed name text ps).2.draft.settle.catalog.allKeyIssues) := by
  obtain ⟨scope, more, htraced, hsteps⟩ := h.exists_steps hconfig hnew.parsed hok
  obtain ⟨hadvances, hissues⟩ :=
    hsteps.additions adds (hnew.roomFor adds) (.refl b.draft.catalog)
  have hperm := htraced.issues_perm
  rw [Trace.issuesOf_append, hissues] at hperm
  exact ⟨hadvances.trans (Draft.advances_settle _), htraced.complete, hperm⟩

theorem Traced.exists_adds (h : Traced config b trace) (hconfig : b.config = config)
    (hnew : NewTables config b.draft.catalog ps) (hok : (b.addParsed name text ps).1 = .ok ()) :
    ∃ as, List.Forall₂ (Adds config b.draft.catalog) ps as := by
  obtain ⟨scope, more, -, hsteps⟩ := h.exists_steps hconfig hnew.parsed hok
  exact hsteps.exists_additions (fun _ => rfl) hnew.declares hnew.names_nodup

theorem accepted_of_adds (hconfig : b.config = config)
    (adds : List.Forall₂ (Adds config b.draft.catalog) ps as)
    (room : RoomFor b.draft.catalog b.draft.catalog as) : (b.addParsed name text ps).1 = .ok () := by
  obtain ⟨d', hruns⟩ := exists_runs_of_adds
    (d := { b.draft with log := b.draft.log ++ [.accumulate name ps.length] }) adds room
  have hadd : b.draft.addStatements config name ps = (.ok (), d') :=
    Draft.addStatements_ok_iff.2 (DraftM.runs_accumulateAll.2 ⟨none, hruns⟩)
  rw [addParsed_eq, hconfig, hadd]

theorem exists_adds_perm {ps' : List ParsedStatement} (hperm : ps.Perm ps')
    (adds : List.Forall₂ (Adds config c) ps as) :
    ∃ as', List.Forall₂ (Adds config c) ps' as' ∧ as.Perm as' := by
  obtain ⟨as', adds', hperm'⟩ := List.perm_comp_forall₂ hperm.symm adds
  exact ⟨as', adds', hperm'.symm⟩

variable {ps' : List ParsedStatement} {name' text' : String}

theorem Traced.accepted_perm (h : Traced config b trace) (hconfig : b.config = config)
    (hnew : NewTables config b.draft.catalog ps) (hperm : ps.Perm ps')
    (hok : (b.addParsed name text ps).1 = .ok ()) : (b.addParsed name' text' ps').1 = .ok () := by
  obtain ⟨as, adds⟩ := h.exists_adds hconfig hnew hok
  obtain ⟨as', adds', -⟩ := exists_adds_perm hperm adds
  exact accepted_of_adds hconfig adds' ((hnew.perm hperm).roomFor adds')

theorem Traced.settled_perm (h : Traced config b trace) (hconfig : b.config = config)
    (hnew : NewTables config b.draft.catalog ps) (hperm : ps.Perm ps')
    (hok : (b.addParsed name text ps).1 = .ok ())
    (hok' : (b.addParsed name' text' ps').1 = .ok ()) :
    (b.addParsed name text ps).2.draft.settle.catalog.Alike
        (b.addParsed name' text' ps').2.draft.settle.catalog ∧
      (b.addParsed name text ps).2.draft.settle.issues.Perm
        (b.addParsed name' text' ps').2.draft.settle.issues := by
  obtain ⟨as, adds⟩ := h.exists_adds hconfig hnew hok
  obtain ⟨as', adds', hadds⟩ := exists_adds_perm hperm adds
  obtain ⟨hadvances, hcomplete, hissues⟩ := h.additions hconfig hnew adds hok
  obtain ⟨hadvances', hcomplete', hissues'⟩ :=
    h.additions hconfig (hnew.perm hperm) adds' hok'
  have halike := (Catalog.Alike.refl b.draft.catalog).addAll_perm hadds
    (hnew.roomFor adds).names_nodup
  have hsettled := halike.of_complete hadvances hadvances' hcomplete hcomplete'
  refine ⟨hsettled, hissues.trans (List.Perm.trans ?_ hissues'.symm)⟩
  exact ((hadds.flatMap_right _).append_left _).append hsettled.allKeyIssues_perm.symm

/-- New tables of base types may be declared in any order: one order is accepted exactly if every
other is, the issues in the end are the same up to order, and finished catalogs differ in order and in
which keys are added later. -/
theorem tables_in_any_order (h : Reachable config b) (hnew : NewTables config b.draft.catalog ps)
    (hperm : ps.Perm ps') (name text name' text' : String) :
    ((b.addParsed name text ps).1 = .ok () ↔ (b.addParsed name' text' ps').1 = .ok ()) ∧
      ((b.addParsed name text ps).1 = .ok () →
        (b.addParsed name text ps).2.draft.settle.issues.Perm
            (b.addParsed name' text' ps').2.draft.settle.issues ∧
          ((∃ c, (b.addParsed name text ps).2.finish = .ok c) ↔
            ∃ c, (b.addParsed name' text' ps').2.finish = .ok c) ∧
          (∀ c c', (b.addParsed name text ps).2.finish = .ok c →
            (b.addParsed name' text' ps').2.finish = .ok c' → c.Alike c') ∧
          ∀ e e', (b.addParsed name text ps).2.finish = .error e →
            (b.addParsed name' text' ps').2.finish = .error e' →
            ∃ issues issues', e = .finalize issues ∧ e' = .finalize issues' ∧
              issues.Perm issues') := by
  obtain ⟨trace, ht⟩ := exists_traced h
  have hconfig := config_of_reachable h
  have haccepted : (b.addParsed name text ps).1 = .ok () ↔
      (b.addParsed name' text' ps').1 = .ok () :=
    ⟨ht.accepted_perm hconfig hnew hperm,
      ht.accepted_perm hconfig (hnew.perm hperm) hperm.symm⟩
  refine ⟨haccepted, fun hok => ?_⟩
  obtain ⟨halike, hissues⟩ := ht.settled_perm hconfig hnew hperm hok (haccepted.1 hok)
  have hnone : (b.addParsed name text ps).2.draft.settle.issues = [] ↔
      (b.addParsed name' text' ps').2.draft.settle.issues = [] := by
    rw [← List.length_eq_zero_iff, hissues.length_eq, List.length_eq_zero_iff]
  refine ⟨hissues, ?_, fun c c' hc hc' => ?_, fun e e' he he' => ?_⟩
  · simp only [finish_eq_ok_iff, exists_and_left, exists_eq, and_true]
    exact hnone
  · rw [(finish_eq_ok_iff.1 hc).2, (finish_eq_ok_iff.1 hc').2]
    exact halike
  · exact ⟨_, _, finish_eq_error he, finish_eq_error he', hissues⟩

/-- A key that waits for its target in one order and finds it in the other. -/
def linkedTables : List ParsedStatement :=
  match Grammar.parseSource "t.sql"
    "create table a (b int references b); create table b (b int primary key)" with
  | .ok ps => ps
  | .error _ => []

theorem parsed_linkedTables : ∀ p ∈ linkedTables, Grammar.Parsed p := by
  unfold linkedTables
  split
  · next h => exact Grammar.parsed_of_parseSource h
  · simp

/-- Both orders give both tables. The key is added later only in the order in which it waits. -/
theorem linkedTables_in_any_order :
    let tables (c : Catalog) := c.relations.map fun r =>
      (r.name, r.constraints.filterMap fun k => k.foreignKey?.map (·.useAlter))
    ∃ c c', ((Builder.ofConfig Config.default).addParsed "t.sql" "" linkedTables).2.finish = .ok c ∧
      ((Builder.ofConfig Config.default).addParsed "t.sql" "" linkedTables.reverse).2.finish =
        .ok c' ∧ c.Alike c' ∧
      tables c = [(⟨"public", "a"⟩, [true]), (⟨"public", "b"⟩, [])] ∧
      tables c' = [(⟨"public", "b"⟩, []), (⟨"public", "a"⟩, [false])] := by
  intro tables
  obtain ⟨hdeclares, hnames, hok, hsettled⟩ :
      (∀ p ∈ linkedTables,
        p.DeclaresNew Config.default (Builder.ofConfig Config.default).draft.catalog) ∧
      (linkedTables.map (·.tableName? Config.default)).Nodup ∧
      ((Builder.ofConfig Config.default).addParsed "t.sql" "" linkedTables).1.isOk = true ∧
      ((Builder.ofConfig Config.default).addParsed "t.sql" ""
        linkedTables).2.draft.settle.issues = [] := by decide +kernel
  have hadded : ((Builder.ofConfig Config.default).addParsed "t.sql" "" linkedTables).1 =
      .ok () := by
    cases h : ((Builder.ofConfig Config.default).addParsed "t.sql" "" linkedTables).1 with
    | ok _ => rfl
    | error e => simp [h, Except.isOk, Except.toBool] at hok
  obtain ⟨-, hsame⟩ := tables_in_any_order .start ⟨parsed_linkedTables, hdeclares, hnames⟩
    linkedTables.reverse_perm.symm "t.sql" "" "t.sql" ""
  obtain ⟨-, hfinish, halike, -⟩ := hsame hadded
  have hc := finish_eq_ok_iff.2 ⟨hsettled, rfl⟩
  obtain ⟨c', hc'⟩ := hfinish.1 ⟨_, hc⟩
  refine ⟨_, c', hc, hc', halike _ c' hc hc', by decide +kernel, ?_⟩
  rw [(finish_eq_ok_iff.1 hc').2]
  decide +kernel

end Builder

end DdlCatalog
