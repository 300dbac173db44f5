import DdlCatalog.Proofs.Build.Reachable

/-! # Sources that fail
A source that fails leaves nothing but its text and what the log says of it. Whatever is added later
comes out as if the source had never been there. -/

namespace DdlCatalog

open Text (SourceMap)

namespace Text.SourceMap

theorem contains_remember (m : SourceMap) (name text : String) :
    (m.remember name text).contains name = true := by
  unfold remember
  split
  · assumption
  · unfold contains get? add
    rw [List.lookup_append]
    simp

theorem remember_remember (m : SourceMap) (name text : String) :
    (m.remember name text).remember name text = m.remember name text :=
  if_pos (m.contains_remember name text)

theorem remember_eq (m : SourceMap) (name text : String) :
    m.remember name text = m ∨ m.get? name = none ∧ m.remember name text = m.add name text := by
  unfold remember
  split
  · exact .inl rfl
  · next h => exact .inr ⟨by simpa [contains] using h, rfl⟩

end Text.SourceMap

theorem DraftM.appending_resolvePending (target : QualifiedName) (r : PendingReference) :
    Appending (resolvePending target r) := by
  refine Appending.catalog.bind fun c => ?_
  split
  · exact appending_linkForeignKey _ _
  · exact .report _

namespace Draft

variable {config : Config} {d d' : Draft}

theorem SameButLog.refl (d : Draft) : d.SameButLog d := ⟨rfl, rfl, rfl⟩

theorem sameButLog_log (d : Draft) (log : List Event) : d.SameButLog { d with log } :=
  ⟨rfl, rfl, rfl⟩

/-- A source that fails leaves the draft as it was. -/
theorem sameButLog_of_error {source : String} {ps : List ParsedStatement} {e : Error}
    (h : (d.addStatements config source ps).1 = .error e) :
    d.SameButLog (d.addStatements config source ps).2 := by
  have hadd : d.addStatements config source ps =
      (.error e, (d.addStatements config source ps).2) := Prod.ext h rfl
  obtain ⟨log, hlog⟩ := addStatements_error hadd
  rw [hlog]
  exact d.sameButLog_log log

theorem SameButLog.restore {failed failed' : Draft} (h : d.SameButLog d')
    (hfailed : failed.SameButLog failed') :
    (failed.restore d.checkpoint).SameButLog (failed'.restore d'.checkpoint) where
  catalog_eq := h.catalog_eq
  pending_eq := h.pending_eq
  issues_eq := by
    unfold Draft.restore checkpoint
    rw [h.issues_eq, hfailed.issues_eq]

theorem SameButLog.addStatements (h : d.SameButLog d') (config : Config) (source : String)
    (ps : List ParsedStatement) :
    (d'.addStatements config source ps).1 = (d.addStatements config source ps).1 ∧
      (d.addStatements config source ps).2.SameButLog (d'.addStatements config source ps).2 := by
  have hopened : ({ d with log := d.log ++ [.accumulate source ps.length] } : Draft).SameButLog
      { d' with log := d'.log ++ [.accumulate source ps.length] } :=
    ⟨h.catalog_eq, h.pending_eq, h.issues_eq⟩
  obtain ⟨hresult, hdraft⟩ := (DraftM.appending_accumulateAll config ps).same hopened
  unfold Draft.addStatements
  dsimp only
  revert hresult hdraft
  rcases (DraftM.accumulateAll config ps).run.run { d with log := _ } with ⟨e | u, added⟩ <;>
    rcases (DraftM.accumulateAll config ps).run.run { d' with log := _ } with ⟨e' | u', added'⟩ <;>
    intro hresult hdraft <;> cases hresult
  · have hrestored := h.restore hdraft
    exact ⟨rfl, hrestored.catalog_eq, hrestored.pending_eq, hrestored.issues_eq⟩
  · exact ⟨rfl, hdraft⟩

theorem SameButLog.settle (h : d.SameButLog d') : d.settle.SameButLog d'.settle := by
  have hopened : ({ d with pending := ∅, log := d.log ++ [.finalize d.pendingReferences.length] }
      : Draft).SameButLog
        { d' with pending := ∅, log := d'.log ++ [.finalize d'.pendingReferences.length] } :=
    ⟨h.catalog_eq, rfl, h.issues_eq⟩
  have hreferences : d'.pendingReferences = d.pendingReferences := by
    unfold pendingReferences
    rw [h.pending_eq]
  have hforM : DraftM.Appending
      (d.pendingReferences.forM fun w => DraftM.resolvePending w.1 w.2) :=
    .forM (fun (w : QualifiedName × PendingReference) =>
      DraftM.appending_resolvePending w.1 w.2) _
  have hsettled := (hforM.same hopened).2
  unfold Draft.settle
  rw [hreferences] at hsettled ⊢
  exact hsettled

theorem SameButLog.finish (h : d.SameButLog d') : d'.finish.1 = d.finish.1 := by
  have hsettled := h.settle
  unfold Draft.finish
  dsimp only
  rw [hsettled.issues_eq, hsettled.catalog_eq]
  split <;> rfl

end Draft

namespace Builder

/-- What comes of adding one source. -/
structure Outcome where
  result : Except Error Unit
  catalog : Catalog
  pending : OrderedMap QualifiedName (List PendingReference)
  issues : List Error

/-- Adds sources one after another, whether they fail or not, and finishes. -/
def replay (b : Builder) : List (String × String) → List Outcome × Except Error Catalog
  | [] => ([], b.finish)
  | (name, text) :: rest =>
    let (result, b) := b.addSource name text
    let (later, finished) := b.replay rest
    (⟨result, b.draft.catalog, b.draft.pending, b.draft.issues⟩ :: later, finished)

variable {b b' : Builder}

/-- The builders differ at most in their texts and their logs. -/
structure Same (b b' : Builder) : Prop where
  config_eq : b'.config = b.config
  draft : b.draft.SameButLog b'.draft

theorem Same.addParsed (h : b.Same b') (name text : String) (ps : List ParsedStatement) :
    (b'.addParsed name text ps).1 = (b.addParsed name text ps).1 ∧
      (b.addParsed name text ps).2.Same (b'.addParsed name text ps).2 := by
  obtain ⟨hresult, hdraft⟩ := h.draft.addStatements b.config name ps
  rw [addParsed_eq, addParsed_eq, h.config_eq]
  exact ⟨hresult, rfl, hdraft⟩

/-- Adding a source to builders that differ in their texts and logs has the same outcome. -/
theorem Same.addSource (h : b.Same b') (name text : String) :
    (b'.addSource name text).1 = (b.addSource name text).1 ∧
      (b.addSource name text).2.Same (b'.addSource name text).2 := by
  cases hp : Grammar.parseSource name text with
  | ok statements =>
    rw [addSource_of_ok hp, addSource_of_ok hp]
    have hremembered : Same { b with sources := b.sources.remember name text }
        { b' with sources := b'.sources.remember name text } := ⟨h.config_eq, h.draft⟩
    exact hremembered.addParsed name text statements
  | error e =>
    rw [addSource_of_error hp, addSource_of_error hp]
    exact ⟨rfl, h.config_eq, h.draft⟩

theorem Same.replay (h : b.Same b') (later : List (String × String)) :
    b'.replay later = b.replay later := by
  induction later generalizing b b' with
  | nil => exact Prod.ext rfl h.draft.finish
  | cons source later ih =>
    obtain ⟨name, text⟩ := source
    obtain ⟨hresult, hnext⟩ := h.addSource name text
    unfold Builder.replay
    dsimp only
    rw [ih hnext, hresult, hnext.draft.catalog_eq, hnext.draft.pending_eq, hnext.draft.issues_eq]

theorem sources_addSource (b : Builder) (name text : String) :
    (b.addSource name text).2.sources = b.sources.remember name text := by
  cases hp : Grammar.parseSource name text with
  | ok statements =>
    rw [addSource_of_ok hp]
    exact b.sources.remember_remember name text
  | error e => rw [addSource_of_error hp]

theorem same_of_error {name text : String} {e : Error} (h : (b.addSource name text).1 = .error e) :
    b.Same (b.addSource name text).2 := by
  cases hp : Grammar.parseSource name text with
  | ok statements =>
    rw [addSource_of_ok hp] at h ⊢
    exact ⟨rfl, Draft.sameButLog_of_error h⟩
  | error e =>
    rw [addSource_of_error hp]
    exact ⟨rfl, .refl b.draft⟩

/-- A source that fails, wherever it does, leaves the catalog, the waiting keys and the issues as they
were and adds at most its own text to the sources, and nothing that is added later tells that it was
there. -/
theorem rollback_of_error {name text : String} {e : Error}
    (h : (b.addSource name text).1 = .error e) :
    (b.addSource name text).2.draft.catalog = b.draft.catalog ∧
      (b.addSource name text).2.draft.pending = b.draft.pending ∧
      (b.addSource name text).2.draft.issues = b.draft.issues ∧
      ((b.addSource name text).2.sources = b.sources ∨
        b.sources.get? name = none ∧
          (b.addSource name text).2.sources = b.sources.add name text) ∧
      ∀ later, (b.addSource name text).2.replay later = b.replay later := by
  have hsame := same_of_error h
  refine ⟨hsame.draft.catalog_eq, hsame.draft.pending_eq, hsame.draft.issues_eq, ?_, hsame.replay⟩
  rw [sources_addSource]
  exact b.sources.remember_eq name text

/-- A key that waits and an issue. -/
def startedBuilder : Builder :=
  ((Builder.ofConfig Config.default).addSource "a.sql"
    "create table a (x int references b); create index i on nowhere (x)").2

/-- A source that resolves the key, leaves another one to wait and adds an issue before it fails. -/
def failingText : String :=
  "create schema s; create table b (x int primary key); create table d (x int references e, y what);" ++
    " create type a as enum ('x')"

theorem rollback_startedBuilder :
    (startedBuilder.draft.pendingReferences.length = 1 ∧ startedBuilder.draft.issues.length = 1) ∧
    ∃ e, (startedBuilder.addSource "b.sql" failingText).1 = .error e ∧
      (startedBuilder.addSource "b.sql" failingText).2.draft.catalog = startedBuilder.draft.catalog ∧
      (startedBuilder.addSource "b.sql" failingText).2.draft.pending = startedBuilder.draft.pending ∧
      (startedBuilder.addSource "b.sql" failingText).2.draft.issues = startedBuilder.draft.issues ∧
      ∀ later, (startedBuilder.addSource "b.sql" failingText).2.replay later =
        startedBuilder.replay later := by
  refine ⟨by decide +kernel, ?_⟩
  have hfails : (startedBuilder.addSource "b.sql" failingText).1.isOk = false := by decide +kernel
  rcases he : (startedBuilder.addSource "b.sql" failingText).1 with e | u
  · obtain ⟨hcatalog, hpending, hissues, -, hreplay⟩ := rollback_of_error he
    exact ⟨e, rfl, hcatalog, hpending, hissues, hreplay⟩
  · rw [he] at hfails
    cases hfails

end Builder

end DdlCatalog
