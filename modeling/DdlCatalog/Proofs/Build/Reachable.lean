import DdlCatalog.Proofs.Build.Appending
import DdlCatalog.Proofs.Build.Step
import DdlCatalog.Proofs.Grammar.Table

/-! # Builders that can be reached
What holds of an empty draft and is kept by every accepted statement holds of every builder, since a
source that fails leaves only its log. A trace tells issues of declarations from those of foreign
keys. -/

namespace DdlCatalog

/-- What an issue came from. -/
inductive Origin where
  | declaration
  | foreignKey
deriving DecidableEq, Repr

/-- Issues in the order in which they were recorded. -/
abbrev Trace := List (Origin × Error)

def Trace.issuesOf (trace : Trace) (origin : Origin) : List Error :=
  (trace.filter (·.1 = origin)).map Prod.snd

/-- The issues of one statement: those of its declaration come first. -/
def Trace.ofStatement (own keys : List Error) : Trace :=
  own.map (.declaration, ·) ++ keys.map (.foreignKey, ·)

def Draft.registerDeclared (d : Draft) : NewTable → Draft
  | some (owner, ks) => ks.foldl (register owner) d
  | none => d

open DraftM

/-- Accepted statements one after another, with the issues they record. -/
inductive Steps (config : Config) :
    List ParsedStatement → Scope → Draft → Scope → Draft → Trace → Prop where
  | nil {scope d} : Steps config [] scope d scope d []
  | cons {p ps scope scope' scope'' found d mid d' own keys trace}
      (declared : Runs (declare config scope p) d (scope', found) mid)
      (own_eq : mid.issues = d.issues ++ own)
      (keys_eq : (mid.registerDeclared found).issues = mid.issues ++ keys)
      (rest : Steps config ps scope' (mid.registerDeclared found) scope'' d' trace) :
      Steps config (p :: ps) scope d scope'' d' (Trace.ofStatement own keys ++ trace)

variable {config : Config} {p : ParsedStatement} {ps : List ParsedStatement}
  {scope scope' : Scope} {d d' : Draft} {u : Unit} {found : NewTable} {trace : Trace}

theorem Step.exists_issues (step : Step config p scope d scope' found d') :
    ∃ own, d'.issues = d.issues ++ own := by
  cases step with
  | schema | tableSkipped | viewSkipped | view | indexSkipped =>
    exact ⟨[], (List.append_nil _).symm⟩
  | enum | table | indexUnplaced | index | function | procedure | prepared => exact ⟨_, rfl⟩

theorem Draft.exists_issues_registerDeclared (d : Draft) (found : NewTable) :
    ∃ keys, (d.registerDeclared found).issues = d.issues ++ keys := by
  cases found with
  | none => exact ⟨[], (List.append_nil _).symm⟩
  | some table => exact Draft.exists_issues_registerAll table.1 d table.2

theorem Draft.advances_registerDeclared (d : Draft) (found : NewTable) :
    d.catalog.Advances (d.registerDeclared found).catalog := by
  cases found with
  | none => exact .refl _
  | some table => exact Draft.advances_registerAll table.1 d table.2

namespace DraftM

theorem runs_registerDeclared :
    Runs (DraftM.registerDeclared found) d u d' ↔ d' = d.registerDeclared found := by
  cases found with
  | none => simp [DraftM.registerDeclared, Draft.registerDeclared]
  | some table => exact runs_registerForeignKeys

/-- An accepted statement is declared, and the keys of its table are registered. -/
theorem runs_accumulate :
    Runs (accumulate config scope p) d scope' d' ↔
      ∃ found mid, Runs (declare config scope p) d (scope', found) mid ∧
        d' = mid.registerDeclared found := by
  rw [accumulate_eq]
  simp only [runs_bind, runs_registerDeclared, runs_pure, Prod.exists]
  constructor
  · rintro ⟨_, found, mid, hdeclared, _, _, rfl, rfl, rfl⟩
    exact ⟨found, mid, hdeclared, rfl⟩
  · rintro ⟨found, mid, hdeclared, rfl⟩
    exact ⟨scope', found, mid, hdeclared, (), _, rfl, rfl, rfl⟩

theorem Runs.exists_steps (h : Runs (ps.foldlM (accumulate config) scope) d scope' d') :
    ∃ trace, Steps config ps scope d scope' d' trace := by
  induction ps generalizing scope d with
  | nil =>
    obtain ⟨rfl, rfl⟩ := runs_foldlM_nil.1 h
    exact ⟨[], .nil⟩
  | cons p ps ih =>
    obtain ⟨scope₁, d₁, hp, hps⟩ := runs_foldlM_cons.1 h
    obtain ⟨found, mid, hdeclared, rfl⟩ := runs_accumulate.1 hp
    rcases hdeclared.step.exists_issues with ⟨own, hown⟩
    obtain ⟨keys, hkeys⟩ := mid.exists_issues_registerDeclared found
    obtain ⟨trace, hrest⟩ := ih hps
    exact ⟨_, .cons hdeclared hown hkeys hrest⟩

theorem runs_accumulateAll :
    Runs (accumulateAll config ps) d u d' ↔
      ∃ scope, Runs (ps.foldlM (accumulate config) none) d scope d' :=
  runs_discard

end DraftM

namespace Trace

@[simp] theorem issuesOf_append (trace more : Trace) (origin : Origin) :
    issuesOf (trace ++ more) origin = trace.issuesOf origin ++ more.issuesOf origin := by
  simp [issuesOf]

@[simp] theorem issuesOf_ofStatement_declaration (own keys : List Error) :
    issuesOf (ofStatement own keys) .declaration = own := by
  simp [issuesOf, ofStatement, List.filter_map, Function.comp_def]

@[simp] theorem issuesOf_ofStatement_foreignKey (own keys : List Error) :
    issuesOf (ofStatement own keys) .foreignKey = keys := by
  simp [issuesOf, ofStatement, List.filter_map, Function.comp_def]

@[simp] theorem map_ofStatement (own keys : List Error) :
    (ofStatement own keys).map Prod.snd = own ++ keys := by
  simp [ofStatement, Function.comp_def]

/-- Every issue comes from a declaration or from a foreign key. -/
theorem map_snd_perm (trace : Trace) :
    (trace.map Prod.snd).Perm (trace.issuesOf .declaration ++ trace.issuesOf .foreignKey) := by
  have hother : (fun issue : Origin × Error => !decide (issue.1 = .declaration)) =
      fun issue => decide (issue.1 = .foreignKey) := by
    funext issue
    cases issue.1 <;> rfl
  have hsplit := List.filter_append_perm (fun issue : Origin × Error => issue.1 = .declaration) trace
  rw [hother] at hsplit
  unfold issuesOf
  rw [← List.map_append]
  exact (hsplit.map Prod.snd).symm

end Trace

/-- A trace holds the issues that the steps add. -/
theorem Steps.issues_eq (h : Steps config ps scope d scope' d' trace) :
    d'.issues = d.issues ++ trace.map Prod.snd := by
  induction h with
  | nil => simp
  | cons _ own_eq keys_eq _ ih =>
    rw [ih, keys_eq, own_eq, List.map_append, Trace.map_ofStatement]
    simp only [List.append_assoc]

/-- What declarations and the registration of keys keep is kept by all steps. -/
theorem Steps.invariant {P : Draft → Prop}
    (step : ∀ {p scope d scope' found mid}, Grammar.Parsed p →
      Step config p scope d scope' found mid → P d → P mid)
    (register : ∀ {d} found, P d → P (d.registerDeclared found))
    (hps : ∀ p ∈ ps, Grammar.Parsed p) (h : Steps config ps scope d scope' d' trace) (hd : P d) :
    P d' := by
  induction h with
  | nil => exact hd
  | cons declared _ _ _ ih =>
    rw [List.forall_mem_cons] at hps
    exact ih hps.2 (register _ (step hps.1 declared.step hd))

namespace Draft

variable {source : String}

/-- A source is accepted exactly if its statements can be registered. -/
theorem addStatements_ok_iff :
    d.addStatements config source ps = (.ok (), d') ↔
      Runs (accumulateAll config ps)
        { d with log := d.log ++ [.accumulate source ps.length] } () d' := by
  unfold addStatements Runs
  simp only
  split
  · next h => rw [h]
  · next h =>
    rw [h]
    exact ⟨nofun, nofun⟩

/-- A source that fails leaves only its log. -/
theorem addStatements_error {e : Error} (h : d.addStatements config source ps = (.error e, d')) :
    ∃ log, d' = { d with log } := by
  have hissues := (DraftM.appending_accumulateAll config ps).issues
    { d with log := d.log ++ [.accumulate source ps.length] }
  unfold addStatements at h
  dsimp only at h
  split at h
  · cases h
  · next failed hrun =>
    rw [hrun] at hissues
    have hrestored : failed.restore d.checkpoint = { d with log := failed.log } :=
      restore_checkpoint hissues
    cases h
    exact ⟨_, by rw [hrestored]⟩

theorem exists_steps (h : d.addStatements config source ps = (.ok (), d')) :
    ∃ scope trace, Steps config ps none
      { d with log := d.log ++ [.accumulate source ps.length] } scope d' trace := by
  obtain ⟨scope, hruns⟩ := runs_accumulateAll.1 (addStatements_ok_iff.1 h)
  exact ⟨scope, hruns.exists_steps⟩

end Draft

namespace Builder

/-- A builder that sources have been added to, whether they were accepted or not. -/
inductive Reachable (config : Config) : Builder → Prop where
  | start : Reachable config (Builder.ofConfig config)
  | addSource {b} (h : Reachable config b) (name text : String) :
      Reachable config (b.addSource name text).2
  | addParsed {b} (h : Reachable config b) (name text : String) {statements}
      (parsed : ∀ p ∈ statements, Grammar.Parsed p) :
      Reachable config (b.addParsed name text statements).2

/-- A builder with the issues that its accepted sources have recorded. -/
inductive Traced (config : Config) : Builder → Trace → Prop where
  | start : Traced config (Builder.ofConfig config) []
  | accepted {b b' trace more scope} (h : Traced config b trace) (name text statements)
      (parsed : ∀ p ∈ statements, Grammar.Parsed p)
      (added : b.addParsed name text statements = (.ok (), b'))
      (steps : Steps config statements none
        { b.draft with log := b.draft.log ++ [.accumulate name statements.length] } scope b'.draft
        more) :
      Traced config b' (trace ++ more)
  | rejected {b b' trace e} (h : Traced config b trace) (name text statements)
      (failed : b.addParsed name text statements = (.error e, b')) : Traced config b' trace
  | remembered {b trace} (h : Traced config b trace) (name text : String) :
      Traced config { b with sources := b.sources.remember name text } trace

theorem addSource_of_ok {b : Builder} {name text : String} {statements : List ParsedStatement}
    (h : Grammar.parseSource name text = .ok statements) :
    b.addSource name text =
      { b with sources := b.sources.remember name text }.addParsed name text statements := by
  simp [addSource, h]

theorem addSource_of_error {b : Builder} {name text : String} {e : Error}
    (h : Grammar.parseSource name text = .error e) :
    b.addSource name text = (.error e, { b with sources := b.sources.remember name text }) := by
  simp [addSource, h]

variable {b : Builder}

theorem config_of_reachable (h : Reachable config b) : b.config = config := by
  induction h with
  | start => rfl
  | @addSource b h name text ih =>
    cases hp : Grammar.parseSource name text with
    | ok statements => rw [addSource_of_ok hp]; exact ih
    | error e => rw [addSource_of_error hp]; exact ih
  | addParsed h name text parsed ih => exact ih

theorem addParsed_eq (b : Builder) (name text : String) (statements : List ParsedStatement) :
    b.addParsed name text statements =
      ((b.draft.addStatements b.config name statements).1,
        { b with
          draft := (b.draft.addStatements b.config name statements).2
          sources := b.sources.remember name text }) := rfl

theorem Traced.exists_addParsed (h : Traced config b trace) (hconfig : b.config = config)
    (name text : String) {statements : List ParsedStatement}
    (parsed : ∀ p ∈ statements, Grammar.Parsed p) :
    ∃ more, Traced config (b.addParsed name text statements).2 (trace ++ more) := by
  rcases hadd : b.draft.addStatements config name statements with ⟨e | u, draft⟩
  · have hfailed : b.addParsed name text statements =
        (.error e, { b with draft, sources := b.sources.remember name text }) := by
      rw [addParsed_eq, hconfig, hadd]
    rw [hfailed]
    exact ⟨[], by rw [List.append_nil]; exact h.rejected name text statements hfailed⟩
  · have hadded : b.addParsed name text statements =
        (.ok (), { b with draft, sources := b.sources.remember name text }) := by
      rw [addParsed_eq, hconfig, hadd]
    obtain ⟨scope, more, hsteps⟩ := Draft.exists_steps hadd
    rw [hadded]
    exact ⟨more, h.accepted name text statements parsed hadded hsteps⟩

theorem exists_traced (h : Reachable config b) : ∃ trace, Traced config b trace := by
  induction h with
  | start => exact ⟨[], .start⟩
  | @addSource b h name text ih =>
    rcases ih with ⟨trace, ht⟩
    have hremembered := ht.remembered name text
    cases hp : Grammar.parseSource name text with
    | ok statements =>
      rw [addSource_of_ok hp]
      obtain ⟨more, hmore⟩ := hremembered.exists_addParsed
        (show b.config = config from config_of_reachable h) name text (Grammar.parsed_of_parseSource hp)
      exact ⟨_, hmore⟩
    | error e =>
      rw [addSource_of_error hp]
      exact ⟨trace, hremembered⟩
  | addParsed h name text parsed ih =>
    rcases ih with ⟨trace, ht⟩
    obtain ⟨more, hmore⟩ := ht.exists_addParsed (config_of_reachable h) name text parsed
    exact ⟨_, hmore⟩

theorem exists_log_of_error {b' : Builder} {e : Error} {name text : String}
    {statements : List ParsedStatement}
    (h : b.addParsed name text statements = (.error e, b')) :
    ∃ log, b'.draft = { b.draft with log } := by
  rw [addParsed_eq] at h
  obtain ⟨he, rfl⟩ := Prod.mk.inj h
  have hadd : b.draft.addStatements b.config name statements =
      (.error e, (b.draft.addStatements b.config name statements).2) := Prod.ext he rfl
  exact Draft.addStatements_error hadd

/-- An invariant of drafts that does not look at the log. -/
theorem Traced.invariant {P : Draft → Prop} (start : P (Draft.ofConfig config))
    (log : ∀ {d log}, P d → P { d with log })
    (step : ∀ {p scope d scope' found mid}, Grammar.Parsed p →
      Step config p scope d scope' found mid → P d → P mid)
    (register : ∀ {d} found, P d → P (d.registerDeclared found)) (h : Traced config b trace) :
    P b.draft := by
  induction h with
  | start => exact start
  | accepted _ _ _ _ parsed _ steps ih => exact steps.invariant step register parsed (log ih)
  | rejected _ _ _ _ failed ih =>
    obtain ⟨_, hlog⟩ := exists_log_of_error failed
    rw [hlog]
    exact log ih
  | remembered _ _ _ ih => exact ih

end Builder

end DdlCatalog
