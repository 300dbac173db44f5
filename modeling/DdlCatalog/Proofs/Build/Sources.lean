import DdlCatalog.Proofs.Build.Rollback

/-! # Parsing ahead
Sources may all be parsed before the first of them is added. Parsing does not look at the builder, and
nothing is added behind a source that fails, so the outcome is that of taking one source after
another. -/

namespace DdlCatalog

namespace Builder

/-- Parses and adds sources one after another up to the first one that fails. -/
def addSources (b : Builder) : List (String × String) → Except Error Builder
  | [] => .ok b
  | (name, text) :: rest =>
    match b.addSource name text with
    | (.ok _, b) => b.addSources rest
    | (.error e, _) => .error e

/-- Sources in the form in which they are added after all have been parsed. -/
def parseAhead (sources : List (String × String)) :
    List (String × String × Except Error (List ParsedStatement)) :=
  sources.map fun (name, text) => (name, text, Grammar.parseSource name text)

variable {b : Builder}

/-- A source that parses is added like its statements: its text is remembered once. -/
theorem addSource_eq_addParsed {name text : String} {statements : List ParsedStatement}
    (h : Grammar.parseSource name text = .ok statements) :
    b.addSource name text = b.addParsed name text statements := by
  rw [addSource_of_ok h, addParsed_eq, addParsed_eq]
  dsimp only
  rw [b.sources.remember_remember]

theorem addAll_parseAhead (b : Builder) (sources : List (String × String)) :
    b.addAll (parseAhead sources) = b.addSources sources := by
  induction sources generalizing b with
  | nil => rfl
  | cons source rest ih =>
    obtain ⟨name, text⟩ := source
    rw [parseAhead, List.map_cons, ← parseAhead, addAll, addSources]
    cases hp : Grammar.parseSource name text with
    | error e =>
      rw [addSource_of_error hp]
      rfl
    | ok statements =>
      rw [addSource_eq_addParsed hp]
      show (match b.addParsed name text statements with
        | (.ok _, b) => b.addAll (parseAhead rest)
        | (.error e, _) => .error e) = _
      simp only [ih]

end Builder

/-- Sources that are parsed before any of them is added give the catalog or the error that they give
one after another. -/
theorem Catalog.ofSources_eq_addSources (config : Config) (sources : List (String × String)) :
    ofSources config sources =
      (Builder.ofConfig config).addSources sources >>= Builder.finish := by
  rw [← Builder.addAll_parseAhead]
  rfl

/-- A table that is declared twice, and behind it a text that is no statement. -/
def faultySources : List (String × String) :=
  [("a.sql", "create table t (x int); create table t (x int)"), ("b.sql", "create table (x int)")]

/-- The second source has been parsed, and has failed, when the first one is added. What is told is
what is wrong with the first one. -/
theorem Catalog.ofSources_faultySources :
    (∃ l message, Grammar.parseSource "b.sql" "create table (x int)" = .error (.parse l message)) ∧
    (Builder.ofConfig Config.default).addSources faultySources =
      .error (.duplicateDefinition ⟨"a.sql", 24, 1, 25⟩ .table "public.t") ∧
    ofSources Config.default faultySources =
      .error (.duplicateDefinition ⟨"a.sql", 24, 1, 25⟩ .table "public.t") := by
  have hparse : (match Grammar.parseSource "b.sql" "create table (x int)" with
      | .error (.parse _ _) => true
      | _ => false) = true := by decide +kernel
  have hadd : (match (Builder.ofConfig Config.default).addSources faultySources with
      | .error (.duplicateDefinition l kind name) => some (l, kind, name)
      | _ => none) = some (⟨"a.sql", 24, 1, 25⟩, .table, "public.t") := by decide +kernel
  have hfirst : (Builder.ofConfig Config.default).addSources faultySources =
      .error (.duplicateDefinition ⟨"a.sql", 24, 1, 25⟩ .table "public.t") := by
    split at hadd
    · next heq =>
      cases hadd
      exact heq
    · cases hadd
  refine ⟨?_, hfirst, ?_⟩
  · split at hparse
    · next heq => exact ⟨_, _, heq⟩
    · cases hparse
  · rw [ofSources_eq_addSources, hfirst]
    rfl

end DdlCatalog
