import DdlCatalog.Proofs.Build.Rollback
import DdlCatalog.Proofs.Build.Throws
import DdlCatalog.Proofs.Grammar.Places

/-! # Errors as they are shown
A builder keeps the first text of every name. The error of a source is shown with a line of that text,
which is a line of the source itself as long as no name is used for two texts. -/

namespace DdlCatalog

open Text (LineAt Location OnBoundary SourceMap excerpt? underlined)

theorem Text.SourceMap.get?_remember (m : SourceMap) (name text name' : String) :
    (m.remember name text).get? name' = (m.get? name').or ([(name, text)].lookup name') := by
  rcases m.remember_eq name text with hsame | ⟨hnone, hadd⟩
  · rw [hsame]
    by_cases hname : name' = name
    · have hknown := m.contains_remember name text
      rw [hsame, contains] at hknown
      obtain ⟨first, hfirst⟩ := Option.isSome_iff_exists.1 hknown
      rw [hname, hfirst]
      rfl
    · simp [List.lookup_cons, beq_false_of_ne hname]
  · rw [hadd]
    exact List.lookup_append

namespace Error

variable {e : Error} {l : Location} {sources : SourceMap}

theorem issues_of_location? (h : e.location? = some l) : e.issues = [e] := by
  cases e <;> first | rfl | cases h

/-- An error is shown with a line of the text that is kept under its name. -/
theorem render?_of_location? (h : e.location? = some l) {text : String}
    (htext : sources.get? l.source = some text) :
    e.render? sources = (excerpt? text.toList l).map (e.message ++ "\n" ++ ·) := by
  rw [render?, issues_of_location? h]
  show ((renderIssue? sources e).bind fun shown => some [shown]).map _ = _
  unfold renderIssue? SourceMap.excerpt
  rw [h, Option.map_some, htext]
  dsimp only
  cases excerpt? text.toList l <;> rfl

end Error

namespace Draft

theorem locatedAt_of_addStatements {d : Draft} {config : Config} {source : String}
    {ps : List ParsedStatement} {e : Error} (h : (d.addStatements config source ps).1 = .error e) :
    e.LocatedAt (ps.flatMap (·.locations)) := by
  have hthrows : DraftM.Throws (ps.flatMap (·.locations)) (DraftM.accumulateAll config ps) :=
    DraftM.throws_accumulateAll ps
  unfold addStatements at h
  dsimp only at h
  split at h
  · cases h
  · next failed hrun =>
    cases h
    exact hthrows _ e (congrArg Prod.fst hrun)

end Draft

namespace Builder

variable {config : Config} {name text : String} {e : Error}

def afterCalls (config : Config) (calls : List (String × String)) : Builder :=
  calls.foldl (fun b call => (b.addSource call.1 call.2).2) (ofConfig config)

/-- The text that is kept of a name is the first one. -/
theorem get?_afterCalls (config : Config) (calls : List (String × String)) (name : String) :
    (afterCalls config calls).sources.get? name = calls.lookup name := by
  induction calls using List.reverseRecOn with
  | nil => rfl
  | append_singleton calls call ih =>
    unfold afterCalls at ih ⊢
    rw [List.foldl_append, List.foldl_cons, List.foldl_nil, sources_addSource,
      SourceMap.get?_remember, ih, List.lookup_append]

theorem exists_place_of_addSource {b : Builder} (h : (b.addSource name text).1 = .error e) :
    ∃ l, e.location? = some l ∧ l.source = name ∧ OnBoundary text.toList l.offset := by
  cases hp : Grammar.parseSource name text with
  | ok statements =>
    rw [addSource_of_ok hp] at h
    obtain ⟨l, hl, hloc⟩ := Draft.locatedAt_of_addStatements h
    obtain ⟨p, hp', hl⟩ := List.mem_flatMap.1 hl
    have hfits := Grammar.fits_of_parseSource hp p hp' l hl
    exact ⟨l, hloc, hfits.source_eq, hfits.boundary⟩
  | error e' =>
    rw [addSource_of_error hp] at h
    cases h
    obtain ⟨l, hloc, hfits | hopen⟩ := Grammar.exists_place_of_parseSource hp
    · exact ⟨l, hloc, hfits.source_eq, hfits.boundary⟩
    · exact ⟨l, hloc, hopen.source_eq, hopen.boundary⟩

/-- After any calls the error of another one lies between two characters of its text and is shown with
a line of the first text of its name. If that is the text of the call, then it is the line that the
error lies in. -/
theorem rendered_of_addSource {calls : List (String × String)}
    (h : ((afterCalls config calls).addSource name text).1 = .error e) :
    ∃ l, e.location? = some l ∧ l.source = name ∧ OnBoundary text.toList l.offset ∧
      e.render? ((afterCalls config calls).addSource name text).2.sources =
        (excerpt? ((calls.lookup name).getD text).toList l).map (e.message ++ "\n" ++ ·) ∧
      ((∀ first ∈ calls.lookup name, first = text) → ∃ line, LineAt text.toList l.offset line ∧
        e.render? ((afterCalls config calls).addSource name text).2.sources =
          some (e.message ++ "\n" ++ underlined l.line line (l.column - 1))) := by
  obtain ⟨l, hloc, hsource, hboundary⟩ := exists_place_of_addSource h
  have hkept : ((afterCalls config calls).addSource name text).2.sources.get? l.source =
      some ((calls.lookup name).getD text) := by
    rw [sources_addSource, SourceMap.get?_remember, get?_afterCalls, hsource]
    cases calls.lookup name <;> simp
  have hshown := Error.render?_of_location? hloc hkept
  refine ⟨l, hloc, hsource, hboundary, hshown, fun hfirst => ?_⟩
  obtain ⟨line, hline, hexcerpt⟩ := Text.exists_excerpt hboundary
  have htext : (calls.lookup name).getD text = text := by
    cases hlookup : calls.lookup name with
    | none => rfl
    | some first => exact hfirst first hlookup
  refine ⟨line, hline, ?_⟩
  rw [hshown, htext, hexcerpt]
  rfl

/-- A source that fails at its second statement, however often it is added. -/
def clashingText : String :=
  "create type \"é\" as enum ('ü');\n/* ö */ create type \"é\" as enum ('x')"

/-- A builder to which it has been added before, and a source that cannot be parsed. -/
def clashingBuilder : Builder :=
  afterCalls Config.default [("a.sql", clashingText), ("b.sql", "create")]

theorem rendered_clashingText :
    ∃ e l line, (clashingBuilder.addSource "a.sql" clashingText).1 = .error e ∧
      e.location? = some l ∧ LineAt clashingText.toList l.offset line ∧
      e.render? (clashingBuilder.addSource "a.sql" clashingText).2.sources =
        some (e.message ++ "\n" ++ underlined l.line line (l.column - 1)) := by
  have hfails : (clashingBuilder.addSource "a.sql" clashingText).1.isOk = false := by
    decide +kernel
  rcases he : (clashingBuilder.addSource "a.sql" clashingText).1 with e | u
  · obtain ⟨l, hloc, -, -, -, hshown⟩ := rendered_of_addSource he
    obtain ⟨line, hline, hshown⟩ := hshown (by decide)
    exact ⟨e, l, line, rfl, hloc, hline, hshown⟩
  · rw [he] at hfails
    cases hfails

/-- Under a name of another text an error may have an offset that falls inside a character. -/
theorem not_rendered_under_reused_name :
    ¬∀ (config : Config) (calls : List (String × String)) (name text : String) (e : Error),
      ((afterCalls config calls).addSource name text).1 = .error e →
        ∃ shown, e.render? ((afterCalls config calls).addSource name text).2.sources =
          some shown := by
  intro h
  have htorn : (match (afterCalls Config.default [("a.sql", "é")]).addSource "a.sql" " x" with
      | (.error e, b) => e.render? b.sources
      | (.ok _, _) => some "") = none := by decide +kernel
  rcases hadd : (afterCalls Config.default [("a.sql", "é")]).addSource "a.sql" " x" with ⟨e | u, b⟩
  · obtain ⟨shown, hshown⟩ := h Config.default _ "a.sql" " x" e (congrArg Prod.fst hadd)
    rw [hadd] at htorn hshown
    cases htorn.symm.trans hshown
  · rw [hadd] at htorn
    cases htorn

end Builder

end DdlCatalog
