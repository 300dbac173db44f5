import DdlCatalog.Proofs.Build.StoredText
import DdlCatalog.Proofs.Grammar.Excerpts
import DdlCatalog.Proofs.Token.Alone

/-! # The bodies of routines
A body between quotes is kept as it is written. What is kept is a text of one token, that of the
statement that has declared the routine. -/

namespace DdlCatalog

/-- A body between quotes is written as one token, which has its tag and its text. -/
def RoutineBody.StandsAlone (b : RoutineBody) : Prop :=
  ∀ kind ∈ b.kind?, Token.IsToken b.source.toList kind

/-- The bodies of all routines of a catalog are written as one token each. -/
structure Catalog.BodiesStandAlone (c : Catalog) : Prop where
  functions : ∀ s ∈ c.schemas.values, ∀ f ∈ s.allFunctions, f.routine.body.StandsAlone
  procedures : ∀ s ∈ c.schemas.values, ∀ r ∈ s.allProcedures, r.routine.body.StandsAlone

theorem RoutineBody.kind_ne_eof {b : RoutineBody} {kind : Token.Kind} (h : kind ∈ b.kind?) :
    kind ≠ .eof := by
  unfold RoutineBody.kind? at h
  rintro rfl
  cases hkind : b.kind <;> simp [hkind] at h

namespace Grammar

variable {ctx : Context} {b : RoutineBody} {p : ParsedStatement}

theorem Quoted.standsAlone (h : Quoted ctx b) (hctx : ctx.InText) : b.StandsAlone := by
  intro kind hkind
  obtain ⟨t, ht, rfl, hsource⟩ := h kind hkind
  obtain ⟨before, stop, after, htokens, -⟩ := hctx.tokens
  obtain ⟨cs, hslice, hcs⟩ :=
    Token.exists_isToken htokens (by simp [ht]) (RoutineBody.kind_ne_eof hkind)
  have hwritten : b.source = String.ofList cs := by
    rw [hsource]
    simp [Context.textOf, hslice]
  rw [hwritten, String.toList_ofList]
  exact hcs

theorem Parsed.standsAlone (h : Parsed p) (hb : b ∈ p.statement.body?) : b.StandsAlone := by
  obtain ⟨source, text, statements, hs, hp⟩ := h
  obtain ⟨ctx, hctx, hexcerpts⟩ := exists_excerpts hs hp
  exact (hexcerpts.body b hb).standsAlone hctx

end Grammar

theorem Catalog.TextsRead.bodiesStandAlone {config : Config} {ps : List ParsedStatement} {c : Catalog}
    (h : c.TextsRead config ps) (hps : ∀ p ∈ ps, Grammar.Parsed p) : c.BodiesStandAlone where
  functions s hs f hf := by
    obtain ⟨p, hp, ⟨declared, said, rfl⟩, -⟩ := h.functions s hs f hf
    exact (hps p hp).standsAlone (by rw [said]; rfl)
  procedures s hs r hr := by
    obtain ⟨p, hp, ⟨declared, said, rfl⟩, -⟩ := h.procedures s hs r hr
    exact (hps p hp).standsAlone (by rw [said]; rfl)

namespace Builder

/-- Each token of a text, but for the end, is the only token of its part of the text. So is the body of a
routine, in the statement that declares it and in a catalog. -/
theorem tokens_stand_alone :
    (∀ source text tokens, Token.tokenize source text = .ok tokens →
      ∀ t ∈ tokens, t.kind ≠ .eof →
        ∃ cs, Text.slice? text t.span.start t.span.stop = some cs ∧ Token.IsToken cs t.kind) ∧
    (∀ source text statements, Grammar.parseSource source text = .ok statements →
      ∀ p ∈ statements, ∀ b ∈ p.statement.body?, b.StandsAlone) ∧
    ∀ config b, Reachable config b → b.draft.catalog.BodiesStandAlone ∧
      ∀ c, b.finish = .ok c → c.BodiesStandAlone := by
  refine ⟨fun source text tokens h t ht => Token.exists_isToken h ht, ?_, fun config b h => ?_⟩
  · intro source text statements h p hp body
    exact (Grammar.parsed_of_parseSource h p hp).standsAlone
  · obtain ⟨ps, hps⟩ := exists_accepts h
    refine ⟨(hps.stored.textsRead hps.parsed).bodiesStandAlone hps.parsed, fun c hf => ?_⟩
    obtain ⟨-, rfl⟩ := finish_eq_ok_iff.1 hf
    have hstored := hps.stored.relink b.draft.advances_settle.toRelinked
    exact (hstored.textsRead hps.parsed).bodiesStandAlone hps.parsed

/-- Bodies that hold quotes, the start of a comment and the delimiter of another body. -/
def quotedBodiesText : String :=
  "create function f() returns text language sql as $a$ $$ 'é' -- $a$;" ++
    "create procedure p() language sql as E'select \\'x\\' /*'"

def quotedBodiesBuilder : { b // Reachable Config.default b } :=
  ⟨((Builder.ofConfig Config.default).addSource "a.sql" quotedBodiesText).2, .addSource .start _ _⟩

theorem quotedBodies_stand_alone :
    ∃ tokens statements c, Token.tokenize "a.sql" quotedBodiesText.toList = .ok tokens ∧
      Grammar.parseSource "a.sql" quotedBodiesText = .ok statements ∧
      quotedBodiesBuilder.1.finish = .ok c ∧
      statements.map (fun p => p.statement.body?.bind (·.kind?)) =
        [some (.dollarQuoted "a" " $$ 'é' -- "), some (.string "select 'x' /*")] ∧
      c.schemas.values.map (fun s => (s.allFunctions.length, s.allProcedures.length)) = [(1, 1)] ∧
      (∀ t ∈ tokens, t.kind ≠ .eof →
        ∃ cs, Text.slice? quotedBodiesText.toList t.span.start t.span.stop = some cs ∧
          Token.IsToken cs t.kind) ∧
      (∀ p ∈ statements, ∀ b ∈ p.statement.body?, b.StandsAlone) ∧
      quotedBodiesBuilder.1.draft.catalog.BodiesStandAlone ∧ c.BodiesStandAlone := by
  have hparsed : (Grammar.parseSource "a.sql" quotedBodiesText).toOption.map
      (·.map fun p => p.statement.body?.bind (·.kind?)) =
        some [some (.dollarQuoted "a" " $$ 'é' -- "), some (.string "select 'x' /*")] := by
    decide +kernel
  have hruns : quotedBodiesBuilder.1.draft.settle.issues.isEmpty = true ∧
      quotedBodiesBuilder.1.draft.settle.catalog.schemas.values.map (fun s =>
        (s.allFunctions.length, s.allProcedures.length)) = [(1, 1)] := by decide +kernel
  have hf : quotedBodiesBuilder.1.finish = .ok quotedBodiesBuilder.1.draft.settle.catalog :=
    finish_eq_ok_iff.2 ⟨List.isEmpty_iff.1 hruns.1, rfl⟩
  obtain ⟨statements, hs, hbodies⟩ := Grammar.exists_ok_of_map_toOption hparsed
  obtain ⟨raws, hraws, -⟩ := Grammar.parseSource_eq_ok_iff.1 hs
  obtain ⟨tokens, htokens, -⟩ := exists_tokens_of_splitText hraws
  have hbuilder := tokens_stand_alone.2.2 Config.default quotedBodiesBuilder quotedBodiesBuilder.2
  exact ⟨tokens, statements, _, htokens, hs, hf, hbodies, hruns.2,
    tokens_stand_alone.1 _ _ tokens htokens, tokens_stand_alone.2.1 _ _ statements hs,
    hbuilder.1, hbuilder.2 _ hf⟩

end Builder

end DdlCatalog
