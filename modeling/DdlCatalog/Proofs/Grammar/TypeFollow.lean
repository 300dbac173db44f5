import DdlCatalog.Proofs.Grammar.TypeReading

/-! # What stands behind a type
A type is read whole in front of a token that cannot go on with it. -/

namespace DdlCatalog.Grammar

open Token (Kind)

/-- Tokens that may go on with a type. -/
def continuesType : Kind → Bool
  | .dot | .leftParen | .leftBracket => true
  | .keyword .WITH | .keyword .WITHOUT | .keyword .ARRAY => true
  | .keyword .PRECISION | .keyword .VARYING => true
  | _ => false

theorem continuesType_of_opensPart {k : Kind} (h : opensPart k = true) : continuesType k = true := by
  simp only [opensPart, Bool.or_eq_true, decide_eq_true_eq] at h
  rcases h with (rfl | rfl) | rfl <;> rfl

section Continues

variable {k : Kind} {ks us : List Kind} {dim dim' : Option UInt32} {dims dims' : List (Option UInt32)}
  {t t' u u' : TypeRef}

theorem DimensionEnd.not_append (h : DimensionEnd ks dim) : ¬ DimensionEnd (ks ++ k :: us) dim' := by
  intro h'
  have heq : ks ++ (k :: us) = (ks ++ k :: us) ++ [] := (List.append_nil _).symm
  exact nomatch (h.append_inj h' heq).2.1

theorem Dimensions.continues (h : Dimensions ks dims) (h' : Dimensions (ks ++ k :: us) dims') :
    k = .leftBracket := by
  induction h generalizing dims' with
  | nil =>
    cases h'
    rfl
  | @cons dim fs rs ds first rest ih =>
    have hprefix : .leftBracket :: (fs ++ rs) ++ k :: us <+: .leftBracket :: (fs ++ (rs ++ k :: us)) := by
      simp
    rcases h'.of_isPrefix first hprefix with hnil | ⟨ks', ds', heq, -, hrest⟩
    · cases hnil
    · obtain rfl : rs ++ k :: us = ks' := by simpa using heq
      exact ih hrest

theorem ArrayPhrase.continues (h : ArrayPhrase ks dims) (h' : ArrayPhrase (ks ++ k :: us) dims') :
    continuesType k = true := by
  cases ks with
  | nil => rcases h'.head_eq with rfl | rfl <;> rfl
  | cons k₀ ks =>
    rcases h.head_eq with rfl | rfl
    · -- both have their dimensions in brackets
      cases h with
      | brackets dimensions =>
        cases h' with
        | brackets dimensions' => rw [dimensions.continues dimensions']; rfl
    · rcases h'.of_array with ⟨hnil, -⟩ | ⟨_, us', heq, -, hend'⟩
      · simp at hnil
      · rcases h.of_array with ⟨rfl, -⟩ | ⟨_, _, rfl, -, hend⟩
        · cases heq
          rfl
        · cases heq
          exact absurd hend' hend.not_append

theorem ZoneWord.continues {zone : String} (h : ZoneWord k zone) : continuesType k = true := by
  cases h <;> rfl

theorem ZonePhrase.continues (h : ZonePhrase t ks u) (h' : ZonePhrase t' (ks ++ k :: us) u') :
    continuesType k = true := by
  cases ks with
  | nil =>
    rcases h'.head_eq with ⟨_, hzone⟩ | rfl | rfl
    · exact hzone.continues
    · rfl
    · rfl
  | cons k₀ ks =>
    generalize hws : k₀ :: ks ++ k :: us = ws at h'
    cases h with
    | plain rest =>
      cases h' with
      | plain rest' => exact rest.continues (hws ▸ rest')
      | zone _ word =>
        obtain ⟨rfl, -⟩ := List.cons.inj hws
        exact absurd rest word.not_arrayPhrase
    | zone _ word rest =>
      cases h' with
      | plain rest' => exact absurd (hws ▸ rest') word.not_arrayPhrase
      | zone _ _ rest' =>
        simp only [List.cons_append, List.cons.injEq, true_and] at hws
        exact rest.continues (hws.2 ▸ rest')

theorem ModifierPhrase.continues (h : ModifierPhrase t ks u)
    (h' : ModifierPhrase t' (ks ++ k :: us) u') : continuesType k = true := by
  cases ks with
  | nil =>
    rcases h'.head_eq with rfl | ⟨_, hzone⟩ | rfl | rfl
    · rfl
    · exact hzone.continues
    · rfl
    · rfl
  | cons k₀ ks =>
    cases h with
    | plain rest =>
      generalize hws : k₀ :: ks ++ k :: us = ws at h'
      cases h' with
      | plain rest' => exact rest.continues (hws ▸ rest')
      | modified =>
        obtain ⟨rfl, -⟩ := List.cons.inj hws
        exact absurd rest ZonePhrase.not_leftParen
    | @modified p s ms rs _ modifiers rest =>
      have hprefix : .leftParen :: (ms ++ rs) ++ k :: us <+: .leftParen :: (ms ++ (rs ++ k :: us)) := by
        simp
      rcases h'.of_isPrefix modifiers hprefix with hnil | ⟨ks', heq, hrest⟩
      · cases hnil
      · obtain rfl : rs ++ k :: us = ks' := by simpa using heq
        exact rest.continues hrest

theorem continuesType_folded {first name : String} {second : Token.Keyword}
    (h : (first, second, name) ∈ foldedNames) : continuesType (.keyword second) = true := by
  have hall : ∀ a ∈ foldedNames, continuesType (.keyword a.2.1) = true := by decide
  exact hall _ h

/-- A phrase that is longer than another goes on with one of these tokens. -/
theorem TypePhrase.continues (h : TypePhrase ks u) (h' : TypePhrase (ks ++ k :: us) u') :
    continuesType k = true := by
  generalize hws : ks ++ k :: us = ws at h'
  cases h with
  | @name _ _ ks _ _ rest =>
    cases h' with
    | name _ rest' => exact rest.continues ((List.cons.inj hws).2 ▸ rest')
    | qualified =>
      cases ks with
      | nil =>
        cases hws
        rfl
      | cons =>
        obtain ⟨rfl, -⟩ := List.cons.inj (List.cons.inj hws).2
        exact absurd rest not_modifierPhrase_dot
    | folded _ pair =>
      cases ks with
      | nil =>
        cases hws
        exact continuesType_folded pair
      | cons =>
        obtain ⟨rfl, -⟩ := List.cons.inj (List.cons.inj hws).2
        exact absurd rest (not_modifierPhrase_folded pair)
  | qualified _ _ rest =>
    cases h' with
    | name _ rest' =>
      cases hws
      exact absurd rest' not_modifierPhrase_dot
    | qualified _ _ rest' =>
      cases hws
      exact rest.continues rest'
    | folded => simp at hws
  | folded _ pair rest =>
    cases h' with
    | name _ rest' =>
      cases hws
      exact absurd rest' (not_modifierPhrase_folded pair)
    | qualified => simp at hws
    | folded _ _ rest' =>
      cases hws
      exact rest.continues rest'

end Continues

namespace Parser

variable {ctx : Context} {ts rest : List Token} {t : TypeRef}

/-- A type is read to its end if what follows does not go on with it. -/
theorem run_typeRef_of_phrase (hstop : ctx.stop.kind = .eof) (h : TypePhrase (ts.map (·.kind)) t)
    (hnext : continuesType (ctx.current rest).kind = false) :
    typeRef.run ctx (ts ++ rest) = .ok (t, rest) := by
  have hprefix : ts.map (·.kind) <+: (ts ++ rest).map (·.kind) := by simp
  -- no longer phrase than this one stands in front
  have hwhole {front rest' : List Token} {u : TypeRef} (hsplit : ts ++ rest = front ++ rest')
      (hu : TypePhrase (front.map (·.kind)) u) (hlongest : Longest TypePhrase (ts ++ rest) front) :
      front = ts ∧ rest' = rest := by
    have hle := hlongest _ _ hprefix h
    rw [List.length_map] at hle
    obtain ⟨more, rfl, rfl⟩ | ⟨more, rfl, rfl⟩ := List.append_eq_append_iff.1 hsplit
    · cases more with
      | nil => simp
      | cons k more =>
        rw [List.map_append, List.map_cons] at hu
        exact absurd (h.continues hu) (by simpa [Context.current] using hnext)
    · obtain rfl : more = [] := by
        rw [List.length_append] at hle
        exact List.length_eq_zero_iff.1 (by omega)
      simp
  rcases reading_typeRef hstop (ts ++ rest) with hreading | ⟨-, hnone⟩
  · generalize typeRef.run ctx (ts ++ rest) = r at hreading
    cases hreading with
    | complete split phrase longest closed =>
      obtain ⟨rfl, rfl⟩ := hwhole split ((phrase _).2 rfl) longest
      rw [(phrase t).1 h]
    | broken split phrase longest begun =>
      obtain ⟨rfl, rfl⟩ := hwhole split phrase longest
      obtain ⟨u, hu, hopens, -⟩ := begun
      obtain ⟨more, rfl⟩ := List.head?_eq_some_iff.1 hu
      exact absurd (continuesType_of_opensPart hopens) (by simpa [Context.current] using hnext)
  · exact absurd hprefix (hnone _ _ h)

end Parser

end DdlCatalog.Grammar
