import DdlCatalog.Proofs.Grammar.Forward

/-! # Lists and clauses
A list is a row of elements with commas between them, and clauses are read one after another as long as
there is one. -/

namespace DdlCatalog.Grammar

/-- Elements that are read one after another, each with a comma behind it. -/
inductive Listed {α : Type} (p : Parser α) (ctx : Context) : List Token → List α → List Token → Prop where
  | nil (ts : List Token) : Listed p ctx ts [] ts
  | cons {ts more rest : List Token} {comma : Token} {a : α} {as : List α}
    (first : p.run ctx ts = .ok (a, comma :: more)) (separator : comma.kind = .comma)
    (others : Listed p ctx more as rest) : Listed p ctx ts (a :: as) rest

/-- Clauses that are read one after another. -/
inductive Claused {σ : Type} (clause : σ → Token → Parser (Option σ)) (ctx : Context) :
    σ → List Token → σ → List Token → Prop where
  | nil (s : σ) (ts : List Token) : Claused clause ctx s ts s ts
  | cons {s s₁ s' : σ} {t : Token} {ts mid rest : List Token}
    (first : (clause s t).run ctx ts = .ok (some s₁, mid)) (others : Claused clause ctx s₁ mid s' rest) :
    Claused clause ctx s (t :: ts) s' rest

variable {α σ : Type} {p : Parser α} {ctx : Context} {ts rest : List Token} {as : List α}
  {clause : σ → Token → Parser (Option σ)} {s s' : σ}

theorem Listed.suffix (h : Listed p ctx ts as rest) : rest <:+ ts := by
  induction h with
  | nil => exact List.suffix_rfl
  | cons first _ _ ih => exact ih.trans ((List.suffix_cons ..).trans (Parser.suffix_of_run first))

theorem Claused.suffix (h : Claused clause ctx s ts s' rest) : rest <:+ ts := by
  induction h with
  | nil => exact List.suffix_rfl
  | cons first _ ih => exact ih.trans ((Parser.suffix_of_run first).trans (List.suffix_cons ..))

theorem Listed.append {mid : List Token} {bs : List α} (h : Listed p ctx ts as mid)
    (h' : Listed p ctx mid bs rest) : Listed p ctx ts (as ++ bs) rest := by
  induction h with
  | nil => exact h'
  | cons first separator _ ih => exact .cons first separator (ih h')

theorem Listed.exists_last (h : Listed p ctx ts as rest) : (as = [] ∧ ts = rest) ∨
    ∃ bs a mid comma, as = bs ++ [a] ∧ Listed p ctx ts bs mid ∧ p.run ctx mid = .ok (a, comma :: rest) ∧
      comma.kind = .comma := by
  induction h with
  | nil => exact .inl ⟨rfl, rfl⟩
  | @cons ts more rest comma a as first separator _ ih =>
    right
    rcases ih with ⟨rfl, rfl⟩ | ⟨bs, b, mid, comma', rfl, hlisted, hlast, hcomma⟩
    · exact ⟨[], a, ts, comma, rfl, .nil ts, first, separator⟩
    · exact ⟨a :: bs, b, mid, comma', rfl, .cons first separator hlisted, hlast, hcomma⟩

/-- A list is read up to an element that has no comma behind it. -/
theorem run_commaList_iff : (Parser.commaList p).run ctx ts = .ok (as, rest) ↔
    ∃ bs a mid, Listed p ctx ts bs mid ∧ p.run ctx mid = .ok (a, rest) ∧
      (∀ t ∈ rest.head?, t.kind ≠ .comma) ∧ as = bs ++ [a] := by
  constructor
  · induction hn : ts.length using Nat.strongRecOn generalizing ts as with
    | ind n ih =>
      intro h
      rw [Parser.run_commaList] at h
      cases ha : p.run ctx ts with
      | error e => rw [ha] at h; cases h
      | ok o =>
        obtain ⟨a, mid⟩ := o
        rw [ha] at h
        cases mid with
        | nil =>
          cases h
          exact ⟨[], a, ts, .nil ts, ha, nofun, rfl⟩
        | cons t more =>
          change (if t.kind = .comma then _ else _) = _ at h
          split at h
          · next hcomma =>
            have hlt : more.length < n := by
              have hle := (Parser.suffix_of_run ha).length_le
              rw [List.length_cons] at hle
              omega
            cases hmore : (Parser.commaList p).run ctx more with
            | error e => rw [hmore] at h; cases h
            | ok o =>
              rw [hmore] at h
              cases h
              obtain ⟨bs, b, mid, hlisted, hlast, hend, hbs⟩ := ih _ hlt rfl hmore
              exact ⟨a :: bs, b, mid, .cons ha hcomma hlisted, hlast, hend, congrArg (a :: ·) hbs⟩
          · next hcomma =>
            cases h
            refine ⟨[], a, ts, .nil ts, ha, ?_, rfl⟩
            rintro _ ⟨⟩
            exact hcomma
  · rintro ⟨bs, a, mid, hlisted, hlast, hend, rfl⟩
    induction hlisted with
    | nil =>
      rw [Parser.run_commaList, hlast]
      cases rest with
      | nil => rfl
      | cons t rest => exact if_neg (hend t rfl)
    | cons first separator _ ih =>
      rw [Parser.run_commaList, first]
      refine (if_pos separator).trans ?_
      rw [ih hlast]
      rfl

theorem Listed.run_commaList {mid : List Token} {bs : List α} (h : Listed p ctx ts as mid)
    (hmid : (Parser.commaList p).run ctx mid = .ok (bs, rest)) :
    (Parser.commaList p).run ctx ts = .ok (as ++ bs, rest) := by
  obtain ⟨cs, c, last, hlisted, hlast, hend, rfl⟩ := run_commaList_iff.1 hmid
  exact run_commaList_iff.2 ⟨as ++ cs, c, last, h.append hlisted, hlast, hend, (List.append_assoc ..).symm⟩

/-- What each clause keeps all of them keep. -/
theorem Claused.invariant {I : σ → Prop} (h : Claused clause ctx s ts s' rest) (hs : I s)
    (hclause : ∀ s t ts s' mid, I s → (clause s t).run ctx ts = .ok (some s', mid) → I s') : I s' := by
  induction h with
  | nil => exact hs
  | cons first _ ih => exact ih (hclause _ _ _ _ _ hs first)

theorem Claused.run_clauses (h : Claused clause ctx s ts s' rest) :
    (Parser.clauses clause s).run ctx ts = (Parser.clauses clause s').run ctx rest := by
  induction h with
  | nil => rfl
  | cons first _ ih =>
    rw [Parser.run_clauses]
    simp only [first, Except.bind]
    exact ih

/-- Clauses are read as long as there is one. -/
theorem run_clauses_iff : (Parser.clauses clause s).run ctx ts = .ok (s', rest) ↔
    Claused clause ctx s ts s' rest ∧ ∀ t ts', rest = t :: ts' →
      ∃ mid, (clause s' t).run ctx ts' = .ok (none, mid) := by
  constructor
  · induction hn : ts.length using Nat.strongRecOn generalizing ts s with
    | ind n ih =>
      intro h
      rw [Parser.run_clauses] at h
      cases ts with
      | nil =>
        cases h
        exact ⟨.nil _ _, nofun⟩
      | cons t ts =>
        cases hclause : (clause s t).run ctx ts with
        | error e => simp [hclause, Except.bind] at h
        | ok o =>
          obtain ⟨found, mid⟩ := o
          simp only [hclause, Except.bind] at h
          cases found with
          | none =>
            cases h
            refine ⟨.nil _ _, ?_⟩
            rintro _ _ ⟨⟩
            exact ⟨mid, hclause⟩
          | some s₁ =>
            have hlt : mid.length < n := by
              have hle := (Parser.suffix_of_run hclause).length_le
              rw [List.length_cons] at hn
              omega
            obtain ⟨hmore, hend⟩ := ih _ hlt rfl h
            exact ⟨.cons hclause hmore, hend⟩
  · rintro ⟨hclaused, hend⟩
    rw [hclaused.run_clauses, Parser.run_clauses]
    cases rest with
    | nil => rfl
    | cons t ts =>
      obtain ⟨mid, hnone⟩ := hend t ts rfl
      simp only [hnone, Except.bind]

end DdlCatalog.Grammar
