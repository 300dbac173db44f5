import DdlCatalog.Grammar.Run
import DdlCatalog.Proofs.Grammar.Bare
import DdlCatalog.Proofs.Token.Reads

/-! # Parsing a statement by itself
A parser that reads a statement inside of a text and one that reads the text of the statement alone
agree if they fail together, at the same place of the statement, and succeed together, on values that
are related and on the same tokens left. Agreement is put together along parsers, and repetition keeps
it. -/

namespace DdlCatalog

namespace Grammar

open Text (Location byteLength slice?)

/-- A statement in a text and the same statement in a text of its own. -/
structure Cut where
  whole : Context
  part : Context
  front : List Char
  back : List Char
  text_eq : whole.text = front ++ part.text ++ back
  moves : List.Forall₂ (Token.Moves (byteLength front) (byteLength part.text)) whole.tokens part.tokens
  stop_whole : whole.stop.kind = .eof
  stop_part : part.stop.kind = .eof

namespace Cut

variable (C : Cut)

/-- A token of the statement, as it stands in both texts. -/
structure Moves (t u : Token) : Prop extends
    Token.Moves (byteLength C.front) (byteLength C.part.text) t u where
  mem_whole : t ∈ C.whole.tokens
  mem_part : u ∈ C.part.tokens

/-- Rows of tokens of the statement, as they stand in both texts. -/
def Rows (ts us : List Token) : Prop := List.Forall₂ C.Moves ts us

/-- A token that is looked at, which may be the end. -/
inductive Near : Token → Token → Prop where
  | token {t u : Token} (moves : C.Moves t u) : Near t u
  | stop : Near C.whole.stop C.part.stop

/-- The place of a token of the statement in both texts. -/
def Places (l l' : Location) : Prop :=
  ∃ t u, C.Moves t u ∧ l = C.whole.locate t ∧ l' = C.part.locate u

/-- The place of a token that is looked at in both texts. -/
def Faces (l l' : Location) : Prop :=
  ∃ t u, C.Near t u ∧ l = C.whole.locate t ∧ l' = C.part.locate u

/-- Errors at the same place of the statement. -/
def Faults (e e' : Error) : Prop :=
  ∃ l l', e.location? = some l ∧ e'.location? = some l' ∧ C.Faces l l'

variable {C} {ts us : List Token} {t u : Token} {l l' : Location}

theorem rows (C : Cut) : C.Rows C.whole.tokens C.part.tokens := by
  have hright : List.Forall₂ (fun u t => u ∈ C.part.tokens ∧
      Token.Moves (byteLength C.front) (byteLength C.part.text) t u)
      C.part.tokens C.whole.tokens :=
    (List.forall₂_and_left _ _).2 ⟨fun _ h => h, C.moves.flip⟩
  refine ((List.forall₂_and_left _ _).2 ⟨fun _ h => h, hright.flip⟩).imp ?_
  exact fun t u h => ⟨h.2.2, h.1, h.2.1⟩

theorem Moves.isKeyword (h : C.Moves t u) (k : Token.Keyword) :
    t.isKeyword k = u.isKeyword k := by
  rw [Token.isKeyword, h.kind, Token.isKeyword]

theorem Near.kind (h : C.Near t u) : t.kind = u.kind := by
  cases h with
  | token h => exact h.kind
  | stop => exact C.stop_whole.trans C.stop_part.symm

theorem Near.moves (h : C.Near t u) (hne : t.kind ≠ .eof) : C.Moves t u := by
  cases h with
  | token h => exact h
  | stop => exact absurd C.stop_whole hne

theorem Near.faces (h : C.Near t u) : C.Faces (C.whole.locate t) (C.part.locate u) :=
  ⟨t, u, h, rfl, rfl⟩

theorem Moves.faces (h : C.Moves t u) : C.Faces (C.whole.locate t) (C.part.locate u) :=
  (Near.token h).faces

theorem Places.faces (h : C.Places l l') : C.Faces l l' := by
  obtain ⟨t, u, h, rfl, rfl⟩ := h
  exact h.faces

theorem Rows.current (h : C.Rows ts us) : C.Near (C.whole.current ts) (C.part.current us) := by
  cases h with
  | nil => exact .stop
  | cons h _ => exact .token h

theorem Rows.tail (h : C.Rows ts us) : C.Rows ts.tail us.tail := by
  cases h with
  | nil => exact .nil
  | cons _ h => exact h

theorem Rows.take (h : C.Rows ts us) (n : Nat) : C.Rows (ts.take n) (us.take n) :=
  List.forall₂_take n h

theorem Rows.drop (h : C.Rows ts us) (n : Nat) : C.Rows (ts.drop n) (us.drop n) :=
  List.forall₂_drop n h

theorem Rows.length_eq (h : C.Rows ts us) : ts.length = us.length := List.Forall₂.length_eq h

theorem Rows.map_bare (h : C.Rows ts us) : ts.map Token.bare = us.map Token.bare := by
  induction h with
  | nil => rfl
  | cons h _ ih => rw [List.map_cons, List.map_cons, Token.bare_eq h.kind, ih]

theorem Rows.map_bare_stop (h : C.Rows ts us) :
    (ts ++ [C.whole.stop]).map Token.bare = (us ++ [C.part.stop]).map Token.bare := by
  rw [List.map_append, List.map_append, h.map_bare, List.map_singleton, List.map_singleton,
    Token.bare_eq (C.stop_whole.trans C.stop_part.symm)]

/-- What is read off tokens without regard to their places is the same in both texts. -/
theorem Rows.read {β : Type} (h : C.Rows ts us) {f : List Token → β}
    (hf : ∀ ts, f (ts.map Token.bare) = f ts) : f ts = f us := by
  rw [← hf ts, h.map_bare, hf us]

theorem Rows.textOf (h : C.Rows ts us) : C.whole.textOf ts = C.part.textOf us := by
  have hfirst := Token.rel_head? h
  have hlast := Token.rel_getLast? h
  unfold Context.textOf
  generalize ts.head? = first?, us.head? = first?' at hfirst ⊢
  generalize ts.getLast? = last?, us.getLast? = last?' at hlast ⊢
  cases hfirst with
  | none => rfl
  | some hfirst =>
    cases hlast with
    | none => rfl
    | some hlast =>
      dsimp only
      rw [hfirst.start, hlast.stop, C.text_eq, Text.slice?_part hlast.within]

variable {α β γ δ σ τ : Type} {R : α → β → Prop} {S : γ → δ → Prop}

/-- Two runs fail, or succeed with related values and leave the same tokens. -/
inductive Matches (C : Cut) (R : α → β → Prop) :
    Except Error (α × List Token) → Except Error (β × List Token) → Prop where
  | error {e e' : Error} (faults : C.Faults e e') : Matches C R (.error e) (.error e')
  | ok {a : α} {b : β} {ts us : List Token} (value : R a b) (rest : C.Rows ts us) :
    Matches C R (.ok (a, ts)) (.ok (b, us))

/-- Two parsers do the same in front of every row of tokens. -/
def Agree (C : Cut) (R : α → β → Prop) (p : Parser α) (q : Parser β) : Prop :=
  ∀ ⦃ts us : List Token⦄, C.Rows ts us → C.Matches R (p.run C.whole ts) (q.run C.part us)

/-- A parser has the same values in both texts. Instances follow the way parsers are made. -/
class Stable (C : Cut) (p : Parser α) : Prop where
  agree : C.Agree Eq p p

variable {p : Parser α} {q : Parser β}

theorem agree_pure {a : α} {b : β} (h : R a b) : C.Agree R (pure a) (pure b) :=
  fun _ _ hts => .ok h hts

theorem agree_bind {f : α → Parser γ} {g : β → Parser δ} (hp : C.Agree R p q)
    (hf : ∀ a b, R a b → C.Agree S (f a) (g b)) : C.Agree S (p >>= f) (q >>= g) := by
  intro ts us hts
  have hpq := hp hts
  rw [Parser.run_bind, Parser.run_bind]
  generalize p.run C.whole ts = x, q.run C.part us = y at hpq
  cases hpq with
  | error faults => exact .error faults
  | ok value rest => exact hf _ _ value rest

theorem Agree.mono {R' : α → β → Prop} (h : C.Agree R p q) (hR : ∀ a b, R a b → R' a b) :
    C.Agree R' p q := by
  intro ts us hts
  have hpq := h hts
  generalize p.run C.whole ts = x, q.run C.part us = y at hpq
  cases hpq with
  | error faults => exact .error faults
  | ok value rest => exact .ok (hR _ _ value) rest

/-- Goes on after a parser with the same values in both texts. -/
theorem agree_after (p : Parser α) [hp : C.Stable p] {f : α → Parser γ} {g : α → Parser δ}
    (hf : ∀ a, C.Agree S (f a) (g a)) : C.Agree S (p >>= f) (p >>= g) :=
  agree_bind hp.agree fun a _ h => h ▸ hf a

instance stable_pure (a : α) : C.Stable (pure a) := ⟨agree_pure rfl⟩

/-- The same value without the notation of monads. -/
instance stable_pure' (a : α) : C.Stable (Parser.pure a) := ⟨agree_pure rfl⟩

instance stable_bind (p : Parser α) [C.Stable p] (f : α → Parser γ) [hf : ∀ a, C.Stable (f a)] :
    C.Stable (p >>= f) :=
  ⟨agree_after p fun a => (hf a).agree⟩

instance stable_map (p : Parser α) [C.Stable p] (f : α → γ) : C.Stable (f <$> p) :=
  ⟨agree_after p fun _ => agree_pure rfl⟩

instance stable_ite (c : Prop) [Decidable c] (p q : Parser α) [C.Stable p] [C.Stable q] :
    C.Stable (if c then p else q) := by
  split <;> infer_instance

instance stable_discard (p : Parser α) [C.Stable p] : C.Stable (discard p) :=
  ⟨agree_after p fun _ => agree_pure rfl⟩

/-- A choice between two parsers by the value of a third. -/
instance stable_choice (p : Parser Bool) (f g : Parser α) [C.Stable p] [C.Stable f] [C.Stable g] :
    C.Stable (do if ← p then f else g) :=
  stable_bind p _

theorem agree_fail {e e' : Error} (h : C.Faults e e') :
    C.Agree R (Parser.fail e) (Parser.fail e') :=
  fun _ _ _ => .error h

theorem agree_errorAt (h : C.Faces l l') (m m' : String) :
    C.Agree R (Parser.errorAt l m) (Parser.errorAt l' m') :=
  agree_fail ⟨l, l', rfl, rfl, h⟩

theorem Rows.faces (h : C.Rows ts us) :
    C.Faces (C.whole.locate (C.whole.current ts)) (C.part.locate (C.part.current us)) :=
  h.current.faces

/-- An error at the token in front, which its message may name. -/
theorem agree_error_front (m m' : Token → String) :
    C.Agree R (do Parser.error (m (← Parser.current)) : Parser α)
      (do Parser.error (m' (← Parser.current)) : Parser β) :=
  fun _ _ hts => .error ⟨_, _, rfl, rfl, hts.faces⟩

theorem agree_error (m m' : String) : C.Agree R (Parser.error m) (Parser.error m') :=
  agree_error_front (fun _ => m) fun _ => m'

instance stable_error (m : String) : C.Stable (Parser.error m : Parser α) := ⟨agree_error m m⟩

instance stable_error_front (m : Token → String) :
    C.Stable (do Parser.error (m (← Parser.current)) : Parser α) :=
  ⟨agree_error_front m m⟩

theorem agree_expected (w w' : String) : C.Agree R (Parser.expected w) (Parser.expected w') :=
  agree_error_front _ _

instance stable_expected (w : String) : C.Stable (Parser.expected w : Parser α) :=
  ⟨agree_expected w w⟩

/-- An error at the start of the statement, whose message may name what stands there. -/
theorem agree_unsupported (w w' : Context → List Token → String) :
    C.Agree R (fun ctx ts => Parser.unsupported (w ctx ts) ctx ts)
      (fun ctx ts => Parser.unsupported (w' ctx ts) ctx ts) :=
  fun _ _ _ => .error ⟨_, _, rfl, rfl, C.rows.faces⟩

instance stable_unsupported (w : String) : C.Stable (Parser.unsupported w : Parser α) :=
  ⟨agree_unsupported (fun _ _ => w) fun _ _ => w⟩

instance stable_typeError_front (m : Token → String) :
    C.Stable (do Parser.typeError (m (← Parser.current)) : Parser α) :=
  ⟨fun _ _ hts => .error ⟨_, _, rfl, rfl, hts.faces⟩⟩

instance stable_typeError (m : String) : C.Stable (Parser.typeError m : Parser α) :=
  stable_typeError_front fun _ => m

theorem agree_current : C.Agree C.Near Parser.current Parser.current :=
  fun _ _ hts => .ok hts.current hts

theorem agree_following : C.Agree C.Near Parser.following Parser.following :=
  fun _ _ hts => .ok hts.tail.current hts

/-- Goes on with the token in front. -/
theorem agree_front {f : Token → Parser γ} {g : Token → Parser δ}
    (hf : ∀ t u, C.Near t u → C.Agree S (f t) (g u)) :
    C.Agree S (Parser.current >>= f) (Parser.current >>= g) :=
  agree_bind agree_current hf

theorem agree_location {f : Location → Parser γ} {g : Location → Parser δ}
    (hf : ∀ l l', C.Faces l l' → C.Agree S (f l) (g l')) :
    C.Agree S (Parser.location >>= f) (Parser.location >>= g) :=
  agree_bind (fun _ _ hts => .ok hts.faces hts) hf

/-- There is an error at the end of a statement if nothing is left of it. -/
def FailsAtEnd (p : Parser α) : Prop :=
  ∀ ctx : Context, ctx.stop.kind = .eof →
    ∃ message, p.run ctx [] = .error (.parse (ctx.locate ctx.stop) message)

/-- Goes on after the place of the token in front, which is not the end. -/
theorem agree_location_before {f : Location → Parser γ} {g : Location → Parser δ}
    (hf : FailsAtEnd (Parser.location >>= f)) (hg : FailsAtEnd (Parser.location >>= g))
    (hfg : ∀ l l', C.Places l l' → C.Agree S (f l) (g l')) :
    C.Agree S (Parser.location >>= f) (Parser.location >>= g) := by
  intro ts us hts
  cases hts with
  | nil =>
    obtain ⟨m, hm⟩ := hf C.whole C.stop_whole
    obtain ⟨m', hm'⟩ := hg C.part C.stop_part
    rw [hm, hm']
    exact .error ⟨_, _, rfl, rfl, Near.stop.faces⟩
  | cons h more =>
    rw [Parser.run_bind, Parser.run_bind]
    exact hfg _ _ ⟨_, _, h, rfl, rfl⟩ (.cons h more)

/-- Goes on with what does not depend on the place of the token in front. -/
theorem stable_front {f : Token → Parser α} (hbare : ∀ t, f t.bare = f t)
    (hf : ∀ t, C.Stable (f t)) : C.Stable (Parser.current >>= f) := by
  refine ⟨agree_front fun t u h => ?_⟩
  rw [← hbare t, Token.bare_eq h.kind, hbare u]
  exact (hf u).agree

instance stable_atEnd : C.Stable Parser.atEnd := stable_front (fun _ => rfl) inferInstance

instance stable_at? (kind : Token.Kind) : C.Stable (Parser.at? kind) :=
  stable_front (fun _ => rfl) inferInstance

instance stable_atKeyword (k : Token.Keyword) : C.Stable (Parser.atKeyword k) :=
  stable_front (fun _ => rfl) inferInstance

instance stable_advance : C.Stable Parser.advance := ⟨fun _ _ hts => .ok rfl hts.tail⟩

theorem agree_take (n : Nat) : C.Agree C.Rows (Parser.take n) (Parser.take n) :=
  fun _ _ hts => .ok (hts.take n) (hts.drop n)

instance stable_accept (kind : Token.Kind) : C.Stable (Parser.accept kind) := by
  unfold Parser.accept
  infer_instance

instance stable_expect (kind : Token.Kind) : C.Stable (Parser.expect kind) := by
  unfold Parser.expect
  infer_instance

instance stable_acceptKeyword (k : Token.Keyword) : C.Stable (Parser.acceptKeyword k) :=
  stable_accept _

instance stable_expectKeyword (k : Token.Keyword) : C.Stable (Parser.expectKeyword k) := by
  unfold Parser.expectKeyword
  infer_instance

/-- Two measures stop at the same token, or measure the same. -/
inductive Measures (C : Cut) : Except Token Nat → Except Token Nat → Prop where
  | error {t u : Token} (near : C.Near t u) : Measures C (.error t) (.error u)
  | ok (n : Nat) : Measures C (.ok n) (.ok n)

theorem Measures.map {x y : Except Token Nat} (h : C.Measures x y) (f : Nat → Nat) :
    C.Measures (x.map f) (y.map f) := by
  cases h with
  | error h => exact .error h
  | ok n => exact .ok (f n)

/-- Takes as many tokens in both texts if the measures agree. -/
theorem agree_takeMeasured {message : String} {measure : Context → List Token → Except Token Nat}
    (hmeasure : ∀ ts us, C.Rows ts us → C.Measures (measure C.whole ts) (measure C.part us)) :
    C.Agree C.Rows (Parser.takeMeasured message measure) (Parser.takeMeasured message measure) := by
  intro ts us hts
  have h := hmeasure ts us hts
  unfold Parser.run Parser.takeMeasured
  generalize measure C.whole ts = x, measure C.part us = y at h ⊢
  cases h with
  | error h => exact .error ⟨_, _, rfl, rfl, h.faces⟩
  | ok n => exact agree_take n hts

theorem agree_taking (p : Parser α) [hp : C.Stable p] :
    C.Agree (fun a b => C.Rows a.1 b.1 ∧ a.2 = b.2) (Parser.taking p) (Parser.taking p) := by
  intro ts us hts
  have hpq := hp.agree hts
  rw [Parser.run_taking, Parser.run_taking]
  generalize p.run C.whole ts = x, p.run C.part us = y at hpq
  cases hpq with
  | error faults => exact .error faults
  | ok value rest =>
    refine .ok ⟨?_, value⟩ rest
    rw [hts.length_eq, rest.length_eq]
    exact hts.take _

theorem agree_toEnd : C.Agree C.Rows Parser.toEnd Parser.toEnd := by
  intro ts us hts
  have hlength : (ts.takeWhile (·.kind ≠ .eof)).length = (us.takeWhile (·.kind ≠ .eof)).length :=
    hts.read (f := fun ts => (ts.takeWhile (·.kind ≠ .eof)).length) fun ts => by
      rw [List.takeWhile_map, List.length_map]
      rfl
  show C.Matches C.Rows ((Parser.take (ts.takeWhile (·.kind ≠ .eof)).length).run C.whole ts)
    ((Parser.take (us.takeWhile (·.kind ≠ .eof)).length).run C.part us)
  rw [hlength]
  exact agree_take _ hts

theorem stable_onlyBefore (p : Parser α) [hp : C.Stable p] {condition : Token → Bool}
    (hcondition : ∀ t, condition t.bare = condition t) :
    C.Stable (Parser.onlyBefore p condition) := by
  refine ⟨fun ts us hts => ?_⟩
  have hpq := hp.agree hts
  rw [Parser.run_onlyBefore, Parser.run_onlyBefore]
  generalize p.run C.whole ts = x, p.run C.part us = y at hpq
  cases hpq with
  | error faults => exact .ok rfl hts
  | @ok a b ts' us' value rest =>
    subst value
    have hnext : condition (C.whole.current ts') = condition (C.part.current us') := by
      rw [← hcondition, Token.bare_eq rest.current.kind, hcondition]
    dsimp only
    rw [hnext]
    split
    · exact .ok rfl rest
    · exact .ok rfl hts

theorem agree_commaList (h : C.Agree R p q) :
    C.Agree (List.Forall₂ R) (Parser.commaList p) (Parser.commaList q) := by
  intro ts us hts
  induction hn : ts.length using Nat.strongRecOn generalizing ts us with
  | ind n ih =>
    have hpq := h hts
    rw [Parser.run_commaList, Parser.run_commaList]
    cases hrun : p.run C.whole ts with
    | error e =>
      rw [hrun] at hpq
      generalize q.run C.part us = y at hpq
      cases hpq with
      | error faults => exact .error faults
    | ok o =>
      obtain ⟨a, ts'⟩ := o
      have hsuffix := Parser.suffix_of_run hrun
      rw [hrun] at hpq
      generalize q.run C.part us = y at hpq
      cases hpq with
      | @ok a b ts' us' value rest =>
        cases rest with
        | nil => exact .ok (.cons value .nil) .nil
        | @cons t u ts' us' htu more =>
          have hlt : ts'.length < n := by
            have := hsuffix.length_le
            simp only [List.length_cons] at this
            omega
          have hmore := ih _ hlt more rfl
          simp only [Except.bind, htu.kind]
          split
          · generalize (Parser.commaList p).run C.whole ts' = x,
              (Parser.commaList q).run C.part us' = y at hmore
            cases hmore with
            | error faults => exact .error faults
            | ok values rest => exact .ok (.cons value values) rest
          · exact .ok (.cons value .nil) (.cons htu more)

instance stable_commaList (p : Parser α) [hp : C.Stable p] : C.Stable (Parser.commaList p) :=
  ⟨(agree_commaList hp.agree).mono fun a b h => by rwa [List.forall₂_eq_eq_eq] at h⟩

theorem agree_clauses {R : σ → τ → Prop} {f : σ → Token → Parser (Option σ)}
    {g : τ → Token → Parser (Option τ)}
    (hclause : ∀ s s' t u, R s s' → C.Moves t u → C.Agree (Option.Rel R) (f s t) (g s' u))
    {s : σ} {s' : τ} (hs : R s s') : C.Agree R (Parser.clauses f s) (Parser.clauses g s') := by
  intro ts us hts
  induction hn : ts.length using Nat.strongRecOn generalizing ts us s s' with
  | ind n ih =>
    rw [Parser.run_clauses, Parser.run_clauses]
    cases hts with
    | nil => exact .ok hs .nil
    | @cons t u ts us htu more =>
      have hfg := hclause s s' t u hs htu more
      dsimp only
      cases hrun : (f s t).run C.whole ts with
      | error e =>
        rw [hrun] at hfg
        generalize (g s' u).run C.part us = y at hfg
        cases hfg with
        | error faults => exact .error faults
      | ok o =>
        obtain ⟨a, ts'⟩ := o
        have hlt : ts'.length < n := by
          have := (Parser.suffix_of_run hrun).length_le
          rw [List.length_cons] at hn
          omega
        rw [hrun] at hfg
        generalize (g s' u).run C.part us = y at hfg
        cases hfg with
        | ok value rest =>
          cases value with
          | none => exact .ok hs (.cons htu more)
          | some value => exact ih _ hlt value rest rfl

theorem stable_clauses {f : σ → Token → Parser (Option σ)}
    (hclause : ∀ s t u, C.Moves t u → C.Agree Eq (f s t) (f s u)) (s : σ) :
    C.Stable (Parser.clauses f s) := by
  refine ⟨agree_clauses (fun s s' t u hs htu => ?_) rfl⟩
  subst hs
  refine (hclause s t u htu).mono fun a b hab => ?_
  subst hab
  cases a with
  | none => exact .none
  | some a => exact .some rfl

end Cut

end Grammar

end DdlCatalog
