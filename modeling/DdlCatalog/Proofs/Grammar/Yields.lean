import DdlCatalog.Grammar.Parser

/-! # What parsers yield
A condition on all values that a parser can have. It is put together along the parser, and repetition
keeps what each round keeps. The tokens that the parser reads may be restricted, to those of one
statement for example. -/

namespace DdlCatalog.Grammar

/-- The tokens that a parser may be in front of. Taking some of them leaves tokens that it may be in
front of as well. -/
structure Ground where
  holds : Context → List Token → Prop
  suffix : ∀ {ctx ts us}, us <:+ ts → holds ctx ts → holds ctx us

namespace Ground

def any : Ground := ⟨fun _ _ => True, fun _ _ => trivial⟩

def within (ctx : Context) : Ground :=
  ⟨fun c ts => c = ctx ∧ ts <:+ ctx.tokens, fun hus h => ⟨h.1, hus.trans h.2⟩⟩

end Ground

namespace Parser

variable {α β σ : Type} {P : α → Prop} {Q : β → Prop} {G : Ground}

/-- Every value that the parser has in front of such tokens satisfies a condition. -/
def YieldsOn (G : Ground) (p : Parser α) (P : α → Prop) : Prop :=
  ∀ (ctx : Context) (ts : List Token), G.holds ctx ts →
    ∀ o : Outcome α ts, p ctx ts = .ok o → P o.value

/-- Every value of the parser satisfies a condition. -/
abbrev Yields (p : Parser α) (P : α → Prop) : Prop := YieldsOn .any p P

theorem yields_any (p : Parser α) : YieldsOn G p fun _ => True := fun _ _ _ _ _ => trivial

theorem YieldsOn.mono {p : Parser α} {P' : α → Prop} (h : YieldsOn G p P) (hP : ∀ a, P a → P' a) :
    YieldsOn G p P' := fun ctx ts hts o ho => hP _ (h ctx ts hts o ho)

theorem yields_pure {a : α} (h : P a) : YieldsOn G (pure a) P := by
  intro ctx ts _ o ho
  cases ho
  exact h

theorem yields_bind {p : Parser α} {f : α → Parser β} (hp : YieldsOn G p P)
    (hf : ∀ a, P a → YieldsOn G (f a) Q) : YieldsOn G (p >>= f) Q := by
  intro ctx ts hts o ho
  change Parser.bind p f ctx ts = .ok o at ho
  unfold Parser.bind at ho
  split at ho
  · cases ho
  · next oa ha =>
    split at ho
    · cases ho
    · next ob hb =>
      cases ho
      exact hf _ (hp _ _ hts _ ha) _ _ (G.suffix oa.suffix hts) ob hb

theorem yields_next {p : Parser α} {f : α → Parser β} (hf : ∀ a, YieldsOn G (f a) Q) :
    YieldsOn G (p >>= f) Q :=
  yields_bind (yields_any p) fun a _ => hf a

theorem yields_ite {c : Prop} [Decidable c] {p q : Parser α} (hp : YieldsOn G p P)
    (hq : YieldsOn G q P) : YieldsOn G (if c then p else q) P := by
  split
  · exact hp
  · exact hq

theorem yields_none : YieldsOn G (pure none) fun o : Option α => ∀ a ∈ o, P a :=
  yields_pure fun _ h => nomatch h

theorem yields_some {a : α} (h : P a) : YieldsOn G (pure (some a)) fun o => ∀ a ∈ o, P a :=
  yields_pure fun _ ha => Option.some.inj ha ▸ h

theorem yields_map_some {p : Parser α} (hp : YieldsOn G p P) :
    YieldsOn G (some <$> p) fun o => ∀ a ∈ o, P a :=
  yields_bind hp fun _ ha => yields_some ha

theorem yields_fail {e : Error} : YieldsOn G (fail e) P := fun _ _ _ _ ho => nomatch ho

theorem yields_errorAt {l : Text.Location} {message : String} : YieldsOn G (errorAt l message) P :=
  yields_fail

theorem yields_error {message : String} : YieldsOn G (error message) P :=
  yields_next fun _ => yields_errorAt

theorem yields_expected {what : String} : YieldsOn G (expected what) P :=
  yields_next fun _ => yields_error

theorem yields_commaList {p : Parser α} (hp : YieldsOn G p P) :
    YieldsOn G (commaList p) fun as => ∀ a ∈ as, P a := by
  intro ctx ts
  induction hn : ts.length using Nat.strongRecOn generalizing ts with
  | ind n ih =>
    intro hts o ho
    rw [commaList] at ho
    split at ho
    · cases ho
    · next a h ha =>
      cases ho
      simpa using hp _ _ hts _ ha
    · next a t rest h ha =>
      have hrest := G.suffix ((List.suffix_cons t rest).trans h) hts
      split at ho
      · split at ho
        · cases ho
        · next o' ho' =>
          cases ho
          have hlt : rest.length < n := by
            have := h.length_le
            simp only [List.length_cons] at this
            omega
          exact List.forall_mem_cons.2 ⟨hp _ _ hts _ ha, ih _ hlt _ rfl hrest _ ho'⟩
      · cases ho
        simpa using hp _ _ hts _ ha

theorem yields_clauses {clause : σ → Token → Parser (Option σ)} {I : σ → Prop} {s : σ}
    (hclause : ∀ s t, I s → YieldsOn G (clause s t) fun o => ∀ s' ∈ o, I s') (hs : I s) :
    YieldsOn G (clauses clause s) I := by
  intro ctx ts
  induction hn : ts.length using Nat.strongRecOn generalizing ts s with
  | ind n ih =>
    intro hts o ho
    rw [clauses.eq_def] at ho
    split at ho
    · cases ho
      exact hs
    · next t rest =>
      have hrest := G.suffix (List.suffix_cons t rest) hts
      split at ho
      · cases ho
      · cases ho
        exact hs
      · next s' left h hc =>
        split at ho
        · cases ho
        · next o' ho' =>
          cases ho
          have hlt : left.length < n := by
            have := h.length_le
            simp only [List.length_cons] at hn
            omega
          exact ih _ hlt (hclause s t hs _ _ hrest _ hc s' rfl) _ rfl (G.suffix h hrest) _ ho'

end Parser

end DdlCatalog.Grammar
