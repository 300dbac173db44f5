import DdlCatalog.Grammar.Run
import DdlCatalog.Proofs.Cursor.Basic

/-! # Cursors and parsers
A cursor at a position follows a parser on the tokens from there on: it runs into no fault, answers what
the parser answers, and stands where the parser leaves off. What cursors are made of follows what parsers
are made of. -/

namespace DdlCatalog.Grammar

open Text (Location)

/-- The tokens of a statement with its end behind them, on a tape where a loop may take as many rounds as
there are tokens. -/
structure Layout where
  ctx : Context
  rounds : Nat
  stop_kind : ctx.stop.kind = .eof
  lt_rounds : ctx.tokens.length < rounds

namespace Layout

variable {α β σ : Type} {K : Layout} {i j : Nat} {r : Cursor α} {p : Parser α} {k : α → Cursor β}
  {k' : α → Parser β}

def tape (K : Layout) : Tape := ⟨K.ctx.source, K.ctx.text, K.ctx.tokens ++ [K.ctx.stop], K.rounds⟩

def last (K : Layout) : Nat := K.ctx.tokens.length

def left (K : Layout) (i : Nat) : List Token := K.ctx.tokens.drop i

def token (K : Layout) (i : Nat) : Token := K.ctx.current (K.left i)

theorem length_left (K : Layout) (i : Nat) : (K.left i).length = K.last - i := List.length_drop

theorem left_last (K : Layout) : K.left K.last = [] := List.drop_length

theorem left_of_lt (h : i < K.last) : K.left i = K.token i :: K.left (i + 1) := by
  unfold token left
  rw [List.drop_eq_getElem_cons h]
  rfl

theorem token_of_le (h : K.last ≤ i) : K.token i = K.ctx.stop := by
  rw [token, left, List.drop_of_length_le h]
  rfl

theorem token_last (K : Layout) : K.token K.last = K.ctx.stop := token_of_le (Nat.le_refl _)

theorem lt_of_token (h : (K.token i).kind ≠ .eof) : i < K.last := by
  refine Nat.lt_of_not_le fun hi => h ?_
  rw [token_of_le hi, K.stop_kind]

theorem length_tokens (K : Layout) : K.tape.tokens.length = K.last + 1 := List.length_append

theorem getElem?_tokens (h : i ≤ K.last) : K.tape.tokens[i]? = some (K.token i) := by
  show (K.ctx.tokens ++ [K.ctx.stop])[i]? = _
  rcases Nat.lt_or_eq_of_le h with hi | rfl
  · rw [List.getElem?_append_left hi, List.getElem?_eq_getElem hi, token, left,
      List.drop_eq_getElem_cons hi]
    rfl
  · rw [token_last, last, List.getElem?_concat_length]

/-- A value or an error at a position, as a parser gives it with the tokens that are left. -/
inductive Answers (K : Layout) : Except Error α × Nat → Except Error (α × List Token) → Prop where
  | value (a : α) {j : Nat} (le : j ≤ K.last) : Answers K (.ok a, j) (.ok (a, K.left j))
  | error (e : Error) {j : Nat} (le : j ≤ K.last) : Answers K (.error e, j) (.error e)

/-- Without a fault, the cursor at a position answers what the parser answers. -/
def FollowsAt (K : Layout) (i : Nat) (r : Cursor α) (p : Parser α) : Prop :=
  ∃ o, r K.tape i = .ok o ∧ K.Answers o (p.run K.ctx (K.left i))

/-- The cursor follows the parser at every position. Instances go along the way that both are made. -/
class Follows (K : Layout) (r : Cursor α) (p : Parser α) : Prop where
  at_position : ∀ i ≤ K.last, K.FollowsAt i r p

theorem followsAt (hi : i ≤ K.last) [h : K.Follows r p] : K.FollowsAt i r p := h.at_position i hi

theorem followsAt_of_ok {a : α} (hj : j ≤ K.last) (hr : r K.tape i = .ok (.ok a, j))
    (hp : p.run K.ctx (K.left i) = .ok (a, K.left j)) : K.FollowsAt i r p :=
  ⟨_, hr, hp ▸ .value a hj⟩

theorem followsAt_of_error {e : Error} (hj : j ≤ K.last) (hr : r K.tape i = .ok (.error e, j))
    (hp : p.run K.ctx (K.left i) = .error e) : K.FollowsAt i r p :=
  ⟨_, hr, hp ▸ .error e hj⟩

theorem bind_of_ok {a : α} (h : r K.tape i = .ok (.ok a, j)) : (r >>= k) K.tape i = k a K.tape j := by
  show Cursor.bind r k K.tape i = _
  rw [Cursor.bind, h]

theorem bind_of_error {e : Error} (h : r K.tape i = .ok (.error e, j)) :
    (r >>= k) K.tape i = .ok (.error e, j) := by
  show Cursor.bind r k K.tape i = _
  rw [Cursor.bind, h]

/-- A parser goes on at no earlier position. -/
theorem le_of_run {a : α} (hi : i ≤ K.last) (h : p.run K.ctx (K.left i) = .ok (a, K.left j)) : i ≤ j := by
  have hle := (Parser.suffix_of_run h).length_le
  rw [length_left, length_left] at hle
  rcases Nat.lt_or_ge j K.last with hj | hj <;> omega

/-- A step of the cursor and a step of the parser, and what comes behind them. -/
theorem FollowsAt.bind (h : K.FollowsAt i r p)
    (hk : ∀ a j, j ≤ K.last → p.run K.ctx (K.left i) = .ok (a, K.left j) → K.FollowsAt j (k a) (k' a)) :
    K.FollowsAt i (r >>= k) (p >>= k') := by
  obtain ⟨o, hr, hanswers⟩ := h
  unfold FollowsAt
  rw [Parser.run_bind]
  generalize hp : p.run K.ctx (K.left i) = res at hanswers hk ⊢
  cases hanswers with
  | value a le =>
    rw [bind_of_ok hr]
    exact hk a _ le rfl
  | error e le => exact ⟨_, bind_of_error hr, .error e le⟩

/-- A step of the cursor alone, which does not move it. -/
theorem followsAt_of_read {a : α} {q : Parser β} (hr : r K.tape i = .ok (.ok a, i))
    (hk : K.FollowsAt i (k a) q) : K.FollowsAt i (r >>= k) q := by
  unfold FollowsAt
  rw [bind_of_ok hr]
  exact hk

/-- A step of the parser alone, which takes no token. -/
theorem followsAt_of_keep {γ : Type} {q : Parser γ} {q' : γ → Parser α} {c : γ}
    (hq : q.run K.ctx (K.left i) = .ok (c, K.left i)) (hk : K.FollowsAt i r (q' c)) :
    K.FollowsAt i r (q >>= q') := by
  unfold FollowsAt
  rw [Parser.run_bind, hq]
  exact hk

/-- A step with different values, and what comes behind it. -/
theorem followsAt_of_step {γ : Type} {q : Parser γ} {q' : γ → Parser β} {a : α} {c : γ}
    (hr : r K.tape i = .ok (.ok a, j)) (hq : q.run K.ctx (K.left i) = .ok (c, K.left j))
    (hk : K.FollowsAt j (k a) (q' c)) : K.FollowsAt i (r >>= k) (q >>= q') := by
  unfold FollowsAt
  rw [bind_of_ok hr, Parser.run_bind, hq]
  exact hk

theorem followsAt_of_failing {γ : Type} {q : Parser γ} {q' : γ → Parser β} {e : Error} (hj : j ≤ K.last)
    (hr : r K.tape i = .ok (.error e, j)) (hq : q.run K.ctx (K.left i) = .error e) :
    K.FollowsAt i (r >>= k) (q >>= q') := by
  unfold FollowsAt
  rw [bind_of_error hr, Parser.run_bind, hq]
  exact ⟨_, rfl, .error e hj⟩

instance follows_pure (a : α) : K.Follows (pure a) (pure a) where
  at_position _ hi := ⟨_, rfl, .value a hi⟩

/-- The same value without the notation of monads. -/
instance follows_pure' (a : α) : K.Follows (pure a) (Parser.pure a) := follows_pure a

/-- A step, and what comes behind it. -/
theorem follows_next [K.Follows r p] (hk : ∀ a, K.Follows (k a) (k' a)) : K.Follows (r >>= k) (p >>= k') where
  at_position _ hi := (followsAt hi).bind fun a _ hj _ => (hk a).at_position _ hj

instance follows_bind [K.Follows r p] [hk : ∀ a, K.Follows (k a) (k' a)] :
    K.Follows (r >>= k) (p >>= k') :=
  follows_next hk

instance follows_map {f : α → β} [K.Follows r p] : K.Follows (f <$> r) (f <$> p) :=
  inferInstanceAs (K.Follows (r >>= fun a => pure (f a)) (p >>= fun a => pure (f a)))

instance follows_discard [K.Follows r p] : K.Follows (discard r) (discard p) :=
  inferInstanceAs (K.Follows (r >>= fun _ => pure PUnit.unit) (p >>= fun _ => pure PUnit.unit))

instance follows_ite {c : Prop} [Decidable c] {r' : Cursor α} {p' : Parser α} [K.Follows r p]
    [K.Follows r' p'] : K.Follows (if c then r else r') (if c then p else p') := by
  split <;> infer_instance

theorem position_at : Cursor.position K.tape i = .ok (.ok i, i) := rfl

theorem tokens_at : Cursor.tokens K.tape i = .ok (.ok K.tape.tokens, i) := rfl

theorem element_tokens (h : i ≤ K.last) :
    Cursor.element K.tape.tokens i = (pure (K.token i) : Cursor Token) := by
  unfold Cursor.element
  rw [getElem?_tokens h]

theorem minus_of_le {a b : Nat} (h : b ≤ a) : Cursor.minus a b = pure (a - b) := if_pos h

theorem element_at {as : List α} (h : j < as.length) (i : Nat) :
    Cursor.element as j K.tape i = .ok (.ok as[j], i) := by
  rw [Cursor.element, List.getElem?_eq_getElem h]
  rfl

theorem element_tokens_at (h : j ≤ K.last) (i : Nat) :
    Cursor.element K.tape.tokens j K.tape i = .ok (.ok (K.token j), i) := by
  rw [element_tokens h]
  rfl

theorem minus_at {a b : Nat} (h : b ≤ a) (i : Nat) :
    Cursor.minus a b K.tape i = .ok (.ok (a - b), i) := by
  rw [minus_of_le h]
  rfl

theorem lastIndex_at (K : Layout) (i : Nat) : Cursor.lastIndex K.tape i = .ok (.ok K.last, i) := by
  show Cursor.minus K.tape.tokens.length 1 K.tape i = _
  rw [length_tokens, minus_of_le (Nat.le_add_left 1 K.last)]
  rfl

theorem tokenAt_at (K : Layout) (j i : Nat) : Cursor.tokenAt j K.tape i = .ok (.ok (K.token j), i) := by
  show (Cursor.lastIndex >>= fun l => Cursor.element K.tape.tokens (min j l)) K.tape i = _
  rw [bind_of_ok (lastIndex_at K i), element_tokens (Nat.min_le_right ..)]
  rcases Nat.lt_or_ge j K.last with h | h
  · rw [Nat.min_eq_left (Nat.le_of_lt h)]
    rfl
  · rw [Nat.min_eq_right h, token_last, token_of_le h]
    rfl

theorem current_at (h : i ≤ K.last) : Cursor.current K.tape i = .ok (.ok (K.token i), i) := by
  show Cursor.element K.tape.tokens i K.tape i = _
  rw [element_tokens h]
  rfl

theorem peek_at (K : Layout) (offset i : Nat) :
    Cursor.peek offset K.tape i = .ok (.ok (K.token (i + offset)), i) :=
  tokenAt_at ..

theorem advance_at (h : i < K.last) : Cursor.advance K.tape i = .ok (.ok (), i + 1) := by
  show (Cursor.lastIndex >>= fun l => if i < l then Cursor.moveTo (i + 1) else pure ()) K.tape i = _
  rw [bind_of_ok (lastIndex_at K i), if_pos h]
  show (if i + 1 < K.tape.tokens.length then _ else _) = _
  rw [if_pos (by rw [length_tokens]; omega)]

theorem advance_last (K : Layout) : Cursor.advance K.tape K.last = .ok (.ok (), K.last) := by
  show (Cursor.lastIndex >>= fun l => if K.last < l then Cursor.moveTo (K.last + 1) else pure ())
    K.tape K.last = _
  rw [bind_of_ok (lastIndex_at K _), if_neg (Nat.lt_irrefl _)]
  rfl

theorem locate_at (K : Layout) (t : Token) (i : Nat) :
    Cursor.locate t K.tape i = .ok (.ok (K.ctx.locate t), i) := rfl

theorem location_at (h : i ≤ K.last) :
    Cursor.location K.tape i = .ok (.ok (K.ctx.locate (K.token i)), i) :=
  bind_of_ok (current_at h)

instance follows_current : K.Follows Cursor.current Parser.current where
  at_position _ hi := followsAt_of_ok hi (current_at hi) rfl

theorem tail_left (K : Layout) (i : Nat) : (K.left i).tail = K.left (i + 1) := List.tail_drop

instance follows_advance : K.Follows Cursor.advance Parser.advance where
  at_position i hi := by
    have hrun : Parser.advance.run K.ctx (K.left i) = .ok ((), (K.left i).tail) := rfl
    rcases Nat.lt_or_eq_of_le hi with h | rfl
    · exact followsAt_of_ok h (advance_at h) (by rw [hrun, tail_left])
    · exact followsAt_of_ok hi (advance_last K) (by rw [hrun, left_last]; rfl)

instance follows_location : K.Follows Cursor.location Parser.location where
  at_position _ hi := followsAt_of_ok hi (location_at hi) rfl

theorem at?_at (kind : Token.Kind) (hi : i ≤ K.last) :
    Cursor.at? kind K.tape i = .ok (.ok (decide ((K.token i).kind = kind)), i) :=
  bind_of_ok (current_at hi)

theorem run_at?_left (kind : Token.Kind) (i : Nat) :
    (Parser.at? kind).run K.ctx (K.left i) = .ok (decide ((K.token i).kind = kind), K.left i) := rfl

theorem run_following_left (K : Layout) (i : Nat) :
    Parser.following.run K.ctx (K.left i) = .ok (K.token (i + 1), K.left i) := by
  rw [token, ← tail_left]
  rfl

instance follows_at? (kind : Token.Kind) : K.Follows (Cursor.at? kind) (Parser.at? kind) := by
  unfold Cursor.at? Parser.at?
  infer_instance

instance follows_atEnd : K.Follows Cursor.atEnd Parser.atEnd := follows_at? .eof

instance follows_atKeyword (w : Token.Keyword) :
    K.Follows (Cursor.atKeyword w) (Parser.atKeyword w) := follows_at? (.keyword w)

instance follows_fail (e : Error) : K.Follows (Cursor.fail e : Cursor α) (Parser.fail e) where
  at_position _ hi := followsAt_of_error hi rfl rfl

instance follows_errorAt (l : Location) (message : String) :
    K.Follows (Cursor.errorAt l message : Cursor α) (Parser.errorAt l message) := follows_fail _

instance follows_error (message : String) :
    K.Follows (Cursor.error message : Cursor α) (Parser.error message) := by
  unfold Cursor.error Parser.error
  infer_instance

instance follows_typeError (message : String) :
    K.Follows (Cursor.typeError message : Cursor α) (Parser.typeError message) := by
  unfold Cursor.typeError Parser.typeError
  infer_instance

instance follows_expected (what : String) :
    K.Follows (Cursor.expected what : Cursor α) (Parser.expected what) := by
  unfold Cursor.expected Parser.expected
  infer_instance

theorem element_first (K : Layout) :
    Cursor.element K.tape.tokens 0 = (pure (K.ctx.current K.ctx.tokens) : Cursor Token) :=
  element_tokens (Nat.zero_le _)

theorem unsupported_at (K : Layout) (construct : String) (i : Nat) :
    (Cursor.unsupported construct : Cursor α) K.tape i =
      .ok (.error (.unsupportedStatement (K.ctx.locate (K.ctx.current K.ctx.tokens)) construct), i) := by
  show (Cursor.element K.tape.tokens 0 >>= fun t => Cursor.locate t >>= fun l =>
    (Cursor.fail (.unsupportedStatement l construct) : Cursor α)) K.tape i = _
  rw [element_first]
  rfl

instance follows_unsupported (construct : String) :
    K.Follows (Cursor.unsupported construct : Cursor α) (Parser.unsupported construct) where
  at_position i hi := followsAt_of_error hi (unsupported_at K construct i) rfl

instance follows_accept (kind : Token.Kind) : K.Follows (Cursor.accept kind) (Parser.accept kind) := by
  unfold Cursor.accept Parser.accept
  infer_instance

instance follows_acceptKeyword (w : Token.Keyword) :
    K.Follows (Cursor.acceptKeyword w) (Parser.acceptKeyword w) := follows_accept _

instance follows_expect (kind : Token.Kind) : K.Follows (Cursor.expect kind) (Parser.expect kind) := by
  unfold Cursor.expect Parser.expect
  infer_instance

instance follows_expectKeyword (w : Token.Keyword) :
    K.Follows (Cursor.expectKeyword w) (Parser.expectKeyword w) := by
  unfold Cursor.expectKeyword Parser.expectKeyword
  infer_instance

/-- What a round comes to when the rest of the loop answers as the parser, or another way of reading,
does. Where the loop goes on, a token has been taken. -/
inductive Turns (K : Layout) (target : σ → Nat → Except Error (β × List Token)) (s : σ) (i : Nat) :
    Except Error (Cursor.Round σ β) × Nat → Prop where
  | again {s' : σ} {j : Nat} (lt : i < j) (le : j ≤ K.last) (eq : target s i = target s' j) :
    Turns K target s i (.ok (.again s'), j)
  | done {b : β} {j : Nat} (le : j ≤ K.last) (eq : target s i = .ok (b, K.left j)) :
    Turns K target s i (.ok (.done b), j)
  | error {e : Error} {j : Nat} (le : j ≤ K.last) (eq : target s i = .error e) :
    Turns K target s i (.error e, j)

variable {round : σ → Cursor (Cursor.Round σ β)} {target : σ → Nat → Except Error (β × List Token)}

theorem repeatAtMost_answers
    (hround : ∀ s, ∀ j, i ≤ j → j ≤ K.last → ∃ o, round s K.tape j = .ok o ∧ K.Turns target s j o)
    {n : Nat} {s : σ} (hi : i ≤ K.last) (hn : K.last - i < n) :
    ∃ o, Cursor.repeatAtMost round n s K.tape i = .ok o ∧ K.Answers o (target s i) := by
  induction n generalizing s i with
  | zero => omega
  | succ n ih =>
    obtain ⟨o, hr, hturns⟩ := hround s i (Nat.le_refl i) hi
    unfold Cursor.repeatAtMost
    cases hturns with
    | again lt le eq =>
      rw [bind_of_ok hr, eq]
      exact ih (fun s j hj => hround s j (by omega)) le (by omega)
    | done le eq =>
      rw [bind_of_ok hr, eq]
      exact ⟨_, rfl, .value _ le⟩
    | error le eq =>
      rw [eq]
      exact ⟨_, bind_of_error hr, .error _ le⟩

/-- Each round takes a token, so there are enough of them. -/
theorem loop_answers
    (hround : ∀ s, ∀ j, i ≤ j → j ≤ K.last → ∃ o, round s K.tape j = .ok o ∧ K.Turns target s j o)
    (s : σ) (hi : i ≤ K.last) :
    ∃ o, Cursor.loop round s K.tape i = .ok o ∧ K.Answers o (target s i) :=
  repeatAtMost_answers hround hi (Nat.lt_of_le_of_lt (Nat.sub_le ..) K.lt_rounds)

end Layout

end DdlCatalog.Grammar
