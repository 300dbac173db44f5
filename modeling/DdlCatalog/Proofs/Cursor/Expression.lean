import DdlCatalog.Proofs.Cursor.TypeRef
import DdlCatalog.Proofs.Grammar.Predicate
import DdlCatalog.Proofs.Grammar.SharedElements

/-! # Expressions by position
An expression is told by the positions between which it stands. Its end is found by counting brackets, and
so is the parenthesis that closes the first one. -/

namespace DdlCatalog.Grammar

namespace Cursor

variable {α : Type}

def each (f : Nat → Cursor α) (start : Nat) : Nat → Cursor (List α)
  | 0 => return []
  | n + 1 => do
    let a ← f start
    return a :: (← each f (start + 1) n)

def tokensBetween (start stop : Nat) : Cursor (List Token) := each tokenAt start (stop - start)

/-- The name that a token of an expression stands for. -/
def referenceAt (ts : List Token) (i : Nat) : Cursor (Option String) := do
  let t ← element ts i
  let previous ← if 0 < i then some <$> element ts (← minus i 1) else pure none
  return referenceOf? previous t ts[i + 1]?

def expressionBetween (start stop : Nat) : Cursor Expression := do
  let ts ← tokensBetween start stop
  let text ← textBetween start stop
  let names ← each (referenceAt ts) 0 ts.length
  return ⟨text, literalOf? ts, firstUses (names.filterMap id)⟩

/-- The token before the one in front, in an expression that begins at a position. -/
def previous (start : Nat) : Cursor (Option Token) := do
  let i ← position
  if start < i then some <$> tokenAt (← minus i 1) else return none

/-- The number of brackets that are open behind a token of an expression, unless the expression ends in
front of it. -/
def bracketsBehind (stops : StopRule) (start depth : Nat) (t : Token) : Cursor (Option Nat) := do
  if t.kind = .eof then
    if 0 < depth then error "unbalanced brackets in expression" else return none
  else if opensBracket t.kind then return some (depth + 1)
  else if closesBracket t.kind then
    if depth = 0 then return none else return some (← minus depth 1)
  else if 0 < depth then return some depth
  else if t.kind = .comma then return none
  else if stops (← previous start) t (← peek 1) then return none
  else return some 0

def expressionRound (stops : StopRule) (start depth : Nat) : Cursor (Round Nat Unit) := do
  match ← bracketsBehind stops start depth (← current) with
  | some depth =>
    advance
    return .again depth
  | none => return .done ()

def expressionUntil (stops : StopRule) : Cursor Expression := do
  let start ← position
  loop (expressionRound stops start) 0
  let stop ← position
  if stop = start then expected "expression" else expressionBetween start stop

def groupedExpression : Cursor Expression := do
  expect .leftParen
  let e ← expressionUntil neverStops
  expect .rightParen
  return e

/-- A round at an index, inside of so many parentheses. -/
def closingRound (s : Nat × Nat) : Cursor (Round (Nat × Nat) (Option Nat)) := do
  match (← tokenAt s.2).kind with
  | .leftParen => return .again (s.1 + 1, s.2 + 1)
  | .rightParen =>
    let depth ← minus s.1 1
    if depth = 0 then return .done (some s.2) else return .again (depth, s.2 + 1)
  | .eof => return .done none
  | _ => return .again (s.1, s.2 + 1)

/-- The index of the parenthesis that closes the one at an index. -/
def closing (start : Nat) : Cursor (Option Nat) := loop closingRound (0, start)

/-- Whether parentheses stand around the tokens between two positions. -/
def wraps (start stop : Nat) : Cursor Bool := do
  if (← tokenAt start).kind = .leftParen then
    return (← closing start) = some (← minus stop 1)
  else return false

def predicate : Cursor Expression := do
  let start ← position
  discard (expressionUntil neverStops)
  let stop ← position
  let length ← minus stop start
  if (← wraps start stop) && 2 < length then expressionBetween (start + 1) (← minus stop 1)
  else expressionBetween start stop

end Cursor

namespace Layout

variable {α : Type} {K : Layout} {i j n start stop depth d : Nat} {t endToken : Token}
  {stops : StopRule}

/-! ## Tokens between positions -/

theorem each_at {f : Nat → Cursor α} {g : Nat → α}
    (h : ∀ j, start ≤ j → j < start + n → f j K.tape i = .ok (.ok (g j), i)) :
    Cursor.each f start n K.tape i = .ok (.ok ((List.range' start n).map g), i) := by
  induction n generalizing start with
  | zero => rfl
  | succ n ih =>
    have hmore : Cursor.each f (start + 1) n K.tape i = _ :=
      ih fun j hstart hj => h j (by omega) (by omega)
    exact (bind_of_ok (h start (Nat.le_refl _) (by omega))).trans (bind_of_ok hmore)

theorem take_left (h : start + n ≤ K.last) :
    (K.left start).take n = (List.range' start n).map K.token := by
  induction n generalizing start with
  | zero => rfl
  | succ n ih =>
    rw [left_of_lt (by omega), List.take_succ_cons, ih (by omega)]
    rfl

theorem tokensBetween_at (h : start + n ≤ K.last) (i : Nat) :
    Cursor.tokensBetween start (start + n) K.tape i = .ok (.ok ((K.left start).take n), i) := by
  rw [take_left h, Cursor.tokensBetween, Nat.add_sub_cancel_left]
  exact each_at fun j _ _ => tokenAt_at K j i

theorem getLast?_take_left (h : start + (n + 1) ≤ K.last) :
    ((K.left start).take (n + 1)).getLast? = some (K.token (start + n)) := by
  rw [take_left h, List.range'_concat, List.map_append, Nat.one_mul]
  exact List.getLast?_concat ..

theorem textBetween_at (h : start + n ≤ K.last) (i : Nat) :
    Cursor.textBetween start (start + n) K.tape i =
      .ok (.ok (K.ctx.textOf ((K.left start).take n)), i) := by
  have hlength := K.length_tokens
  cases n with
  | zero =>
    refine (bind_of_ok tokens_at).trans ?_
    rw [if_pos (.inl (Nat.le_refl _))]
    rfl
  | succ n =>
    have hhead : ((K.left start).take (n + 1)).head? = some (K.token start) := by
      rw [left_of_lt (by omega)]
      rfl
    refine (bind_of_ok tokens_at).trans ?_
    rw [if_neg (by omega), Context.textOf, hhead, getLast?_take_left h]
    exact (bind_of_ok (element_tokens_at (by omega) i)).trans
      ((bind_of_ok (minus_at (by omega) i)).trans (bind_of_ok (element_tokens_at (by omega) i)))

/-! ## References -/

def tokenBefore? (ts : List Token) (i : Nat) : Option Token := if i = 0 then none else ts[i - 1]?

def referenceAt? (ts : List Token) (i : Nat) : Option String :=
  ts[i]?.bind fun t => referenceOf? (tokenBefore? ts i) t ts[i + 1]?

theorem referenceAt_at {ts : List Token} (h : j < ts.length) (i : Nat) :
    Cursor.referenceAt ts j K.tape i = .ok (.ok (referenceAt? ts j), i) := by
  refine (bind_of_ok (element_at h i)).trans ?_
  rw [referenceAt?, List.getElem?_eq_getElem h, Option.bind_some, tokenBefore?]
  cases j with
  | zero => rfl
  | succ j =>
    have hj : j < ts.length := Nat.lt_of_succ_lt h
    rw [if_pos (Nat.succ_pos j), if_neg (Nat.succ_ne_zero j), Nat.add_sub_cancel,
      List.getElem?_eq_getElem hj]
    exact (bind_of_ok (minus_at (Nat.succ_pos j) i)).trans (bind_of_ok (bind_of_ok (element_at hj i)))

theorem filterMap_referenceAt? {ts : List Token} {k : Nat} (h : k + n = ts.length) :
    (List.range' k n).filterMap (referenceAt? ts) = referencesAfter (tokenBefore? ts k) (ts.drop k) := by
  induction n generalizing k with
  | zero => rw [List.drop_of_length_le (by omega)]; rfl
  | succ n ih =>
    have hk : k < ts.length := by omega
    have hname : referenceAt? ts k = referenceOf? (tokenBefore? ts k) ts[k] (ts.drop (k + 1)).head? := by
      rw [referenceAt?, List.getElem?_eq_getElem hk, List.head?_drop]
      rfl
    have hbefore : tokenBefore? ts (k + 1) = some ts[k] := List.getElem?_eq_getElem hk
    rw [List.drop_eq_getElem_cons hk, referencesAfter, ← hname, ← hbefore, ← ih (by omega),
      List.range'_succ]
    cases hname : referenceAt? ts k with
    | none => exact List.filterMap_cons_none hname
    | some name => exact List.filterMap_cons_some hname

theorem expressionBetween_at (h : start + n ≤ K.last) (i : Nat) :
    Cursor.expressionBetween start (start + n) K.tape i =
      .ok (.ok (K.ctx.expression ((K.left start).take n)), i) := by
  generalize hts : (K.left start).take n = ts
  have hnames : Cursor.each (Cursor.referenceAt ts) 0 ts.length K.tape i =
      .ok (.ok ((List.range' 0 ts.length).map (referenceAt? ts)), i) :=
    each_at fun j _ hj => referenceAt_at (by omega) i
  refine (bind_of_ok (hts ▸ tokensBetween_at h i)).trans
    ((bind_of_ok (hts ▸ textBetween_at h i)).trans ((bind_of_ok hnames).trans ?_))
  rw [List.filterMap_map, Function.id_comp, filterMap_referenceAt? (Nat.zero_add _)]
  rfl

/-! ## Ends -/

/-- At the last token and before it, there is a token in front. -/
theorem expressionLength_left (hi : i ≤ K.last) (previous : Option Token) :
    expressionLength stops K.ctx.stop previous depth (K.left i) =
      expressionLength stops K.ctx.stop previous depth (K.token i :: K.left (i + 1)) := by
  rcases Nat.lt_or_eq_of_le hi with hlt | rfl
  · rw [left_of_lt hlt]
  · rw [left_last, token_last]
    unfold expressionLength
    dsimp only
    rw [K.stop_kind]
    cases depth <;> rfl

def before (K : Layout) (start i : Nat) : Option Token := if start < i then some (K.token (i - 1)) else none

theorem previous_at (K : Layout) (start i : Nat) :
    Cursor.previous start K.tape i = .ok (.ok (K.before start i), i) := by
  refine (bind_of_ok position_at).trans ?_
  unfold before
  split
  · next h => exact (bind_of_ok (minus_at (by omega) i)).trans (bind_of_ok (tokenAt_at K (i - 1) i))
  · rfl

/-- What ends an expression outside of all brackets. -/
inductive Ends (stops : StopRule) (previous : Option Token) (t next : Token) : Prop where
  | eof (kind : t.kind = .eof)
  | comma (kind : t.kind = .comma)
  | closes (kind : closesBracket t.kind = true)
  | stops (not_opens : opensBracket t.kind = false) (rule : stops previous t next = true)

theorem Ends.expressionLength_eq {previous : Option Token} {ts : List Token}
    (h : Ends stops previous t (ts.headD endToken)) :
    expressionLength stops endToken previous 0 (t :: ts) = .ok 0 := by
  unfold expressionLength
  dsimp only
  cases h <;> split <;> simp_all [opensBracket, closesBracket]

/-- At a token an expression fails, ends or goes on. -/
theorem bracketsBehind_cases (hi : i ≤ K.last) (depth : Nat) :
    (∃ d, depth = d + 1 ∧ (K.token i).kind = .eof ∧
      Cursor.bracketsBehind stops start depth (K.token i) K.tape i = .ok (.error (.parse
        (K.ctx.locate (K.token i)) "unbalanced brackets in expression"), i)) ∨
    (depth = 0 ∧ Ends stops (K.before start i) (K.token i) (K.token (i + 1)) ∧
      Cursor.bracketsBehind stops start depth (K.token i) K.tape i = .ok (.ok none, i)) ∨
    ∃ d, i < K.last ∧ Passes (K.token i) depth d ∧
      (depth = 0 → opensBracket (K.token i).kind = false →
        stops (K.before start i) (K.token i) (K.token (i + 1)) = false) ∧
      Cursor.bracketsBehind stops start depth (K.token i) K.tape i = .ok (.ok (some d), i) := by
  unfold Cursor.bracketsBehind
  split
  · next heof =>
    cases depth with
    | zero => exact .inr (.inl ⟨rfl, .eof heof, rfl⟩)
    | succ d =>
      rw [if_pos (Nat.succ_pos d)]
      exact .inl ⟨d, rfl, heof, bind_of_ok (location_at hi)⟩
  next heof =>
  have hlt : i < K.last := lt_of_token heof
  split
  · next hopens => exact .inr (.inr ⟨_, hlt, .opens hopens, by simp [hopens], rfl⟩)
  next hopens =>
  rw [Bool.not_eq_true] at hopens
  split
  · next hcloses =>
    cases depth with
    | zero => exact .inr (.inl ⟨rfl, .closes hcloses, rfl⟩)
    | succ d =>
      rw [if_neg (Nat.succ_ne_zero d), minus_of_le (Nat.succ_pos d)]
      exact .inr (.inr ⟨d, hlt, .closes hcloses, nofun, rfl⟩)
  next hcloses =>
  rw [Bool.not_eq_true] at hcloses
  split
  · next hdepth =>
    exact .inr (.inr ⟨depth, hlt, .stays hopens hcloses heof (by omega), by omega, rfl⟩)
  next hdepth =>
  obtain rfl : depth = 0 := by omega
  split
  · next hcomma => exact .inr (.inl ⟨rfl, .comma hcomma, rfl⟩)
  next hcomma =>
  -- only the rule of its place can end the expression now
  rw [bind_of_ok (previous_at K start i), bind_of_ok (peek_at K 1 i)]
  split
  · next hstops => exact .inr (.inl ⟨rfl, .stops hopens hstops, rfl⟩)
  · next hstops =>
    rw [Bool.not_eq_true] at hstops
    exact .inr (.inr ⟨0, hlt, .stays hopens hcloses heof fun _ => hcomma, fun _ _ => hstops, rfl⟩)

/-- Where an expression ends that has so many open brackets in front of a position. -/
def expressionEnd (K : Layout) (stops : StopRule) (start depth i : Nat) :
    Except Error (Unit × List Token) :=
  match expressionLength stops K.ctx.stop (K.before start i) depth (K.left i) with
  | .ok n => .ok ((), K.left (i + n))
  | .error t => .error (.parse (K.ctx.locate t) "unbalanced brackets in expression")

theorem expressionEnd_of_passes (hstart : start ≤ i) (hi : i < K.last)
    (hpasses : Passes (K.token i) depth d)
    (hstops : depth = 0 → opensBracket (K.token i).kind = false →
      stops (K.before start i) (K.token i) (K.token (i + 1)) = false) :
    K.expressionEnd stops start depth i = K.expressionEnd stops start d (i + 1) := by
  have hbefore : K.before start (i + 1) = some (K.token i) := if_pos (Nat.lt_succ_of_le hstart)
  rw [expressionEnd, expressionEnd, left_of_lt hi, hbefore,
    hpasses.expressionLength_of_not_stops hstops]
  cases expressionLength stops K.ctx.stop (some (K.token i)) d (K.left (i + 1)) with
  | error t => rfl
  | ok n =>
    show Except.ok ((), K.left (i + (n + 1))) = Except.ok ((), K.left (i + 1 + n))
    rw [show i + (n + 1) = i + 1 + n by omega]

theorem turns_expressionRound (hstart : start ≤ i) (hi : i ≤ K.last) (depth : Nat) :
    ∃ o, Cursor.expressionRound stops start depth K.tape i = .ok o ∧
      K.Turns (K.expressionEnd stops start) depth i o := by
  rcases bracketsBehind_cases hi depth with
    ⟨d, rfl, heof, hread⟩ | ⟨rfl, hends, hread⟩ | ⟨d, hlt, hpasses, hstops, hread⟩
  · refine ⟨_, (bind_of_ok (current_at hi)).trans (bind_of_error hread), .error hi ?_⟩
    rw [expressionEnd, expressionLength_left hi]
    unfold expressionLength
    dsimp only
    rw [heof]
  · refine ⟨_, (bind_of_ok (current_at hi)).trans (bind_of_ok hread), .done hi ?_⟩
    rw [expressionEnd, expressionLength_left hi, hends.expressionLength_eq]
    rfl
  · exact ⟨_, (bind_of_ok (current_at hi)).trans ((bind_of_ok hread).trans (bind_of_ok (advance_at hlt))),
      .again (Nat.lt_succ_self i) hlt (expressionEnd_of_passes hstart hlt hpasses hstops)⟩

/-! ## Whole expressions -/

theorem run_express (us ts : List Token) :
    (Parser.express us).run K.ctx ts = .ok (K.ctx.expression us, ts) := rfl

/-- An expression is read as its tokens are, up to the position where these end. -/
theorem expressionUntil_cases (stops : StopRule) (hi : i ≤ K.last) :
    (∃ n, 0 < n ∧ i + n ≤ K.last ∧
      expressionLength stops K.ctx.stop none 0 (K.left i) = .ok n ∧
      (Parser.expressionTokens stops).run K.ctx (K.left i) = .ok ((K.left i).take n, K.left (i + n)) ∧
      Cursor.expressionUntil stops K.tape i = .ok (.ok (K.ctx.expression ((K.left i).take n)), i + n)) ∨
    ∃ e j, j ≤ K.last ∧ (Parser.expressionTokens stops).run K.ctx (K.left i) = .error e ∧
      Cursor.expressionUntil stops K.tape i = .ok (.error e, j) := by
  have hbefore : K.before i i = none := if_neg (Nat.lt_irrefl i)
  obtain ⟨o, hloop, hanswers⟩ : ∃ o, Cursor.loop (Cursor.expressionRound stops i) 0 K.tape i = .ok o ∧
      K.Answers o (K.expressionEnd stops i 0 i) :=
    loop_answers (fun depth j hij hj => turns_expressionRound hij hj depth) 0 hi
  have hcursor : Cursor.expressionUntil stops K.tape i = (Cursor.loop (Cursor.expressionRound stops i) 0 >>=
    fun _ => Cursor.position >>= fun stop => if stop = i then Cursor.expected "expression"
      else Cursor.expressionBetween i stop) K.tape i := rfl
  rw [expressionEnd, hbefore] at hanswers
  rw [hcursor, Parser.expressionTokens, Parser.run_bind, run_takeMeasured_left]
  cases hlength : expressionLength stops K.ctx.stop none 0 (K.left i) with
  | error t =>
    rw [hlength] at hanswers
    cases hanswers with
    | error e le => exact .inr ⟨_, _, le, rfl, bind_of_error hloop⟩
  | ok n =>
    rw [hlength] at hanswers
    have hn : i + n ≤ K.last := by
      have htake := (expressionLength_take hlength K.ctx.stop none).1
      rw [List.length_take, length_left] at htake
      omega
    obtain rfl := eq_of_answers hn hanswers
    rw [bind_of_ok hloop, bind_of_ok position_at]
    cases n with
    | zero =>
      obtain ⟨o, hfails, hanswers⟩ :=
        followsAt (r := (Cursor.expected "expression" : Cursor Expression))
          (p := Parser.expected "expression") hi
      rw [if_pos (Nat.add_zero i)]
      cases hanswers with
      | error e le => exact .inr ⟨_, _, le, rfl, hfails⟩
    | succ n =>
      have hne : ((K.left i).take (n + 1)).isEmpty = false := by
        rw [left_of_lt (by omega)]
        rfl
      rw [if_neg (by omega), expressionBetween_at hn]
      refine .inl ⟨n + 1, Nat.succ_pos n, hn, rfl, ?_, rfl⟩
      show (if ((K.left i).take (n + 1)).isEmpty then _ else _ : Parser (List Token)).run K.ctx _ = _
      rw [hne]
      rfl

instance follows_expressionUntil (stops : StopRule) :
    K.Follows (Cursor.expressionUntil stops) (Parser.expression stops) where
  at_position i hi := by
    rcases expressionUntil_cases stops hi with ⟨n, -, hn, -, hrun, hread⟩ | ⟨e, j, hj, hrun, hread⟩
    · refine followsAt_of_ok hn hread ?_
      rw [Parser.expression, Parser.run_bind_of_ok hrun]
      rfl
    · refine followsAt_of_error hj hread ?_
      rw [Parser.expression, Parser.run_bind, hrun]
      rfl

instance follows_groupedExpression : K.Follows Cursor.groupedExpression Parser.groupedExpression := by
  unfold Cursor.groupedExpression Parser.groupedExpression
  infer_instance

/-! ## Parentheses around a predicate -/

theorem closingRound_of_staysInside (h : Parser.StaysInside (K.token j) depth d) (i : Nat) :
    Cursor.closingRound (depth + 1, j) K.tape i = .ok (.ok (.again (d + 1, j + 1)), i) := by
  refine (bind_of_ok (tokenAt_at K j i)).trans ?_
  cases h with
  | opens kind => rw [kind]; rfl
  | closes kind =>
    rw [kind]
    exact bind_of_ok (minus_at (Nat.succ_pos _) i)
  | other not_opens not_closes not_eof =>
    generalize (K.token j).kind = kind at *
    cases kind <;> first | rfl | contradiction

/-- The index of the parenthesis that closes a group, in which so many others are open at an index. -/
def closer? (K : Layout) (depth j : Nat) : Option Nat :=
  match Parser.groupLength K.ctx.stop depth (K.left j) with
  | .ok n => some (j + n - 1)
  | .error _ => none

theorem closer?_of_staysInside (hj : j < K.last) (h : Parser.StaysInside (K.token j) depth d) :
    K.closer? depth j = K.closer? d (j + 1) := by
  rw [closer?, closer?, left_of_lt hj, h.groupLength_eq]
  cases Parser.groupLength K.ctx.stop d (K.left (j + 1)) with
  | error t => rfl
  | ok n =>
    show some (j + (n + 1) - 1) = some (j + 1 + n - 1)
    rw [show j + (n + 1) = j + 1 + n by omega]

/-- The position stays while the index goes on to the parenthesis or to the end. -/
theorem closing_at (hj : j ≤ K.last) (hn : K.last - j < n) (i : Nat) :
    Cursor.repeatAtMost Cursor.closingRound n (depth + 1, j) K.tape i =
      .ok (.ok (K.closer? depth j), i) := by
  induction n generalizing depth j with
  | zero => omega
  | succ n ih =>
    unfold Cursor.repeatAtMost
    by_cases heof : (K.token j).kind = .eof
    · have hround : Cursor.closingRound (depth + 1, j) K.tape i = .ok (.ok (.done none), i) := by
        refine (bind_of_ok (tokenAt_at K j i)).trans ?_
        rw [heof]
        rfl
      have hnone : K.closer? depth j = none := by
        rcases Nat.lt_or_eq_of_le hj with hlt | rfl
        · rw [closer?, left_of_lt hlt, Parser.groupLength.eq_def]
          simp only [heof]
        · rw [closer?, left_last]
          rfl
      rw [bind_of_ok hround, hnone]
      rfl
    have hlt : j < K.last := lt_of_token heof
    rcases openBehind_cases depth (K.token j) with ⟨hk, -⟩ | ⟨hk, rfl, -⟩ | ⟨d, hinside, -⟩
    · exact absurd hk heof
    · have hround : Cursor.closingRound (0 + 1, j) K.tape i = .ok (.ok (.done (some j)), i) := by
        refine (bind_of_ok (tokenAt_at K j i)).trans ?_
        rw [hk]
        exact bind_of_ok (minus_at (Nat.le_refl 1) i)
      have hsome : K.closer? 0 j = some j := by
        rw [closer?, left_of_lt hlt, Parser.groupLength.eq_def]
        simp only [hk]
        rfl
      rw [bind_of_ok hround, hsome]
      rfl
    · rw [bind_of_ok (closingRound_of_staysInside hinside i), closer?_of_staysInside hlt hinside]
      exact ih hlt (by omega)

theorem ne_eof_of_expressionLength {previous : Option Token} {ts : List Token}
    (h : expressionLength stops endToken previous depth ts = .ok n) : ∀ t ∈ ts.take n, t.kind ≠ .eof := by
  induction ts generalizing previous depth n with
  | nil => simp
  | cons t ts ih =>
    rcases expressionLength_cons h with ⟨rfl, -⟩ | ⟨m, d, rfl, hpasses, hmore⟩
    · simp
    · have ht : t.kind ≠ .eof := by
        cases hpasses with
        | opens kind | closes kind => rintro hk; rw [hk] at kind; cases kind
        | stays _ _ not_eof _ => exact not_eof
      rw [List.take_succ_cons]
      exact List.forall_mem_cons.2 ⟨ht, ih hmore⟩

theorem closesLast_close {ts : List Token} (hcloses : t.kind = .rightParen) (hn : n ≤ ts.length) :
    closesLast 0 (t :: ts.take n) = true ↔ Parser.groupLength endToken 0 (t :: ts) = .ok (n + 1) := by
  have hlast : closesLast 0 (t :: ts.take n) = (ts.take n).isEmpty := by
    conv_lhs => unfold closesLast
    rw [hcloses]
  have hgroup : Parser.groupLength endToken 0 (t :: ts) = .ok 1 := by
    rw [Parser.groupLength.eq_def]
    simp only [hcloses]
  rw [hlast, hgroup, List.isEmpty_iff, List.take_eq_nil_iff]
  constructor
  · rintro (rfl | rfl)
    · rfl
    · rw [Nat.le_zero.1 hn]
  · intro hone
    exact .inl (Nat.succ.inj (Except.ok.inj hone)).symm

/-- A group that ends with the last token of an expression is one that its last token closes. -/
theorem closesLast_take {ts : List Token} (hn : n ≤ ts.length) (h : ∀ t ∈ ts.take n, t.kind ≠ .eof) :
    closesLast depth (ts.take n) = true ↔ Parser.groupLength endToken depth ts = .ok n := by
  induction ts generalizing depth n with
  | nil => simp [closesLast, Parser.groupLength]
  | cons t ts ih =>
    cases n with
    | zero =>
      refine ⟨fun hzero => absurd hzero Bool.false_ne_true, fun hzero => ?_⟩
      rcases Parser.groupLength_cons hzero with ⟨-, -, h⟩ | ⟨m, d, h, -⟩ <;> cases h
    | succ n =>
      rw [List.take_succ_cons] at h ⊢
      obtain ⟨ht, hmore⟩ := List.forall_mem_cons.1 h
      have hinside {d : Nat} (hinside : Parser.StaysInside t depth d)
          (hlast : closesLast depth (t :: ts.take n) = closesLast d (ts.take n)) :
          closesLast depth (t :: ts.take n) = true ↔
            Parser.groupLength endToken depth (t :: ts) = .ok (n + 1) := by
        rw [hlast, hinside.groupLength_eq, ih (Nat.le_of_succ_le_succ hn) hmore]
        cases Parser.groupLength endToken d ts <;> simp [Except.map]
      by_cases hopens : t.kind = .leftParen
      · exact hinside (.opens hopens) (closesLast_opens hopens)
      by_cases hcloses : t.kind = .rightParen
      · cases depth with
        | succ depth => exact hinside (.closes hcloses) (closesLast_closes hcloses)
        | zero => exact closesLast_close hcloses (Nat.le_of_succ_le_succ hn)
      · exact hinside (.other hopens hcloses ht) (closesLast_other hopens hcloses)

theorem closing_of_opens (hi : i < K.last) (hopens : (K.token i).kind = .leftParen) (j : Nat) :
    Cursor.closing i K.tape j = .ok (.ok (K.closer? 0 (i + 1)), j) := by
  have hround : Cursor.closingRound (0, i) K.tape j = .ok (.ok (.again (1, i + 1)), j) := by
    refine (bind_of_ok (tokenAt_at K i j)).trans ?_
    rw [hopens]
    rfl
  have hrounds : K.last < K.rounds := K.lt_rounds
  show Cursor.repeatAtMost Cursor.closingRound K.rounds (0, i) K.tape j = _
  obtain ⟨n, hn⟩ := Nat.exists_eq_add_of_lt hrounds
  rw [hn]
  unfold Cursor.repeatAtMost
  rw [bind_of_ok hround]
  exact closing_at hi (by omega) j

/-- The last of so many tokens is the parenthesis that closes the first one. -/
theorem wraps_at (hi : i + (n + 1) ≤ K.last) (hne : ∀ t ∈ (K.left i).take (n + 1), t.kind ≠ .eof)
    (j : Nat) :
    Cursor.wraps i (i + (n + 1)) K.tape j = .ok (.ok (decide ((K.token i).kind = .leftParen ∧
      closesLast 0 ((K.left (i + 1)).take n) = true)), j) := by
  refine (bind_of_ok (tokenAt_at K i j)).trans ?_
  by_cases hopens : (K.token i).kind = .leftParen
  · rw [if_pos hopens]
    refine (bind_of_ok (closing_of_opens (by omega) hopens j)).trans
      ((bind_of_ok (minus_at (by omega) j)).trans ?_)
    have hlast : K.closer? 0 (i + 1) = some (i + (n + 1) - 1) ↔
        closesLast 0 ((K.left (i + 1)).take n) = true := by
      rw [left_of_lt (by omega), List.take_succ_cons] at hne
      have hgroup : _ ↔ Parser.groupLength K.ctx.stop 0 (K.left (i + 1)) = .ok n :=
        closesLast_take (by rw [length_left]; omega) (List.forall_mem_cons.1 hne).2
      rw [hgroup, closer?]
      cases Parser.groupLength K.ctx.stop 0 (K.left (i + 1)) with
      | error t => simp
      | ok m => simp
    simp only [hlast, hopens, true_and]
    rfl
  · rw [if_neg hopens, decide_eq_false fun h => hopens h.1]
    rfl

/-- Parentheses around all tokens of a predicate are left out. -/
theorem unwrap_take (hi : i + (n + 1) ≤ K.last) :
    unwrap ((K.left i).take (n + 1)) =
      if ((K.token i).kind = .leftParen ∧ closesLast 0 ((K.left (i + 1)).take n) = true) ∧ 2 < n + 1 then
        (K.left (i + 1)).take (n - 1)
      else (K.left i).take (n + 1) := by
  have hlength : ((K.left (i + 1)).take n).length = n := by
    rw [List.length_take, length_left]
    omega
  have hlast : ((K.left (i + 1)).take n).dropLast = (K.left (i + 1)).take (n - 1) := by
    rw [List.dropLast_eq_take, hlength, List.take_take, Nat.min_eq_left (Nat.sub_le n 1)]
  rw [left_of_lt (by omega), List.take_succ_cons, unwrap, hlast, List.length_cons, hlength]
  simp only [and_assoc]

instance follows_predicate : K.Follows Cursor.predicate Parser.predicate where
  at_position i hi := by
    unfold FollowsAt
    rw [Parser.predicate, Parser.run_bind]
    have hcursor : Cursor.predicate K.tape i = _ := bind_of_ok position_at
    rw [hcursor]
    rcases expressionUntil_cases neverStops hi with ⟨n, hn, hin, hlength, hrun, hread⟩ | ⟨e, j, hj, hrun, hread⟩
    · obtain ⟨n, rfl⟩ := Nat.exists_eq_succ_of_ne_zero (Nat.ne_of_gt hn)
      have hdiscard : discard (Cursor.expressionUntil neverStops) K.tape i = .ok (.ok (), i + (n + 1)) :=
        bind_of_ok hread
      have hwraps := wraps_at hin (ne_eof_of_expressionLength hlength) (i + (n + 1))
      rw [bind_of_ok hdiscard, bind_of_ok position_at, bind_of_ok (minus_at (Nat.le_add_right ..) _),
        bind_of_ok hwraps, hrun]
      show ∃ o, _ ∧ K.Answers o (.ok (K.ctx.expression (unwrap ((K.left i).take (n + 1))), _))
      rw [unwrap_take hin, Nat.add_sub_cancel_left]
      by_cases hinner : ((K.token i).kind = .leftParen ∧
          closesLast 0 ((K.left (i + 1)).take n) = true) ∧ 2 < n + 1
      · have hstop : i + (n + 1) - 1 = i + 1 + (n - 1) := by omega
        rw [if_pos hinner, if_pos (by simpa using hinner), bind_of_ok (minus_at (by omega) _), hstop,
          expressionBetween_at (by omega)]
        exact ⟨_, rfl, .value _ hin⟩
      · rw [if_neg hinner, if_neg (by simpa using hinner), expressionBetween_at hin]
        exact ⟨_, rfl, .value _ hin⟩
    · have hdiscard : discard (Cursor.expressionUntil neverStops) K.tape i = .ok (.error e, j) :=
        bind_of_error hread
      rw [bind_of_error hdiscard, hrun]
      exact ⟨_, rfl, .error e hj⟩

end Layout

end DdlCatalog.Grammar
