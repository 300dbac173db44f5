import DdlCatalog.Grammar.Routine
import DdlCatalog.Proofs.Cursor.Expression

/-! # Routines by position
A parameter is first read as a type without a name. Where that is not all of it, the cursor goes back to
where the parameter starts. -/

namespace DdlCatalog.Grammar

namespace Cursor

variable {α : Type}

def parameterMode : Cursor ParameterMode := do
  if ← acceptKeyword .IN then return .input
  else if ← acceptKeyword .OUT then return .output
  else if ← acceptKeyword .INOUT then return .both
  else if ← acceptKeyword .VARIADIC then return .variadic
  else return .input

/-- A value that has to stand before a certain token. Otherwise, and after an error, the cursor goes back. -/
def onlyBefore (r : Cursor α) (condition : Token → Bool) : Cursor (Option α) := do
  let start ← position
  match ← attempt r with
  | .ok a =>
    if condition (← current) then return some a
    else
      moveTo start
      return none
  | .error _ =>
    moveTo start
    return none

def parameterType : Cursor (Option String × TypeRef) := do
  match ← onlyBefore typeRef endsParameter with
  | some t => return (none, t)
  | none =>
    let name ← name
    return (some name, ← typeRef)

def parameterDefault : Cursor (Option Expression) := do
  if ← acceptKeyword .DEFAULT then some <$> expressionUntil neverStops
  else if ← accept (.operator "=") then some <$> expressionUntil neverStops
  else return none

def parameter : Cursor Parameter := do
  let mode ← parameterMode
  let (name, t) ← parameterType
  return ⟨mode, name, t, ← parameterDefault⟩

def parameters : Cursor (List Parameter) := do
  expect .leftParen
  if ← accept .rightParen then return []
  else
    let ps ← commaList parameter
    expect .rightParen
    return ps

def resultColumn : Cursor (String × TypeRef) := do
  let name ← name
  return (name, ← typeRef)

def returns : Cursor Returns := do
  if ← acceptKeyword .SETOF then return .setOf (← typeRef)
  else if ← acceptKeyword .TABLE then
    expect .leftParen
    let columns ← commaList resultColumn
    expect .rightParen
    return .table columns
  else
    return .scalar (← typeRef)

def language : Cursor String := do
  match (← current).kind with
  | .string s => advance; return Text.lower s
  | _ => name

def onNullInput : Cursor Unit := do
  expectKeyword .ON
  expectKeyword .NULL
  expectKeyword .INPUT

def securityDefiner : Cursor Bool := do
  if ← acceptKeyword .DEFINER then return true
  else
    expectKeyword .INVOKER
    return false

def quotedBody : Cursor RoutineBody := do
  let start ← position
  let body (kind : BodyKind) (text : String) : Cursor RoutineBody := do
    advance
    if ← at? .comma then unsupported "AS 'object file', 'link symbol'"
    else return ⟨kind, text, ← textBetween start (← position)⟩
  match (← current).kind with
  | .dollarQuoted tag text => body (.dollarQuoted tag) text
  | .string text => body .stringLiteral text
  | _ => expected "routine body"

def expressionBody : Cursor RoutineBody := do
  let start ← position
  advance
  let e ← expressionUntil neverStops
  return ⟨.sqlStandard, e.text, ← textBetween start (← position)⟩

def routineClause (d : RoutineDraft) (word : Token) : Cursor (Option RoutineDraft) := do
  let l ← locate word
  match word.kind with
  | .eof => return none
  | .keyword .LANGUAGE =>
    advance
    let language ← language
    return some (d.modify fun a => { a with language := some language })
  | .keyword .IMMUTABLE =>
    advance
    return some (d.modify ({ · with volatility := some .immutable }))
  | .keyword .STABLE =>
    advance
    return some (d.modify ({ · with volatility := some .stable }))
  | .keyword .VOLATILE =>
    advance
    return some (d.modify ({ · with volatility := some .volatile }))
  | .keyword .STRICT =>
    advance
    return some (d.modify ({ · with strict := true }))
  | .keyword .CALLED =>
    advance
    onNullInput
    return some (d.modify ({ · with strict := false }))
  | .keyword .RETURNS =>
    advance
    expectKeyword .NULL
    onNullInput
    return some (d.modify ({ · with strict := true }))
  | .keyword .SECURITY =>
    advance
    let definer ← securityDefiner
    return some (d.modify fun a => { a with securityDefiner := definer })
  | .keyword .LEAKPROOF =>
    advance
    return some (d.modify ({ · with leakproof := true }))
  | .keyword .NOT =>
    advance
    expectKeyword .LEAKPROOF
    return some (d.modify ({ · with leakproof := false }))
  | .keyword .PARALLEL =>
    advance
    let parallel ← name
    return some (d.modify fun a => { a with parallel := some parallel })
  | .keyword .COST =>
    advance
    let cost ← number
    return some (d.modify fun a => { a with cost := some cost })
  | .keyword .ROWS =>
    advance
    let rows ← number
    return some (d.modify fun a => { a with rows := some rows })
  | .keyword .AS =>
    if d.body.isSome then errorAt l "duplicate routine body"
    else
      advance
      return some { d with body := some (← quotedBody) }
  | .keyword .RETURN =>
    if d.body.isSome then errorAt l "duplicate routine body"
    else return some { d with body := some (← expressionBody) }
  | .keyword .BEGIN =>
    if (← peek 1).isKeyword .ATOMIC then unsupported "BEGIN ATOMIC routine body"
    else errorAt l s!"unexpected {word.describe} in routine definition"
  | .keyword .SET => unsupported "SET configuration_parameter in routine definition"
  | _ => errorAt l s!"unexpected {word.describe} in routine definition"

def functionClause (d : RoutineDraft) (word : Token) : Cursor (Option RoutineDraft) := do
  if word.isKeyword .RETURNS then
    if (← peek 1).isKeyword .NULL then routineClause d word
    else if d.returns.isSome then errorAt (← locate word) "duplicate RETURNS clause"
    else
      advance
      return some { d with returns := some (← returns) }
  else routineClause d word

def procedureClause (d : RoutineDraft) (word : Token) : Cursor (Option RoutineDraft) := do
  if word.isKeyword .RETURNS then
    errorAt (← locate word) "procedures cannot have a RETURNS clause"
  else routineClause d word

def createFunction (orReplace : Bool) : Cursor CreateFunction := do
  expectKeyword .FUNCTION
  let name ← objectName
  let ps ← parameters
  let d ← clauses functionClause RoutineDraft.empty
  match d.body with
  | some body => return ⟨name, orReplace, ps, d.returns, d.attributes, body⟩
  | none => error s!"function {name} has no body"

def createProcedure (orReplace : Bool) : Cursor CreateProcedure := do
  expectKeyword .PROCEDURE
  let name ← objectName
  let ps ← parameters
  let d ← clauses procedureClause RoutineDraft.empty
  match d.body with
  | some body => return ⟨name, orReplace, ps, d.attributes, body⟩
  | none => error s!"procedure {name} has no body"

end Cursor

namespace Layout

variable {α σ : Type} {K : Layout} {i j : Nat} {r : Cursor α} {p : Parser α}

instance follows_parameterMode : K.Follows Cursor.parameterMode Parser.parameterMode := by
  unfold Cursor.parameterMode Parser.parameterMode
  infer_instance

theorem moveTo_at (hi : i ≤ K.last) (j : Nat) : Cursor.moveTo i K.tape j = .ok (.ok (), i) := by
  unfold Cursor.moveTo
  rw [if_pos (by rw [length_tokens]; omega)]

theorem attempt_at {answer : Except Error α} (h : r K.tape i = .ok (answer, j)) :
    Cursor.attempt r K.tape i = .ok (.ok answer, j) := by
  rw [Cursor.attempt, h]

/-- Going back to a position leaves the tokens that there were. -/
instance follows_onlyBefore [K.Follows r p] (condition : Token → Bool) :
    K.Follows (Cursor.onlyBefore r condition) (Parser.onlyBefore p condition) where
  at_position i hi := by
    obtain ⟨o, hr, hanswers⟩ := followsAt (r := r) (p := p) hi
    have hrun := Parser.run_onlyBefore p condition K.ctx (K.left i)
    have hback (j : Nat) : (Cursor.moveTo i >>= fun _ => (pure none : Cursor (Option α))) K.tape j =
        .ok (.ok none, i) := bind_of_ok (moveTo_at hi j)
    refine followsAt_of_read position_at ?_
    generalize p.run K.ctx (K.left i) = res at hanswers hrun
    cases hanswers with
    | @value a j le =>
      by_cases hends : condition (K.token j) = true
      · refine followsAt_of_ok le ?_ (hrun.trans (if_pos hends))
        refine (bind_of_ok (attempt_at hr)).trans ((bind_of_ok (current_at le)).trans ?_)
        rw [if_pos hends]
        rfl
      · refine followsAt_of_ok hi ?_ (hrun.trans (if_neg hends))
        refine (bind_of_ok (attempt_at hr)).trans ((bind_of_ok (current_at le)).trans ?_)
        rw [if_neg hends]
        exact hback j
    | @error e j le => exact followsAt_of_ok hi ((bind_of_ok (attempt_at hr)).trans (hback j)) hrun

instance follows_parameterType : K.Follows Cursor.parameterType Parser.parameterType := by
  refine follows_next fun t? => ?_
  cases t? <;> dsimp only <;> infer_instance

instance follows_parameterDefault : K.Follows Cursor.parameterDefault Parser.parameterDefault := by
  unfold Cursor.parameterDefault Parser.parameterDefault
  infer_instance

instance follows_parameter : K.Follows Cursor.parameter Parser.parameter := by
  unfold Cursor.parameter Parser.parameter
  infer_instance

instance follows_parameters : K.Follows Cursor.parameters Parser.parameters := by
  unfold Cursor.parameters Parser.parameters
  infer_instance

instance follows_resultColumn : K.Follows Cursor.resultColumn Parser.resultColumn := by
  unfold Cursor.resultColumn Parser.resultColumn
  infer_instance

instance follows_returns : K.Follows Cursor.returns Parser.returns := by
  unfold Cursor.returns Parser.returns
  infer_instance

instance follows_language : K.Follows Cursor.language Parser.language := by
  refine follows_next fun t => ?_
  cases t.kind <;> dsimp only <;> infer_instance

instance follows_onNullInput : K.Follows Cursor.onNullInput Parser.onNullInput := by
  unfold Cursor.onNullInput Parser.onNullInput
  infer_instance

instance follows_securityDefiner : K.Follows Cursor.securityDefiner Parser.securityDefiner := by
  unfold Cursor.securityDefiner Parser.securityDefiner
  infer_instance

/-- A body in quotes is one token. -/
theorem followsAt_bodyToken (hi : i < K.last) (kind : BodyKind) (text : String) :
    K.FollowsAt i (do
      Cursor.advance
      if ← Cursor.at? .comma then Cursor.unsupported "AS 'object file', 'link symbol'"
      else return ⟨kind, text, ← Cursor.textBetween i (← Cursor.position)⟩ : Cursor RoutineBody) (do
      Parser.advance
      if ← Parser.at? .comma then Parser.unsupported "AS 'object file', 'link symbol'"
      else return ⟨kind, text, K.ctx.textOf [K.token i]⟩) := by
  have hrun : Parser.advance.run K.ctx (K.left i) = .ok ((), K.left (i + 1)) := by
    rw [← tail_left]
    rfl
  have htext : Cursor.textBetween i (i + 1) K.tape (i + 1) =
      .ok (.ok (K.ctx.textOf [K.token i]), i + 1) := by
    rw [textBetween_at hi, left_of_lt hi]
    rfl
  refine followsAt_of_step (advance_at hi) hrun ?_
  refine followsAt_of_step (at?_at .comma hi) (run_at?_left .comma (i + 1)) ?_
  split
  · exact followsAt hi
  · exact followsAt_of_read position_at (followsAt_of_read htext (followsAt hi))

instance follows_quotedBody : K.Follows Cursor.quotedBody Parser.quotedBody where
  at_position i hi := by
    refine followsAt_of_read position_at (followsAt_of_read (current_at hi) ?_)
    unfold FollowsAt Parser.run Parser.quotedBody
    have htoken : K.ctx.current (K.left i) = K.token i := rfl
    dsimp only
    rw [htoken]
    have hlt : (K.token i).kind ≠ .eof → i < K.last := lt_of_token
    generalize hkind : (K.token i).kind = kind at hlt
    cases kind with
    | dollarQuoted tag text => exact followsAt_bodyToken (hlt nofun) (.dollarQuoted tag) text
    | string text => exact followsAt_bodyToken (hlt nofun) .stringLiteral text
    | _ => exact followsAt (r := Cursor.expected "routine body") (p := Parser.expected "routine body") hi

theorem run_expressionBody (word : Token) (ts : List Token) :
    (Parser.expressionBody word).run K.ctx ts =
      (do
        let taken ← Parser.expressionTokens neverStops
        return ⟨.sqlStandard, K.ctx.textOf taken, K.ctx.textOf (word :: taken)⟩ :
          Parser RoutineBody).run K.ctx ts := rfl

/-- The source of the body begins with the word in front of the expression. -/
instance begins_expressionBody (d : RoutineDraft) (word : Token) :
    K.Begins word (do return some { d with body := some (← Cursor.expressionBody) })
      (do return some { d with body := some (← Parser.expressionBody word) }) where
  at_word i hi hword := by
    have hcursor : Cursor.expressionBody K.tape i = _ :=
      (bind_of_ok position_at).trans (bind_of_ok (advance_at hi))
    unfold BeginsAt
    rw [Parser.run_bind, run_expressionBody, Parser.run_bind]
    rcases expressionUntil_cases neverStops (Nat.succ_le_of_lt hi) with
      ⟨n, -, hn, -, hrun, hread⟩ | ⟨e, j, hj, hrun, hread⟩
    · have htext : Cursor.textBetween i (i + 1 + n) K.tape (i + 1 + n) =
          .ok (.ok (K.ctx.textOf (word :: (K.left (i + 1)).take n)), i + 1 + n) := by
        have hlength : i + 1 + n = i + (n + 1) := by omega
        rw [hlength, textBetween_at (by omega), left_of_lt hi, hword]
        rfl
      rw [bind_of_ok hread, bind_of_ok position_at, bind_of_ok htext] at hcursor
      rw [hrun]
      exact ⟨_, bind_of_ok hcursor, .goes _ (by omega) hn⟩
    · rw [bind_of_error hread] at hcursor
      rw [hrun]
      exact ⟨_, bind_of_error hcursor, .error e hj⟩

/-- What is told by the token behind a word. -/
instance begins_ahead {word : Token} {s s' : Cursor (Option σ)} {q q' : Parser (Option σ)}
    (w : Token.Keyword) [hs : K.Begins word s q] [hs' : K.Begins word s' q'] :
    K.Begins word (do if (← Cursor.peek 1).isKeyword w then s else s')
      (do if ← Parser.atKeyword w then q else q') where
  at_word i hi hword := by
    refine beginsAt_of_read (peek_at K 1 i) ?_
    have hrun : (Parser.atKeyword w).run K.ctx (K.left (i + 1)) =
      .ok ((K.token (i + 1)).isKeyword w, K.left (i + 1)) := rfl
    unfold BeginsAt
    rw [Parser.run_bind_of_ok hrun]
    split
    · exact hs.at_word i hi hword
    · exact hs'.at_word i hi hword

instance begins_routineClause (d : RoutineDraft) (word : Token) :
    K.Begins word (Cursor.routineClause d word) (Parser.routineClause d word) where
  at_word i hi hword := by
    refine beginsAt_of_read (locate_at K word i) ?_
    unfold BeginsAt Parser.run Parser.routineClause Parser.withBody
    dsimp only
    generalize K.ctx.locate word = l
    generalize hkind : word.kind = kind
    -- the two matches are split one after the other
    suffices h : ∀ q, q = _ → K.Begins word _ q from (h _ rfl).at_word i hi hword
    intro q hq
    split
    case h_19 => split at hq <;> first | contradiction | (subst hq; infer_instance)
    all_goals
      subst hq
      infer_instance

theorem routineClause_stop (d : RoutineDraft) : Cursor.routineClause d K.ctx.stop = pure none := by
  unfold Cursor.routineClause
  rw [K.stop_kind]
  rfl

theorem isKeyword_stop (w : Token.Keyword) : K.ctx.stop.isKeyword w = false := by
  rw [Token.isKeyword, K.stop_kind]
  rfl

instance begins_functionClause (d : RoutineDraft) (word : Token) :
    K.Begins word (Cursor.functionClause d word) (Parser.functionClause d word) where
  at_word i hi hword := by
    have hrun : (Parser.functionClause d word).run K.ctx (K.left (i + 1)) =
        (if word.isKeyword .RETURNS then
          if (K.token (i + 1)).isKeyword .NULL then Parser.routineClause d word
          else if d.returns.isSome then
            Parser.errorAt (K.ctx.locate word) "duplicate RETURNS clause"
          else do return some { d with returns := some (← Parser.returns) }
        else Parser.routineClause d word).run K.ctx (K.left (i + 1)) := by
      have htoken : K.ctx.current (K.left (i + 1)) = K.token (i + 1) := rfl
      unfold Parser.functionClause Parser.run
      dsimp only
      rw [htoken]
      cases word.isKeyword .RETURNS <;> cases (K.token (i + 1)).isKeyword .NULL <;>
        cases d.returns.isSome <;> rfl
    unfold BeginsAt Cursor.functionClause
    rw [hrun]
    split
    · refine beginsAt_of_read (peek_at K 1 i) ?_
      split
      · exact Begins.at_word i hi hword
      split
      · exact beginsAt_of_read (locate_at K word i) (Begins.at_word i hi hword)
      · exact Begins.at_word i hi hword
    · exact Begins.at_word i hi hword

instance begins_procedureClause (d : RoutineDraft) (word : Token) :
    K.Begins word (Cursor.procedureClause d word) (Parser.procedureClause d word) where
  at_word i hi hword := by
    have hrun : (Parser.procedureClause d word).run K.ctx (K.left (i + 1)) =
        (if word.isKeyword .RETURNS then
          Parser.errorAt (K.ctx.locate word) "procedures cannot have a RETURNS clause"
        else Parser.routineClause d word).run K.ctx (K.left (i + 1)) := by
      unfold Parser.procedureClause Parser.run
      dsimp only
      split <;> rfl
    unfold BeginsAt Cursor.procedureClause
    rw [hrun]
    split
    · exact beginsAt_of_read (locate_at K word i) (Begins.at_word i hi hword)
    · exact Begins.at_word i hi hword

instance follows_createFunction (orReplace : Bool) :
    K.Follows (Cursor.createFunction orReplace) (Parser.createFunction orReplace) := by
  have hclauses (d : RoutineDraft) : K.Follows (Cursor.clauses Cursor.functionClause d)
      (Parser.clauses Parser.functionClause d) := by
    refine follows_clauses (fun d => ?_) d
    unfold Cursor.functionClause
    rw [isKeyword_stop, routineClause_stop]
    rfl
  refine follows_next fun _ => follows_next fun name => follows_next fun ps => follows_next fun d => ?_
  cases d.body <;> dsimp only <;> infer_instance

instance follows_createProcedure (orReplace : Bool) :
    K.Follows (Cursor.createProcedure orReplace) (Parser.createProcedure orReplace) := by
  have hclauses (d : RoutineDraft) : K.Follows (Cursor.clauses Cursor.procedureClause d)
      (Parser.clauses Parser.procedureClause d) := by
    refine follows_clauses (fun d => ?_) d
    unfold Cursor.procedureClause
    rw [isKeyword_stop, routineClause_stop]
    rfl
  refine follows_next fun _ => follows_next fun name => follows_next fun ps => follows_next fun d => ?_
  cases d.body <;> dsimp only <;> infer_instance

end Layout

end DdlCatalog.Grammar
