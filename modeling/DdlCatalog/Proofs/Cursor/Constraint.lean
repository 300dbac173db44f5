import DdlCatalog.Proofs.Cursor.Expression

/-! # Constraints by position
Whether `NOT` begins a clause of a reference is seen at the token behind it. -/

namespace DdlCatalog.Grammar

namespace Cursor

def referentialAction : Cursor ReferentialAction := do
  if ← acceptKeyword .CASCADE then return .cascade
  else if ← acceptKeyword .RESTRICT then return .restrict
  else if ← acceptKeyword .NO then
    expectKeyword .ACTION
    return .noAction
  else if ← acceptKeyword .SET then
    if ← acceptKeyword .NULL then return .setNull
    else if ← acceptKeyword .DEFAULT then return .setDefault
    else expected "NULL or DEFAULT"
  else
    expected "referential action"

def matchType : Cursor MatchType := do
  if ← acceptKeyword .FULL then return .full
  else if ← acceptKeyword .PARTIAL then return .partly
  else if ← acceptKeyword .SIMPLE then return .simple
  else expected "FULL, PARTIAL or SIMPLE"

def referenceOption : Cursor Unit := do
  let t ← current
  if t.kind = .identifier "use_alter" then advance
  else error s!"unknown foreign key PRAGMA option {t.describe}"

def referenceClause (r : Reference) (word : Token) : Cursor (Option Reference) := do
  match word.kind with
  | .keyword .MATCH =>
    advance
    let kind ← matchType
    return some { r with matchType := some kind }
  | .keyword .ON =>
    advance
    if ← acceptKeyword .UPDATE then
      let action ← referentialAction
      return some { r with onUpdate := some action }
    else if ← acceptKeyword .DELETE then
      let action ← referentialAction
      return some { r with onDelete := some action }
    else
      expected "UPDATE or DELETE"
  | .keyword .DEFERRABLE =>
    advance
    return some { r with deferrable := true }
  | .keyword .NOT =>
    if (← peek 1).isKeyword .DEFERRABLE then
      advance
      advance
      return some { r with deferrable := false }
    else return none
  | .keyword .INITIALLY =>
    advance
    if ← acceptKeyword .DEFERRED then return some { r with initiallyDeferred := true }
    else if ← acceptKeyword .IMMEDIATE then return some { r with initiallyDeferred := false }
    else expected "DEFERRED or IMMEDIATE"
  | .keyword .PRAGMA =>
    advance
    expect .leftParen
    let _ ← commaList referenceOption
    expect .rightParen
    return some { r with useAlter := true }
  | _ => return none

def reference : Cursor Reference := do
  let table ← objectName
  let columns ← if ← at? .leftParen then nameList else pure []
  clauses referenceClause (Reference.ofTable table columns)

/-- The column that the tokens between two positions name, if there is one token. -/
def singleName (start stop : Nat) : Cursor (Option String) := do
  if stop = start + 1 then return Parser.columnOf? [← element (← tokens) start] else return none

def operatorName : Cursor String := do
  match (← current).kind with
  | .operator op => advance; return op
  | _ => expected "operator"

def exclusionElement : Cursor ExclusionElement := do
  let start ← position
  let expression ← expressionUntil fun _ t _ => t.isKeyword .WITH
  let column ← singleName start (← position)
  expectKeyword .WITH
  let op ← operatorName
  return ⟨expression, column, op⟩

def accessMethod : Cursor (Option String) := do
  if ← acceptKeyword .USING then some <$> name else return none

def exclusion : Cursor Exclusion := do
  let method ← accessMethod
  expect .leftParen
  let elements ← commaList exclusionElement
  expect .rightParen
  let predicate ← if ← acceptKeyword .WHERE then some <$> groupedExpression else pure none
  return ⟨method, elements, predicate⟩

def constraintName : Cursor (Option String) := do
  if ← acceptKeyword .CONSTRAINT then some <$> name else return none

def tableConstraintKind : Cursor (List String × ConstraintDef) := do
  if ← acceptKeyword .PRIMARY then
    expectKeyword .KEY
    return (← nameList, .primaryKey)
  else if ← acceptKeyword .UNIQUE then
    let nulls ← nullsNotDistinct
    return (← nameList, .unique nulls)
  else if ← acceptKeyword .CHECK then
    return ([], .check (← groupedExpression))
  else if ← acceptKeyword .FOREIGN then
    expectKeyword .KEY
    let columns ← nameList
    expectKeyword .REFERENCES
    return (columns, .foreignKey (← reference))
  else if ← acceptKeyword .EXCLUDE then
    let e ← exclusion
    return (e.elements.filterMap (·.column), .exclusion e)
  else
    expected "PRIMARY KEY, UNIQUE, CHECK, FOREIGN KEY or EXCLUDE"

def tableConstraint : Cursor TableConstraint := do
  let l ← location
  let name ← constraintName
  let (columns, kind) ← tableConstraintKind
  return ⟨name, columns, kind, false, l⟩

end Cursor

namespace Layout

variable {α β σ : Type} {K : Layout} {i : Nat}

set_option synthInstance.maxSize 512 in
instance follows_referentialAction :
    K.Follows Cursor.referentialAction Parser.referentialAction := by
  unfold Cursor.referentialAction Parser.referentialAction
  infer_instance

instance follows_matchType : K.Follows Cursor.matchType Parser.matchType := by
  unfold Cursor.matchType Parser.matchType
  infer_instance

instance follows_referenceOption : K.Follows Cursor.referenceOption Parser.referenceOption := by
  unfold Cursor.referenceOption Parser.referenceOption
  infer_instance

/-- A clause that begins with two words, the second of which is seen before the first is taken. -/
instance begins_pair (word : Token) (w : Token.Keyword) (s : σ) :
    K.Begins word (do
      if (← Cursor.peek 1).isKeyword w then
        Cursor.advance
        Cursor.advance
        return some s
      else return none) (do if ← Parser.acceptKeyword w then return some s else return none) where
  at_word i hi _ := by
    refine beginsAt_of_read (peek_at K 1 i) ?_
    unfold BeginsAt
    by_cases hw : (K.token (i + 1)).kind = .keyword w
    · have hlt : i + 1 < K.last := lt_of_token (by rw [hw]; exact nofun)
      have hword : (K.token (i + 1)).isKeyword w = true := decide_eq_true hw
      have hrun : (Parser.accept (.keyword w)).run K.ctx (K.token (i + 1) :: K.left (i + 1 + 1)) = _ :=
        Parser.run_accept_of_eq hw
      rw [← left_of_lt hlt] at hrun
      rw [if_pos hword, Parser.acceptKeyword, Parser.run_bind_of_ok hrun]
      exact ⟨_, (bind_of_ok (advance_at hi)).trans (bind_of_ok (advance_at hlt)),
        .goes s (Nat.lt_succ_of_lt (Nat.lt_succ_self i)) hlt⟩
    · have hword : ¬ (K.token (i + 1)).isKeyword w = true := mt of_decide_eq_true hw
      rw [if_neg hword, Parser.acceptKeyword, Parser.run_bind_of_ok (Parser.run_accept_of_ne hw)]
      exact ⟨_, rfl, .stays _⟩

instance begins_referenceClause (r : Reference) (word : Token) :
    K.Begins word (Cursor.referenceClause r word) (Parser.referenceClause r word) := by
  unfold Parser.referenceClause
  split
  case h_7 =>
    unfold Cursor.referenceClause
    split <;> first | contradiction | infer_instance
  all_goals
    next hword =>
    unfold Cursor.referenceClause
    rw [hword]
    infer_instance

instance follows_reference : K.Follows Cursor.reference Parser.reference := by
  have hclauses (r : Reference) : K.Follows (Cursor.clauses Cursor.referenceClause r)
      (Parser.clauses Parser.referenceClause r) := by
    refine follows_clauses (fun r => ?_) r
    rw [Cursor.referenceClause, K.stop_kind]
  unfold Cursor.reference Parser.reference
  infer_instance

instance follows_operatorName : K.Follows Cursor.operatorName Parser.operatorName := by
  refine follows_next fun t => ?_
  cases t.kind <;> dsimp only <;> infer_instance

theorem columnOf?_of_length {ts : List Token} (h : ts.length ≠ 1) : Parser.columnOf? ts = none := by
  match ts with
  | [] | _ :: _ :: _ => rfl
  | [_] => exact absurd rfl h

theorem singleName_at {n : Nat} (h : i + n ≤ K.last) (j : Nat) :
    Cursor.singleName i (i + n) K.tape j = .ok (.ok (Parser.columnOf? ((K.left i).take n)), j) := by
  unfold Cursor.singleName
  by_cases hn : n = 1
  · subst hn
    rw [if_pos rfl, left_of_lt h]
    exact (bind_of_ok tokens_at).trans (bind_of_ok (element_tokens_at (by omega) j))
  · have hlength : ((K.left i).take n).length ≠ 1 := by
      rw [List.length_take, length_left]
      omega
    rw [if_neg (by omega), columnOf?_of_length hlength]
    rfl

instance follows_exclusionElement : K.Follows Cursor.exclusionElement Parser.exclusionElement where
  at_position i hi := by
    refine followsAt_of_read position_at ?_
    rcases expressionUntil_cases (fun _ t _ => t.isKeyword .WITH) hi with
      ⟨n, -, hn, -, hrun, hread⟩ | ⟨e, j, hj, hrun, hread⟩
    · refine followsAt_of_step hread hrun ?_
      refine followsAt_of_read position_at (followsAt_of_read (singleName_at hn (i + n)) ?_)
      exact followsAt_of_keep (run_express _ _) (followsAt hn)
    · exact followsAt_of_failing hj hread hrun

instance follows_accessMethod : K.Follows Cursor.accessMethod Parser.accessMethod := by
  unfold Cursor.accessMethod Parser.accessMethod
  infer_instance

instance follows_exclusion : K.Follows Cursor.exclusion Parser.exclusion := by
  unfold Cursor.exclusion Parser.exclusion
  infer_instance

instance follows_constraintName : K.Follows Cursor.constraintName Parser.constraintName := by
  unfold Cursor.constraintName Parser.constraintName
  infer_instance

set_option synthInstance.maxSize 1024 in
instance follows_tableConstraintKind :
    K.Follows Cursor.tableConstraintKind Parser.tableConstraintKind := by
  unfold Cursor.tableConstraintKind Parser.tableConstraintKind
  infer_instance

instance follows_tableConstraint : K.Follows Cursor.tableConstraint Parser.tableConstraint := by
  unfold Cursor.tableConstraint Parser.tableConstraint
  infer_instance

end Layout

end DdlCatalog.Grammar
