import DdlCatalog.Grammar.Index
import DdlCatalog.Proofs.Cursor.Constraint

/-! # Indexes by position
The expression of a call or of a name is made of the tokens between the positions in front of it and behind
it. -/

namespace DdlCatalog.Grammar

namespace Cursor

def call : Cursor Unit := do
  discard name
  if ← accept .dot then discard name
  group

def indexKey : Cursor (Expression × Option String) := do
  let start ← position
  if ← at? .leftParen then
    return (← groupedExpression, none)
  else
    let next := (← peek 1).kind
    if next = .leftParen ∨ next = .dot then
      call
      return (← expressionBetween start (← position), none)
    else
      let column ← name
      return (← expressionBetween start (← position), some column)

def collation : Cursor (Option String) := do
  if ← acceptKeyword .COLLATE then some <$> name else return none

def operatorClass : Cursor (Option String) := do
  match (← current).kind with
  | .identifier _ => some <$> name
  | .quotedIdentifier _ => some <$> name
  | _ => return none

def sortOrder : Cursor (Option SortOrder) := do
  if ← acceptKeyword .ASC then return some .asc
  else if ← acceptKeyword .DESC then return some .desc
  else return none

def nullsOrder : Cursor (Option NullsOrder) := do
  if ← acceptKeyword .NULLS then
    if ← acceptKeyword .FIRST then return some .first
    else if ← acceptKeyword .LAST then return some .last
    else expected "FIRST or LAST"
  else
    return none

def indexElement : Cursor IndexElement := do
  let (expression, column) ← indexKey
  return ⟨expression, column, ← collation, ← operatorClass, ← sortOrder, ← nullsOrder⟩

def indexName (exists? : Bool) : Cursor (Option String) := do
  if ← atKeyword .ON then
    if exists? then error "IF NOT EXISTS requires an index name" else return none
  else
    some <$> name

def createIndex (unique : Bool) : Cursor CreateIndex := do
  expectKeyword .INDEX
  let concurrently ← acceptKeyword .CONCURRENTLY
  let exists? ← ifNotExists
  let name ← indexName exists?
  expectKeyword .ON
  let only ← acceptKeyword .ONLY
  let table ← objectName
  let method ← accessMethod
  expect .leftParen
  let elements ← commaList indexElement
  expect .rightParen
  let included ← if ← acceptKeyword .INCLUDE then nameList else pure []
  let nulls ← nullsNotDistinct
  let predicate ← if ← acceptKeyword .WHERE then some <$> predicate else pure none
  return ⟨name, exists?, unique, concurrently, only, table, method, elements, included, nulls,
    predicate⟩

end Cursor

namespace Layout

variable {α β : Type} {K : Layout} {i j n : Nat} {r : Cursor α} {p : Parser α}

/-- The tokens that are taken are those between two positions. -/
theorem taking_cases (h : K.Follows r p) (hi : i ≤ K.last) :
    (∃ a n, i + n ≤ K.last ∧ r K.tape i = .ok (.ok a, i + n) ∧
      (Parser.taking p).run K.ctx (K.left i) = .ok (((K.left i).take n, a), K.left (i + n))) ∨
    ∃ e j, j ≤ K.last ∧ r K.tape i = .ok (.error e, j) ∧
      (Parser.taking p).run K.ctx (K.left i) = .error e := by
  obtain ⟨o, hr, hanswers⟩ := h.at_position i hi
  rw [Parser.run_taking]
  generalize hp : p.run K.ctx (K.left i) = res at hanswers
  cases hanswers with
  | value a le =>
    obtain ⟨n, rfl⟩ := Nat.exists_eq_add_of_le (le_of_run hi hp)
    have hn : (K.left i).length - (K.left (i + n)).length = n := by
      rw [length_left, length_left]
      omega
    refine .inl ⟨a, n, le, hr, ?_⟩
    show Except.ok (((K.left i).take ((K.left i).length - (K.left (i + n)).length), a), _) = _
    rw [hn]
  | error e le => exact .inr ⟨e, _, le, hr, rfl⟩

theorem followsAt_expressionBetween {k : Expression → Cursor β} {k' : Expression → Parser β}
    (hn : i + n ≤ K.last) [∀ e, K.Follows (k e) (k' e)] :
    K.FollowsAt (i + n) (do k (← Cursor.expressionBetween i (← Cursor.position)))
      (do k' (← Parser.express ((K.left i).take n))) :=
  followsAt_of_read position_at <|
    followsAt_of_step (expressionBetween_at hn (i + n)) (run_express _ _) (followsAt hn)

instance follows_indexKey : K.Follows Cursor.indexKey Parser.indexKey where
  at_position i hi := by
    have hcall : K.Follows Cursor.call (do
        discard Parser.name
        if ← Parser.accept .dot then discard Parser.name
        Parser.group) := by
      unfold Cursor.call
      dsimp only
      infer_instance
    refine followsAt_of_read position_at ?_
    refine followsAt_of_step (at?_at .leftParen hi) (run_at?_left .leftParen i) ?_
    split
    · exact followsAt hi
    refine followsAt_of_step (peek_at K 1 i) (run_following_left K i) ?_
    dsimp only
    split
    · rcases taking_cases hcall hi with ⟨_, n, hn, hread, hrun⟩ | ⟨e, j, hj, hread, hrun⟩
      · have htokens : Parser.callTokens.run K.ctx (K.left i) = .ok ((K.left i).take n, K.left (i + n)) :=
          Parser.run_bind_of_ok hrun
        exact followsAt_of_step hread htokens (followsAt_expressionBetween hn)
      · have htokens : Parser.callTokens.run K.ctx (K.left i) = .error e := by
          rw [Parser.callTokens, Parser.run_bind, hrun]
          rfl
        exact followsAt_of_failing hj hread htokens
    · rcases taking_cases follows_name hi with ⟨column, n, hn, hread, hrun⟩ | ⟨e, j, hj, hread, hrun⟩
      · exact followsAt_of_step hread hrun (followsAt_expressionBetween hn)
      · exact followsAt_of_failing hj hread hrun

instance follows_collation : K.Follows Cursor.collation Parser.collation := by
  unfold Cursor.collation Parser.collation
  infer_instance

instance follows_operatorClass : K.Follows Cursor.operatorClass Parser.operatorClass := by
  refine follows_next fun t => ?_
  cases t.kind <;> dsimp only <;> infer_instance

instance follows_sortOrder : K.Follows Cursor.sortOrder Parser.sortOrder := by
  unfold Cursor.sortOrder Parser.sortOrder
  infer_instance

instance follows_nullsOrder : K.Follows Cursor.nullsOrder Parser.nullsOrder := by
  unfold Cursor.nullsOrder Parser.nullsOrder
  infer_instance

instance follows_indexElement : K.Follows Cursor.indexElement Parser.indexElement := by
  unfold Cursor.indexElement Parser.indexElement
  infer_instance

instance follows_indexName (exists? : Bool) :
    K.Follows (Cursor.indexName exists?) (Parser.indexName exists?) := by
  unfold Cursor.indexName Parser.indexName
  infer_instance

instance follows_createIndex (unique : Bool) :
    K.Follows (Cursor.createIndex unique) (Parser.createIndex unique) := by
  unfold Cursor.createIndex Parser.createIndex
  refine follows_next fun _ => follows_next fun concurrently => follows_next fun exists? =>
    follows_next fun name => follows_next fun _ => follows_next fun only => follows_next fun table =>
      follows_next fun method => follows_next fun _ => follows_next fun elements =>
        follows_next fun _ => ?_
  dsimp only
  infer_instance

end Layout

end DdlCatalog.Grammar
