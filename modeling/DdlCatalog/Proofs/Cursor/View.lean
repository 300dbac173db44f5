import DdlCatalog.Grammar.View
import DdlCatalog.Proofs.Cursor.Expression

/-! # Views by position
The columns of a view are read off the tokens from the position on where its query starts, once the cursor
has gone to the end of the statement. -/

namespace DdlCatalog.Grammar

namespace Cursor

def selectColumns (start : Nat) : Cursor (List String) := do
  let query ← elementsFrom (← tokens) start
  if query.head?.bind Token.word? = some "select" then
    let items ← elementsFrom query (if query[1]?.any (·.isKeyword .DISTINCT) then 2 else 1)
    return (selectItems 0 [] items).filterMap selectItemName?
  else return []

def viewQuery : Cursor (String × List String) := do
  let start ← position
  if ← atEnd then error "expected view query"
  else
    foldToEnd (fun () _ => ()) ()
    let query ← textBetween start (← position)
    return (query, ← selectColumns start)

def createView (orReplace temporary : Bool) : Cursor CreateView := do
  let materialized ← acceptKeyword .MATERIALIZED
  let recursive ← if materialized then pure false else acceptKeyword .RECURSIVE
  expectKeyword .VIEW
  let exists? ← ifNotExists
  let name ← objectName
  let columns ← if ← at? .leftParen then nameList else pure []
  if recursive && columns.isEmpty then error "recursive views need a column list"
  else
    expectKeyword .AS
    let (query, selected) ← viewQuery
    return ⟨name, orReplace, exists?, temporary, materialized, recursive,
      if columns.isEmpty then selected else columns, query⟩

end Cursor

namespace Layout

variable {α : Type} {K : Layout} {i j : Nat}

theorem elementsFrom_at {as : List α} (h : i ≤ as.length) (j : Nat) :
    Cursor.elementsFrom as i K.tape j = .ok (.ok (as.drop i), j) := by
  rw [Cursor.elementsFrom, if_pos h]
  rfl

theorem drop_tokens (hi : i ≤ K.last) : K.tape.tokens.drop i = K.left i ++ [K.ctx.stop] :=
  List.drop_append_of_le_length hi

theorem selectColumns_at (hi : i ≤ K.last) (j : Nat) :
    Cursor.selectColumns i K.tape j =
      .ok (.ok (Grammar.selectColumns (K.left i ++ [K.ctx.stop])), j) := by
  have hlength : i ≤ K.tape.tokens.length := by
    rw [length_tokens]
    omega
  refine (bind_of_ok tokens_at).trans
    ((bind_of_ok (elementsFrom_at hlength j)).trans ?_)
  rw [drop_tokens hi]
  generalize K.left i ++ [K.ctx.stop] = query
  match query with
  | [] => rfl
  | t :: rest =>
    have hhead : (t :: rest).head?.bind Token.word? = t.word? := rfl
    unfold Grammar.selectColumns
    dsimp only
    rw [hhead]
    by_cases hselect : t.word? = some "select"
    · rw [if_pos hselect, if_pos hselect]
      match rest with
      | [] => exact bind_of_ok (elementsFrom_at (Nat.le_refl 1) j)
      | d :: rest =>
        have hnext : (t :: d :: rest)[1]? = some d := rfl
        rw [hnext, Option.any_some]
        cases hdistinct : d.isKeyword .DISTINCT with
        | true =>
          refine (bind_of_ok (elementsFrom_at (by simp) j)).trans ?_
          simp only [hdistinct]
          rfl
        | false =>
          refine (bind_of_ok (elementsFrom_at (by simp) j)).trans ?_
          simp only [hdistinct]
          rfl
    · rw [if_neg hselect, if_neg hselect]
      rfl

instance follows_viewQuery : K.Follows Cursor.viewQuery Parser.viewQuery where
  at_position i hi := by
    suffices h : K.FollowsAt i Cursor.viewQuery (do
        let taken ← Parser.toEnd
        if taken.isEmpty then Parser.error "expected view query"
        else return (K.ctx.textOf taken, Grammar.selectColumns (K.left i ++ [K.ctx.stop]))) from h
    refine followsAt_of_read position_at (followsAt_of_read (atEnd_at hi) ?_)
    have hrun := run_toEnd_left K i
    by_cases heof : (K.token i).kind = .eof
    · rw [rest_of_eof hi heof] at hrun
      rw [if_pos (decide_eq_true heof)]
      exact followsAt_of_keep hrun (followsAt (p := Parser.error "expected view query") hi)
    · have hstop := add_length_rest_le hi
      have htext := textBetween_at hstop (i + (K.rest i).length)
      rw [take_left_rest] at htext
      rw [if_neg (by simpa using heof)]
      refine followsAt_of_step (foldToEnd_at () hi) hrun ?_
      have hne : (K.rest i).isEmpty = false := by rw [rest_of_ne heof]; rfl
      rw [hne, if_neg Bool.false_ne_true]
      exact followsAt_of_read position_at <| followsAt_of_read htext <|
        followsAt_of_read (selectColumns_at hi _) (followsAt hstop)

set_option synthInstance.maxSize 512 in
instance follows_createView (orReplace temporary : Bool) :
    K.Follows (Cursor.createView orReplace temporary) (Parser.createView orReplace temporary) := by
  unfold Cursor.createView Parser.createView
  dsimp only
  infer_instance

end Layout

end DdlCatalog.Grammar
