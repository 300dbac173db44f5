import DdlCatalog.Grammar.TypeRef
import DdlCatalog.Proofs.Cursor.Loops

/-! # Types by position
The zone of a time is looked for up to two tokens ahead, and is taken only if it is complete. -/

namespace DdlCatalog.Grammar

namespace Cursor

def smallNumber (what : String) : Cursor UInt32 := do
  let t ← current
  match Parser.smallNumber? t.kind with
  | some n => advance; return n
  | none => typeError s!"invalid {what} {t.describe}"

def typeWord (after : String) : Cursor String := do
  let t ← current
  match t.name? with
  | some name => advance; return name
  | none => typeError s!"expected type name{after}, found {t.describe}"

def secondWord (first : String) : Cursor String := do
  if first = "double" then
    if ← acceptKeyword .PRECISION then return "double precision"
  else if first = "character" ∨ first = "char" then
    if ← acceptKeyword .VARYING then return "character varying"
  else if first = "bit" then
    if ← acceptKeyword .VARYING then return "bit varying"
  return first

def typeName : Cursor TypeRef := do
  let quoted := (← current).word?.isNone
  let first ← typeWord ""
  if ← accept .dot then
    let name ← typeWord s!" after {first}."
    return { TypeRef.ofName name with schema := some first }
  else if quoted then
    return TypeRef.ofName first
  else
    return TypeRef.ofName (← secondWord first)

def typeModifiers (t : TypeRef) : Cursor TypeRef := do
  if ← accept .leftParen then
    let precision ← smallNumber "type modifier"
    let scale ← if ← accept .comma then some <$> smallNumber "type modifier" else pure none
    if ← accept .rightParen then
      return { t with precision := some precision, scale := scale }
    else
      typeError s!"expected ) after type modifiers, found {(← current).describe}"
  else
    return t

/-- The zone that a word begins. -/
def zoneOf? (t : Token) : Option String :=
  if t.isKeyword .WITH then some "with time zone"
  else if t.isKeyword .WITHOUT then some "without time zone"
  else none

def zoneClause : Cursor (Option String) := do
  match zoneOf? (← current) with
  | none => return none
  | some zone =>
    if (← peek 1).isKeyword .TIME && (← peek 2).isKeyword .ZONE then
      advance
      advance
      advance
      return some zone
    else return none

def typeZone (t : TypeRef) : Cursor TypeRef := do
  if t.schema.isNone ∧ (t.name = "time" ∨ t.name = "timestamp") then
    match ← zoneClause with
    | some zone => return { t with name := t.name ++ " " ++ zone }
    | none => return t
  else
    return t

def arrayBound : Cursor (Option UInt32) := do
  let size ← if ← at? .rightBracket then pure none else some <$> smallNumber "array dimension"
  if ← accept .rightBracket then return size
  else typeError s!"expected ] in array dimension, found {(← current).describe}"

def arrayDimension (dims : List (Option UInt32)) (t : Token) :
    Cursor (Option (List (Option UInt32))) := do
  if t.kind = .leftBracket then
    advance
    return some (dims ++ [← arrayBound])
  else return none

def arrayBounds : Cursor (List (Option UInt32)) := clauses arrayDimension []

def arrayDims : Cursor (List (Option UInt32)) := do
  if ← acceptKeyword .ARRAY then
    if ← accept .leftBracket then return [← arrayBound] else return [none]
  else
    arrayBounds

def typeRef : Cursor TypeRef := do
  let t ← typeZone (← typeModifiers (← typeName))
  return { t with arrayDims := ← arrayDims }

end Cursor

namespace Layout

variable {K : Layout} {i : Nat}

instance follows_smallNumber (what : String) :
    K.Follows (Cursor.smallNumber what) (Parser.smallNumber what) := by
  refine follows_next fun t => ?_
  cases Parser.smallNumber? t.kind <;> dsimp only <;> infer_instance

instance follows_typeWord (after : String) :
    K.Follows (Cursor.typeWord after) (Parser.typeWord after) := by
  refine follows_next fun t => ?_
  cases t.name? <;> dsimp only <;> infer_instance

instance follows_secondWord (first : String) :
    K.Follows (Cursor.secondWord first) (Parser.secondWord first) := by
  unfold Cursor.secondWord Parser.secondWord
  dsimp only
  infer_instance

instance follows_typeName : K.Follows Cursor.typeName Parser.typeName := by
  unfold Cursor.typeName Parser.typeName
  dsimp only
  infer_instance

instance follows_typeModifiers (t : TypeRef) :
    K.Follows (Cursor.typeModifiers t) (Parser.typeModifiers t) := by
  unfold Cursor.typeModifiers Parser.typeModifiers
  refine follows_next fun opens => ?_
  split
  · exact follows_next fun precision => inferInstance
  · infer_instance

theorem run_zoneClause_cons (ctx : Context) (a b c : Token) (rest : List Token) :
    Parser.zoneClause.run ctx (a :: b :: c :: rest) =
      if b.isKeyword .TIME && c.isKeyword .ZONE then
        match Cursor.zoneOf? a with
        | some zone => .ok (some zone, rest)
        | none => .ok (none, a :: b :: c :: rest)
      else .ok (none, a :: b :: c :: rest) := by
  unfold Parser.run Parser.zoneClause Cursor.zoneOf?
  dsimp only
  generalize (b.isKeyword .TIME && c.isKeyword .ZONE) = zoned
  generalize a.isKeyword .WITH = included
  generalize a.isKeyword .WITHOUT = excluded
  cases zoned <;> cases included <;> cases excluded <;> rfl

/-- The words of a zone are looked at where they are expected. -/
theorem run_zoneClause_left (K : Layout) (i : Nat) :
    Parser.zoneClause.run K.ctx (K.left i) =
      if (K.token (i + 1)).isKeyword .TIME && (K.token (i + 2)).isKeyword .ZONE then
        match Cursor.zoneOf? (K.token i) with
        | some zone => .ok (some zone, K.left (i + 3))
        | none => .ok (none, K.left i)
      else .ok (none, K.left i) := by
  rcases Nat.lt_or_ge (i + 2) K.last with hi | hi
  · rw [left_of_lt (by omega), left_of_lt (by omega), left_of_lt hi]
    exact run_zoneClause_cons ..
  · have hnone : (K.token (i + 2)).isKeyword .ZONE = false := by
      rw [token_of_le hi, Token.isKeyword, K.stop_kind]
      rfl
    rw [hnone, Bool.and_false]
    have hlength : (K.left i).length ≤ 2 := by rw [length_left]; omega
    generalize K.left i = ts at hlength
    rcases ts with _ | ⟨_, _ | ⟨_, _ | ⟨_, _⟩⟩⟩
    case cons.cons.cons => exact absurd hlength (by simp only [List.length_cons]; omega)
    all_goals rfl

instance follows_zoneClause : K.Follows Cursor.zoneClause Parser.zoneClause where
  at_position i hi := by
    have hrun := run_zoneClause_left K i
    refine followsAt_of_read (current_at hi) ?_
    cases hof : Cursor.zoneOf? (K.token i) with
    | none =>
      rw [hof, ite_self] at hrun
      exact followsAt_of_ok hi rfl hrun
    | some zone =>
      refine followsAt_of_read (peek_at K 1 i) (followsAt_of_read (peek_at K 2 i) ?_)
      rw [hof] at hrun
      split
      · next hzone =>
        rw [if_pos hzone] at hrun
        have hlt : i + 2 < K.last := by
          refine lt_of_token ?_
          simp only [Token.isKeyword, Bool.and_eq_true, decide_eq_true_eq] at hzone
          rw [hzone.2]
          exact nofun
        refine followsAt_of_ok hlt ?_ hrun
        exact (bind_of_ok (advance_at (by omega))).trans
          ((bind_of_ok (advance_at (by omega))).trans (bind_of_ok (advance_at hlt)))
      · next hzone =>
        rw [if_neg hzone] at hrun
        exact followsAt_of_ok hi rfl hrun

instance follows_typeZone (t : TypeRef) : K.Follows (Cursor.typeZone t) (Parser.typeZone t) := by
  unfold Cursor.typeZone Parser.typeZone
  split
  · refine follows_next fun zone? => ?_
    cases zone? <;> dsimp only <;> infer_instance
  · infer_instance

instance follows_arrayBound : K.Follows Cursor.arrayBound Parser.arrayBound := by
  unfold Cursor.arrayBound Parser.arrayBound
  dsimp only
  infer_instance

instance follows_arrayBounds : K.Follows Cursor.arrayBounds Parser.arrayBounds := by
  unfold Cursor.arrayBounds Cursor.arrayDimension Parser.arrayBounds
  exact follows_clauses (fun dims => if_neg (by rw [K.stop_kind]; exact nofun)) []

instance follows_arrayDims : K.Follows Cursor.arrayDims Parser.arrayDims := by
  unfold Cursor.arrayDims Parser.arrayDims
  infer_instance

instance follows_typeRef : K.Follows Cursor.typeRef Parser.typeRef := by
  unfold Cursor.typeRef Parser.typeRef
  infer_instance

end Layout

end DdlCatalog.Grammar
