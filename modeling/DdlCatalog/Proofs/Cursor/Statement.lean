import DdlCatalog.Grammar.Statement
import DdlCatalog.Proofs.Cursor.Index
import DdlCatalog.Proofs.Cursor.Prepare
import DdlCatalog.Proofs.Cursor.Routine
import DdlCatalog.Proofs.Cursor.Table
import DdlCatalog.Proofs.Cursor.View

/-! # Statements by position
A cursor reads the statement that any tokens are and runs into no fault: no index is out of range, no
difference is below zero, and every loop ends. -/

namespace DdlCatalog.Grammar

namespace Cursor

def enumLabel : Cursor String := do
  match (← current).kind with
  | .string label => advance; return label
  | _ => expected "enum label"

def enumLabels : Cursor (List String) := do
  if ← accept .leftParen then
    if ← accept .rightParen then return []
    let labels ← commaList enumLabel
    expect .rightParen
    return labels
  else
    return []

def enumOption : Cursor (EnumPragma → EnumPragma) := do
  if ← acceptKeyword .CLASS then
    let name ← string
    return fun p => { p with className := some name }
  else if ← acceptKeyword .DATA then
    expectKeyword .TYPE
    let t ← typeRef
    return fun p => { p with dataType := some t }
  else if ← acceptKeyword .ATTRIBUTE then
    let name ← string
    return fun p => { p with classAttribute := some name }
  else
    error s!"unknown enum PRAGMA option {(← current).describe}"

def enumPragma : Cursor (Option EnumPragma) := do
  if ← acceptKeyword .PRAGMA then
    expect .leftParen
    let options ← commaList enumOption
    expect .rightParen
    return some (options.foldl (fun p change => change p) EnumPragma.empty)
  else
    return none

def createEnum : Cursor CreateEnum := do
  expectKeyword .TYPE
  let name ← objectName
  expectKeyword .AS
  if ← acceptKeyword .ENUM then
    let labels ← enumLabels
    let l ← location
    let pragma ← enumPragma
    match enumFault? name labels (pragma.getD EnumPragma.empty) with
    | some message => errorAt l message
    | none => return ⟨name, labels, pragma⟩
  else
    let t ← current
    let what := if t.kind = .leftParen then "composite" else t.describe
    unsupported s!"CREATE TYPE ... AS {what}"

/-- The first words of a statement, at most so many, in upper case; or its first token, if that is no
word. -/
def construct (limit : Nat) : Cursor String := do
  let words := ((← elementsFrom (← tokens) 0).takeWhile (·.word?.isSome)).take limit
  if words.isEmpty then return (← element (← tokens) 0).describe
  else return " ".intercalate (words.map (Text.upper ·.describe))

def orReplace : Cursor Bool := do
  if ← acceptKeyword .OR then
    expectKeyword .REPLACE
    return true
  else
    return false

def temporary : Cursor Bool := do
  if ← acceptKeyword .TEMPORARY then return true else acceptKeyword .TEMP

def modifiers : Cursor Modifiers := do
  return ⟨← orReplace, ← temporary, ← acceptKeyword .UNLOGGED, ← acceptKeyword .UNIQUE⟩

def createSchema : Cursor CreateSchema := do
  expectKeyword .SCHEMA
  let exists? ← ifNotExists
  return ⟨← name, exists?⟩

def unlessModified (modifier : String) (present : Bool) (r : Cursor Statement) : Cursor Statement := do
  if present then error s!"{modifier} is not valid for CREATE {(← current).describe}" else r

def created (m : Modifiers) : Cursor Statement := do
  match (← current).kind with
  | .keyword .SCHEMA =>
    unlessModified "modifier" (m.orReplace || m.temporary || m.unlogged || m.unique) do
      return .createSchema (← createSchema)
  | .keyword .TYPE =>
    unlessModified "modifier" (m.orReplace || m.temporary || m.unlogged || m.unique) do
      return .createEnum (← createEnum)
  | .keyword .TABLE =>
    unlessModified "OR REPLACE" m.orReplace <| unlessModified "UNIQUE" m.unique do
      return .createTable (← createTable m.temporary m.unlogged)
  | .keyword .VIEW | .keyword .MATERIALIZED | .keyword .RECURSIVE =>
    unlessModified "modifier" (m.unlogged || m.unique) do
      return .createView (← createView m.orReplace m.temporary)
  | .keyword .INDEX =>
    unlessModified "modifier" (m.orReplace || m.temporary || m.unlogged) do
      return .createIndex (← createIndex m.unique)
  | .keyword .FUNCTION =>
    unlessModified "modifier" (m.temporary || m.unlogged || m.unique) do
      return .createFunction (← createFunction m.orReplace)
  | .keyword .PROCEDURE =>
    unlessModified "modifier" (m.temporary || m.unlogged || m.unique) do
      return .createProcedure (← createProcedure m.orReplace)
  | _ => unsupported (← construct ((← position) + 1))

def create : Cursor Statement := do
  expectKeyword .CREATE
  created (← modifiers)

def anyStatement : Cursor Statement := do
  match (← current).kind with
  | .keyword .CREATE => create
  | .keyword .PREPARE => return .prepare (← prepare)
  | _ => unsupported (← construct 2)

def statement : Cursor Statement := do
  let s ← anyStatement
  if ← atEnd then return s
  else error s!"unexpected {(← current).describe} after {s.kind}"

end Cursor

namespace Layout

variable {K : Layout} {i : Nat}

instance follows_enumLabel : K.Follows Cursor.enumLabel Parser.enumLabel := by
  refine follows_next fun t => ?_
  cases t.kind <;> dsimp only <;> infer_instance

instance follows_enumLabels : K.Follows Cursor.enumLabels Parser.enumLabels := by
  unfold Cursor.enumLabels Parser.enumLabels
  infer_instance

instance follows_enumOption : K.Follows Cursor.enumOption Parser.enumOption := by
  unfold Cursor.enumOption Parser.enumOption
  infer_instance

instance follows_enumPragma : K.Follows Cursor.enumPragma Parser.enumPragma := by
  unfold Cursor.enumPragma Parser.enumPragma
  infer_instance

instance follows_createEnum : K.Follows Cursor.createEnum Parser.createEnum := by
  unfold Cursor.createEnum Parser.createEnum
  refine follows_next fun _ => follows_next fun name => follows_next fun _ => follows_next fun enum => ?_
  split
  · refine follows_next fun labels => follows_next fun l => follows_next fun pragma => ?_
    cases enumFault? name labels (pragma.getD EnumPragma.empty) <;> dsimp only <;> infer_instance
  · infer_instance

/-- The end of the statement is no word. -/
theorem takeWhile_tokens (K : Layout) :
    K.tape.tokens.takeWhile (·.word?.isSome) = K.ctx.tokens.takeWhile (·.word?.isSome) := by
  have hstop : K.ctx.stop.word?.isSome = false := by
    rw [Token.word?, K.stop_kind]
    rfl
  show (K.ctx.tokens ++ [K.ctx.stop]).takeWhile _ = _
  induction K.ctx.tokens with
  | nil => rw [List.nil_append, List.takeWhile_cons_of_neg (by simp [hstop])]; rfl
  | cons t ts ih => rw [List.cons_append, List.takeWhile_cons, List.takeWhile_cons, ih]

theorem construct_at (K : Layout) (limit i : Nat) :
    Cursor.construct limit K.tape i = .ok (.ok (K.ctx.construct limit), i) := by
  refine (bind_of_ok tokens_at).trans
    ((bind_of_ok (elementsFrom_at (Nat.zero_le _) i)).trans ?_)
  rw [List.drop_zero, takeWhile_tokens, Context.construct]
  split
  · exact (bind_of_ok tokens_at).trans (bind_of_ok (element_tokens_at (Nat.zero_le _) i))
  · rfl

instance follows_construct (limit : Nat) :
    K.Follows (do Cursor.unsupported (← Cursor.construct limit) : Cursor Statement)
      fun ctx ts => Parser.unsupported (ctx.construct limit) ctx ts where
  at_position i hi := followsAt_of_read (construct_at K limit i)
    (followsAt (p := Parser.unsupported (K.ctx.construct limit)) hi)

/-- The words that have been taken and the one in front. -/
instance follows_constructHere :
    K.Follows (do Cursor.unsupported (← Cursor.construct ((← Cursor.position) + 1)) : Cursor Statement)
      fun ctx ts =>
        Parser.unsupported (ctx.construct (ctx.tokens.length - ts.length + 1)) ctx ts where
  at_position i hi := by
    have hlimit : K.ctx.tokens.length - (K.left i).length = i := by
      rw [length_left]
      show K.last - (K.last - i) = i
      omega
    refine followsAt_of_read position_at (followsAt_of_read (construct_at K (i + 1) i) ?_)
    have hsame : K.FollowsAt i (Cursor.unsupported (K.ctx.construct (i + 1)) : Cursor Statement)
        (Parser.unsupported (K.ctx.construct (K.ctx.tokens.length - (K.left i).length + 1))) := by
      rw [hlimit]
      exact followsAt hi
    exact hsame

instance follows_orReplace : K.Follows Cursor.orReplace Parser.orReplace := by
  unfold Cursor.orReplace Parser.orReplace
  infer_instance

instance follows_temporary : K.Follows Cursor.temporary Parser.temporary := by
  unfold Cursor.temporary Parser.temporary
  infer_instance

instance follows_modifiers : K.Follows Cursor.modifiers Parser.modifiers := by
  unfold Cursor.modifiers Parser.modifiers
  infer_instance

instance follows_createSchema : K.Follows Cursor.createSchema Parser.createSchema := by
  unfold Cursor.createSchema Parser.createSchema
  infer_instance

instance follows_unlessModified (modifier : String) (present : Bool) {r : Cursor Statement}
    {p : Parser Statement} [K.Follows r p] :
    K.Follows (Cursor.unlessModified modifier present r) (Parser.unlessModified modifier present p) := by
  unfold Cursor.unlessModified Parser.unlessModified
  infer_instance

instance follows_created (m : Modifiers) : K.Follows (Cursor.created m) (Parser.created m) := by
  refine follows_next fun t => ?_
  generalize t.kind = kind
  split
  case h_10 =>
    cases kind with
    | keyword w => cases w <;> first | contradiction | exact follows_constructHere
    | _ => exact follows_constructHere
  all_goals infer_instance

instance follows_create : K.Follows Cursor.create Parser.create := by
  unfold Cursor.create Parser.create
  infer_instance

instance follows_anyStatement : K.Follows Cursor.anyStatement Parser.anyStatement := by
  refine follows_next fun t => ?_
  generalize t.kind = kind
  split
  case h_3 =>
    cases kind with
    | keyword w => cases w <;> first | contradiction | exact follows_construct 2
    | _ => exact follows_construct 2
  all_goals infer_instance

instance follows_statement : K.Follows Cursor.statement Parser.statement := by
  unfold Cursor.statement Parser.statement
  infer_instance

end Layout

theorem Context.source_ofTokens (source : String) (text : List Char) (tokens : List Token) :
    (Context.ofTokens source text tokens).source = source := by
  unfold Context.ofTokens
  split
  · rfl
  · split <;> rfl

theorem Context.text_ofTokens (source : String) (text : List Char) (tokens : List Token) :
    (Context.ofTokens source text tokens).text = text := by
  unfold Context.ofTokens
  split
  · rfl
  · split <;> rfl

theorem Context.stop_ofTokens (source : String) (text : List Char) (tokens : List Token) :
    (Context.ofTokens source text tokens).stop.kind = .eof := by
  unfold Context.ofTokens
  split
  · rfl
  · split
    · next h => exact h
    · rfl

theorem Tape.withEnd_eq (source : String) (text : List Char) (tokens : List Token) :
    Tape.withEnd tokens = (Context.ofTokens source text tokens).tokens ++
      [(Context.ofTokens source text tokens).stop] := by
  unfold Tape.withEnd Context.ofTokens
  cases hlast : tokens.getLast? with
  | none =>
    rw [List.getLast?_eq_none_iff.1 hlast]
    rfl
  | some last =>
    dsimp only
    split
    · exact (List.dropLast_append_getLast? last hlast).symm
    · rfl

def Layout.ofTokens (source : String) (text : List Char) (tokens : List Token) {rounds : Nat}
    (h : (Tape.withEnd tokens).length ≤ rounds) : Layout where
  ctx := Context.ofTokens source text tokens
  rounds := rounds
  stop_kind := Context.stop_ofTokens source text tokens
  lt_rounds := by
    rw [Tape.withEnd_eq source text, List.length_append] at h
    exact h

theorem Layout.tape_ofTokens (source : String) (text : List Char) (tokens : List Token) {rounds : Nat}
    (h : (Tape.withEnd tokens).length ≤ rounds) :
    (Layout.ofTokens source text tokens h).tape = Tape.ofTokens source text tokens rounds := by
  have htape : (Layout.ofTokens source text tokens h).tape =
      ⟨(Context.ofTokens source text tokens).source, (Context.ofTokens source text tokens).text,
        (Context.ofTokens source text tokens).tokens ++ [(Context.ofTokens source text tokens).stop],
        rounds⟩ := rfl
  rw [htape, Context.source_ofTokens, Context.text_ofTokens, ← Tape.withEnd_eq]
  rfl

/-- Whatever the tokens are, the statement is read without a fault. No loop takes more rounds than there
are tokens, and no position lies behind the last one. -/
theorem Cursor.statement_ofTokens (source : String) (text : List Char) (tokens : List Token)
    {rounds : Nat} (h : (Tape.withEnd tokens).length ≤ rounds) :
    ∃ position < (Tape.withEnd tokens).length,
      Cursor.statement (Tape.ofTokens source text tokens rounds) 0 =
        .ok (parseTokens source text tokens, position) := by
  let K := Layout.ofTokens source text tokens h
  have hlength : (Tape.withEnd tokens).length = K.last + 1 := by
    rw [Tape.withEnd_eq source text]
    exact List.length_append
  have hparse : parseTokens source text tokens =
      (Parser.statement.run K.ctx (K.left 0)).map Prod.fst := rfl
  obtain ⟨o, hread, hanswers⟩ := Layout.followsAt (K := K) (r := Cursor.statement)
    (p := Parser.statement) (Nat.zero_le _)
  rw [Layout.tape_ofTokens source text tokens h] at hread
  rw [hparse, hlength]
  generalize Parser.statement.run K.ctx (K.left 0) = res at hanswers
  cases hanswers with
  | value s le => exact ⟨_, Nat.lt_succ_of_le le, hread⟩
  | error e le => exact ⟨_, Nat.lt_succ_of_le le, hread⟩

/-- An end between two words, and none behind them. -/
def interruptedTokens : List Token :=
  [⟨.keyword .CREATE, ⟨0, 6⟩, 1, 1⟩, ⟨.eof, ⟨6, 6⟩, 1, 7⟩, ⟨.keyword .SCHEMA, ⟨7, 13⟩, 1, 8⟩]

theorem Cursor.statement_ofTokens_interrupted :
    (Tape.withEnd interruptedTokens).length ≤ 4 ∧
      ∃ position < (Tape.withEnd interruptedTokens).length,
        Cursor.statement (Tape.ofTokens "schema.sql" "create schema".toList interruptedTokens 4) 0 =
          .ok (parseTokens "schema.sql" "create schema".toList interruptedTokens, position) :=
  ⟨by decide, Cursor.statement_ofTokens _ _ _ (by decide)⟩

end DdlCatalog.Grammar
