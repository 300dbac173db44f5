import DdlCatalog.Grammar.Parser

/-! # Cursors
A cursor stands at one of the tokens of a statement and reads tokens by their indices. Beside the errors
of the grammar it may run into a fault: an index or a position without a token, a difference below zero,
a loop without an end. -/

namespace DdlCatalog.Grammar

open Text (Location)

/-- What goes wrong when tokens are read by their indices. -/
inductive Fault where
  /-- No token has the index. -/
  | outOfRange (index : Nat)
  /-- The second number is greater than the first one, which it is taken from. -/
  | belowZero (a b : Nat)
  /-- A loop has not ended in as many rounds as it may take. -/
  | endless
deriving DecidableEq, Repr

/-- The tokens of a statement by their indices. The last one is its end. -/
structure Tape where
  source : String
  text : List Char
  tokens : List Token
  /-- The number of rounds that a loop may take. -/
  rounds : Nat

namespace Tape

/-- An end is put behind tokens that have none. -/
def withEnd (tokens : List Token) : List Token :=
  match tokens.getLast? with
  | none => [⟨.eof, ⟨0, 0⟩, 1, 1⟩]
  | some last =>
    if last.kind = .eof then tokens
    else tokens ++ [⟨.eof, ⟨last.span.stop, last.span.stop⟩, last.line, last.column⟩]

/-- The tape of any sequence of tokens. -/
def ofTokens (source : String) (text : List Char) (tokens : List Token) (rounds : Nat) : Tape :=
  ⟨source, text, withEnd tokens, rounds⟩

end Tape

/-- Answers with a value or an error of the grammar and the position that is reached, unless there is a
fault. -/
def Cursor (α : Type) : Type := Tape → Nat → Except Fault (Except Error α × Nat)

namespace Cursor

variable {α β σ : Type}

protected def pure (a : α) : Cursor α := fun _ i => .ok (.ok a, i)

protected def bind (r : Cursor α) (k : α → Cursor β) : Cursor β := fun tape i =>
  match r tape i with
  | .error f => .error f
  | .ok (.error e, j) => .ok (.error e, j)
  | .ok (.ok a, j) => k a tape j

instance : Monad Cursor where
  pure := Cursor.pure
  bind := Cursor.bind

def fault (f : Fault) : Cursor α := fun _ _ => .error f

def position : Cursor Nat := fun _ i => .ok (.ok i, i)

def tokens : Cursor (List Token) := fun tape i => .ok (.ok tape.tokens, i)

def element (as : List α) (index : Nat) : Cursor α :=
  match as[index]? with
  | some a => pure a
  | none => fault (.outOfRange index)

def elementsFrom (as : List α) (index : Nat) : Cursor (List α) :=
  if index ≤ as.length then pure (as.drop index) else fault (.outOfRange index)

/-- A difference, which is not below zero. -/
def minus (a b : Nat) : Cursor Nat := if b ≤ a then pure (a - b) else fault (.belowZero a b)

/-- Goes to the token at an index. -/
def moveTo (index : Nat) : Cursor Unit := fun tape i =>
  if index < tape.tokens.length then .ok (.ok (), index)
  else fault (.outOfRange index) tape i

def lastIndex : Cursor Nat := do minus (← tokens).length 1

/-- The token at an index, or the last one if there are not so many. -/
def tokenAt (index : Nat) : Cursor Token := do element (← tokens) (min index (← lastIndex))

def current : Cursor Token := do element (← tokens) (← position)

def peek (offset : Nat) : Cursor Token := do tokenAt ((← position) + offset)

/-- Goes to the next token. The last token is not left. -/
def advance : Cursor Unit := do
  let i ← position
  let last ← lastIndex
  if i < last then moveTo (i + 1) else pure ()

def textBetween (start stop : Nat) : Cursor String := do
  let ts ← tokens
  if stop ≤ start ∨ ts.length < stop then return ""
  else
    let first ← element ts start
    let last ← element ts (← minus stop 1)
    fun tape i =>
      .ok (.ok (String.ofList ((Text.slice? tape.text first.span.start last.span.stop).getD [])), i)

def atEnd : Cursor Bool := do return (← current).kind = .eof

def at? (kind : Token.Kind) : Cursor Bool := do return (← current).kind = kind

def atKeyword (k : Token.Keyword) : Cursor Bool := do return (← current).isKeyword k

def locate (t : Token) : Cursor Location := fun tape i => .ok (.ok (t.location tape.source), i)

def location : Cursor Location := do locate (← current)

def fail (e : Error) : Cursor α := fun _ i => .ok (.error e, i)

def errorAt (l : Location) (message : String) : Cursor α := fail (.parse l message)

def error (message : String) : Cursor α := do errorAt (← location) message

def typeError (message : String) : Cursor α := do fail (.typeSyntax (← location) message)

def expected (what : String) : Cursor α := do
  error s!"expected {what}, found {(← current).describe}"

def unsupported (construct : String) : Cursor α := do
  fail (.unsupportedStatement (← locate (← element (← tokens) 0)) construct)

def attempt (r : Cursor α) : Cursor (Except Error α) := fun tape i =>
  match r tape i with
  | .error f => .error f
  | .ok (answer, j) => .ok (.ok answer, j)

def accept (kind : Token.Kind) : Cursor Bool := do
  if ← at? kind then advance; return true else return false

def expect (kind : Token.Kind) : Cursor Unit := do
  if ← accept kind then return () else expected kind.describe

def acceptKeyword (k : Token.Keyword) : Cursor Bool := accept (.keyword k)

def expectKeyword (k : Token.Keyword) : Cursor Unit := do
  if ← acceptKeyword k then return () else expected k.display

/-- What a round of a loop comes to. -/
inductive Round (σ β : Type) where
  | again (s : σ)
  | done (b : β)

/-- Rounds up to the one that is done, at most so many. -/
def repeatAtMost (round : σ → Cursor (Round σ β)) : Nat → σ → Cursor β
  | 0, _ => fault .endless
  | n + 1, s => do
    match ← round s with
    | .again s => repeatAtMost round n s
    | .done b => return b

def loop (round : σ → Cursor (Round σ β)) (s : σ) : Cursor β := fun tape i =>
  repeatAtMost round tape.rounds s tape i

def commaList (r : Cursor α) : Cursor (List α) :=
  loop (fun as => do
    let a ← r
    if ← accept .comma then return .again (as ++ [a]) else return .done (as ++ [a])) []

/-- Clauses in any order, up to a token that begins none. -/
def clauses (clause : σ → Token → Cursor (Option σ)) (s : σ) : Cursor σ :=
  loop (fun s => do
    match ← clause s (← current) with
    | some s => return .again s
    | none => return .done s) s

/-- Goes to the end of the statement and takes account of the tokens on the way. -/
def foldToEnd (step : σ → Token → σ) : σ → Cursor σ :=
  loop fun s => do
    if ← atEnd then return .done s
    else
      let t ← current
      advance
      return .again (step s t)

/-- The number of parentheses that are open behind a token. -/
def openBehind (depth : Nat) (t : Token) : Cursor Nat :=
  match t.kind with
  | .leftParen => pure (depth + 1)
  | .rightParen => minus depth 1
  | .eof => error "unbalanced parentheses"
  | _ => pure depth

def groupRound (depth : Nat) : Cursor (Round Nat Unit) := do
  if depth = 0 then return .done ()
  else
    let depth ← openBehind depth (← current)
    advance
    return .again depth

def group : Cursor Unit := do
  expect .leftParen
  loop groupRound 1

def name : Cursor String := do
  match (← current).name? with
  | some name => advance; return name
  | none => expected "name"

def objectName : Cursor ObjectName := do
  let first ← name
  if ← accept .dot then return ⟨some first, ← name⟩
  else return ⟨none, first⟩

def nameList : Cursor (List String) := do
  expect .leftParen
  let names ← commaList name
  expect .rightParen
  return names

def string : Cursor String := do
  match (← current).kind with
  | .string s => advance; return s
  | _ => expected "string literal"

def number : Cursor String := do
  match (← current).kind with
  | .number digits => advance; return digits
  | _ => expected "number"

def ifNotExists : Cursor Bool := do
  if ← acceptKeyword .IF then
    expectKeyword .NOT
    expectKeyword .EXISTS
    return true
  else
    return false

def nullsNotDistinct : Cursor Bool := do
  if ← acceptKeyword .NULLS then
    let not ← acceptKeyword .NOT
    expectKeyword .DISTINCT
    return not
  else
    return false

end Cursor

end DdlCatalog.Grammar
