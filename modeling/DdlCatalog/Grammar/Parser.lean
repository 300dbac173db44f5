import DdlCatalog.Token.Basic
import DdlCatalog.Error
import DdlCatalog.Catalog.Name
import DdlCatalog.Text.Slice

/-! # Parsers
A parser reads tokens from the front of those that are left of a statement and answers with a suffix
of them, so that repetition always ends. Behind the last token stands the end of the statement,
which is never taken. -/

namespace DdlCatalog.Grammar

open Text (Location)

/-- What a parser knows beside the tokens in front of it. -/
structure Context where
  source : String
  text : List Char
  /-- All tokens of the statement. -/
  tokens : List Token
  /-- The end of the statement. -/
  stop : Token

namespace Context

/-- The context of any sequence of tokens; an end is put behind them if they have none. -/
def ofTokens (source : String) (text : List Char) (tokens : List Token) : Context :=
  match tokens.getLast? with
  | none => ⟨source, text, [], ⟨.eof, ⟨0, 0⟩, 1, 1⟩⟩
  | some last =>
    if last.kind = .eof then ⟨source, text, tokens.dropLast, last⟩
    else ⟨source, text, tokens, ⟨.eof, ⟨last.span.stop, last.span.stop⟩, last.line, last.column⟩⟩

def current (ctx : Context) (ts : List Token) : Token := ts.headD ctx.stop

def locate (ctx : Context) (t : Token) : Location := t.location ctx.source

/-- The text from the first to the last of the given tokens. -/
def textOf (ctx : Context) (ts : List Token) : String :=
  match ts.head?, ts.getLast? with
  | some first, some last =>
    String.ofList ((Text.slice? ctx.text first.span.start last.span.stop).getD [])
  | _, _ => ""

end Context

/-- A value and the tokens that are left. -/
structure Outcome (α : Type) (ts : List Token) where
  value : α
  rest : List Token
  suffix : rest <:+ ts

namespace Outcome

variable {α : Type} {ts : List Token}

def keep (a : α) : Outcome α ts := ⟨a, ts, List.suffix_refl ts⟩

/-- The same outcome, seen from more tokens. -/
def widen {us : List Token} (o : Outcome α ts) (h : ts <:+ us) : Outcome α us :=
  ⟨o.value, o.rest, o.suffix.trans h⟩

theorem length_le (o : Outcome α ts) : o.rest.length ≤ ts.length := o.suffix.length_le

end Outcome

def Parser (α : Type) : Type :=
  Context → (ts : List Token) → Except Error (Outcome α ts)

namespace Parser

variable {α β σ : Type}

def pure (a : α) : Parser α := fun _ _ => .ok (.keep a)

def bind (p : Parser α) (f : α → Parser β) : Parser β := fun ctx ts =>
  match p ctx ts with
  | .error e => .error e
  | .ok o =>
    match f o.value ctx o.rest with
    | .error e => .error e
    | .ok o' => .ok (o'.widen o.suffix)

instance : Monad Parser where
  pure := Parser.pure
  bind := Parser.bind

/-- The value and the tokens left, without the proof that they are a suffix. -/
def run (p : Parser α) (ctx : Context) (ts : List Token) : Except Error (α × List Token) :=
  (p ctx ts).map fun o => (o.value, o.rest)

def current : Parser Token := fun ctx ts => .ok (.keep (ctx.current ts))

def following : Parser Token := fun ctx ts => .ok (.keep (ctx.current ts.tail))

def atEnd : Parser Bool := do return (← current).kind = .eof

def at? (kind : Token.Kind) : Parser Bool := do return (← current).kind = kind

def atKeyword (k : Token.Keyword) : Parser Bool := do return (← current).isKeyword k

def location : Parser Location := fun ctx ts => .ok (.keep (ctx.locate (ctx.current ts)))

def fail (e : Error) : Parser α := fun _ _ => .error e

def errorAt (l : Location) (message : String) : Parser α := fail (.parse l message)

def error (message : String) : Parser α := do errorAt (← location) message

def typeError (message : String) : Parser α := do fail (.typeSyntax (← location) message)

/-- An error that names the token in front instead of what was expected. -/
def expected (what : String) : Parser α := do
  error s!"expected {what}, found {(← current).describe}"

def unsupported (construct : String) : Parser α := fun ctx _ =>
  .error (.unsupportedStatement (ctx.locate (ctx.current ctx.tokens)) construct)

def take (n : Nat) : Parser (List Token) := fun _ ts =>
  .ok ⟨ts.take n, ts.drop n, List.drop_suffix n ts⟩

/-- Takes as many tokens as measured. There is an error if the measure stops at a token. -/
def takeMeasured (message : String) (measure : Context → List Token → Except Token Nat) :
    Parser (List Token) := fun ctx ts =>
  match measure ctx ts with
  | .ok n => take n ctx ts
  | .error t => .error (.parse (ctx.locate t) message)

def advance : Parser Unit := fun _ ts => .ok ⟨(), ts.tail, List.tail_suffix ts⟩

def accept (kind : Token.Kind) : Parser Bool := do
  if ← at? kind then advance; return true else return false

def expect (kind : Token.Kind) : Parser Unit := do
  if ← accept kind then return () else expected kind.describe

def acceptKeyword (k : Token.Keyword) : Parser Bool := accept (.keyword k)

def expectKeyword (k : Token.Keyword) : Parser Unit := do
  if ← acceptKeyword k then return () else expected k.display

/-- A parser and the tokens that it takes. -/
def taking (p : Parser α) : Parser (List Token × α) := fun ctx ts =>
  match p ctx ts with
  | .error e => .error e
  | .ok o => .ok ⟨(ts.take (ts.length - o.rest.length), o.value), o.rest, o.suffix⟩

def toEnd : Parser (List Token) := fun ctx ts =>
  take (ts.takeWhile (·.kind ≠ .eof)).length ctx ts

/-- A parser whose value has to satisfy a condition on the token after it. Otherwise, and if the
parser fails, nothing is taken. -/
def onlyBefore (p : Parser α) (condition : Token → Bool) : Parser (Option α) := fun ctx ts =>
  match p ctx ts with
  | .error _ => .ok (.keep none)
  | .ok o =>
    if condition (ctx.current o.rest) then .ok ⟨some o.value, o.rest, o.suffix⟩
    else .ok (.keep none)

/-- One or more, with commas between them. -/
def commaList (p : Parser α) : Parser (List α) := fun ctx ts =>
  match p ctx ts with
  | .error e => .error e
  | .ok ⟨a, [], h⟩ => .ok ⟨[a], [], h⟩
  | .ok ⟨a, t :: rest, h⟩ =>
    if t.kind = .comma then
      match commaList p ctx rest with
      | .error e => .error e
      | .ok o => .ok ⟨a :: o.value, o.rest, o.suffix.trans ((List.suffix_cons t rest).trans h)⟩
    else
      .ok ⟨[a], t :: rest, h⟩
termination_by _ ts => ts.length
decreasing_by
  have := h.length_le
  simp only [List.length_cons] at this
  omega

/-- Clauses in any order. Each begins with a token of its own, which is taken before the clause is
read; where no clause begins the token stays. -/
def clauses (clause : σ → Token → Parser (Option σ)) (s : σ) : Parser σ := fun ctx ts =>
  match ts with
  | [] => .ok (.keep s)
  | t :: rest =>
    match clause s t ctx rest with
    | .error e => .error e
    | .ok ⟨none, _, _⟩ => .ok (.keep s)
    | .ok ⟨some s, left, h⟩ =>
      match clauses clause s ctx left with
      | .error e => .error e
      | .ok o => .ok (o.widen (h.trans (List.suffix_cons t rest)))
termination_by _ ts => ts.length
decreasing_by
  have := h.length_le
  simp only [List.length_cons]
  omega

/-- A name; keywords are names too. -/
def name : Parser String := do
  match (← current).name? with
  | some name => advance; return name
  | none => expected "name"

def objectName : Parser ObjectName := do
  let first ← name
  if ← accept .dot then return ⟨some first, ← name⟩
  else return ⟨none, first⟩

def nameList : Parser (List String) := do
  expect .leftParen
  let names ← commaList name
  expect .rightParen
  return names

def string : Parser String := do
  match (← current).kind with
  | .string s => advance; return s
  | _ => expected "string literal"

def number : Parser String := do
  match (← current).kind with
  | .number digits => advance; return digits
  | _ => expected "number"

def ifNotExists : Parser Bool := do
  if ← acceptKeyword .IF then
    expectKeyword .NOT
    expectKeyword .EXISTS
    return true
  else
    return false

/-- Reads `NULLS [NOT] DISTINCT`, which says whether nulls count as equal. -/
def nullsNotDistinct : Parser Bool := do
  if ← acceptKeyword .NULLS then
    let not ← acceptKeyword .NOT
    expectKeyword .DISTINCT
    return not
  else
    return false

/-- The number of tokens up to the parenthesis that closes a group, or the end in its way. -/
def groupLength (stop : Token) (depth : Nat) : List Token → Except Token Nat
  | [] => .error stop
  | t :: rest =>
    match t.kind with
    | .eof => .error t
    | .leftParen => (groupLength stop (depth + 1) rest).map (· + 1)
    | .rightParen =>
      match depth with
      | 0 => .ok 1
      | depth + 1 => (groupLength stop depth rest).map (· + 1)
    | _ => (groupLength stop depth rest).map (· + 1)

def group : Parser Unit := do
  expect .leftParen
  let _ ← takeMeasured "unbalanced parentheses" fun ctx ts => groupLength ctx.stop 0 ts
  return ()

end Parser

end DdlCatalog.Grammar
