import DdlCatalog.Catalog.Expression
import DdlCatalog.Grammar.TypeRef

/-! # Expressions
An expression is the longest run of tokens that ends outside of all brackets, in front of a comma, a
closing bracket, the end of the statement or a token that its place does not allow. -/

namespace DdlCatalog.Grammar

/-- The value of tokens that are exactly one literal or sentinel. -/
def literalOf? : List Token → Option Literal
  | [t] =>
    match t.kind with
    | .number digits => Literal.ofNumber? false digits
    | .string s => some (.string s)
    | .keyword .TRUE => some (.boolean true)
    | .keyword .FALSE => some (.boolean false)
    | .keyword .NULL => some .null
    | .identifier word => (Sentinel.ofWord? word).map .sentinel
    | _ => none
  | [sign, t] =>
    match sign.kind, t.kind with
    | .operator op, .number digits =>
      if op = "-" then Literal.ofNumber? true digits
      else if op = "+" then Literal.ofNumber? false digits
      else none
    | _, _ => none
  | [f, l, r] =>
    match f.kind, l.kind, r.kind with
    | .identifier name, .leftParen, .rightParen => (Sentinel.ofCall? name).map .sentinel
    | _, _, _ => none
  | _ => none

/-- Words of the expression language that name no column. -/
def expressionWords : List String :=
  ["and", "or", "is", "at", "like", "ilike", "similar", "between", "any", "all", "some", "case",
   "when", "then", "else", "end", "cast", "coalesce", "nullif", "greatest", "least", "exists",
   "interval"]

/-- Whether a token makes the name of a time that precedes it part of a type or a literal. -/
def typesTime (next : Token) : Bool :=
  match next.kind with
  | .keyword .ZONE => true
  | .keyword .WITH => true
  | .keyword .WITHOUT => true
  | .string _ => true
  | _ => false

/-- Whether a keyword between two tokens is the name of a column. -/
def namesColumn (k : Token.Keyword) (previous next : Option Token) : Bool :=
  match k with
  | .NOT | .NULL | .TRUE | .FALSE | .IN | .OR | .DISTINCT | .EXISTS | .ARRAY | .WITH | .WITHOUT
  | .ZONE | .PRECISION | .VARYING | .COLLATE | .SETOF => false
  | .TIME | .TIMESTAMP =>
    !next.any typesTime && !previous.any (fun t => t.word? = some "at")
  | _ => true

/-- The name that a token between two others stands for as a value. Names of functions, schemas and
types are none. -/
def referenceOf? (previous : Option Token) (t : Token) (next : Option Token) : Option String :=
  let name :=
    match t.kind with
    | .identifier word =>
      if expressionWords.contains word || (Sentinel.ofWord? word).isSome then none else some word
    | .quotedIdentifier name => some name
    | .keyword k => if namesColumn k previous next then some k.spelling else none
    | _ => none
  if next.any (fun n => n.kind = .leftParen || n.kind = .dot) then none
  else if previous.any (·.kind = .doubleColon) then none
  else name

/-- The names used as values, in order and with repetitions. -/
def referencesAfter (previous : Option Token) : List Token → List String
  | [] => []
  | t :: rest => (referenceOf? previous t rest.head?).toList ++ referencesAfter (some t) rest

/-- Each element once, where it first occurs. -/
def firstUses {α : Type} [DecidableEq α] : List α → List α
  | [] => []
  | a :: as => a :: (firstUses as).filter (· ≠ a)

def referencesOf (ts : List Token) : List String := firstUses (referencesAfter none ts)

/-- The expression made of the given tokens. -/
def Context.expression (ctx : Context) (ts : List Token) : Expression :=
  ⟨ctx.textOf ts, literalOf? ts, referencesOf ts⟩

/-- Whether a token ends an expression, given the token before it in the expression and the token
after it. -/
abbrev StopRule := Option Token → Token → Token → Bool

def neverStops : StopRule := fun _ _ _ => false

/-- The number of tokens of the expression in front, or the end that leaves a bracket open. `depth`
brackets are open already. -/
def expressionLength (stops : StopRule) (stop : Token) (previous : Option Token) (depth : Nat) :
    List Token → Except Token Nat
  | [] => if depth = 0 then .ok 0 else .error stop
  | t :: rest =>
    let goOn (depth : Nat) := (expressionLength stops stop (some t) depth rest).map (· + 1)
    match t.kind, depth with
    | .eof, 0 => .ok 0
    | .eof, _ + 1 => .error t
    | .leftParen, _ => goOn (depth + 1)
    | .leftBracket, _ => goOn (depth + 1)
    | .rightParen, 0 => .ok 0
    | .rightParen, depth + 1 => goOn depth
    | .rightBracket, 0 => .ok 0
    | .rightBracket, depth + 1 => goOn depth
    | .comma, 0 => .ok 0
    | _, 0 => if stops previous t (rest.headD stop) then .ok 0 else goOn 0
    | _, depth + 1 => goOn (depth + 1)

/-- Where the default of a column ends: at the next clause of the column. `NOT NULL` and `NULL` are
part of the expression at its start and after `IS` and `NOT`. -/
def endsDefault : StopRule := fun previous t next =>
  let opens := previous.any fun p => p.word? ≠ some "is" && p.word? ≠ some "not"
  match t.kind with
  | .keyword .CONSTRAINT | .keyword .PRIMARY | .keyword .UNIQUE | .keyword .REFERENCES
  | .keyword .CHECK | .keyword .GENERATED | .keyword .DEFAULT | .keyword .COLLATE
  | .keyword .AS => true
  | .keyword .NOT => next.isKeyword .NULL && opens
  | .keyword .NULL => opens
  | _ => false

/-- Whether the last of the given tokens is the parenthesis that closes a group opened before them,
in which `depth` others are open. -/
def closesLast (depth : Nat) : List Token → Bool
  | [] => false
  | t :: rest =>
    match t.kind, depth with
    | .leftParen, _ => closesLast (depth + 1) rest
    | .rightParen, 0 => rest.isEmpty
    | .rightParen, depth + 1 => closesLast depth rest
    | _, _ => closesLast depth rest

/-- The tokens inside of a pair of parentheses around all of them, if there are any. -/
def unwrap (ts : List Token) : List Token :=
  match ts with
  | [] => []
  | t :: rest =>
    if t.kind = .leftParen ∧ closesLast 0 rest ∧ 2 < ts.length then rest.dropLast else ts

namespace Parser

/-- The tokens of an expression; there is at least one. -/
def expressionTokens (stops : StopRule) : Parser (List Token) := do
  let ts ← takeMeasured "unbalanced brackets in expression" fun ctx ts =>
    expressionLength stops ctx.stop none 0 ts
  if ts.isEmpty then expected "expression" else return ts

def express (ts : List Token) : Parser Expression := fun ctx _ => .ok (.keep (ctx.expression ts))

def expression (stops : StopRule) : Parser Expression := do express (← expressionTokens stops)

def groupedExpression : Parser Expression := do
  expect .leftParen
  let e ← expression neverStops
  expect .rightParen
  return e

/-- An expression without the parentheses around all of it. -/
def predicate : Parser Expression := do express (unwrap (← expressionTokens neverStops))

end Parser

def parseExpression (text : String) : Except Error Expression := do
  let tokens ← Token.tokenize anonymousSource text.toList
  let ctx := Context.ofTokens anonymousSource text.toList tokens
  let whole : Parser Expression := do
    let e ← Parser.expression neverStops
    if ← Parser.atEnd then return e
    else Parser.error s!"unexpected {(← Parser.current).describe} after expression"
  let (e, _) ← whole.run ctx ctx.tokens
  return e

end DdlCatalog.Grammar
