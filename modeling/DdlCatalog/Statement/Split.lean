import DdlCatalog.Token.Scanner

/-! # Cutting tokens into statements
A semicolon outside of parentheses ends a statement. Statements without tokens are dropped. -/

namespace DdlCatalog

/-- The tokens of one statement, without the semicolon, and the end put behind them. -/
structure RawStatement where
  first : Token
  rest : List Token
  stop : Token
deriving DecidableEq, Repr

namespace RawStatement

def tokens (s : RawStatement) : List Token := s.first :: s.rest

def span (s : RawStatement) : Token.Span :=
  ⟨s.first.span.start, ((s.first :: s.rest).getLast (by simp)).span.stop⟩

/-- The statement of a run of tokens; a run without tokens is none. The end stands at an offset, on
the line and column of an anchor. -/
def ofRun? (run : List Token) (offset : Nat) (anchor : Token) : Option RawStatement :=
  match run with
  | [] => none
  | first :: rest => some ⟨first, rest, ⟨.eof, ⟨offset, offset⟩, anchor.line, anchor.column⟩⟩

def text (s : RawStatement) (source : List Char) : List Char :=
  (Text.slice? source s.span.start s.span.stop).getD []

end RawStatement

/-- The nesting of parentheses after a token. A closing one that matches none changes nothing. -/
def depthAfter (depth : Nat) (t : Token) : Nat :=
  match t.kind with
  | .leftParen => depth + 1
  | .rightParen => depth - 1
  | _ => depth

def lastStatement (run : List Token) : List RawStatement :=
  match run.getLast? with
  | some last => (RawStatement.ofRun? run last.span.stop last).toList
  | none => []

/-- Cuts tokens into statements, where `run` holds the tokens of the statement begun. -/
def splitFrom (depth : Nat) (run : List Token) : List Token → List RawStatement
  | [] => lastStatement run
  | t :: rest =>
    if t.kind = .eof then lastStatement run
    else if t.kind = .semicolon ∧ depth = 0 then
      (RawStatement.ofRun? run t.span.start t).toList ++ splitFrom 0 [] rest
    else
      splitFrom (depthAfter depth t) (run ++ [t]) rest

/-- Cuts tokens into statements. What follows the end of the text is not looked at. -/
def splitTokens (tokens : List Token) : List RawStatement := splitFrom 0 [] tokens

/-- Cuts a stream of tokens, which may break off with an error, into statements. What follows the end
of the text or the error is not looked at. -/
def splitStream (depth : Nat) (run : List Token) :
    List (Except Error Token) → Except Error (List RawStatement)
  | [] => .ok (lastStatement run)
  | .error e :: _ => .error e
  | .ok t :: rest =>
    if t.kind = .eof then .ok (lastStatement run)
    else if t.kind = .semicolon ∧ depth = 0 then
      (splitStream 0 [] rest).map ((RawStatement.ofRun? run t.span.start t).toList ++ ·)
    else
      splitStream (depthAfter depth t) (run ++ [t]) rest

def splitText (source : String) (text : List Char) : Except Error (List RawStatement) :=
  (Token.tokenize source text).map splitTokens

end DdlCatalog
