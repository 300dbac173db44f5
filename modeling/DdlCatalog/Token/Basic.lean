import DdlCatalog.Token.Keyword
import DdlCatalog.Text.Location

/-! # Tokens
What a text of statements is made of. A token knows the bytes it covers and the line and column of
its first character. -/

namespace DdlCatalog.Token

open Text (Location Mark)

/-- A range of bytes, `stop` excluded. -/
structure Span where
  start : Nat
  stop : Nat
deriving DecidableEq, Repr

namespace Span

/-- The smallest span covering both. -/
def cover (a b : Span) : Span := ⟨min a.start b.start, max a.stop b.stop⟩

end Span

inductive Kind where
  | keyword (k : Keyword)
  /-- An unquoted name, folded to lower case. -/
  | identifier (name : String)
  | quotedIdentifier (name : String)
  | string (value : String)
  /-- A numeric literal in its source spelling. -/
  | number (digits : String)
  /-- A body between two equal delimiters, whose tag may be empty. -/
  | dollarQuoted (tag body : String)
  | positional (n : UInt32)
  | named (name : String)
  | operator (op : String)
  | leftParen
  | rightParen
  | leftBracket
  | rightBracket
  | comma
  | semicolon
  | dot
  | colon
  | doubleColon
  | eof
deriving DecidableEq, Repr

namespace Kind

/-- How messages call a token of this kind. -/
def describe : Kind → String
  | keyword k => k.display
  | identifier name => name
  | quotedIdentifier name => "\"" ++ name ++ "\""
  | string value => "'" ++ value ++ "'"
  | number digits => digits
  | dollarQuoted tag _ => "$" ++ tag ++ "$ body"
  | positional n => "$" ++ toString n.toNat
  | named name => ":" ++ name
  | operator op => op
  | leftParen => "("
  | rightParen => ")"
  | leftBracket => "["
  | rightBracket => "]"
  | comma => ","
  | semicolon => ";"
  | dot => "."
  | colon => ":"
  | doubleColon => "::"
  | eof => "end of statement"

/-- The name a token stands for; quoted names keep their case. -/
def name? : Kind → Option String
  | identifier name => some name
  | quotedIdentifier name => some name
  | keyword k => some k.spelling
  | _ => none

/-- The unquoted word a token spells, in lower case. -/
def word? : Kind → Option String
  | identifier name => some name
  | keyword k => some k.spelling
  | _ => none

def ofWord (word : String) : Kind :=
  match Keyword.ofWord? word with
  | some k => keyword k
  | none => identifier word

@[simp] theorem word?_ofWord (word : String) : (ofWord word).word? = some word := by
  unfold ofWord
  split
  · next h => simp [word?, Keyword.spelling_of_ofWord? h]
  · rfl

end Kind
end Token

structure Token where
  kind : Token.Kind
  span : Token.Span
  line : Nat
  column : Nat
deriving DecidableEq, Repr

namespace Token

def isKeyword (t : Token) (k : Keyword) : Bool := t.kind = .keyword k

def name? (t : Token) : Option String := t.kind.name?

def word? (t : Token) : Option String := t.kind.word?

def describe (t : Token) : String := t.kind.describe

def location (t : Token) (source : String) : Text.Location :=
  ⟨source, t.span.start, t.line, t.column⟩

def between (kind : Kind) (first after : Text.Mark) : Token :=
  ⟨kind, ⟨first.offset, after.offset⟩, first.line, first.column⟩

end Token

end DdlCatalog
