import DdlCatalog.Decimal.Basic
import DdlCatalog.Token.Basic
import DdlCatalog.Text.CharClass
import DdlCatalog.Text.LetterCase

/-! # Lexemes
Recognises blanks and comments, and the one token that starts a text. Every function answers with a
number of characters, so that the text is always what was taken followed by what was left. -/

namespace DdlCatalog.Token

open Text (isAlphabetic isAlphanumeric isBlank)

/-- Why a text has no token at some place. -/
inductive Fault where
  | unexpectedCharacter (c : Char)
  | unterminatedComment
  | unterminatedString
  | unterminatedQuotedIdentifier
  | emptyQuotedIdentifier
  | parameterOutOfRange (digits : String)
  | unterminatedDollarQuote (delimiter : String)
  | junkAfterNumber
deriving DecidableEq, Repr

namespace Fault

def message : Fault → String
  | unexpectedCharacter c => "unexpected character '" ++ c.toString ++ "'"
  | unterminatedComment => "unterminated block comment"
  | unterminatedString => "unterminated string literal"
  | unterminatedQuotedIdentifier => "unterminated quoted identifier"
  | emptyQuotedIdentifier => "zero-length quoted identifier"
  | parameterOutOfRange digits => "invalid parameter $" ++ digits
  | unterminatedDollarQuote delimiter => "unterminated dollar-quoted string " ++ delimiter
  | junkAfterNumber => "trailing junk after numeric literal"

end Fault

/-- The length of the rest of a block comment, closing mark included. `depth` comments are open
around it. -/
def commentRest? (depth : Nat) : List Char → Option Nat
  | [] => none
  | '*' :: '/' :: rest =>
    match depth with
    | 0 => some 2
    | depth + 1 => (commentRest? depth rest).map (· + 2)
  | '/' :: '*' :: rest => (commentRest? (depth + 1) rest).map (· + 2)
  | _ :: rest => (commentRest? depth rest).map (· + 1)

/-- The blanks and comments at the start of a text: their length, and whether a comment that is
never closed follows. -/
structure Trivia where
  length : Nat
  unclosed : Bool
deriving DecidableEq, Repr

namespace Trivia

def after (n : Nat) (t : Trivia) : Trivia := ⟨n + t.length, t.unclosed⟩

def ofText : List Char → Trivia
  | [] => ⟨0, false⟩
  | c :: rest =>
    if isBlank c then (ofText rest).after 1
    else
      match c, rest with
      | '-', '-' :: rest =>
        let n := (rest.takeWhile (· ≠ '\n')).length
        (ofText (rest.drop n)).after (n + 2)
      | '/', '*' :: rest =>
        match commentRest? 0 rest with
        | some n => (ofText (rest.drop n)).after (n + 2)
        | none => ⟨0, true⟩
      | _, _ => ⟨0, false⟩
termination_by cs => cs.length
decreasing_by all_goals simp only [List.length_cons, List.length_drop]; omega

end Trivia

/-- The text up to the closing mark, which is written twice inside, and the number of characters
taken with the closing mark. -/
def quotedRest? (mark : Char) : List Char → Option (List Char × Nat)
  | [] => none
  | [c] => if c = mark then some ([], 1) else none
  | c :: d :: rest =>
    if c = mark then
      if d = mark then (quotedRest? mark rest).map fun (text, n) => (mark :: text, n + 2)
      else some ([], 1)
    else
      (quotedRest? mark (d :: rest)).map fun (text, n) => (c :: text, n + 1)

/-- The character that a backslash and `c` stand for. -/
def unescape (c : Char) : Char :=
  if c = 'n' then '\n'
  else if c = 't' then '\t'
  else if c = 'r' then '\r'
  else if c = 'b' then '\x08'
  else if c = 'f' then '\x0c'
  else c

/-- Like `quotedRest?` for single quotes, where a backslash escapes the next character. -/
def escapedRest? : List Char → Option (List Char × Nat)
  | [] => none
  | [c] => if c = '\'' then some ([], 1) else none
  | c :: d :: rest =>
    if c = '\'' then
      if d = '\'' then (escapedRest? rest).map fun (text, n) => ('\'' :: text, n + 2)
      else some ([], 1)
    else if c = '\\' then
      (escapedRest? rest).map fun (text, n) => (unescape d :: text, n + 2)
    else
      (escapedRest? (d :: rest)).map fun (text, n) => (c :: text, n + 1)

/-- The characters before the first occurrence of a delimiter. -/
def before? (delimiter : List Char) : List Char → Option (List Char)
  | [] => if delimiter = [] then some [] else none
  | c :: rest =>
    if delimiter.isPrefixOf (c :: rest) then some []
    else (before? delimiter rest).map (c :: ·)

def isWordStart (c : Char) : Bool := c = '_' || isAlphabetic c

def isWordChar (c : Char) : Bool := isAlphanumeric c || c = '_' || c = '$'

def isNameChar (c : Char) : Bool := c = '_' || isAlphanumeric c

/-- Tags of dollar quotes are ASCII words. -/
def isTagChar (c : Char) : Bool := c.isAlphanum || c = '_'

def isOperatorChar (c : Char) : Bool := "+-*/<>=~!@#%^&|\x60?".toList.contains c

/-- An operator with one of these may end in a sign. -/
def allowsTrailingSign (c : Char) : Bool := "~!@#%^&|\x60?".toList.contains c

def isSign (c : Char) : Bool := c = '+' || c = '-'

def startsNumber (c : Char) (rest : List Char) : Bool :=
  c.isDigit || (c = '.' && rest.head?.any Char.isDigit)

/-- Digits and underscores with at most one point; a point before another point is left alone. -/
def mantissaLength (seenPoint : Bool) : List Char → Nat
  | [] => 0
  | c :: rest =>
    if c.isDigit || c = '_' then 1 + mantissaLength seenPoint rest
    else if c = '.' && !seenPoint && rest.head? ≠ some '.' then 1 + mantissaLength true rest
    else 0

/-- An exponent needs a digit after its mark and sign. -/
def exponentLength : List Char → Nat
  | [] => 0
  | e :: rest =>
    if e = 'e' || e = 'E' then
      let signs := if rest.head?.any isSign then 1 else 0
      match ((rest.drop signs).takeWhile Char.isDigit).length with
      | 0 => 0
      | n => 1 + signs + n
    else
      0

def numberLength (cs : List Char) : Nat :=
  let n := mantissaLength false cs
  n + exponentLength (cs.drop n)

/-- Operator characters up to the start of a comment. -/
def operatorRest : List Char → List Char
  | [] => []
  | c :: rest =>
    if !isOperatorChar c then []
    else if c = '-' && rest.head? = some '-' then []
    else if c = '/' && rest.head? = some '*' then []
    else c :: operatorRest rest

/-- The longest run of operator characters. An operator of several characters ends in a sign only
if it contains a character that allows it. -/
def operatorText (c : Char) (rest : List Char) : List Char :=
  let run := operatorRest rest
  if (c :: run).any allowsTrailingSign then c :: run
  else c :: (run.reverse.dropWhile isSign).reverse

/-- A token and the number of characters it has after its first. -/
structure Lexeme where
  kind : Kind
  rest : Nat
deriving DecidableEq, Repr

/-- A fault, the distance in characters from the start of the token to the place it is reported at,
and the number of characters passed over before scanning stopped. -/
structure Failure where
  fault : Fault
  lead : Nat
  passed : Nat
deriving DecidableEq, Repr

namespace Lexeme

def string (rest : List Char) : Except Failure Lexeme :=
  match quotedRest? '\'' rest with
  | some (text, n) => .ok ⟨.string (String.ofList text), n⟩
  | none => .error ⟨.unterminatedString, 0, rest.length + 1⟩

/-- A string with escapes, after its letter and its opening quote. -/
def escapedString (rest : List Char) : Except Failure Lexeme :=
  match escapedRest? rest with
  | some (text, n) => .ok ⟨.string (String.ofList text), n + 1⟩
  | none => .error ⟨.unterminatedString, 1, rest.length + 2⟩

def quotedIdentifier (rest : List Char) : Except Failure Lexeme :=
  match quotedRest? '"' rest with
  | some ([], n) => .error ⟨.emptyQuotedIdentifier, 0, n + 1⟩
  | some (text, n) => .ok ⟨.quotedIdentifier (String.ofList text), n⟩
  | none => .error ⟨.unterminatedQuotedIdentifier, 0, rest.length + 1⟩

def parameter (digits : List Char) : Except Failure Lexeme :=
  if Decimal.digitsValue digits < UInt32.size then
    .ok ⟨.positional (UInt32.ofNat (Decimal.digitsValue digits)), digits.length⟩
  else
    .error ⟨.parameterOutOfRange (String.ofList digits), 0, digits.length + 1⟩

/-- The rest of a dollar quote whose opening tag has been read from `rest`. -/
def dollarQuoted (tag rest : List Char) : Except Failure Lexeme :=
  let delimiter := '$' :: tag ++ ['$']
  match before? delimiter (rest.drop (tag.length + 1)) with
  | some body =>
    .ok ⟨.dollarQuoted (String.ofList tag) (String.ofList body),
      tag.length + 1 + body.length + delimiter.length⟩
  | none => .error ⟨.unterminatedDollarQuote (String.ofList delimiter), 0, 0⟩

/-- A parameter or a dollar quote, after its dollar sign. -/
def dollar (rest : List Char) : Except Failure Lexeme :=
  match rest.takeWhile Char.isDigit with
  | [] =>
    let tag := rest.takeWhile isTagChar
    if (rest.drop tag.length).head? = some '$' then dollarQuoted tag rest
    else .error ⟨.unexpectedCharacter '$', 0, 0⟩
  | digits => parameter digits

def colon (rest : List Char) : Lexeme :=
  match rest with
  | [] => ⟨.colon, 0⟩
  | c :: _ =>
    if c = ':' then ⟨.doubleColon, 1⟩
    else if isWordStart c then
      let name := rest.takeWhile isNameChar
      ⟨.named (String.ofList name), name.length⟩
    else
      ⟨.colon, 0⟩

def number (cs : List Char) : Except Failure Lexeme :=
  let n := numberLength cs
  if (cs.drop n).head?.any isWordStart then .error ⟨.junkAfterNumber, 0, n⟩
  else .ok ⟨.number (String.ofList (cs.take n)), n - 1⟩

def word (c : Char) (rest : List Char) : Lexeme :=
  let tail := rest.takeWhile isWordChar
  ⟨Kind.ofWord (Text.lower (String.ofList (c :: tail))), tail.length⟩

def punctuation? (c : Char) : Option Kind :=
  if c = '(' then some .leftParen
  else if c = ')' then some .rightParen
  else if c = '[' then some .leftBracket
  else if c = ']' then some .rightBracket
  else if c = ',' then some .comma
  else if c = ';' then some .semicolon
  else if c = '.' then some .dot
  else none

def operator (c : Char) (rest : List Char) : Lexeme :=
  let op := operatorText c rest
  ⟨.operator (String.ofList op), op.length - 1⟩

def symbol (c : Char) (rest : List Char) : Except Failure Lexeme :=
  match punctuation? c with
  | some kind => .ok ⟨kind, 0⟩
  | none =>
    if isOperatorChar c then .ok (operator c rest)
    else .error ⟨.unexpectedCharacter c, 0, 0⟩

/-- The token whose first character is `c`. -/
def scan (c : Char) (rest : List Char) : Except Failure Lexeme :=
  if c = '\'' then string rest
  else if c = '"' then quotedIdentifier rest
  else if c = '$' then dollar rest
  else if c = ':' then .ok (colon rest)
  else if startsNumber c rest then number (c :: rest)
  else if isWordStart c then
    if (c = 'e' || c = 'E') && rest.head? = some '\'' then escapedString rest.tail
    else .ok (word c rest)
  else symbol c rest

end Lexeme

end DdlCatalog.Token
