import DdlCatalog.Token.Lexeme
import DdlCatalog.Error

/-! # From text to tokens
A scanner holds the text that is still to be read and the position it has reached. -/

namespace DdlCatalog.Token

open Text (Location Mark)

structure Scanner where
  rest : List Char
  mark : Mark
deriving DecidableEq, Repr

namespace Scanner

def start (text : List Char) : Scanner := ⟨text, Mark.start⟩

def advance (s : Scanner) (n : Nat) : Scanner := ⟨s.rest.drop n, s.mark.past (s.rest.take n)⟩

@[simp] theorem rest_advance (s : Scanner) (n : Nat) : (s.advance n).rest = s.rest.drop n := rfl

@[simp] theorem mark_advance (s : Scanner) (n : Nat) :
    (s.advance n).mark = s.mark.past (s.rest.take n) := rfl

/-- What a scanner finds next, and where it stands afterwards. After a token it has less to read. -/
inductive Step (s : Scanner) where
  | token (t : Token) (after : Scanner) (shorter : after.rest.length < s.rest.length)
  | eof (t : Token) (after : Scanner)
  | fault (reason : Fault) (mark : Mark) (after : Scanner)

/-- Skips blanks and comments and reads one token. -/
def next (s : Scanner) : Step s :=
  let trivia := Trivia.ofText s.rest
  let first := s.advance trivia.length
  if trivia.unclosed then
    .fault .unterminatedComment first.mark (first.advance first.rest.length)
  else
    match h : first.rest with
    | [] => .eof (Token.between .eof first.mark first.mark) first
    | c :: rest =>
      match Lexeme.scan c rest with
      | .ok lexeme =>
        let after := first.advance (lexeme.rest + 1)
        .token (Token.between lexeme.kind first.mark after.mark) after (by
          have hlen : first.rest.length ≤ s.rest.length := by
            show (s.rest.drop _).length ≤ _
            simp
          simp only [after, rest_advance, h, List.drop_succ_cons, List.length_drop]
          simp only [h, List.length_cons] at hlen
          omega)
      | .error failure =>
        .fault failure.fault (first.advance failure.lead).mark (first.advance failure.passed)

/-- All tokens up to the end of the text, or the first fault and its position. -/
def tokens (s : Scanner) : Except (Fault × Mark) (List Token) :=
  match s.next with
  | .token t after _ => (tokens after).map (t :: ·)
  | .eof t _ => .ok [t]
  | .fault reason mark _ => .error (reason, mark)
termination_by s.rest.length

end Scanner

def faultError (source : String) (fault : Fault × Mark) : Error :=
  .lex (Location.ofMark source fault.2) fault.1.message

/-- The tokens of a text. The last one, and no other, is the end of the text. -/
def tokenize (source : String) (text : List Char) : Except Error (List Token) :=
  (Scanner.start text).tokens.mapError (faultError source)

/-- A scanner over a named text that can be started again. Read as a stream it ends with the first
fault or the end of the text. -/
structure Lexer where
  source : String
  text : List Char
  scanner : Scanner
  finished : Bool
deriving DecidableEq, Repr

namespace Lexer

def ofText (source : String) (text : List Char) : Lexer :=
  ⟨source, text, Scanner.start text, false⟩

def reset (l : Lexer) : Lexer := ofText l.source l.text

def nextToken (l : Lexer) : Except Error Token × Lexer :=
  match l.scanner.next with
  | .token t after _ => (.ok t, { l with scanner := after })
  | .eof t after => (.ok t, { l with scanner := after })
  | .fault reason mark after =>
    (.error (faultError l.source (reason, mark)), { l with scanner := after })

def next (l : Lexer) : Option (Except Error Token) × Lexer :=
  if l.finished then (none, l)
  else
    match l.scanner.next with
    | .token t after _ => (some (.ok t), { l with scanner := after })
    | .eof _ after => (none, { l with scanner := after, finished := true })
    | .fault reason mark after =>
      (some (.error (faultError l.source (reason, mark))),
        { l with scanner := after, finished := true })

/-- A bound on the number of items that the stream still gives. -/
def remaining (l : Lexer) : Nat := if l.finished then 0 else l.scanner.rest.length + 1

theorem remaining_next {l after : Lexer} {item : Except Error Token}
    (h : l.next = (some item, after)) : after.remaining < l.remaining := by
  unfold next at h
  split at h
  · cases h
  · next hopen =>
    split at h
    · next t after shorter hnext =>
      cases h
      simpa [remaining, hopen] using shorter
    · cases h
    · cases h
      simp [remaining, hopen]

def items (l : Lexer) : List (Except Error Token) :=
  match h : l.next with
  | (none, _) => []
  | (some item, after) =>
    have := remaining_next h
    item :: items after
termination_by l.remaining

/-- Where reading tokens to the end of the text, or to the first fault, leaves a scanner. -/
def drained (s : Scanner) : Scanner :=
  match s.next with
  | .token _ after _ => drained after
  | .eof _ after => after
  | .fault _ _ after => after
termination_by s.rest.length

def rest (l : Lexer) : Except Error (List Token) × Lexer :=
  (l.scanner.tokens.mapError (faultError l.source), { l with scanner := drained l.scanner })

end Lexer

end DdlCatalog.Token
