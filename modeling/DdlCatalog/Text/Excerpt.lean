import DdlCatalog.Text.Location

/-! # Source lines with a caret
An error is shown under the line it points at, with a caret below its column. -/

namespace DdlCatalog.Text

/-- Named source texts. A name may be given twice; its first text counts. -/
structure SourceMap where
  sources : List (String × String)
deriving DecidableEq, Repr

namespace SourceMap

def empty : SourceMap := ⟨[]⟩

def add (m : SourceMap) (name text : String) : SourceMap := ⟨m.sources ++ [(name, text)]⟩

def get? (m : SourceMap) (name : String) : Option String := m.sources.lookup name

def contains (m : SourceMap) (name : String) : Bool := (m.get? name).isSome

/-- Adds a text unless its name is known. -/
def remember (m : SourceMap) (name text : String) : SourceMap :=
  if m.contains name then m else m.add name text

end SourceMap

def dropTrailing (p : Char → Bool) (cs : List Char) : List Char :=
  (cs.reverse.dropWhile p).reverse

def lastLine (cs : List Char) : List Char := (cs.reverse.takeWhile (· ≠ '\n')).reverse

/-- The line around a byte offset, without the carriage returns at its end; there is none if the
offset falls inside a character. -/
def lineAround? (text : List Char) (offset : Nat) : Option (List Char) :=
  (cutAt? (min offset (byteLength text)) text).map fun (before, after) =>
    dropTrailing (· = '\r') (lastLine before ++ after.takeWhile (· ≠ '\n'))

def padLeft (width : Nat) (s : String) : String :=
  String.ofList (List.replicate (width - s.length) ' ') ++ s

/-- The numbered line of a location and a caret under its column. -/
def excerpt? (text : List Char) (l : Location) : Option String :=
  (lineAround? text l.offset).map fun line =>
    padLeft 5 (toString l.line) ++ " | " ++ String.ofList line ++ "\n      | " ++
      String.ofList (List.replicate (l.column - 1) ' ') ++ "^"

/-- What can be shown of a location. -/
inductive Excerpt where
  | unknownSource
  | lines (text : String)
  /-- The offset of the location falls inside a character of the text. -/
  | torn
deriving DecidableEq, Repr

def SourceMap.excerpt (m : SourceMap) (l : Location) : Excerpt :=
  match m.get? l.source with
  | none => .unknownSource
  | some text =>
    match excerpt? text.toList l with
    | some lines => .lines lines
    | none => .torn

end DdlCatalog.Text
