import DdlCatalog.Text.Slice

/-! # Positions in source texts
Offsets count bytes from 0, lines and columns count from 1, and a column counts characters. Only a
line feed ends a line. -/

namespace DdlCatalog.Text

/-- A position in a text whose name does not matter. -/
structure Mark where
  offset : Nat
  line : Nat
  column : Nat
deriving DecidableEq, Repr

namespace Mark

def start : Mark := ⟨0, 1, 1⟩

def step (m : Mark) (c : Char) : Mark :=
  if c = '\n' then ⟨m.offset + c.utf8Size, m.line + 1, 1⟩
  else ⟨m.offset + c.utf8Size, m.line, m.column + 1⟩

def past (m : Mark) (cs : List Char) : Mark := cs.foldl step m

@[simp] theorem past_nil (m : Mark) : m.past [] = m := rfl

@[simp] theorem past_cons (m : Mark) (c : Char) (cs : List Char) :
    m.past (c :: cs) = (m.step c).past cs := rfl

theorem past_append (m : Mark) (a b : List Char) : m.past (a ++ b) = (m.past a).past b :=
  List.foldl_append

@[simp] theorem offset_step (m : Mark) (c : Char) :
    (m.step c).offset = m.offset + c.utf8Size := by
  unfold step; split <;> rfl

theorem offset_past (m : Mark) (cs : List Char) :
    (m.past cs).offset = m.offset + byteLength cs := by
  induction cs generalizing m with
  | nil => simp
  | cons c cs ih => simp [ih, Nat.add_assoc]

end Mark

/-- A position in the text of a given name. -/
structure Location where
  source : String
  offset : Nat
  line : Nat
  column : Nat
deriving DecidableEq, Repr, Inhabited

namespace Location

def ofMark (source : String) (m : Mark) : Location := ⟨source, m.offset, m.line, m.column⟩

/-- The characters that begin before a byte offset. -/
def beginningBefore : Nat → List Char → List Char
  | 0, _ => []
  | _ + 1, [] => []
  | n + 1, c :: cs => c :: beginningBefore (n + 1 - c.utf8Size) cs

theorem beginningBefore_byteLength (a b : List Char) :
    beginningBefore (byteLength a) (a ++ b) = a := by
  induction a with
  | nil => simp [beginningBefore]
  | cons c a ih =>
    obtain ⟨n, hn⟩ : ∃ n, byteLength (c :: a) = n + 1 :=
      ⟨byteLength (c :: a) - 1, by have := c.utf8Size_pos; simp; omega⟩
    rw [hn, List.cons_append, beginningBefore, ← hn]
    simp [ih]

/-- Line and column of a byte offset; an offset past the end stands for the end. -/
def ofOffset (source : String) (text : List Char) (offset : Nat) : Location :=
  let offset := min offset (byteLength text)
  let m := Mark.start.past (beginningBefore offset text)
  ⟨source, offset, m.line, m.column⟩

instance : ToString Location where
  toString l := s!"{l.source}:{l.line}:{l.column}"

end Location

end DdlCatalog.Text
