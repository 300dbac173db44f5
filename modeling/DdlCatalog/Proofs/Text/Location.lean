import DdlCatalog.Text.Excerpt
import Mathlib.Data.List.Induction
import Mathlib.Data.List.TakeWhile

/-! # Positions in the lines of a text
What has been read of a text determines the position that is reached: its offset counts bytes, its
line the line feeds, and its column the characters since the last of them. -/

namespace DdlCatalog.Text

/-- The offset falls between two characters of a text or at one of its ends. -/
def OnBoundary (text : List Char) (offset : Nat) : Prop :=
  ∃ before after, text = before ++ after ∧ byteLength before = offset

theorem OnBoundary.le {text : List Char} {offset : Nat} (h : OnBoundary text offset) :
    offset ≤ byteLength text := by
  obtain ⟨before, after, rfl, rfl⟩ := h
  rw [byteLength_append]
  exact Nat.le_add_right _ _

theorem byteLength_pos {cs : List Char} (h : cs ≠ []) : 0 < byteLength cs := by
  cases cs with
  | nil => exact absurd rfl h
  | cons c cs =>
    rw [byteLength_cons]
    exact Nat.add_pos_left c.utf8Size_pos _

theorem lastLine_concat (cs : List Char) (c : Char) :
    lastLine (cs ++ [c]) = if c = '\n' then [] else lastLine cs ++ [c] := by
  unfold lastLine
  rw [List.reverse_append, List.reverse_singleton, List.singleton_append, List.takeWhile_cons]
  by_cases hc : c = '\n' <;> simp [hc]

theorem exists_lastLine (cs : List Char) :
    ∃ above, cs = above ++ lastLine cs ∧ '\n' ∉ lastLine cs ∧
      (above = [] ∨ above.getLast? = some '\n') := by
  induction cs using List.reverseRecOn with
  | nil => exact ⟨[], rfl, nofun, .inl rfl⟩
  | append_singleton cs c ih =>
    obtain ⟨above, hcs, hline, habove⟩ := ih
    rw [lastLine_concat]
    by_cases hc : c = '\n'
    · rw [if_pos hc]
      exact ⟨cs ++ [c], (List.append_nil _).symm, nofun, .inr (by rw [hc, List.getLast?_concat])⟩
    · rw [if_neg hc]
      refine ⟨above, by rw [← List.append_assoc, ← hcs], ?_, habove⟩
      simpa [Ne.symm hc] using hline

/-- A line of a text without its line feed: the offset falls between its first part and its second
one. -/
inductive LineAt (text : List Char) (offset : Nat) : List Char → Prop where
  | intro {above before after below : List Char} (split : text = above ++ before ++ after ++ below)
      (offset_eq : byteLength (above ++ before) = offset) (one : '\n' ∉ before ++ after)
      (starts : above = [] ∨ above.getLast? = some '\n')
      (ends : below = [] ∨ below.head? = some '\n') : LineAt text offset (before ++ after)

theorem exists_lineAt {text : List Char} {offset : Nat} (h : OnBoundary text offset) :
    ∃ line, LineAt text offset line ∧
      lineAround? text offset = some (dropTrailing (· = '\r') line) := by
  have hmin := Nat.min_eq_left h.le
  obtain ⟨before, after, rfl, rfl⟩ := h
  obtain ⟨above, habove, hlast, hstarts⟩ := exists_lastLine before
  refine ⟨lastLine before ++ after.takeWhile (· ≠ '\n'), ?_, ?_⟩
  · have hsplit : before ++ after = above ++ lastLine before ++ after.takeWhile (· ≠ '\n') ++
        after.dropWhile (· ≠ '\n') := by
      rw [← habove, List.append_assoc, List.takeWhile_append_dropWhile]
    refine .intro hsplit (by rw [← habove]) ?_ hstarts ?_
    · rw [List.mem_append, not_or]
      refine ⟨hlast, fun hm => ?_⟩
      have hne := List.mem_takeWhile_imp hm
      simp at hne
    · cases hd : after.dropWhile (· ≠ '\n') with
      | nil => exact .inl rfl
      | cons c rest =>
        have hc := List.head?_dropWhile_not (· ≠ '\n') after
        rw [hd] at hc
        exact .inr (by simpa using hc)
  · rw [lineAround?, hmin, cutAt?_byteLength]
    rfl

namespace Mark

theorem offset_past_start (cs : List Char) : (start.past cs).offset = byteLength cs := by
  rw [offset_past]
  exact Nat.zero_add _

theorem past_concat (m : Mark) (cs : List Char) (c : Char) :
    m.past (cs ++ [c]) = (m.past cs).step c := by
  rw [past_append, past_cons, past_nil]

theorem line_past_start (cs : List Char) : (start.past cs).line = cs.count '\n' + 1 := by
  induction cs using List.reverseRecOn with
  | nil => rfl
  | append_singleton cs c ih =>
    rw [past_concat, step, List.count_append, List.count_singleton]
    by_cases hc : c = '\n'
    · simp only [hc, if_true, ih, beq_self_eq_true]
    · simp [hc, ih]

theorem column_past_start (cs : List Char) :
    (start.past cs).column = (lastLine cs).length + 1 := by
  induction cs using List.reverseRecOn with
  | nil => rfl
  | append_singleton cs c ih =>
    rw [past_concat, step, lastLine_concat]
    by_cases hc : c = '\n' <;> simp [hc, ih]

def below (m : Mark) (bytes lines : Nat) : Mark := ⟨m.offset + bytes, m.line + lines, m.column⟩

theorem past_below (m : Mark) (bytes lines : Nat) (cs : List Char) :
    (m.below bytes lines).past cs = (m.past cs).below bytes lines := by
  induction cs generalizing m with
  | nil => rfl
  | cons c cs ih =>
    have hstep : (m.below bytes lines).step c = (m.step c).below bytes lines := by
      unfold step below
      split <;> simp only [Nat.add_right_comm]
    rw [past_cons, past_cons, hstep, ih]

/-- Behind a line feed positions count as in a text of its own, so many bytes and lines below. -/
theorem past_start_lineFeed (front cs : List Char) :
    start.past (front ++ '\n' :: cs) =
      (start.past cs).below (byteLength front + 1) (front.count '\n' + 1) := by
  have hfront : start.past (front ++ ['\n']) =
      start.below (byteLength front + 1) (front.count '\n' + 1) := by
    rw [past_concat, step, if_pos rfl, offset_past_start, line_past_start]
    exact congrArg₂ (Mark.mk · · 1) (Nat.zero_add _).symm (Nat.add_comm _ 1)
  rw [List.append_cons, past_append, hfront, past_below]

/-- Characters that are read lead to another line or column. -/
theorem line_column_ne_of_past {cs : List Char} (h : cs ≠ []) (m : Mark) :
    ¬((m.past cs).line = m.line ∧ (m.past cs).column = m.column) := by
  -- no character goes back to a line above, nor to a column in front
  have later (cs : List Char) (m : Mark) : m.line < (m.past cs).line ∨
      m.line = (m.past cs).line ∧ m.column ≤ (m.past cs).column := by
    induction cs generalizing m with
    | nil => exact .inr ⟨rfl, Nat.le_refl _⟩
    | cons c cs ih =>
      rw [past_cons]
      have hrest := ih (m.step c)
      unfold step at hrest ⊢
      split at hrest <;> simp_all <;> omega
  cases cs with
  | nil => exact absurd rfl h
  | cons c cs =>
    rw [past_cons]
    have hrest := later cs (m.step c)
    unfold step at hrest ⊢
    split at hrest <;> simp_all <;> omega

end Mark

namespace Location

def below (bytes lines : Nat) (l : Location) : Location :=
  { l with offset := l.offset + bytes, line := l.line + lines }

theorem ofMark_below (source : String) (m : Mark) (bytes lines : Nat) :
    ofMark source (m.below bytes lines) = (ofMark source m).below bytes lines := rfl

/-- The location behind the front of a text is that of the mark reached there. -/
theorem ofOffset_byteLength (source : String) (before after : List Char) :
    ofOffset source (before ++ after) (byteLength before) =
      ofMark source (Mark.start.past before) := by
  have hmin : min (byteLength before) (byteLength (before ++ after)) = byteLength before := by
    rw [byteLength_append]
    omega
  unfold ofOffset
  rw [hmin]
  dsimp only
  rw [beginningBefore_byteLength, ofMark, Mark.offset_past_start]

/-- The offset of a location falls between two characters of a text, and its line and column are
those of the offset. -/
structure Fits (source : String) (text : List Char) (l : Location) : Prop where
  boundary : OnBoundary text l.offset
  eq_ofOffset : l = ofOffset source text l.offset

variable {source : String} {text : List Char} {l : Location}

/-- Fitting locations are those that are reached by reading. -/
theorem fits_iff : l.Fits source text ↔
    ∃ before after, text = before ++ after ∧ l = ofMark source (Mark.start.past before) := by
  constructor
  · rintro ⟨⟨before, after, rfl, hoffset⟩, heq⟩
    rw [← hoffset, ofOffset_byteLength] at heq
    exact ⟨before, after, rfl, heq⟩
  · rintro ⟨before, after, rfl, rfl⟩
    have hoffset : (ofMark source (Mark.start.past before)).offset = byteLength before :=
      Mark.offset_past_start before
    refine ⟨⟨before, after, rfl, hoffset.symm⟩, ?_⟩
    rw [hoffset, ofOffset_byteLength]

theorem Fits.source_eq (h : l.Fits source text) : l.source = source :=
  congrArg Location.source h.eq_ofOffset

/-- A text has one fitting location at an offset. -/
theorem Fits.eq_of_offset (h : l.Fits source text) {l' : Location} (h' : l'.Fits source text)
    (hoffset : l.offset = l'.offset) : l = l' := by
  have heq := h.eq_ofOffset
  rw [hoffset, ← h'.eq_ofOffset] at heq
  exact heq

/-- The column of a fitting location counts the characters in front of the offset on its line. -/
theorem Fits.column_eq (h : l.Fits source text) :
    ∃ before after, text = before ++ after ∧ byteLength before = l.offset ∧
      l.column = (lastLine before).length + 1 := by
  obtain ⟨before, after, rfl, rfl⟩ := fits_iff.1 h
  exact ⟨before, after, rfl, (Mark.offset_past_start before).symm, Mark.column_past_start before⟩

theorem Fits.append (h : l.Fits source text) (back : List Char) : l.Fits source (text ++ back) := by
  obtain ⟨before, after, rfl, rfl⟩ := fits_iff.1 h
  exact fits_iff.2 ⟨before, after ++ back, List.append_assoc .., rfl⟩

/-- A text below another one, behind a line feed, has the same locations below. -/
theorem Fits.below (h : l.Fits source text) (front : List Char) :
    (l.below (byteLength front + 1) (front.count '\n' + 1)).Fits source (front ++ '\n' :: text) := by
  obtain ⟨before, after, rfl, rfl⟩ := fits_iff.1 h
  refine fits_iff.2 ⟨front ++ '\n' :: before, after, by simp, ?_⟩
  rw [Mark.past_start_lineFeed, ofMark_below]

end Location

/-- A line with its number, above a caret behind so many blanks. -/
def underlined (number : Nat) (line : List Char) (blanks : Nat) : String :=
  padLeft 5 (toString number) ++ " | " ++ String.ofList (dropTrailing (· = '\r') line) ++
    "\n      | " ++ String.ofList (List.replicate blanks ' ') ++ "^"

/-- What is shown of a location is the line that its offset falls into. -/
theorem exists_excerpt {text : List Char} {l : Location} (h : OnBoundary text l.offset) :
    ∃ line, LineAt text l.offset line ∧
      excerpt? text l = some (underlined l.line line (l.column - 1)) := by
  obtain ⟨line, hline, haround⟩ := exists_lineAt h
  refine ⟨line, hline, ?_⟩
  rw [excerpt?, haround]
  rfl

/-- The caret under a fitting location stands behind as many blanks as there are characters in front
of the offset on its line. -/
theorem Location.Fits.exists_excerpt {source : String} {text : List Char} {l : Location}
    (h : l.Fits source text) :
    ∃ before after line, text = before ++ after ∧ byteLength before = l.offset ∧
      LineAt text l.offset line ∧
      excerpt? text l = some (underlined l.line line (lastLine before).length) := by
  obtain ⟨line, hline, hexcerpt⟩ := Text.exists_excerpt h.boundary
  obtain ⟨before, after, hsplit, hoffset, hcolumn⟩ := h.column_eq
  refine ⟨before, after, line, hsplit, hoffset, hline, ?_⟩
  rw [hexcerpt, hcolumn, Nat.add_sub_cancel]

end DdlCatalog.Text
