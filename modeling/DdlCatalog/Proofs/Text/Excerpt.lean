import DdlCatalog.Proofs.Text.Location
import Mathlib.Data.List.DropRight

/-! # Excerpts of texts
The lines of a text are what stands between its line feeds. What is shown of an offset is the line that
it falls into, below the lines that end in front of it, and a caret under the character at the offset. -/

namespace DdlCatalog.Text

variable {cs above below : List Char}

/-- The bytes of lines with a line feed behind each of them. -/
def bytesOfLines : List (List Char) → Nat
  | [] => 0
  | line :: lines => byteLength line + 1 + bytesOfLines lines

theorem length_splitOn_lineFeed (cs : List Char) : (cs.splitOn '\n').length = cs.count '\n' + 1 := by
  induction cs with
  | nil => simp
  | cons c cs ih =>
    rw [List.splitOn_cons_eq_if_modifyHead, List.count_cons]
    by_cases hc : c = '\n' <;> simp [hc, ih]

/-- The last line of a text has no line feed behind it. -/
theorem bytesOfLines_splitOn (cs : List Char) : bytesOfLines (cs.splitOn '\n') = byteLength cs + 1 := by
  induction cs with
  | nil => simp [bytesOfLines]
  | cons c cs ih =>
    rw [List.splitOn_cons_eq_if_modifyHead, byteLength_cons]
    by_cases hc : c = '\n'
    · subst hc
      have hfeed : '\n'.utf8Size = 1 := rfl
      simp [bytesOfLines, ih, hfeed]
      omega
    · obtain ⟨line, lines, hlines⟩ := List.exists_cons_of_ne_nil (List.splitOn_ne_nil '\n' cs)
      rw [hlines] at ih ⊢
      simp [hc, bytesOfLines] at ih ⊢
      omega

/-- What stands between two line feeds, or between one and an end of the text, is one of its lines. -/
theorem exists_splitOn_eq (hstarts : above = [] ∨ above.getLast? = some '\n') (hone : '\n' ∉ cs)
    (hends : below = [] ∨ below.head? = some '\n') :
    ∃ before after, (above ++ (cs ++ below)).splitOn '\n' = before ++ cs :: after ∧
      before.length = above.count '\n' ∧ bytesOfLines before = byteLength above := by
  obtain ⟨after, hafter⟩ : ∃ after, (cs ++ below).splitOn '\n' = cs :: after := by
    rcases hends with rfl | hends
    · exact ⟨[], by rw [List.append_nil, List.splitOn_eq_singleton hone]⟩
    · obtain ⟨below, rfl⟩ := List.head?_eq_some_iff.1 hends
      exact ⟨_, List.splitOn_append_cons_self_of_not_mem hone below⟩
  rcases hstarts with rfl | hstarts
  · exact ⟨[], after, hafter, rfl, rfl⟩
  · obtain ⟨above, rfl⟩ := List.getLast?_eq_some_iff.1 hstarts
    refine ⟨above.splitOn '\n', after, ?_, ?_, ?_⟩
    · rw [List.append_assoc, List.singleton_append, List.splitOn_append_cons_self, hafter]
    · rw [length_splitOn_lineFeed, List.count_append]
      rfl
    · rw [bytesOfLines_splitOn, byteLength_append]
      rfl

theorem lastLine_append (hstarts : above = [] ∨ above.getLast? = some '\n') (h : '\n' ∉ cs) :
    lastLine (above ++ cs) = cs := by
  have hline : ∀ c ∈ cs.reverse, decide (c ≠ '\n') = true := by
    intro c hc
    have hne : c ≠ '\n' := by
      rintro rfl
      exact h (List.mem_reverse.1 hc)
    simpa using hne
  unfold lastLine
  rw [List.reverse_append, List.takeWhile_append_of_pos hline]
  rcases hstarts with rfl | hstarts
  · simp
  · obtain ⟨above, rfl⟩ := List.getLast?_eq_some_iff.1 hstarts
    simp

/-- What is dropped at the end of a line are carriage returns, and all that stand there. -/
theorem exists_eq_dropTrailing (line : List Char) :
    ∃ returns, line = dropTrailing (· = '\r') line ++ List.replicate returns '\r' ∧
      (dropTrailing (· = '\r') line).getLast? ≠ some '\r' := by
  have hdrop : dropTrailing (· = '\r') line = line.rdropWhile (· = '\r') := rfl
  rw [hdrop]
  refine ⟨(line.rtakeWhile (· = '\r')).length, ?_, fun hlast => ?_⟩
  · have hreturns : List.replicate (line.rtakeWhile (· = '\r')).length '\r' =
        line.rtakeWhile (· = '\r') :=
      (List.eq_replicate_iff.2 ⟨rfl, fun c hc => by simpa using List.mem_rtakeWhile_imp hc⟩).symm
    rw [hreturns, List.rdropWhile_append_rtakeWhile]
  · obtain ⟨front, hfront⟩ := List.getLast?_eq_some_iff.1 hlast
    have hne : line.rdropWhile (· = '\r') ≠ [] := by simp [hfront]
    apply List.rdropWhile_last_not _ _ hne
    simp [hfront]

/-- What is shown of an offset is its line, with all lines that end in front of the offset above it, and
without the carriage returns at its end. The caret stands behind as many blanks as there are characters
between the start of the line and the offset. -/
theorem excerpt_ofOffset (source : String) {text : List Char} {offset : Nat} (h : OnBoundary text offset) :
    ∃ above front behind below shown returns,
      text.splitOn '\n' = above ++ (front ++ behind) :: below ∧
      offset = bytesOfLines above + byteLength front ∧
      (Location.ofOffset source text offset).line = above.length + 1 ∧
      front ++ behind = shown ++ List.replicate returns '\r' ∧ shown.getLast? ≠ some '\r' ∧
      excerpt? text (Location.ofOffset source text offset) =
        some (padLeft 5 (toString (above.length + 1)) ++ " | " ++ String.ofList shown ++ "\n      | " ++
          String.ofList (List.replicate front.length ' ') ++ "^") := by
  obtain ⟨line, hline, haround⟩ := exists_lineAt h
  obtain @⟨start, front, behind, rest, hsplit, rfl, hone, hstarts, hends⟩ := hline
  obtain ⟨above, below, hlines, hcount, hbytes⟩ := exists_splitOn_eq hstarts hone hends
  obtain ⟨returns, hreturns, hlast⟩ := exists_eq_dropTrailing (front ++ behind)
  have htext : text = (start ++ front) ++ (behind ++ rest) := by simp [hsplit]
  have hlocation : Location.ofOffset source text (byteLength (start ++ front)) =
      Location.ofMark source (Mark.start.past (start ++ front)) := by
    rw [htext, Location.ofOffset_byteLength]
  have hfront : '\n' ∉ front := fun hmem => hone (List.mem_append_left _ hmem)
  have hnumber : (Mark.start.past (start ++ front)).line = above.length + 1 := by
    rw [Mark.line_past_start, List.count_append, List.count_eq_zero_of_not_mem hfront, hcount,
      Nat.add_zero]
  have hcolumn : (Mark.start.past (start ++ front)).column = front.length + 1 := by
    rw [Mark.column_past_start, lastLine_append hstarts hfront]
  refine ⟨above, front, behind, below, _, returns, ?_, ?_, ?_, hreturns, hlast, ?_⟩
  · simpa [hsplit] using hlines
  · rw [byteLength_append, hbytes]
  · rw [hlocation]
    exact hnumber
  · rw [hlocation, excerpt?]
    show Option.map _ (lineAround? text (Mark.start.past (start ++ front)).offset) = _
    rw [Mark.offset_past_start, haround]
    simp only [Option.map_some, Location.ofMark, hnumber, hcolumn, Nat.add_sub_cancel]

/-- Lines of several bytes to a character, with one and with two carriage returns at the end. -/
def returnedText : String := "é\r\n→ x\r\r\ny"

theorem excerpt_returnedText :
    OnBoundary returnedText.toList 7 ∧
      excerpt? returnedText.toList (Location.ofOffset "a.sql" returnedText.toList 7) =
        some "    2 | → x\n      |  ^" ∧
      ∃ above front behind below shown returns,
        returnedText.toList.splitOn '\n' = above ++ (front ++ behind) :: below ∧
        7 = bytesOfLines above + byteLength front ∧
        (Location.ofOffset "a.sql" returnedText.toList 7).line = above.length + 1 ∧
        front ++ behind = shown ++ List.replicate returns '\r' ∧ shown.getLast? ≠ some '\r' ∧
        excerpt? returnedText.toList (Location.ofOffset "a.sql" returnedText.toList 7) =
          some (padLeft 5 (toString (above.length + 1)) ++ " | " ++ String.ofList shown ++
            "\n      | " ++ String.ofList (List.replicate front.length ' ') ++ "^") := by
  have hboundary : OnBoundary returnedText.toList 7 :=
    ⟨"é\r\n→".toList, " x\r\r\ny".toList, by decide +kernel, by decide +kernel⟩
  exact ⟨hboundary, by decide +kernel, excerpt_ofOffset "a.sql" hboundary⟩

end DdlCatalog.Text
