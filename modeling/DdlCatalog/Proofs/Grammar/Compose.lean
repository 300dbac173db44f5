import DdlCatalog.Proofs.Grammar.Places
import DdlCatalog.Proofs.Statement.Compose

/-! # Texts put together
Two texts with a semicolon on a line of its own between them give the statements of the first and
those of the second, whose places are all so many bytes and lines below. -/

namespace DdlCatalog.Grammar

open Text (Location byteLength)
open Token (Stands separator)

section Part

variable {source : String} {text front part back : List Char} {f : Location → Location}

/-- A statement is parsed in a text as in a part of it, with the places that fit in the text. -/
theorem parseRaw_of_moves {raw raw' : RawStatement} (htext : text = front ++ part ++ back)
    (h : raw.Moves (byteLength front) (byteLength part) raw')
    (hstands : ∀ t ∈ raw.tokens, Stands source text t)
    (hstands' : ∀ t ∈ raw'.tokens, Stands source part t)
    (hfits : ∀ l : Location, l.Fits source part →
      (f l).Fits source text ∧ (f l).offset = byteLength front + l.offset)
    {p : ParsedStatement} (hp : parseRaw source part raw' = .ok p) :
    parseRaw source text raw = .ok (p.relocate f) := by
  have hgives := gives_ofMoves htext h source source
  rw [hp] at hgives
  generalize parseRaw source text raw = x at hgives ⊢
  cases hgives with
  | @ok p' _ relocated =>
    have hsame : p'.relocate id = p.relocate f := relocated.relocate_eq fun l l' hl => by
      obtain ⟨t, u, hmoves, rfl, rfl⟩ := hl
      obtain ⟨hplace, hoffset⟩ := hfits _ (hstands' u hmoves.mem_part).fits
      exact (hstands t hmoves.mem_whole).fits.eq_of_offset hplace
        (hmoves.start.trans hoffset.symm)
    rw [← hsame, ParsedStatement.relocate_id]

/-- So are all statements of the part. -/
theorem forall₂_parseRaw_of_moves {raws raws' whole : List RawStatement}
    {ps : List ParsedStatement} (htext : text = front ++ part ++ back)
    (h : List.Forall₂ (RawStatement.Moves (byteLength front) (byteLength part)) raws raws')
    (hwhole : splitText source text = .ok whole) (hsub : raws ⊆ whole)
    (hpart : splitText source part = .ok raws')
    (hfits : ∀ l : Location, l.Fits source part →
      (f l).Fits source text ∧ (f l).offset = byteLength front + l.offset)
    (hps : List.Forall₂ (fun raw p => parseRaw source part raw = .ok p) raws' ps) :
    List.Forall₂ (fun raw p => parseRaw source text raw = .ok p) raws
      (ps.map (·.relocate f)) := by
  have hstands : ∀ raw ∈ raws, ∀ t ∈ raw.tokens, Stands source text t :=
    fun raw hraw => (stands_of_splitText hwhole (hsub hraw)).2.1
  have hstands' : ∀ raw ∈ raws', ∀ t ∈ raw.tokens, Stands source part t :=
    fun raw hraw => (stands_of_splitText hpart hraw).2.1
  clear hsub hpart
  induction h generalizing ps with
  | nil =>
    cases hps
    exact .nil
  | cons hmoves _ ih =>
    cases hps with
    | cons hp hmore =>
      obtain ⟨hfirst, hrest⟩ := List.forall_mem_cons.1 hstands
      obtain ⟨hfirst', hrest'⟩ := List.forall_mem_cons.1 hstands'
      exact .cons (parseRaw_of_moves htext hmoves hfirst hfirst' hfits hp) (ih hmore hrest hrest')

end Part

theorem fits_behind_separator {source : String} {b : List Char} {l : Location}
    (h : l.Fits source b) (a : List Char) :
    (l.below (byteLength a + 3) (a.count '\n' + 2)).Fits source (a ++ separator ++ b) := by
  have hfits := h.below (a ++ ['\n', ';'])
  have hbytes : byteLength (a ++ ['\n', ';']) + 1 = byteLength a + 3 := by
    rw [Text.byteLength_append]
    rfl
  have hlines : (a ++ ['\n', ';']).count '\n' + 1 = a.count '\n' + 2 := by
    rw [List.count_append]
    rfl
  have htext : a ++ ['\n', ';'] ++ '\n' :: b = a ++ separator ++ b := by
    rw [List.append_assoc, List.append_assoc]
    rfl
  rwa [hbytes, hlines, htext] at hfits

/-- Two texts with a separator between them give the statements of both, if no parenthesis is open at
the end of the first. Those of the second are as many bytes and lines below as the first has with the
separator. -/
theorem parseSource_append {source a b : String} {as bs : List ParsedStatement}
    (ha : parseSource source a = .ok as) (hb : parseSource source b = .ok bs)
    (hopen : openParentheses? source a.toList = some 0) :
    parseSource source (a ++ "\n;\n" ++ b) =
      .ok (as ++ bs.map (·.relocate
        (Location.below (byteLength a.toList + 3) (a.toList.count '\n' + 2)))) := by
  obtain ⟨raws, hraws, ha⟩ := parseSource_eq_ok_iff.1 ha
  obtain ⟨raws', hraws', hb⟩ := parseSource_eq_ok_iff.1 hb
  obtain ⟨front, back, hsplit, hfront, hback⟩ := exists_splitText_append hraws hraws' hopen
  have htext : (a ++ "\n;\n" ++ b).toList = a.toList ++ separator ++ b.toList := by
    rw [String.toList_append, String.toList_append]
    rfl
  have hfirst : List.Forall₂
      (fun raw p => parseRaw source (a.toList ++ separator ++ b.toList) raw = .ok p) front as := by
    have hwhole : a.toList ++ separator ++ b.toList = [] ++ a.toList ++ (separator ++ b.toList) :=
      List.append_assoc ..
    have hsame := forall₂_parseRaw_of_moves (f := id) hwhole hfront hsplit
      (List.subset_append_left ..) hraws (fun l hl => ⟨?_, (Nat.zero_add _).symm⟩) ha
    · simpa [ParsedStatement.relocate_id] using hsame
    · rw [List.append_assoc]
      exact hl.append _
  have hsecond : List.Forall₂
      (fun raw p => parseRaw source (a.toList ++ separator ++ b.toList) raw = .ok p) back
      (bs.map (·.relocate
        (Location.below (byteLength a.toList + 3) (a.toList.count '\n' + 2)))) := by
    refine forall₂_parseRaw_of_moves (List.append_nil _).symm hback hsplit
      (List.subset_append_right ..) hraws'
      (fun l hl => ⟨fits_behind_separator hl a.toList, ?_⟩) hb
    rw [Text.byteLength_append]
    exact Nat.add_comm ..
  exact parseSource_eq_ok_iff.2 ⟨front ++ back, htext ▸ hsplit,
    htext ▸ List.rel_append hfirst hsecond⟩

/-- A comment at the end, in which a parenthesis is open. -/
def commentedSchema : String := "create schema \"é\"; -- → ("

def checkedTable : String := "create table t (\n  a int primary key,\n  check (a > 0)\n)"

theorem parseSource_append_checkedTable :
    ∃ as bs, parseSource "a.sql" commentedSchema = .ok as ∧ as.length = 1 ∧
      parseSource "a.sql" checkedTable = .ok bs ∧
      bs.flatMap (·.locations) =
        [⟨"a.sql", 0, 1, 1⟩, ⟨"a.sql", 19, 2, 3⟩, ⟨"a.sql", 25, 2, 9⟩, ⟨"a.sql", 40, 3, 3⟩] ∧
      parseSource "a.sql" (commentedSchema ++ "\n;\n" ++ checkedTable) =
        .ok (as ++ bs.map (·.relocate (Location.below 31 2))) := by
  have hfirst : (parseSource "a.sql" commentedSchema).toOption.map (·.length) = some 1 := by
    decide +kernel
  have hsecond : (parseSource "a.sql" checkedTable).toOption.map (·.flatMap (·.locations)) =
      some [⟨"a.sql", 0, 1, 1⟩, ⟨"a.sql", 19, 2, 3⟩, ⟨"a.sql", 25, 2, 9⟩, ⟨"a.sql", 40, 3, 3⟩] := by
    decide +kernel
  have hbytes : byteLength commentedSchema.toList + 3 = 31 := by decide +kernel
  have hlines : commentedSchema.toList.count '\n' + 2 = 2 := by decide +kernel
  cases ha : parseSource "a.sql" commentedSchema with
  | error e =>
    rw [ha] at hfirst
    cases hfirst
  | ok as =>
    cases hb : parseSource "a.sql" checkedTable with
    | error e =>
      rw [hb] at hsecond
      cases hsecond
    | ok bs =>
      rw [ha] at hfirst
      rw [hb] at hsecond
      have hboth := parseSource_append ha hb (by decide +kernel)
      rw [hbytes, hlines] at hboth
      exact ⟨as, bs, rfl, Option.some.inj hfirst, rfl, Option.some.inj hsecond, hboth⟩

end DdlCatalog.Grammar
