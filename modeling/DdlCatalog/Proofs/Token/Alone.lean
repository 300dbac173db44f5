import DdlCatalog.Proofs.Token.Tiling

/-! # Tokens by themselves
What a token takes of a text is a text of one token, the same one. -/

namespace DdlCatalog.Token

open Text (byteLength slice?)

/-- The text is one token of the kind, from its start to its end. -/
def IsToken (cs : List Char) (kind : Kind) : Prop :=
  ∀ source, ∃ t e, tokenize source cs = .ok [t, e] ∧ t.kind = kind ∧ t.span = ⟨0, byteLength cs⟩ ∧
    e.kind = .eof

variable {text : List Char} {s s' : Scanner} {t : Token}

theorem Scanner.Takes.isToken (h : s.Takes t s') (hs : s.Reading text) :
    ∃ cs, slice? text t.span.start t.span.stop = some cs ∧ IsToken cs t.kind := by
  obtain ⟨front, htext, hmark⟩ := hs.skip
  obtain ⟨cs, -, hrest, hafter, -⟩ := h.skipped.consumes
  have hstart : t.span.start = byteLength front := by
    rw [h.start_eq, hmark, Text.Mark.offset_past_start]
  have hstop : t.span.stop = byteLength front + byteLength cs := by
    rw [h.stop_eq, hafter, Text.Mark.offset_past, hmark, Text.Mark.offset_past_start]
  refine ⟨cs, ?_, fun source => ?_⟩
  · rw [hstart, hstop, htext, hrest, ← List.append_assoc]
    exact Text.slice?_middle ..
  · -- nothing is left of the part, so it does not matter what follows it
    have hwithin : Within s.skip.mark.offset s'.rest s.skip (start cs) := ⟨hrest, rfl⟩
    have hleft : s'.rest = [] ++ s'.rest := rfl
    obtain ⟨t', u, htakes, hu, hmoves⟩ := hwithin.takes h.skipped hleft (.inl rfl)
    have hnil : u.rest = [] := by simpa using hu.rest
    obtain ⟨e, hkind, htokens⟩ := (Reads.cons htakes (.nil u)).tokens_of_nil hnil
    have hlimit : u.mark.offset = byteLength cs := by
      have hsame := htakes.limit_eq
      simpa [limit, hnil, start, Text.Mark.start] using hsame
    refine ⟨t', e, ?_, hmoves.kind.symm, ?_, hkind⟩
    · rw [tokenize, htokens]
      rfl
    · have hzero : t'.span.start = 0 := by
        have hmoved := hmoves.start
        rw [h.start_eq] at hmoved
        omega
      have hend : t'.span.stop = byteLength cs := htakes.stop_eq.trans hlimit
      rw [← hzero, ← hend]

/-- Each token of a text but the last stands for itself. -/
theorem exists_isToken {source : String} {tokens : List Token}
    (h : tokenize source text = .ok tokens) (ht : t ∈ tokens) (hkind : t.kind ≠ .eof) :
    ∃ cs, slice? text t.span.start t.span.stop = some cs ∧ IsToken cs t.kind := by
  obtain ⟨front, e, s, after, rfl, hreads, heof⟩ := exists_reads_of_tokenize h
  rcases List.mem_append.1 ht with hfront | hlast
  · obtain ⟨before, behind, hbefore, htakes⟩ :=
      hreads.exists_takes (Scanner.reading_start text) t hfront
    exact htakes.isToken hbefore
  · obtain rfl := List.mem_singleton.1 hlast
    exact absurd (Scanner.skip_of_eof heof).2.2 hkind

end DdlCatalog.Token
