import DdlCatalog.Token.Lexeme
import Mathlib.Tactic.SplitIfs

/-! # Lower case within ASCII
A word whose lower case is in ASCII becomes a word there, which stays as it is when it is lower-cased
again. -/

namespace DdlCatalog

open Text (lowerChar lowerAfter lowerRuns mapRuns)
open Token (isWordStart isWordChar)

namespace Text

variable {c d : Char} {cs before : List Char}

/-- The capitals outside ASCII have small letters outside of it, but for the Kelvin sign. -/
theorem lowerRuns_target : ∀ run ∈ lowerRuns,
    run.last < 128 ∨ run.first = run.last ∧ run.target = 107 ∨
      128 ≤ run.target ∧ run.target + (run.last - run.first) < 0xd800 ∨
      0xe000 ≤ run.target ∧ run.target + (run.last - run.first) < 0x110000 := by
  decide +kernel

theorem le_toNat_ofNat {n : Nat} (h : 128 ≤ n ∧ n < 0xd800 ∨ 0xe000 ≤ n ∧ n < 0x110000) :
    128 ≤ (Char.ofNat n).toNat := by
  have hvalid : n.isValidChar := by
    rcases h with h | h
    · exact .inl h.2
    · exact .inr ⟨by omega, h.2⟩
  rw [Char.ofNat, dif_pos hvalid]
  show 128 ≤ n
  omega

theorem mapRuns_lowerRuns (hc : 128 ≤ c.toNat) :
    mapRuns lowerRuns c = 'k' ∨ 128 ≤ (mapRuns lowerRuns c).toNat := by
  unfold mapRuns
  split
  · next target hfound =>
    obtain ⟨run, hrun, hmaps⟩ := List.exists_of_findSome?_eq_some hfound
    unfold CaseRun.maps? at hmaps
    split at hmaps
    · next hwithin =>
      cases hmaps
      rcases lowerRuns_target run hrun with h | ⟨hsame, htarget⟩ | h | h
      · omega
      · have hkelvin : run.target + (c.toNat - run.first) = 107 := by omega
        rw [hkelvin]
        exact .inl rfl
      · exact .inr (le_toNat_ofNat (by omega))
      · exact .inr (le_toNat_ofNat (by omega))
    · cases hmaps
  · exact .inr hc

/-- What is lower case in ASCII, and where it may stand in a word. -/
structure Small (c d : Char) : Prop where
  lower : d.toLower = d
  start : isWordStart c = true → isWordStart d = true
  within : isWordChar c = true → isWordChar d = true

theorem small_toLower (hc : c.toNat < 128) : Small c c.toLower := by
  have hall : ∀ n < 128, (Char.ofNat n).toLower.toLower = (Char.ofNat n).toLower ∧
      (isWordStart (Char.ofNat n) = true → isWordStart (Char.ofNat n).toLower = true) ∧
      (isWordChar (Char.ofNat n) = true → isWordChar (Char.ofNat n).toLower = true) := by
    decide +kernel
  obtain ⟨hlower, hstart, hwithin⟩ := hall c.toNat hc
  rw [Char.ofNat_toNat] at hlower hstart hwithin
  exact ⟨hlower, hstart, hwithin⟩

theorem small_of_mem_lowerChar (h : d ∈ lowerChar c) (hd : d.toNat < 128) : Small c d := by
  unfold lowerChar at h
  split_ifs at h with hc
  · obtain rfl := List.mem_singleton.1 h
    exact small_toLower hc
  · simp only [List.mem_cons, List.not_mem_nil, or_false] at h
    rcases h with rfl | rfl
    · exact ⟨rfl, fun _ => by decide +kernel, fun _ => by decide +kernel⟩
    · exact absurd hd (by decide)
  · obtain rfl := List.mem_singleton.1 h
    rcases mapRuns_lowerRuns (Nat.le_of_not_lt hc) with hk | hlarge
    · rw [hk]
      exact ⟨rfl, fun _ => by decide +kernel, fun _ => by decide +kernel⟩
    · omega

theorem exists_lowerAfter_cons (before : List Char) (c : Char) (cs : List Char) :
    ∃ mapped, lowerAfter before (c :: cs) = mapped ++ lowerAfter (c :: before) cs ∧ mapped ≠ [] ∧
      ∀ d ∈ mapped, d.toNat < 128 → Small c d := by
  rw [lowerAfter]
  refine ⟨_, rfl, ?_, ?_⟩
  · unfold lowerChar
    split_ifs <;> simp
  · intro d hd hsmall
    split_ifs at hd
    · obtain rfl := List.mem_singleton.1 hd
      exact absurd hsmall (by decide)
    · obtain rfl := List.mem_singleton.1 hd
      exact absurd hsmall (by decide)
    · exact small_of_mem_lowerChar hd hsmall

theorem lowerAfter_of_small (h : ∀ c ∈ cs, c.toNat < 128 ∧ c.toLower = c) :
    lowerAfter before cs = cs := by
  induction cs generalizing before with
  | nil => rfl
  | cons c cs ih =>
    obtain ⟨⟨hc, hlower⟩, hcs⟩ := List.forall_mem_cons.1 h
    have hsigma : c ≠ 'Σ' := by
      rintro rfl
      exact absurd hc (by decide)
    have hchar : lowerChar c = [c] := by rw [lowerChar, if_pos hc, hlower]
    rw [lowerAfter, if_neg hsigma, hchar, ih hcs]
    rfl

theorem small_of_mem_lowerAfter (h : d ∈ lowerAfter before cs) (hd : d.toNat < 128) :
    ∃ c ∈ cs, Small c d := by
  induction cs generalizing before with
  | nil => cases h
  | cons c cs ih =>
    obtain ⟨mapped, heq, -, hmapped⟩ := exists_lowerAfter_cons before c cs
    rw [heq, List.mem_append] at h
    rcases h with h | h
    · exact ⟨c, List.mem_cons_self .., hmapped d h hd⟩
    · obtain ⟨c', hc', hsmall⟩ := ih h
      exact ⟨c', List.mem_cons_of_mem _ hc', hsmall⟩

end Text

namespace Token

/-- The characters of an unquoted name. -/
def IsWord (cs : List Char) : Prop :=
  ∃ c rest, cs = c :: rest ∧ isWordStart c = true ∧ ∀ d ∈ rest, isWordChar d = true

theorem isWordChar_of_isWordStart {c : Char} (h : isWordStart c = true) : isWordChar c = true := by
  simp only [isWordStart, Bool.or_eq_true, decide_eq_true_eq] at h
  rcases h with rfl | h
  · decide +kernel
  · simp [isWordChar, Text.isAlphanumeric, h]

/-- A word that comes to lie in ASCII is a word in lower case. -/
theorem IsWord.lower {cs : List Char} (h : IsWord cs)
    (hsmall : ∀ d ∈ (Text.lower (String.ofList cs)).toList, d.toNat < 128) :
    IsWord (Text.lower (String.ofList cs)).toList ∧
      Text.lower (Text.lower (String.ofList cs)) = Text.lower (String.ofList cs) := by
  obtain ⟨c, rest, rfl, hstart, hrest⟩ := h
  have hword : ∀ d ∈ c :: rest, isWordChar d = true :=
    List.forall_mem_cons.2 ⟨isWordChar_of_isWordStart hstart, hrest⟩
  simp only [Text.lower, String.toList_ofList] at hsmall ⊢
  have hchar : ∀ d ∈ lowerAfter [] (c :: rest), isWordChar d = true ∧ d.toLower = d := by
    intro d hd
    obtain ⟨c', hc', hd'⟩ := Text.small_of_mem_lowerAfter hd (hsmall d hd)
    exact ⟨hd'.within (hword c' hc'), hd'.lower⟩
  refine ⟨?_, ?_⟩
  · obtain ⟨mapped, heq, hne, hmapped⟩ := Text.exists_lowerAfter_cons [] c rest
    obtain ⟨d, ds, rfl⟩ := List.exists_cons_of_ne_nil hne
    rw [heq, List.cons_append] at hsmall hchar ⊢
    refine ⟨d, _, rfl, ?_, fun e he => (hchar e (List.mem_cons_of_mem _ he)).1⟩
    exact (hmapped d (List.mem_cons_self ..) (hsmall d (List.mem_cons_self ..))).start hstart
  · rw [Text.lowerAfter_of_small fun d hd => ⟨hsmall d hd, (hchar d hd).2⟩]

end Token

end DdlCatalog
