import DdlCatalog.Naming
import Mathlib.Data.List.Dedup
import Mathlib.Data.List.Perm.Subperm
import Mathlib.Data.List.Nodup
import Mathlib.Tactic.Push

/-! # Generated names are free
Numbers spell differently, so among as many numbered names as there are names taken one is free. The
number that is chosen is the least one, and trying one number after another ends with it. -/

namespace DdlCatalog.Naming

theorem numbered_injective (base : String) :
    Function.Injective fun k : Nat => base ++ toString (k + 1) := by
  intro j k h
  have hd : toString (j + 1) = toString (k + 1) := (String.append_right_inj base).1 h
  have hn := congrArg (fun s => Nat.ofDigitChars 10 s.toList 0) hd
  simp only [Nat.toString_eq_repr, Nat.toList_repr, Nat.ofDigitChars_ten_toDigits] at hn
  omega

theorem numbered_nodup (base : String) (count : Nat) : (numbered base count).Nodup :=
  List.nodup_range.map (numbered_injective base)

theorem base_notMem_numbered (base : String) (count : Nat) : base ∉ numbered base count := by
  intro h
  obtain ⟨k, -, hk⟩ := List.mem_map.1 h
  have hl := congrArg String.length hk
  have hp : 0 < (toString (k + 1)).length := Nat.length_repr_pos
  rw [String.length_append] at hl
  omega

/-- A name and its numbered names differ, so there are not more of them than names taken. -/
theorem lt_length_dedup {base : String} {taken : List String} {count : Nat} (hbase : base ∈ taken)
    (hnumbered : numbered base count ⊆ taken) : count < taken.dedup.length := by
  have hnodup : (base :: numbered base count).Nodup :=
    List.nodup_cons.2 ⟨base_notMem_numbered base _, numbered_nodup base _⟩
  have hsub : base :: numbered base count ⊆ taken.dedup :=
    List.cons_subset.2 ⟨List.mem_dedup.2 hbase, fun _ h => List.mem_dedup.2 (hnumbered h)⟩
  have hle := (List.subperm_of_subset hnodup hsub).length_le
  simpa [numbered, Nat.succ_le_iff] using hle

theorem exists_numbered_notMem {base : String} {taken : List String} (h : base ∈ taken) :
    ∃ name ∈ numbered base taken.length, name ∉ taken := by
  by_contra hall
  push Not at hall
  have hlt := lt_length_dedup h hall
  have hle := (List.dedup_sublist taken).length_le
  omega

theorem freshName_notMem (base : String) (taken : List String) : freshName base taken ∉ taken := by
  unfold freshName
  split
  · next h =>
    obtain ⟨name, hname, hfree⟩ := exists_numbered_notMem h
    cases hf : (numbered base taken.length).find? (· ∉ taken) with
    | none =>
      rw [List.find?_eq_none] at hf
      exact absurd (by simpa using hfree) (hf name hname)
    | some found => simpa using List.find?_some hf
  · assumption

/-- Trying the numbers from one on, for as long as the name is taken, ends with a name. -/
inductive TriesTo (base : String) (taken : List String) : Nat → String → Prop where
  | free {k : Nat} (free : base ++ toString k ∉ taken) :
    TriesTo base taken k (base ++ toString k)
  | next {k : Nat} {name : String} (used : base ++ toString k ∈ taken)
    (more : TriesTo base taken (k + 1) name) : TriesTo base taken k name

variable {base name : String} {taken : List String} {j k : Nat}

theorem TriesTo.of_least (hfree : base ++ toString k ∉ taken) (hjk : j ≤ k)
    (hused : ∀ i, j ≤ i → i < k → base ++ toString i ∈ taken) :
    TriesTo base taken j (base ++ toString k) := by
  induction hd : k - j generalizing j with
  | zero =>
    obtain rfl : j = k := by omega
    exact .free hfree
  | succ d ih =>
    have hmore : TriesTo base taken (j + 1) (base ++ toString k) :=
      ih (by omega) (fun i hi => hused i (by omega)) (by omega)
    exact .next (hused j (Nat.le_refl j) (by omega)) hmore

theorem TriesTo.unique {name' : String} (h : TriesTo base taken k name)
    (h' : TriesTo base taken k name') : name = name' := by
  induction h with
  | free free =>
    cases h' with
    | free => rfl
    | next used => exact absurd used free
  | next used _ ih =>
    cases h' with
    | free free => exact absurd used free
    | next _ more => exact ih more

/-- A name that is taken gets the first number that makes it free. -/
theorem exists_freshName (h : base ∈ taken) :
    ∃ k, freshName base taken = base ++ toString (k + 1) ∧ base ++ toString (k + 1) ∉ taken ∧
      ∀ j, 1 ≤ j → j < k + 1 → base ++ toString j ∈ taken := by
  have hfree := freshName_notMem base taken
  rw [freshName, if_pos h] at hfree ⊢
  cases hf : (numbered base taken.length).find? (· ∉ taken) with
  | none =>
    rw [hf] at hfree
    exact absurd h hfree
  | some name =>
    obtain ⟨hname, k, hk, hget, hbefore⟩ := List.find?_eq_some_iff_getElem.1 hf
    obtain rfl : base ++ toString (k + 1) = name := by simpa [numbered] using hget
    refine ⟨k, rfl, by simpa using hname, fun j hj hjk => ?_⟩
    have hused := hbefore (j - 1) (by omega)
    simp only [numbered, List.getElem_map, List.getElem_range, Nat.sub_add_cancel hj] at hused
    simpa using hused

/-- A name that is free stays as it is. Otherwise it is followed by the least number that makes it
free. There are at least as many names taken as the number says, and trying one number after another
ends with it. -/
theorem freshName_least (base : String) (taken : List String) :
    (base ∉ taken → freshName base taken = base) ∧
      (base ∈ taken → ∃ k, 1 ≤ k ∧ k ≤ taken.dedup.length ∧
        freshName base taken = base ++ toString k ∧ base ++ toString k ∉ taken ∧
        (∀ j, 1 ≤ j → j < k → base ++ toString j ∈ taken) ∧
        ∀ name, TriesTo base taken 1 name ↔ name = freshName base taken) := by
  refine ⟨fun h => if_neg h, fun h => ?_⟩
  obtain ⟨k, heq, hfree, hused⟩ := exists_freshName h
  have htries : TriesTo base taken 1 (base ++ toString (k + 1)) := .of_least hfree (by omega) hused
  have hnumbered : numbered base k ⊆ taken := by
    intro name hname
    obtain ⟨j, hj, rfl⟩ := List.mem_map.1 hname
    have hlt : j < k := List.mem_range.1 hj
    exact hused (j + 1) (by omega) (by omega)
  refine ⟨k + 1, by omega, lt_length_dedup h hnumbered, heq, hfree, hused, fun name => ?_⟩
  rw [heq]
  refine ⟨fun hname => hname.unique htries, ?_⟩
  rintro rfl
  exact htries

def emailKeys : List String :=
  ["users_email_key", "users_email_key2", "users_email_key1", "users_email_key"]

theorem freshName_least_emailKeys :
    "users_email_key" ∈ emailKeys ∧ "users_name_key" ∉ emailKeys ∧
      freshName "users_name_key" emailKeys = "users_name_key" ∧
      freshName "users_email_key" emailKeys = "users_email_key3" ∧
      ∀ name, TriesTo "users_email_key" emailKeys 1 name ↔ name = "users_email_key3" := by
  have htaken : "users_email_key" ∈ emailKeys := by decide
  have hfree : "users_name_key" ∉ emailKeys := by decide
  have heq : freshName "users_email_key" emailKeys = "users_email_key3" := by decide
  have hleast := freshName_least "users_email_key" emailKeys
  obtain ⟨k, -, -, -, -, -, htries⟩ := hleast.2 htaken
  rw [heq] at htries
  exact ⟨htaken, hfree, (freshName_least "users_name_key" emailKeys).1 hfree, heq, htries⟩

end DdlCatalog.Naming
