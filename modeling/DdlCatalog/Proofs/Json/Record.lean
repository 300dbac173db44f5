import DdlCatalog.Json.Reader
import DdlCatalog.Proofs.Json.Text
import Mathlib.Data.List.Nodup

/-! # Records read from objects
An object whose members are fields of a record, each given at most once, changes the record in these
fields and in no others, in whatever order they stand. -/

namespace DdlCatalog.Json.Reader

variable {ρ : Type} {fields known remaining : List (RecordField ρ)} {f : RecordField ρ}
  {rest : List Symbol} {limit : Nat}

/-- A field that has been found is not among those that may still be given. -/
theorem take?_of_mem (hnames : (fields.map (·.name)).Nodup) (hf : f ∈ fields) :
    RecordField.take? f.name fields = some (f, fields.filter (·.name ≠ f.name)) := by
  induction fields with
  | nil => cases hf
  | cons g fields ih =>
    rw [List.map_cons, List.nodup_cons] at hnames
    obtain ⟨hg, hnames⟩ := hnames
    rw [RecordField.take?]
    rcases List.mem_cons.1 hf with rfl | hf
    · have hothers : fields.filter (·.name ≠ f.name) = fields :=
        List.filter_eq_self.2 fun h hh => by
          simpa using fun hname => hg (List.mem_map.2 ⟨h, hh, hname⟩)
      rw [if_pos rfl, List.filter_cons_of_neg (by simp), hothers]
    · have hne : g.name ≠ f.name := fun hname => hg (List.mem_map.2 ⟨f, hf, hname.symm⟩)
      rw [if_neg hne, ih hnames hf, List.filter_cons_of_pos (by simpa using hne)]
      rfl

/-- A member of an object and what it makes of a record. -/
structure Change (ρ : Type) where
  name : String
  value : Json
  apply : ρ → ρ

namespace Change

def member (m : Change ρ) : String × Json := (m.name, m.value)

/-- A record with one change after another. -/
def all (start : ρ) (ms : List (Change ρ)) : ρ := ms.foldl (fun r m => m.apply r) start

theorem all_cons (r : ρ) (m : Change ρ) (ms : List (Change ρ)) : all r (m :: ms) = all (m.apply r) ms :=
  rfl

/-- The field of its name reads the value of a member and makes the change. -/
def IsReadBy (m : Change ρ) (fields : List (RecordField ρ)) : Prop :=
  ∃ f ∈ fields, f.name = m.name ∧
    ∀ r rest, f.read r (m.value.symbols ++ rest) = some (m.apply r, rest)

/-- A member of another name may still be given. -/
theorem IsReadBy.filter {m : Change ρ} {name : String} (h : m.IsReadBy fields) (hne : m.name ≠ name) :
    m.IsReadBy (fields.filter (·.name ≠ name)) := by
  obtain ⟨f, hf, hname, hread⟩ := h
  exact ⟨f, List.mem_filter.2 ⟨hf, by simpa [hname] using hne⟩, hname, hread⟩

end Change

/-- The members of an object change a record one after the other. -/
theorem members_eq {m : Change ρ} {ms : List (Change ρ)}
    (hnames : (remaining.map (·.name)).Nodup) (hdistinct : ((m :: ms).map (·.name)).Nodup)
    (hread : ∀ m' ∈ m :: ms, m'.IsReadBy remaining) (hlimit : ms.length < limit) (r : ρ) :
    members known limit remaining r (.string (some m.name) :: .colon ::
        (m.value.symbols ++ (memberSymbols (ms.map Change.member) ++ rest))) =
      some (Change.all r (m :: ms), rest) := by
  induction ms generalizing m remaining limit r with
  | nil =>
    obtain ⟨limit, rfl⟩ := Nat.exists_eq_succ_of_ne_zero (Nat.ne_of_gt hlimit)
    obtain ⟨⟨f, hf, hname, hvalue⟩, -⟩ := List.forall_mem_cons.1 hread
    rw [members, ← hname, take?_of_mem hnames hf]
    dsimp only
    rw [hvalue]
    rfl
  | cons next ms ih =>
    obtain ⟨limit, rfl⟩ := Nat.exists_eq_succ_of_ne_zero (Nat.ne_of_gt (Nat.zero_lt_of_lt hlimit))
    obtain ⟨⟨f, hf, hname, hvalue⟩, hreads⟩ := List.forall_mem_cons.1 hread
    rw [List.map_cons, List.nodup_cons] at hdistinct
    have hnames' : ((remaining.filter (·.name ≠ f.name)).map (·.name)).Nodup :=
      hnames.sublist (List.filter_sublist.map _)
    have hreads' : ∀ m' ∈ next :: ms, m'.IsReadBy (remaining.filter (·.name ≠ f.name)) := by
      intro m' hm'
      refine (hreads m' hm').filter fun hsame => hdistinct.1 ?_
      exact List.mem_map.2 ⟨m', hm', hsame.trans hname⟩
    have hmore := ih hnames' hdistinct.2 hreads' (Nat.lt_of_succ_lt_succ hlimit) (m.apply r)
    rw [members, ← hname, take?_of_mem hnames hf]
    dsimp only
    rw [hvalue, Change.all_cons]
    simpa only [List.map_cons, memberSymbols, Change.member, List.cons_append, List.append_assoc,
      Option.map_some] using hmore

theorem length_le_memberSymbols (ms : List (String × Json)) : ms.length ≤ (memberSymbols ms).length := by
  induction ms with
  | nil => exact Nat.zero_le _
  | cons m ms ih =>
    simp only [memberSymbols, List.length_cons, List.length_append]
    omega

/-- A record is read from the object of the changes. -/
theorem record_object {ms : List (Change ρ)} (hnames : (fields.map (·.name)).Nodup)
    (hdistinct : (ms.map (·.name)).Nodup) (hread : ∀ m ∈ ms, m.IsReadBy fields) (start : ρ)
    (rest : List Symbol) :
    record fields start ((object (ms.map Change.member)).symbols ++ rest) =
      some (Change.all start ms, rest) := by
  cases ms with
  | nil => rfl
  | cons m ms =>
    have hlength := length_le_memberSymbols (ms.map Change.member)
    rw [List.length_map] at hlength
    let left : List Symbol := .string (some m.name) :: .colon ::
      (m.value.symbols ++ (memberSymbols (ms.map Change.member) ++ rest))
    have hlimit : ms.length < left.length := by
      simp only [left, List.length_cons, List.length_append]
      omega
    have hmembers : members fields left.length fields start left = some (Change.all start (m :: ms), rest) :=
      members_eq hnames hdistinct hread hlimit start
    simpa only [left, List.map_cons, symbols, Change.member, List.cons_append, List.append_assoc,
      record] using hmembers

theorem string_symbols (s : String) (rest : List Symbol) :
    string ((Json.string s).symbols ++ rest) = some (s, rest) := rfl

theorem bool_symbols (b : Bool) (rest : List Symbol) :
    bool ((Json.bool b).symbols ++ rest) = some (b, rest) := rfl

theorem stringItems_symbols (ss : List String) (rest : List Symbol) :
    stringItems (itemSymbols (ss.map Json.string) ++ rest) = some (ss, rest) := by
  induction ss with
  | nil => rfl
  | cons s ss ih =>
    show (stringItems (itemSymbols (ss.map Json.string) ++ rest)).map _ = _
    rw [ih]
    rfl

theorem strings_symbols (ss : List String) (rest : List Symbol) :
    strings ((Json.strings ss).symbols ++ rest) = some (ss, rest) := by
  cases ss with
  | nil => rfl
  | cons s ss =>
    show (stringItems (itemSymbols (ss.map Json.string) ++ rest)).map _ = _
    rw [stringItems_symbols]
    rfl

/-- What a whole text is read as, if it is written with the symbols of a value. -/
theorem ofText?_eq_some {read : Reader ρ} {text : String} {value : Json} {a : ρ}
    (htext : Symbol.ofText? text.toList = some value.symbols)
    (hread : ∀ rest, read (value.symbols ++ rest) = some (a, rest)) : ofText? read text = some a := by
  have hwhole := hread []
  rw [List.append_nil] at hwhole
  rw [ofText?, htext, Option.bind_eq_bind, Option.bind_some, hwhole]

end DdlCatalog.Json.Reader
