/-! # Maps in insertion order
A key keeps the place at which it was first inserted. -/

namespace DdlCatalog

universe u v

structure OrderedMap (κ : Type u) (ν : Type v) where
  entries : List (κ × ν)
  nodup : (entries.map Prod.fst).Nodup
deriving DecidableEq, Repr

namespace OrderedMap

variable {κ : Type u} {ν : Type v} [DecidableEq κ]

def empty : OrderedMap κ ν := ⟨[], List.nodup_nil⟩

instance : EmptyCollection (OrderedMap κ ν) := ⟨empty⟩

instance : Inhabited (OrderedMap κ ν) := ⟨empty⟩

def isEmpty (m : OrderedMap κ ν) : Bool := m.entries.isEmpty

def keys (m : OrderedMap κ ν) : List κ := m.entries.map Prod.fst

def values (m : OrderedMap κ ν) : List ν := m.entries.map Prod.snd

def lookup (key : κ) : List (κ × ν) → Option ν
  | [] => none
  | (k, v) :: rest => if k = key then some v else lookup key rest

def get? (m : OrderedMap κ ν) (key : κ) : Option ν := lookup key m.entries

def contains (m : OrderedMap κ ν) (key : κ) : Bool := (m.get? key).isSome

theorem lookup_of_mem {key : κ} {value : ν} {entries : List (κ × ν)}
    (hnodup : (entries.map Prod.fst).Nodup) (h : (key, value) ∈ entries) :
    lookup key entries = some value := by
  induction entries with
  | nil => cases h
  | cons entry rest ih =>
    obtain ⟨k, v⟩ := entry
    obtain ⟨hk, hrest⟩ := List.nodup_cons.1 hnodup
    rcases List.mem_cons.1 h with he | hm
    · cases he
      exact if_pos rfl
    · have hkey : key ∈ rest.map Prod.fst := List.mem_map_of_mem hm
      have hne : k ≠ key := fun he => hk (he ▸ hkey)
      rw [lookup, if_neg hne, ih hrest hm]

theorem exists_get?_of_mem_values {m : OrderedMap κ ν} {value : ν} (h : value ∈ m.values) :
    ∃ key, m.get? key = some value := by
  obtain ⟨⟨key, _⟩, hm, rfl⟩ := List.mem_map.1 h
  exact ⟨key, lookup_of_mem m.nodup hm⟩

/-- Puts a value at the place of its key, or at the end. -/
def put (key : κ) (value : ν) : List (κ × ν) → List (κ × ν)
  | [] => [(key, value)]
  | (k, v) :: rest => if k = key then (key, value) :: rest else (k, v) :: put key value rest

theorem keys_put (key : κ) (value : ν) (entries : List (κ × ν)) :
    (put key value entries).map Prod.fst =
      if key ∈ entries.map Prod.fst then entries.map Prod.fst
      else entries.map Prod.fst ++ [key] := by
  induction entries with
  | nil => simp [put]
  | cons entry rest ih =>
    obtain ⟨k, v⟩ := entry
    by_cases h : k = key
    · subst h
      simp [put]
    · simp only [put, h, if_false, List.map_cons, ih, List.mem_cons, Ne.symm h, false_or]
      split <;> simp

theorem nodup_put (key : κ) (value : ν) {entries : List (κ × ν)}
    (h : (entries.map Prod.fst).Nodup) : ((put key value entries).map Prod.fst).Nodup := by
  rw [keys_put]
  split
  · exact h
  · next hk =>
    rw [List.nodup_append]
    refine ⟨h, by simp, fun a ha b hb => ?_⟩
    rw [List.mem_singleton.1 hb]
    rintro rfl
    exact hk ha

def insert (m : OrderedMap κ ν) (key : κ) (value : ν) : OrderedMap κ ν :=
  ⟨put key value m.entries, nodup_put key value m.nodup⟩

def alter (m : OrderedMap κ ν) (key : κ) (f : Option ν → ν) : OrderedMap κ ν :=
  m.insert key (f (m.get? key))

def modify (m : OrderedMap κ ν) (key : κ) (f : ν → ν) : OrderedMap κ ν :=
  match m.get? key with
  | some value => m.insert key (f value)
  | none => m

def ofList (entries : List (κ × ν)) : OrderedMap κ ν :=
  entries.foldl (fun m entry => m.insert entry.1 entry.2) empty

theorem lookup_put (key other : κ) (value : ν) (entries : List (κ × ν)) :
    lookup other (put key value entries) =
      if key = other then some value else lookup other entries := by
  induction entries with
  | nil => simp [put, lookup]
  | cons entry rest ih =>
    obtain ⟨k, v⟩ := entry
    by_cases h : k = key
    · subst h
      by_cases h' : k = other <;> simp [put, lookup, h']
    · by_cases h' : k = other
      · subst h'
        simp [put, lookup, h, Ne.symm h]
      · simp [put, lookup, h, h', ih]

theorem get?_insert (m : OrderedMap κ ν) (key other : κ) (value : ν) :
    (m.insert key value).get? other = if key = other then some value else m.get? other :=
  lookup_put key other value m.entries

@[simp] theorem get?_empty (key : κ) : (empty : OrderedMap κ ν).get? key = none := rfl

theorem get?_alter (m : OrderedMap κ ν) (key other : κ) (f : Option ν → ν) :
    (m.alter key f).get? other = if key = other then some (f (m.get? key)) else m.get? other :=
  get?_insert m key other _

theorem get?_modify (m : OrderedMap κ ν) (key other : κ) (f : ν → ν) :
    (m.modify key f).get? other = if key = other then (m.get? key).map f else m.get? other := by
  unfold modify
  split
  · next value h => rw [get?_insert, h, Option.map_some]
  · next h =>
    split
    · next hk => rw [← hk, h, Option.map_none]
    · rfl

theorem put_put (key : κ) (value value' : ν) (entries : List (κ × ν)) :
    put key value' (put key value entries) = put key value' entries := by
  induction entries with
  | nil => simp [put]
  | cons entry rest ih =>
    obtain ⟨k, v⟩ := entry
    by_cases h : k = key <;> simp [put, h, ih]

/-- The last value under a key counts. -/
theorem insert_insert (m : OrderedMap κ ν) (key : κ) (value value' : ν) :
    (m.insert key value).insert key value' = m.insert key value' := by
  unfold insert
  simp only [put_put]

theorem keys_insert (m : OrderedMap κ ν) (key : κ) (value : ν) :
    (m.insert key value).keys = if key ∈ m.keys then m.keys else m.keys ++ [key] :=
  keys_put key value m.entries

end OrderedMap

end DdlCatalog
