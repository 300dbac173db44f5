import DdlCatalog.OrderedMap
import Mathlib.Data.List.Nodup

/-! # Maps in insertion order as lists
A map is the sequence of its entries: inserting them in order gives the map back. A map goes on from
another one if it has its entries in front, with values that may have changed. -/

namespace DdlCatalog.OrderedMap

variable {κ ν : Type*} {m m' : OrderedMap κ ν}

theorem ext_entries (h : m.entries = m'.entries) : m = m' := by
  cases m
  cases m'
  cases h
  rfl

variable [DecidableEq κ]

theorem put_of_notMem {key : κ} {value : ν} {entries : List (κ × ν)}
    (h : key ∉ entries.map Prod.fst) : put key value entries = entries ++ [(key, value)] := by
  induction entries with
  | nil => rfl
  | cons entry rest ih =>
    rw [List.map_cons, List.mem_cons, not_or] at h
    rw [put, if_neg (Ne.symm h.1), ih h.2, List.cons_append]

theorem entries_foldl_insert {entries : List (κ × ν)}
    (h : ((m.entries ++ entries).map Prod.fst).Nodup) :
    (entries.foldl (fun m entry => m.insert entry.1 entry.2) m).entries = m.entries ++ entries := by
  induction entries generalizing m with
  | nil => simp
  | cons entry rest ih =>
    have hnew : entry.1 ∉ m.entries.map Prod.fst := by
      rw [List.map_append, List.map_cons, List.nodup_append] at h
      exact fun hm => h.2.2 _ hm _ (List.mem_cons_self ..) rfl
    have hentries : (m.insert entry.1 entry.2).entries = m.entries ++ [entry] := put_of_notMem hnew
    rw [List.append_cons] at h
    rw [List.foldl_cons, ih (by rwa [hentries]), hentries, ← List.append_cons]

theorem ofList_entries (m : OrderedMap κ ν) : ofList m.entries = m :=
  ext_entries (entries_foldl_insert (m := empty) m.nodup)

theorem modify_eq_insert {key : κ} {value : ν} {f : ν → ν} (h : m.get? key = some value) :
    m.modify key f = m.insert key (f value) := by
  unfold modify
  rw [h]

theorem modify_eq_alter {key : κ} {value : ν} {f : ν → ν} (h : m.get? key = some value) :
    m.modify key f = m.alter key fun v => f (v.getD value) := by
  rw [modify_eq_insert h, alter, h, Option.getD_some]

theorem modify_eq_self {key : κ} {f : ν → ν} (h : m.get? key = none) : m.modify key f = m := by
  unfold modify
  rw [h]

/-- The keys are still there in their order, with values related to those before. New keys come
last. -/
structure Continues (R : κ → ν → ν → Prop) (m m' : OrderedMap κ ν) : Prop where
  keys : m.keys <+: m'.keys
  values : ∀ key value, m.get? key = some value →
    ∃ value', m'.get? key = some value' ∧ R key value value'

namespace Continues

variable {R R' : κ → ν → ν → Prop} {key : κ} {value : ν}

theorem refl (h : ∀ key value, m.get? key = some value → R key value value) : m.Continues R m where
  keys := List.prefix_rfl
  values key value hvalue := ⟨value, hvalue, h key value hvalue⟩

theorem mono (h : m.Continues R m')
    (hR : ∀ key value value', R key value value' → R' key value value') : m.Continues R' m' where
  keys := h.keys
  values key value hvalue := by
    obtain ⟨value', hvalue', hrelated⟩ := h.values key value hvalue
    exact ⟨value', hvalue', hR key value value' hrelated⟩

theorem insert (h : m.Continues (fun k v v' => k ≠ key → R k v v') m')
    (hkey : ∀ v, m.get? key = some v → R key v value) : m.Continues R (m'.insert key value) where
  keys := by
    rw [keys_insert]
    split
    · exact h.keys
    · exact h.keys.trans (List.prefix_append _ _)
  values k v hv := by
    rw [get?_insert]
    split
    · next he =>
      subst he
      exact ⟨value, rfl, hkey v hv⟩
    · next hne =>
      obtain ⟨v', hv', hrelated⟩ := h.values k v hv
      exact ⟨v', hv', hrelated (Ne.symm hne)⟩

theorem alter (h : m.Continues R m') {f : Option ν → ν}
    (hkey : ∀ v v', m.get? key = some v → R key v v' → R key v (f (some v'))) :
    m.Continues R (m'.alter key f) := by
  have hothers : m.Continues (fun k v v' => k ≠ key → R k v v') m' :=
    h.mono fun _ _ _ hrelated _ => hrelated
  refine hothers.insert fun v hv => ?_
  obtain ⟨v', hv', hrelated⟩ := h.values key v hv
  rw [hv']
  exact hkey v v' hv hrelated

theorem modify (h : m.Continues R m') {f : ν → ν}
    (hkey : ∀ v v', m.get? key = some v → R key v v' → R key v (f v')) :
    m.Continues R (m'.modify key f) := by
  cases hvalue : m'.get? key with
  | none => rwa [modify_eq_self hvalue]
  | some value =>
    rw [modify_eq_alter hvalue]
    exact h.alter hkey

end Continues

section MapValues

variable {ξ : Type*} (g : ν → ξ)

/-- The same keys with every value changed. -/
def mapValues (m : OrderedMap κ ν) : OrderedMap κ ξ :=
  ⟨m.entries.map (Prod.map id g), by simpa [Function.comp_def] using m.nodup⟩

theorem lookup_map (key : κ) (entries : List (κ × ν)) :
    lookup key (entries.map (Prod.map id g)) = (lookup key entries).map g := by
  induction entries with
  | nil => rfl
  | cons entry rest ih =>
    show (if entry.1 = key then some (g entry.2) else lookup key (rest.map (Prod.map id g))) = _
    rw [ih, lookup]
    split <;> rfl

theorem get?_mapValues (key : κ) : (m.mapValues g).get? key = (m.get? key).map g :=
  lookup_map g key m.entries

theorem map_put (key : κ) (value : ν) (entries : List (κ × ν)) :
    (put key value entries).map (Prod.map id g) = put key (g value) (entries.map (Prod.map id g)) := by
  induction entries with
  | nil => rfl
  | cons entry rest ih =>
    rw [List.map_cons, put, put, Prod.map_fst, id]
    split
    · rfl
    · rw [List.map_cons, ih]
      rfl

theorem mapValues_insert (key : κ) (value : ν) :
    (m.insert key value).mapValues g = (m.mapValues g).insert key (g value) :=
  ext_entries (map_put g key value m.entries)

theorem mapValues_alter {key : κ} {f : Option ν → ν} {f' : Option ξ → ξ}
    (h : ∀ value, g (f value) = f' (value.map g)) :
    (m.alter key f).mapValues g = (m.mapValues g).alter key f' := by
  rw [alter, mapValues_insert, h, alter, get?_mapValues]

theorem mapValues_modify {key : κ} {f : ν → ν} {f' : ξ → ξ} (h : ∀ value, g (f value) = f' (g value)) :
    (m.modify key f).mapValues g = (m.mapValues g).modify key f' := by
  unfold modify
  rw [get?_mapValues]
  cases m.get? key with
  | none => rfl
  | some value => exact (mapValues_insert g key (f value)).trans (by rw [h]; rfl)

end MapValues

end DdlCatalog.OrderedMap
