import DdlCatalog.Catalog.Relation
import Mathlib.Data.List.Forall2

/-! # Changing one element of a relation
A change of the first element of a kind keeps what it keeps of that element. -/

namespace DdlCatalog

theorem exists_of_mem_forall₂ {α β : Type} {R : α → β → Prop} {as : List α} {bs : List β}
    (h : List.Forall₂ R as bs) {b : β} (hb : b ∈ bs) : ∃ a ∈ as, R a b := by
  induction h with
  | nil => cases hb
  | cons hab _ ih =>
    rcases List.mem_cons.1 hb with rfl | hm
    · exact ⟨_, List.mem_cons_self .., hab⟩
    · obtain ⟨a, ha, hR⟩ := ih hm
      exact ⟨a, List.mem_cons_of_mem _ ha, hR⟩

theorem map_eq_map_of_forall₂ {α β γ : Type} {R : α → β → Prop} {as : List α} {bs : List β}
    {f : α → γ} {g : β → γ} (h : List.Forall₂ R as bs) (hfg : ∀ a b, R a b → f a = g b) :
    as.map f = bs.map g := by
  rw [← List.forall₂_eq_eq_eq, List.forall₂_map_left_iff, List.forall₂_map_right_iff]
  exact h.imp hfg

namespace Relation

section ModifyFirst

variable {α β : Type} {p q : α → Bool} {f : α → α} {as : List α}

theorem map_modifyFirst {g : α → β} (h : ∀ a, g (f a) = g a) :
    (modifyFirst p f as).map g = as.map g := by
  induction as with
  | nil => rfl
  | cons a as ih =>
    unfold modifyFirst
    split <;> simp [h, ih]

/-- Related elements stay related when the first ones are changed alike. -/
theorem rel_modifyFirst {R : α → β → Prop} {bs : List β} {p' : β → Bool} {f' : β → β}
    (h : List.Forall₂ R as bs) (hp : ∀ a b, R a b → p a = p' b)
    (hf : ∀ a b, R a b → R (f a) (f' b)) :
    List.Forall₂ R (modifyFirst p f as) (modifyFirst p' f' bs) := by
  induction h with
  | nil => exact .nil
  | cons hab more ih =>
    rw [modifyFirst, modifyFirst, hp _ _ hab]
    split
    · exact .cons (hf _ _ hab) more
    · exact .cons hab ih

theorem find?_modifyFirst (h : ∀ a, p (f a) = p a) :
    (modifyFirst p f as).find? p = (as.find? p).map f := by
  induction as with
  | nil => rfl
  | cons a as ih =>
    unfold modifyFirst
    split
    · next ha => simp [h, ha]
    · next ha => simp [ha, ih]

/-- The change is not seen by a condition that the changed element does not satisfy. -/
theorem find?_modifyFirst_of_disjoint (h : ∀ a, p a = true → q a = false ∧ q (f a) = false) :
    (modifyFirst p f as).find? q = as.find? q := by
  induction as with
  | nil => rfl
  | cons a as ih =>
    unfold modifyFirst
    split
    · next ha => simp [h a ha]
    · cases hq : q a <;> simp [hq, ih]

/-- Elements stay as they are, up to the first one that satisfies the condition. -/
theorem forall₂_modifyFirst {R : α → α → Prop} (hrefl : ∀ a, R a a)
    (h : ∀ a, as.find? p = some a → R a (f a)) : List.Forall₂ R as (modifyFirst p f as) := by
  induction as with
  | nil => exact .nil
  | cons a as ih =>
    unfold modifyFirst
    split
    · next ha => exact .cons (h a (by simp [ha])) (List.forall₂_same.2 fun a _ => hrefl a)
    · next ha =>
      refine .cons (hrefl a) (ih fun b hb => h b ?_)
      simpa [ha] using hb

end ModifyFirst

theorem find?_of_nodup {α β : Type} [DecidableEq β] {g : α → β} {as : List α}
    (h : (as.map g).Nodup) {a : α} (ha : a ∈ as) :
    as.find? (fun b => g b = g a) = some a := by
  induction as with
  | nil => cases ha
  | cons b as ih =>
    obtain ⟨hb, hnodup⟩ := List.nodup_cons.1 h
    rcases List.mem_cons.1 ha with rfl | hm
    · simp
    · have hne : g b ≠ g a := fun he => hb (he ▸ List.mem_map_of_mem hm)
      simp [hne, ih hnodup hm]

end Relation

end DdlCatalog
