/-! # Byte offsets in a text
A text is a list of characters whose positions are counted in the bytes of their UTF-8 encoding.
Cutting a text is only possible between two characters. -/

namespace DdlCatalog.Text

def byteLength : List Char → Nat
  | [] => 0
  | c :: cs => c.utf8Size + byteLength cs

@[simp] theorem byteLength_nil : byteLength [] = 0 := rfl

@[simp] theorem byteLength_cons (c : Char) (cs : List Char) :
    byteLength (c :: cs) = c.utf8Size + byteLength cs := rfl

@[simp] theorem byteLength_append (a b : List Char) :
    byteLength (a ++ b) = byteLength a + byteLength b := by
  induction a with
  | nil => simp
  | cons c a ih => simp [ih, Nat.add_assoc]

/-- Cuts a text after so many bytes, unless the cut falls inside a character or past the end. -/
def cutAt? : Nat → List Char → Option (List Char × List Char)
  | 0, cs => some ([], cs)
  | _ + 1, [] => none
  | n + 1, c :: cs =>
    if c.utf8Size ≤ n + 1 then
      (cutAt? (n + 1 - c.utf8Size) cs).map fun (before, after) => (c :: before, after)
    else
      none

theorem cutAt?_byteLength (a b : List Char) : cutAt? (byteLength a) (a ++ b) = some (a, b) := by
  induction a with
  | nil => simp [cutAt?]
  | cons c a ih =>
    obtain ⟨n, hn⟩ : ∃ n, byteLength (c :: a) = n + 1 :=
      ⟨byteLength (c :: a) - 1, by have := c.utf8Size_pos; simp; omega⟩
    rw [hn, List.cons_append, cutAt?, ← hn]
    simp [ih]

theorem cutAt?_append_left (a cs : List Char) (n : Nat) :
    cutAt? (byteLength a + n) (a ++ cs) = (cutAt? n cs).map fun (x, y) => (a ++ x, y) := by
  induction a with
  | nil => simp
  | cons c a ih =>
    obtain ⟨m, hm⟩ : ∃ m, byteLength (c :: a) + n = m + 1 :=
      ⟨byteLength (c :: a) + n - 1, by have := c.utf8Size_pos; simp; omega⟩
    have hle : c.utf8Size ≤ m + 1 := by
      rw [← hm, byteLength_cons]
      omega
    have hrest : m + 1 - c.utf8Size = byteLength a + n := by
      rw [← hm, byteLength_cons]
      omega
    rw [hm, List.cons_append, cutAt?, if_pos hle, hrest, ih, Option.map_map]
    rfl

theorem cutAt?_append_right {cs : List Char} {n : Nat} (h : n ≤ byteLength cs) (b : List Char) :
    cutAt? n (cs ++ b) = (cutAt? n cs).map fun (x, y) => (x, y ++ b) := by
  fun_induction cutAt? n cs with
  | case1 cs => simp [cutAt?]
  | case2 n =>
    simp at h
  | case3 n c cs hle ih =>
    rw [List.cons_append, cutAt?, if_pos hle, ih (by rw [byteLength_cons] at h; omega),
      Option.map_map, Option.map_map]
    rfl
  | case4 n c cs hle => rw [List.cons_append, cutAt?, if_neg hle]; rfl

theorem eq_append_of_cutAt? {n : Nat} {cs a b : List Char} (h : cutAt? n cs = some (a, b)) :
    cs = a ++ b ∧ byteLength a = n := by
  fun_induction cutAt? n cs generalizing a b with
  | case1 => simp_all
  | case2 => simp at h
  | case3 n c cs hle ih =>
    obtain ⟨⟨x, y⟩, hxy, heq⟩ := Option.map_eq_some_iff.1 h
    obtain ⟨rfl, rfl⟩ := Prod.mk.inj heq
    obtain ⟨rfl, hx⟩ := ih hxy
    simp only [List.cons_append, byteLength_cons, hx, true_and]
    omega
  | case4 => simp at h

/-- The bytes from `start` up to `stop`, if both are character boundaries in this order. -/
def slice? (cs : List Char) (start stop : Nat) : Option (List Char) :=
  if start ≤ stop then do
    let (_, rest) ← cutAt? start cs
    let (middle, _) ← cutAt? (stop - start) rest
    return middle
  else
    none

theorem slice?_middle (a b c : List Char) :
    slice? (a ++ b ++ c) (byteLength a) (byteLength a + byteLength b) = some b := by
  simp [slice?, List.append_assoc, cutAt?_byteLength]

/-- Bytes of a text are those at the shifted offsets of a text it is a part of. -/
theorem slice?_part {a b c : List Char} {start stop : Nat} (h : stop ≤ byteLength b) :
    slice? (a ++ b ++ c) (byteLength a + start) (byteLength a + stop) = slice? b start stop := by
  unfold slice?
  by_cases hle : start ≤ stop
  · rw [if_pos (by omega), if_pos hle, List.append_assoc, cutAt?_append_left,
      cutAt?_append_right (Nat.le_trans hle h)]
    cases hcut : cutAt? start b with
    | none => rfl
    | some xy =>
      obtain ⟨x, y⟩ := xy
      obtain ⟨rfl, hx⟩ := eq_append_of_cutAt? hcut
      have hlen : stop - start ≤ byteLength y := by
        rw [byteLength_append] at h
        omega
      have hsub : byteLength a + stop - (byteLength a + start) = stop - start := by omega
      simp only [Option.map_some, Option.bind_eq_bind, Option.bind_some, hsub,
        cutAt?_append_right hlen]
      cases cutAt? (stop - start) y <;> rfl
  · rw [if_neg (by omega), if_neg hle]

/-- What is cut out of a text is no longer than the place where the cut ends. -/
theorem byteLength_slice?_le (cs : List Char) (start stop : Nat) :
    byteLength ((slice? cs start stop).getD []) ≤ stop := by
  cases h : slice? cs start stop with
  | none => exact Nat.zero_le _
  | some middle =>
    unfold slice? at h
    split at h
    · next hle =>
      obtain ⟨⟨a, rest⟩, -, h⟩ := Option.bind_eq_some_iff.1 h
      obtain ⟨⟨middle', b⟩, hcut, h⟩ := Option.bind_eq_some_iff.1 h
      cases h
      have hlength := (eq_append_of_cutAt? hcut).2
      show byteLength middle ≤ stop
      omega
    · cases h

end DdlCatalog.Text
