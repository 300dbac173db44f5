import DdlCatalog.Snapshot.Codec
import DdlCatalog.Proofs.OrderedMap
import Mathlib.Algebra.Order.BigOperators.Group.List
import Mathlib.Algebra.Order.Group.Nat

/-! # Codecs that read what they write
A value is found at the front of the bytes written for it, whatever follows, and in no part of them. This
holds of numbers that fit into their bytes and is kept by all ways to put codecs together, as long as a
length can be written in front. -/

namespace DdlCatalog.Snapshot

variable {α β γ : Type}

/-- The reader takes exactly these bytes for the value, and misses the rest when some of them are cut
off. -/
structure Reads (read : Bytes → Except Fault (α × Bytes)) (bytes : Bytes) (a : α) : Prop where
  whole : ∀ rest, read (bytes ++ rest) = .ok (a, rest)
  part : ∀ n < bytes.length, read (bytes.take n) = .error .endOfInput

namespace Reads

variable {read : Bytes → Except Fault (α × Bytes)} {bytes bytes' : Bytes} {a : α} {b : β}

theorem pure (a : α) : Reads (fun bs => .ok (a, bs)) [] a where
  whole _ := rfl
  part _ h := nomatch h

/-- One reader after another takes the bytes of both. -/
theorem bind {next : α × Bytes → Except Fault (β × Bytes)} (h : Reads read bytes a)
    (hnext : Reads (fun rest => next (a, rest)) bytes' b) :
    Reads (fun bs => read bs >>= next) (bytes ++ bytes') b where
  whole rest := by
    rw [List.append_assoc, h.whole]
    exact hnext.whole rest
  part n hn := by
    by_cases hfirst : n < bytes.length
    · rw [List.take_append_of_le_length hfirst.le, h.part n hfirst]
      rfl
    · have hsecond : n - bytes.length < bytes'.length := by
        rw [List.length_append] at hn
        omega
      rw [List.take_append, List.take_of_length_le (Nat.le_of_not_lt hfirst), h.whole]
      exact hnext.part _ hsecond

theorem map (h : Reads read bytes a) (f : α → β) :
    Reads (fun bs => (read bs).map fun found => (f found.1, found.2)) bytes (f a) where
  whole rest := by rw [h.whole]; rfl
  part n hn := by rw [h.part n hn]; rfl

theorem bind_ok {next : α × Bytes → Except Fault (β × Bytes)} (h : Reads read bytes a)
    (hnext : ∀ rest, next (a, rest) = .ok (b, rest)) :
    Reads (fun bs => read bs >>= next) bytes b where
  whole rest := by
    rw [h.whole]
    exact hnext rest
  part n hn := by rw [h.part n hn]; rfl

/-- A byte in front selects what is read next. -/
theorem tagged {next : Bytes → Except Fault (α × Bytes)} {tag : UInt8} (h : Reads next bytes a)
    (hnil : read [] = .error .endOfInput) (hcons : ∀ rest, read (tag :: rest) = next rest) :
    Reads read (tag :: bytes) a where
  whole rest := by
    rw [List.cons_append, hcons]
    exact h.whole rest
  part n hn := by
    cases n with
    | zero => exact hnil
    | succ n =>
      rw [List.take_succ_cons, hcons]
      exact h.part n (Nat.lt_of_succ_lt_succ hn)

theorem takeBytes (bytes : Bytes) : Reads (Codec.takeBytes bytes.length) bytes bytes where
  whole rest := by simp [Codec.takeBytes]
  part n hn := by simp [Codec.takeBytes, hn]

end Reads

namespace Codec

variable {c : Codec α} {d : Codec β} {a : α} {b : β}

/-- The value is read back from what is written of it, which is something but not too much for its
length to be written. -/
structure Faithful (c : Codec α) (a : α) : Prop where
  written : 0 < (c.write a).length
  reads : (c.write a).length < 2 ^ 64 → Reads c.read (c.write a) a

@[simp] theorem length_littleEndian (width n : Nat) : (littleEndian width n).length = width := by
  induction width generalizing n with
  | zero => rfl
  | succ width ih => rw [littleEndian, List.length_cons, ih]

theorem ofLittleEndian_littleEndian {width n : Nat} (h : n < 256 ^ width) :
    ofLittleEndian (littleEndian width n) = n := by
  induction width generalizing n with
  | zero =>
    rw [Nat.pow_zero] at h
    exact (Nat.lt_one_iff.1 h).symm
  | succ width ih =>
    have hrest : n / 256 < 256 ^ width := by
      rw [Nat.pow_succ] at h
      exact Nat.div_lt_of_lt_mul (by rwa [Nat.mul_comm])
    have hbyte : (UInt8.ofNat (n % 256)).toNat = n % 256 := by simp
    rw [littleEndian, ofLittleEndian, ih hrest, hbyte, Nat.mod_add_div]

theorem fixed_faithful {width n : Nat} (hwidth : 0 < width) (h : n < 256 ^ width) :
    (fixed width).Faithful n where
  written := by
    show 0 < (littleEndian width n).length
    rwa [length_littleEndian]
  reads _ := by
    have htake := (Reads.takeBytes (littleEndian width n)).map ofLittleEndian
    rw [length_littleEndian, ofLittleEndian_littleEndian h] at htake
    exact htake

theorem Faithful.iso {make : α → β} {back : β → α} (hback : make (back b) = b)
    (h : c.Faithful (back b)) : (c.iso make back).Faithful b where
  written := h.written
  reads hlength := by
    have hread := (h.reads hlength).map make
    rw [hback] at hread
    exact hread

theorem natural_faithful {n : Nat} (h : n < 2 ^ 64) : natural.Faithful n :=
  fixed_faithful (by decide) h

theorem word32_faithful (n : UInt32) : word32.Faithful n :=
  .iso UInt32.ofNat_toNat (fixed_faithful (by decide) n.toNat_lt)

theorem word64_faithful (n : UInt64) : word64.Faithful n :=
  .iso UInt64.ofNat_toNat (fixed_faithful (by decide) n.toNat_lt)

theorem integer_faithful (n : Int64) : integer.Faithful n :=
  .iso n.toInt64_toUInt64 (word64_faithful n.toUInt64)

theorem binary64_faithful (x : Binary64) : binary64.Faithful x := .iso rfl (word64_faithful x.bits)

theorem bool_faithful (b : Bool) : bool.Faithful b where
  written := Nat.one_pos
  reads _ := by
    cases b
    · exact Reads.tagged (.pure false) rfl fun _ => rfl
    · exact Reads.tagged (.pure true) rfl fun _ => rfl

theorem Faithful.option {o : Option α} (h : ∀ a ∈ o, c.Faithful a) : c.option.Faithful o where
  written := by
    cases o with
    | none => exact Nat.one_pos
    | some a => exact Nat.succ_pos _
  reads hlength := by
    cases o with
    | none => exact Reads.tagged (.pure none) rfl fun _ => rfl
    | some a =>
      have hvalue : (c.write a).length < 2 ^ 64 := (Nat.lt_succ_self _).trans hlength
      exact (((h a rfl).reads hvalue).map some).tagged rfl fun _ => rfl

theorem Faithful.pair (ha : c.Faithful a) (hb : d.Faithful b) : (c.pair d).Faithful (a, b) where
  written := by
    show 0 < (c.write a ++ d.write b).length
    rw [List.length_append]
    exact Nat.add_pos_left ha.written _
  reads hlength := by
    replace hlength : (c.write a ++ d.write b).length < 2 ^ 64 := hlength
    rw [List.length_append] at hlength
    exact (ha.reads (by omega)).bind ((hb.reads (by omega)).bind_ok fun _ => rfl)

theorem readMany_reads {as : List α} (h : ∀ a ∈ as, Reads c.read (c.write a) a) :
    Reads (readMany c as.length) (as.flatMap c.write) as := by
  induction as with
  | nil => exact .pure []
  | cons a as ih =>
    rw [List.forall_mem_cons] at h
    exact h.1.bind ((ih h.2).bind_ok fun _ => rfl)

theorem Faithful.list {as : List α} (h : ∀ a ∈ as, c.Faithful a) : c.list.Faithful as where
  written := by
    show 0 < (natural.write as.length ++ as.flatMap c.write).length
    rw [List.length_append]
    exact Nat.add_pos_left (length_littleEndian 8 _ ▸ Nat.succ_pos 7) _
  reads hlength := by
    replace hlength : (natural.write as.length ++ as.flatMap c.write).length < 2 ^ 64 := hlength
    have hvalues : (as.flatMap c.write).length < 2 ^ 64 := by
      rw [List.length_append] at hlength
      omega
    rw [List.length_flatMap] at hvalues
    -- Every value takes a byte, so there are no more values than bytes.
    have hcount : as.length < 2 ^ 64 := by
      have hle := List.length_le_sum_of_one_le (as.map fun a => (c.write a).length)
        (List.forall_mem_map.2 fun a ha => (h a ha).written)
      rw [List.length_map] at hle
      exact lt_of_le_of_lt hle hvalues
    have hreads : ∀ a ∈ as, Reads c.read (c.write a) a := by
      intro a ha
      have hle := List.le_sum_of_mem (List.mem_map_of_mem (f := fun a => (c.write a).length) ha)
      exact (h a ha).reads (lt_of_le_of_lt hle hvalues)
    exact ((natural_faithful hcount).reads (by simp [natural, fixed])).bind (readMany_reads hreads)

theorem fromUTF8?_toUTF8 (s : String) :
    String.fromUTF8? ⟨s.toUTF8.data.toList.toArray⟩ = some s := by
  have hbytes : (⟨s.toUTF8.data.toList.toArray⟩ : ByteArray) = s.toByteArray := by simp
  rw [hbytes, String.fromUTF8?, dif_pos s.isValidUTF8]
  rfl

theorem string_faithful (s : String) : string.Faithful s where
  written := by
    show 0 < (natural.write s.toUTF8.size ++ s.toUTF8.data.toList).length
    rw [List.length_append]
    exact Nat.add_pos_left (length_littleEndian 8 _ ▸ Nat.succ_pos 7) _
  reads hlength := by
    replace hlength : (natural.write s.toUTF8.size ++ s.toUTF8.data.toList).length < 2 ^ 64 := hlength
    have hsize : s.toUTF8.size < 2 ^ 64 := by
      rw [List.length_append, Array.length_toList] at hlength
      exact lt_of_le_of_lt (Nat.le_add_left ..) hlength
    refine ((natural_faithful hsize).reads (by simp [natural, fixed])).bind ?_
    refine (Reads.takeBytes s.toUTF8.data.toList).bind_ok fun rest => ?_
    simp only [fromUTF8?_toUTF8]
    rfl

theorem Faithful.map {m : OrderedMap String α} (h : ∀ a ∈ m.values, c.Faithful a) :
    c.map.Faithful m := by
  refine .iso m.ofList_entries (.list fun entry hentry => ?_)
  exact (string_faithful entry.1).pair (h entry.2 (List.mem_map_of_mem hentry))

/-- What an alternative writes of the value it reads back. -/
def Variant.Faithful (v : Variant α) (a : α) : Prop :=
  ∀ bytes, v.write? a = some bytes → bytes.length < 2 ^ 64 → Reads v.read bytes a

theorem Variant.of_faithful {inject : β → α} {project : α → Option β}
    (h : ∀ b, project a = some b → inject b = a ∧ d.Faithful b) :
    (Variant.of d inject project).Faithful a := by
  intro bytes hbytes hlength
  obtain ⟨b, hb, rfl⟩ := Option.map_eq_some_iff.1 hbytes
  obtain ⟨rfl, hd⟩ := h b hb
  exact (hd.reads hlength).map inject

theorem Variant.constant_faithful [DecidableEq α] (a b : α) : (Variant.constant b).Faithful a := by
  intro bytes hbytes _
  unfold Variant.constant at hbytes ⊢
  dsimp only at hbytes
  split at hbytes
  · next h =>
    cases hbytes
    cases h
    exact .pure a
  · cases hbytes

/-- What is written is the number of an alternative and what it writes. -/
theorem exists_writeVariant {vs : List (Variant α)} (h : ∃ v ∈ vs, (v.write? a).isSome) (i : Nat) :
    ∃ j v bytes, vs[j]? = some v ∧ v.write? a = some bytes ∧
      writeVariant vs i a = (fixed 4).write (i + j) ++ bytes := by
  induction vs generalizing i with
  | nil => simp at h
  | cons v vs ih =>
    cases hv : v.write? a with
    | some bytes => exact ⟨0, v, bytes, rfl, hv, by simp [writeVariant, hv]⟩
    | none =>
      have hrest : ∃ v ∈ vs, (v.write? a).isSome := by simpa [hv] using h
      obtain ⟨j, w, bytes, hj, hw, hwrite⟩ := ih hrest (i + 1)
      refine ⟨j + 1, w, bytes, hj, hw, ?_⟩
      simp only [writeVariant, hv, hwrite]
      congr 2
      omega

theorem variants_faithful {vs : List (Variant α)} (hcount : vs.length ≤ 2 ^ 32)
    (hvs : vs.Forall (·.Faithful a)) (h : ∃ v ∈ vs, (v.write? a).isSome) :
    (variants vs).Faithful a := by
  obtain ⟨j, v, bytes, hj, hv, hwrite⟩ := exists_writeVariant h 0
  have hnumber : (fixed 4).Faithful j := by
    have hlt := (List.getElem?_eq_some_iff.1 hj).1
    exact fixed_faithful (by decide) (by omega)
  rw [Nat.zero_add] at hwrite
  have hwrite : (variants vs).write a = (fixed 4).write j ++ bytes := hwrite
  constructor
  · rw [hwrite, List.length_append]
    exact Nat.add_pos_left hnumber.written _
  · intro hlength
    rw [hwrite, List.length_append] at hlength
    have hread : Reads v.read bytes a :=
      List.forall_iff_forall_mem.1 hvs v (List.mem_of_getElem? hj) bytes hv (by omega)
    rw [hwrite]
    refine (hnumber.reads (by omega)).bind ?_
    simp only [hj]
    exact hread

theorem enumeration_faithful [DecidableEq α] {values : List α} (hcount : values.length ≤ 2 ^ 32)
    (h : a ∈ values) : (enumeration values).Faithful a := by
  refine variants_faithful (by rwa [List.length_map]) ?_ ?_
  · rw [List.forall_iff_forall_mem, List.forall_mem_map]
    exact fun b _ => Variant.constant_faithful a b
  · exact ⟨_, List.mem_map_of_mem h, by simp [Variant.constant]⟩

end Codec

end DdlCatalog.Snapshot
