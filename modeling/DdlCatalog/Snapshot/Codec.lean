import DdlCatalog.Catalog.Expression
import DdlCatalog.OrderedMap

/-! # Binary codecs
A codec writes a value as bytes and reads it back from the front of a sequence of bytes. Numbers
have a fixed width with the lowest byte first; what varies in length has its length in front. -/

namespace DdlCatalog.Snapshot

abbrev Bytes := List UInt8

/-- Why bytes do not hold a value. -/
inductive Fault where
  | endOfInput
  | invalidBool (n : Nat)
  | invalidOption (n : Nat)
  | invalidVariant (n : Nat)
  | invalidText
deriving DecidableEq, Repr

namespace Fault

def message : Fault → String
  | endOfInput => "the input ends too early"
  | invalidBool n => s!"{n} is no truth value"
  | invalidOption n => s!"{n} does not tell whether a value is present"
  | invalidVariant n => s!"there is no alternative {n}"
  | invalidText => "a text is not encoded as UTF-8"

end Fault

structure Codec (α : Type) where
  write : α → Bytes
  read : Bytes → Except Fault (α × Bytes)

namespace Codec

variable {α β : Type}

def littleEndian : Nat → Nat → Bytes
  | 0, _ => []
  | width + 1, n => UInt8.ofNat (n % 256) :: littleEndian width (n / 256)

def ofLittleEndian : Bytes → Nat
  | [] => 0
  | b :: bs => b.toNat + 256 * ofLittleEndian bs

def takeBytes (n : Nat) (bs : Bytes) : Except Fault (Bytes × Bytes) :=
  if bs.length < n then .error .endOfInput else .ok (bs.take n, bs.drop n)

/-- Numbers of so many bytes. -/
def fixed (width : Nat) : Codec Nat where
  write := littleEndian width
  read bs := (takeBytes width bs).map fun (taken, rest) => (ofLittleEndian taken, rest)

/-- The same bytes under another type. -/
def iso (c : Codec α) (make : α → β) (back : β → α) : Codec β where
  write b := c.write (back b)
  read bs := (c.read bs).map fun (a, rest) => (make a, rest)

def natural : Codec Nat := fixed 8

def word32 : Codec UInt32 := (fixed 4).iso UInt32.ofNat UInt32.toNat

def word64 : Codec UInt64 := (fixed 8).iso UInt64.ofNat UInt64.toNat

def integer : Codec Int64 := word64.iso UInt64.toInt64 Int64.toUInt64

def binary64 : Codec Binary64 := word64.iso Binary64.mk Binary64.bits

def byte : Codec UInt8 where
  write b := [b]
  read
    | [] => .error .endOfInput
    | b :: bs => .ok (b, bs)

def bool : Codec Bool where
  write b := byte.write (if b then 1 else 0)
  read bs := do
    let (tag, rest) ← byte.read bs
    match tag.toNat with
    | 0 => return (false, rest)
    | 1 => return (true, rest)
    | n => throw (.invalidBool n)

def option (c : Codec α) : Codec (Option α) where
  write
    | none => byte.write 0
    | some a => byte.write 1 ++ c.write a
  read bs := do
    let (tag, rest) ← byte.read bs
    match tag.toNat with
    | 0 => return (none, rest)
    | 1 =>
      let (a, rest) ← c.read rest
      return (some a, rest)
    | n => throw (.invalidOption n)

def pair (c : Codec α) (d : Codec β) : Codec (α × β) where
  write p := c.write p.1 ++ d.write p.2
  read bs := do
    let (a, rest) ← c.read bs
    let (b, rest) ← d.read rest
    return ((a, b), rest)

def readMany (c : Codec α) : Nat → Bytes → Except Fault (List α × Bytes)
  | 0, bs => .ok ([], bs)
  | n + 1, bs => do
    let (a, rest) ← c.read bs
    let (as, rest) ← readMany c n rest
    return (a :: as, rest)

def list (c : Codec α) : Codec (List α) where
  write as := natural.write as.length ++ as.flatMap c.write
  read bs := do
    let (n, rest) ← natural.read bs
    readMany c n rest

def string : Codec String where
  write s := natural.write s.toUTF8.size ++ s.toUTF8.data.toList
  read bs := do
    let (n, rest) ← natural.read bs
    let (text, rest) ← takeBytes n rest
    match String.fromUTF8? ⟨text.toArray⟩ with
    | some s => return (s, rest)
    | none => throw .invalidText

/-- Maps are written as lists of entries. When a key is read twice its last value counts. -/
def map (c : Codec α) : Codec (OrderedMap String α) :=
  (list (string.pair c)).iso OrderedMap.ofList OrderedMap.entries

/-- One alternative of a type: how its values are written and read. -/
structure Variant (α : Type) where
  write? : α → Option Bytes
  read : Bytes → Except Fault (α × Bytes)

def Variant.of (c : Codec β) (inject : β → α) (project : α → Option β) : Variant α where
  write? a := (project a).map c.write
  read bs := (c.read bs).map fun (b, rest) => (inject b, rest)

def Variant.constant [DecidableEq α] (a : α) : Variant α where
  write? b := if a = b then some [] else none
  read bs := .ok (a, bs)

/-- The number of the first alternative that writes a value, and the bytes written. -/
def writeVariant : List (Variant α) → Nat → α → Bytes
  | [], _, _ => []
  | v :: vs, i, a =>
    match v.write? a with
    | some bytes => (fixed 4).write i ++ bytes
    | none => writeVariant vs (i + 1) a

/-- Values are written with the number of their alternative in front. -/
def variants (vs : List (Variant α)) : Codec α where
  write := writeVariant vs 0
  read bs := do
    let (i, rest) ← (fixed 4).read bs
    match vs[i]? with
    | some v => v.read rest
    | none => throw (.invalidVariant i)

/-- A type whose values carry no data, in the order of their numbers. -/
def enumeration [DecidableEq α] (values : List α) : Codec α :=
  variants (values.map Variant.constant)

end Codec

end DdlCatalog.Snapshot
