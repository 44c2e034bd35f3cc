import Mathlib
import PulseVM.Lib.Codec

/-!
The wire format: for every type the number of bytes it takes, how it is written into a
buffer, and how it is read back from a position.
-/

namespace PulseVM.Serialization
open Lib.Encoding Lib.Codec

inductive WriteError where
  | notEnoughSpace
  deriving DecidableEq, Repr

inductive ReadError where
  | notEnoughBytes
  | parseError
  | overflow
  deriving DecidableEq, Repr

def WriteError.display : WriteError → String
  | .notEnoughSpace => "not enough space to write"

def ReadError.display : ReadError → String
  | .notEnoughBytes => "not enough bytes to read"
  | .parseError => "parse error"
  | .overflow => "integer overflow"

structure Wire (α : Type) where
  numBytes : α → Nat
  write : α → Writer WriteError
  read : Reader ReadError α

variable {α β γ δ κ ν : Type}

/-- A buffer of the announced size, written from its start. -/
def Wire.pack (wire : Wire α) (value : α) : Option (Except WriteError Bytes) :=
  (wire.write value (List.replicate (wire.numBytes value) 0) 0).map fun result =>
    result.map (·.1)

/-! Bytes at the position. -/

/-- One byte is stored; beyond the buffer this panics. -/
def store (b : UInt8) : Writer WriteError := fun bytes pos =>
  if pos < bytes.length then some (.ok (bytes.set pos b, pos + 1)) else none

def storeAll : Bytes → Writer WriteError
  | [] => Writer.skip
  | b :: rest => (store b).andThen (storeAll rest)

/-- A slice of the buffer is overwritten, if it is there. -/
def copyFromSlice (out : Bytes) : Writer WriteError := fun bytes pos =>
  if bytes.length < pos + out.length then some (.error .notEnoughSpace)
  else some (.ok (bytes.take pos ++ (out ++ bytes.drop (pos + out.length)), pos + out.length))

/-- Fail before anything is written if the buffer is too short. -/
def reserve (need : Nat) (write : Writer WriteError) : Writer WriteError := fun bytes pos =>
  if bytes.length < pos + need then some (.error .notEnoughSpace) else write bytes pos

/-- The next `width` bytes; a position behind the end panics. -/
def takeAt (width : Nat) : Reader ReadError Bytes := fun bytes pos =>
  if bytes.length < pos then none
  else if (bytes.drop pos).length < width then some (.error .notEnoughBytes, pos)
  else some (.ok ((bytes.drop pos).take width), pos + width)

/-- A slice of `len` bytes, checked against the end first. -/
def sliceAt (len : Nat) : Reader ReadError Bytes := fun bytes pos =>
  if bytes.length < pos + len then some (.error .notEnoughBytes, pos)
  else some (.ok ((bytes.drop pos).take len), pos + len)

/-! The types. -/

/-- Unsigned integers of a fixed width, little-endian. -/
def uint (width : Nat) : Wire Nat where
  numBytes _ := width
  write n := copyFromSlice (leBytes width n)
  read := do
    let arr ← takeAt width
    return ofLe arr

/-- Signed integers go through the unsigned ones of their width. -/
def sint (width : Nat) : Wire Int where
  numBytes _ := width
  write n := (uint width).write (n % 256 ^ width).toNat
  read := do
    let result ← (uint width).read
    return if 2 * result < 256 ^ width then (result : Int) else result - 256 ^ width

def bool : Wire Bool where
  numBytes _ := 1
  write b := (uint 1).write (if b then 1 else 0)
  read := do
    let value ← (uint 1).read
    return value ≠ 0

/-- Groups of seven bits, the low ones first; all but the last carry the high bit. -/
def emit : Nat → Nat → Writer WriteError
  | 0, _ => fun _ _ => none
  | fuel + 1, v =>
    if v / 128 ≠ 0 then (store (UInt8.ofNat (v % 128 + 128))).andThen (emit fuel (v / 128))
    else store (UInt8.ofNat (v % 128))

/-- The groups do not overlap, so their union is a sum. -/
def collect : Nat → Nat → Nat → Reader ReadError Nat
  | 0, _, _ => Reader.fail .parseError
  | left + 1, result, shift => fun bytes pos =>
    match bytes[pos]? with
    | none => some (.error .notEnoughBytes, pos)
    | some byte =>
      let low7 := byte.toNat % 128
      if 32 ≤ shift then some (.error .overflow, pos + 1)
      else if left = 0 ∧ 16 ≤ low7 then some (.error .overflow, pos + 1)
      else if byte.toNat < 128 then some (.ok (result + low7 * 2 ^ shift), pos + 1)
      else collect left (result + low7 * 2 ^ shift) (shift + 7) bytes (pos + 1)

def varUint32 : Wire Nat where
  numBytes v := if v = 0 then 1 else min ((v.size + 6) / 7) 5
  write v := reserve (if v = 0 then 1 else min ((v.size + 6) / 7) 5) (emit 5 v)
  read := collect 5 0 0

/-- Lengths are cut down to 32 bits. -/
def usize : Wire Nat where
  numBytes n := varUint32.numBytes (n % 2 ^ 32)
  write n := varUint32.write (n % 2 ^ 32)
  read := varUint32.read

def utf8 (s : String) : Bytes := s.toByteArray.data.toList

def string : Wire String where
  numBytes s := usize.numBytes (utf8 s).length + (utf8 s).length
  write s := (usize.write (utf8 s).length).andThen
    (reserve (utf8 s).length (storeAll (utf8 s)))
  read := do
    let len ← usize.read
    let bytes ← sliceAt len
    match String.fromUTF8? ⟨bytes.toArray⟩ with
    | some s => return s
    | none => Reader.fail .parseError

def bytes : Wire Bytes where
  numBytes b := usize.numBytes b.length + b.length
  write b := (usize.write b.length).andThen (copyFromSlice b)
  read := do
    let len ← usize.read
    sliceAt len

/-- Digests are copied as they are. -/
def digest : Wire (Vector UInt8 32) where
  numBytes _ := 32
  write digest := copyFromSlice digest.toList
  read := do
    let data ← sliceAt 32
    return Vector.ofFn fun i => data.getD i.val 0

def option (item : Wire α) : Wire (Option α) where
  numBytes
    | some value => 1 + item.numBytes value
    | none => 1
  write value := (bool.write value.isSome).andThen
    (match value with
      | some value => item.write value
      | none => Writer.skip)
  read := do
    let isSome ← bool.read
    if isSome then
      let value ← item.read
      return some value
    else return none

def writeItems (item : Wire α) : List α → Writer WriteError
  | [] => Writer.skip
  | value :: rest => (item.write value).andThen (writeItems item rest)

def readItems (item : Wire α) : Nat → Reader ReadError (List α)
  | 0 => return []
  | count + 1 => do
    let value ← item.read
    let rest ← readItems item count
    return value :: rest

def vec (item : Wire α) : Wire (List α) where
  numBytes values := usize.numBytes values.length + (values.map item.numBytes).sum
  write values := (usize.write values.length).andThen (writeItems item values)
  read := do
    let len ← usize.read
    readItems item len

/-- A queue has the format of its contents from front to back. -/
def vecDeque (item : Wire α) : Wire (List α) := vec item

def pair (first : Wire α) (second : Wire β) : Wire (α × β) where
  numBytes v := first.numBytes v.1 + second.numBytes v.2
  write v := (first.write v.1).andThen (second.write v.2)
  read := do
    let a ← first.read
    let b ← second.read
    return (a, b)

def triple (first : Wire α) (second : Wire β) (third : Wire γ) : Wire (α × β × γ) where
  numBytes v := first.numBytes v.1 + second.numBytes v.2.1 + third.numBytes v.2.2
  write v := (first.write v.1).andThen ((second.write v.2.1).andThen (third.write v.2.2))
  read := do
    let a ← first.read
    let b ← second.read
    let c ← third.read
    return (a, b, c)

def quadruple (first : Wire α) (second : Wire β) (third : Wire γ) (fourth : Wire δ) :
    Wire (α × β × γ × δ) where
  numBytes v := first.numBytes v.1 + second.numBytes v.2.1 + third.numBytes v.2.2.1 +
    fourth.numBytes v.2.2.2
  write v := (first.write v.1).andThen ((second.write v.2.1).andThen
    ((third.write v.2.2.1).andThen (fourth.write v.2.2.2)))
  read := do
    let a ← first.read
    let b ← second.read
    let c ← third.read
    let d ← fourth.read
    return (a, b, c, d)

/-! Collections in the order of their keys. -/

/-- Put an entry in its place, instead of one with the same key. -/
def insertEntry [LinearOrder κ] (key : α → κ) (entry : α) : List α → List α
  | [] => [entry]
  | other :: rest =>
    if key entry < key other then entry :: other :: rest
    else if key entry = key other then entry :: rest
    else other :: insertEntry key entry rest

theorem mem_insertEntry [LinearOrder κ] {key : α → κ} {entry a : α} {entries : List α}
    (member : a ∈ insertEntry key entry entries) : a = entry ∨ a ∈ entries := by
  induction entries with
  | nil => simpa [insertEntry] using member
  | cons other rest ih =>
    unfold insertEntry at member
    split_ifs at member
    · simpa using member
    · rcases List.mem_cons.mp member with same | later
      · exact .inl same
      · exact .inr (List.mem_cons_of_mem _ later)
    · rcases List.mem_cons.mp member with same | later
      · exact .inr (same ▸ List.mem_cons_self)
      · exact (ih later).imp id (List.mem_cons_of_mem _)

theorem insertEntry_sorted [LinearOrder κ] {key : α → κ} (entry : α) {entries : List α}
    (sorted : entries.Pairwise fun a b => key a < key b) :
    (insertEntry key entry entries).Pairwise fun a b => key a < key b := by
  induction entries with
  | nil => simp [insertEntry]
  | cons other rest ih =>
    obtain ⟨least, sorted⟩ := List.pairwise_cons.mp sorted
    unfold insertEntry
    split_ifs with before same
    · refine List.pairwise_cons.mpr ⟨?_, List.pairwise_cons.mpr ⟨least, sorted⟩⟩
      intro a member
      rcases List.mem_cons.mp member with rfl | later
      · exact before
      · exact before.trans (least a later)
    · exact List.pairwise_cons.mpr ⟨fun a later => same ▸ least a later, sorted⟩
    · refine List.pairwise_cons.mpr ⟨?_, ih sorted⟩
      intro a member
      rcases mem_insertEntry member with rfl | later
      · exact lt_of_le_of_ne (not_lt.mp before) fun equal => same equal.symm
      · exact least a later

/-- Entries in the strict order of their keys. -/
structure Canonical [LinearOrder κ] (key : α → κ) where
  entries : List α
  sorted : entries.Pairwise fun a b => key a < key b

def Canonical.insert [LinearOrder κ] {key : α → κ} (entry : α) (canonical : Canonical key) :
    Canonical key := ⟨insertEntry key entry canonical.entries, insertEntry_sorted entry canonical.sorted⟩

def readEntries [LinearOrder κ] {key : α → κ} (item : Wire α) :
    Nat → Canonical key → Reader ReadError (Canonical key)
  | 0, canonical => return canonical
  | count + 1, canonical => do
    let entry ← item.read
    readEntries item count (canonical.insert entry)

/-- What map and set have in common. -/
def canonical [LinearOrder κ] (key : α → κ) (item : Wire α) : Wire (Canonical key) where
  numBytes c := usize.numBytes c.entries.length + (c.entries.map item.numBytes).sum
  write c := (usize.write c.entries.length).andThen (writeItems item c.entries)
  read := do
    let len ← usize.read
    readEntries item len ⟨[], List.Pairwise.nil⟩

def canonicalMap [LinearOrder κ] (key : Wire κ) (value : Wire ν) :
    Wire (Canonical (Prod.fst : κ × ν → κ)) := canonical Prod.fst (pair key value)

def canonicalSet [LinearOrder κ] (item : Wire κ) : Wire (Canonical (id : κ → κ)) :=
  canonical id item

end PulseVM.Serialization
