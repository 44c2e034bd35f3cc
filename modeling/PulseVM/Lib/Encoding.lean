import Mathlib.Data.List.Basic
import Mathlib.Data.List.TakeDrop
import Mathlib.Data.UInt
import Mathlib.Tactic.Ring

/-!
Byte strings: fixed-width little-endian numbers, a cursor that reads them back,
and writes in the middle of an arena.
-/

namespace PulseVM.Lib.Encoding
open List

abbrev Bytes := List UInt8

/-- The low `width` bytes of a number, least significant first. -/
def leBytes : Nat → Nat → Bytes
  | 0, _ => []
  | width + 1, n => UInt8.ofNat n :: leBytes width (n / 256)

def ofLe : Bytes → Nat
  | [] => 0
  | b :: rest => b.toNat + 256 * ofLe rest

@[simp] theorem length_leBytes (width n : Nat) : (leBytes width n).length = width := by
  induction width generalizing n with
  | zero => rfl
  | succ width ih => simp [leBytes, ih]

theorem ofLe_leBytes (width n : Nat) (fits : n < 256 ^ width) : ofLe (leBytes width n) = n := by
  induction width generalizing n with
  | zero =>
    simp only [leBytes, ofLe]
    omega
  | succ width ih =>
    have high : n / 256 < 256 ^ width := by
      rw [Nat.div_lt_iff_lt_mul (by decide)]
      simpa only [pow_succ] using fits
    have low : (UInt8.ofNat n).toNat = n % 256 := UInt8.toNat_ofNat
    simp only [leBytes, ofLe, ih _ high, low]
    omega

variable {n : Nat} {arena bytes : Bytes} {off len : Nat}

theorem leBytes_inj {width m : Nat} (smallN : n < 256 ^ width) (smallM : m < 256 ^ width)
    (same : leBytes width n = leBytes width m) : n = m := by
  rw [← ofLe_leBytes width n smallN, same, ofLe_leBytes width m smallM]

theorem ofLe_lt (bytes : Bytes) : ofLe bytes < 256 ^ bytes.length := by
  induction bytes with
  | nil => simp [ofLe]
  | cons b rest ih =>
    have small := b.toNat_lt
    simp only [ofLe, length_cons, pow_succ]
    omega

theorem leBytes_ofLe (bytes : Bytes) : leBytes bytes.length (ofLe bytes) = bytes := by
  induction bytes with
  | nil => rfl
  | cons b rest ih =>
    have small := b.toNat_lt
    have low : UInt8.ofNat (b.toNat + 256 * ofLe rest) = b := by
      apply UInt8.toNat_inj.mp
      rw [UInt8.toNat_ofNat']
      omega
    have high : (b.toNat + 256 * ofLe rest) / 256 = ofLe rest := by omega
    simp only [length_cons, leBytes, ofLe, low, high, ih]

/-- Split off exactly `n` bytes, or fail when fewer remain. -/
def takeExact (n : Nat) (bytes : Bytes) : Option (Bytes × Bytes) :=
  if n ≤ bytes.length then some (bytes.take n, bytes.drop n) else none

def readNat (width : Nat) (bytes : Bytes) : Option (Nat × Bytes) :=
  (takeExact width bytes).map fun parts => (ofLe parts.1, parts.2)

theorem takeExact_append (front rest : Bytes) :
    takeExact front.length (front ++ rest) = some (front, rest) := by
  simp [takeExact]

theorem takeExact_append_of_eq {front : Bytes} (rest : Bytes) (size : front.length = n) :
    takeExact n (front ++ rest) = some (front, rest) := by
  rw [← size]
  exact takeExact_append front rest

theorem readNat_append {width : Nat} (fits : n < 256 ^ width) (rest : Bytes) :
    readNat width (leBytes width n ++ rest) = some (n, rest) := by
  unfold readNat
  rw [takeExact_append_of_eq rest (length_leBytes width n)]
  simp only [Option.map_some, ofLe_leBytes width n fits]

/-- A signed 64-bit number in two's complement. -/
def i64Bytes (n : Int) : Bytes := leBytes 8 (n % 2 ^ 64).toNat

def toI64 (n : Nat) : Int := if n < 2 ^ 63 then n else n - 2 ^ 64

theorem toI64_toNat (n : Int) (low : -2 ^ 63 ≤ n) (high : n < 2 ^ 63) :
    toI64 (n % 2 ^ 64).toNat = n := by
  unfold toI64
  split
  · omega
  · omega

theorem readNat_i64Bytes (n : Int) (rest : Bytes) :
    readNat 8 (i64Bytes n ++ rest) = some ((n % 2 ^ 64).toNat, rest) := by
  apply readNat_append
  omega

/-- A row of 64-bit words. -/
def packWords (words : List UInt64) : Bytes := words.flatMap fun w => leBytes 8 w.toNat

def readWords : Nat → Bytes → Option (List UInt64 × Bytes)
  | 0, bytes => some ([], bytes)
  | count + 1, bytes => do
    let (w, bytes) ← readNat 8 bytes
    let (words, bytes) ← readWords count bytes
    some (UInt64.ofNat w :: words, bytes)

@[simp] theorem length_packWords (words : List UInt64) :
    (packWords words).length = 8 * words.length := by
  induction words with
  | nil => rfl
  | cons w rest ih =>
    have step : packWords (w :: rest) = leBytes 8 w.toNat ++ packWords rest := rfl
    rw [step, length_append, ih, length_leBytes, length_cons]
    omega

theorem readWords_append (words : List UInt64) (rest : Bytes) :
    readWords words.length (packWords words ++ rest) = some (words, rest) := by
  induction words with
  | nil => rfl
  | cons w words ih =>
    have step : packWords (w :: words) = leBytes 8 w.toNat ++ packWords words := rfl
    rw [step, append_assoc, length_cons, readWords, readNat_append w.toNat_lt]
    simp [ih]

/-- A record of an id and words that fills its bytes. -/
def packRecord (id : Int) (words : List UInt64) : Bytes := i64Bytes id ++ packWords words

def readRecord (count : Nat) (bytes : Bytes) : Option (Int × List UInt64) := do
  let (id, bytes) ← readNat 8 bytes
  let (words, rest) ← readWords count bytes
  if rest = [] then some (toI64 id, words) else none

@[simp] theorem length_packRecord (id : Int) (words : List UInt64) :
    (packRecord id words).length = 8 + 8 * words.length := by
  simp [packRecord, i64Bytes]

theorem readRecord_packRecord {id : Int} (low : 0 ≤ id) (high : id < 2 ^ 63)
    {words : List UInt64} {count : Nat} (all : words.length = count) :
    readRecord count (packRecord id words) = some (id, words) := by
  subst all
  have whole := readWords_append words []
  rw [append_nil] at whole
  unfold readRecord packRecord
  rw [readNat_i64Bytes]
  simp only [Option.bind_eq_bind, Option.bind_some, whole, ↓reduceIte,
    toI64_toNat id (by omega) high]

def slice (arena : Bytes) (off len : Nat) : Bytes := (arena.drop off).take len

def splice (arena : Bytes) (off : Nat) (bytes : Bytes) : Bytes :=
  arena.take off ++ bytes ++ arena.drop (off + bytes.length)

theorem length_splice (inside : off + bytes.length ≤ arena.length) :
    (splice arena off bytes).length = arena.length := by
  simp only [splice, length_append, length_take, length_drop]
  omega

theorem getElem?_slice (arena : Bytes) (off len i : Nat) :
    (slice arena off len)[i]? = if i < len then arena[off + i]? else none := by
  simp only [slice, getElem?_take, getElem?_drop]

theorem getElem?_splice (inside : off + bytes.length ≤ arena.length) (i : Nat) :
    (splice arena off bytes)[i]? =
      if off ≤ i ∧ i < off + bytes.length then bytes[i - off]? else arena[i]? := by
  have front : (arena.take off).length = off := by
    rw [length_take]
    omega
  unfold splice
  by_cases before : i < off
  · rw [if_neg (by omega), append_assoc, getElem?_append_left (by omega),
      getElem?_take, if_pos before]
  · by_cases within : i < off + bytes.length
    · rw [if_pos ⟨by omega, within⟩,
        getElem?_append_left (by rw [length_append, front]; omega),
        getElem?_append_right (by omega), front]
    · rw [if_neg (by omega),
        getElem?_append_right (by rw [length_append, front]; omega),
        length_append, front, getElem?_drop]
      congr 1
      omega

theorem slice_splice_same (inside : off + bytes.length ≤ arena.length) :
    slice (splice arena off bytes) off bytes.length = bytes := by
  apply ext_getElem?
  intro i
  rw [getElem?_slice, getElem?_splice inside]
  by_cases small : i < bytes.length
  · rw [if_pos small, if_pos (by omega), Nat.add_sub_cancel_left]
  · rw [if_neg small, getElem?_eq_none (by omega)]

theorem slice_splice_apart {at' : Nat} (inside : off + bytes.length ≤ arena.length)
    (apart : at' + len ≤ off ∨ off + bytes.length ≤ at') :
    slice (splice arena off bytes) at' len = slice arena at' len := by
  apply ext_getElem?
  intro i
  rw [getElem?_slice, getElem?_slice, getElem?_splice inside]
  by_cases small : i < len
  · rw [if_pos small, if_pos small, if_neg (by omega)]
  · rw [if_neg small, if_neg small]

theorem slice_append (extra : Bytes) (inside : off + len ≤ arena.length) :
    slice (arena ++ extra) off len = slice arena off len := by
  apply ext_getElem?
  intro i
  rw [getElem?_slice, getElem?_slice]
  by_cases small : i < len
  · rw [if_pos small, if_pos small, getElem?_append_left (by omega)]
  · rw [if_neg small, if_neg small]

theorem slice_take {keep : Nat} (inside : off + len ≤ keep) :
    slice (arena.take keep) off len = slice arena off len := by
  apply ext_getElem?
  intro i
  rw [getElem?_slice, getElem?_slice]
  by_cases small : i < len
  · rw [if_pos small, if_pos small, getElem?_take, if_pos (by omega)]
  · rw [if_neg small, if_neg small]

theorem length_slice (inside : off + len ≤ arena.length) : (slice arena off len).length = len := by
  simp only [slice, length_take, length_drop]
  omega

end PulseVM.Lib.Encoding
