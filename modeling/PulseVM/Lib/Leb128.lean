import PulseVM.Lib.Encoding

/-!
Variable-length numbers in base 128, and what is built from them: byte strings behind
their length and lists behind their count.
-/

namespace PulseVM.Lib.Leb128
open Encoding

/-- Base-128 digits, least significant first; every digit but the last has its high bit set. -/
def digits : Nat → Nat → Bytes
  | 0, n => [UInt8.ofNat n]
  | fuel + 1, n =>
    if n < 128 then [UInt8.ofNat n] else UInt8.ofNat (n % 128 + 128) :: digits fuel (n / 128)

def uvar (n : Nat) : Bytes := digits n n

def readUvar : Bytes → Option (Nat × Bytes)
  | [] => none
  | b :: rest =>
    if b.toNat < 128 then some (b.toNat, rest)
    else (readUvar rest).map fun parts => (b.toNat - 128 + 128 * parts.1, parts.2)

theorem readUvar_digits {fuel n : Nat} (enough : n ≤ fuel) (rest : Bytes) :
    readUvar (digits fuel n ++ rest) = some (n, rest) := by
  have last : ∀ m, m < 128 → readUvar (UInt8.ofNat m :: rest) = some (m, rest) := by
    intro m small
    have value : (UInt8.ofNat m).toNat = m := by
      rw [UInt8.toNat_ofNat']
      omega
    simp only [readUvar, value, if_pos small]
  induction fuel generalizing n with
  | zero => exact last n (by omega)
  | succ fuel ih =>
    unfold digits
    split
    · next small => exact last n small
    · next large =>
      have value : (UInt8.ofNat (n % 128 + 128)).toNat = n % 128 + 128 := by
        rw [UInt8.toNat_ofNat']
        omega
      rw [List.cons_append, readUvar, value, if_neg (by omega), ih (by omega)]
      simp only [Option.map_some, Option.some.injEq, Prod.mk.injEq, and_true]
      omega

@[simp] theorem readUvar_uvar (n : Nat) (rest : Bytes) :
    readUvar (uvar n ++ rest) = some (n, rest) :=
  readUvar_digits (Nat.le_refl n) rest

/-- A byte string behind its length. -/
def packBytes (bytes : Bytes) : Bytes := uvar bytes.length ++ bytes

def readBytes (bytes : Bytes) : Option (Bytes × Bytes) :=
  (readUvar bytes).bind fun parts => takeExact parts.1 parts.2

@[simp] theorem readBytes_packBytes (bytes rest : Bytes) :
    readBytes (packBytes bytes ++ rest) = some (bytes, rest) := by
  simp only [readBytes, packBytes, List.append_assoc, readUvar_uvar, Option.bind_some,
    takeExact_append]

variable {α : Type*}

def readMany (read : Bytes → Option (α × Bytes)) : Nat → Bytes → Option (List α × Bytes)
  | 0, bytes => some ([], bytes)
  | count + 1, bytes => do
    let (head, bytes) ← read bytes
    let (tail, bytes) ← readMany read count bytes
    some (head :: tail, bytes)

/-- A list behind its count. -/
def packMany (pack : α → Bytes) (items : List α) : Bytes :=
  uvar items.length ++ items.flatMap pack

def readCounted (read : Bytes → Option (α × Bytes)) (bytes : Bytes) : Option (List α × Bytes) :=
  (readUvar bytes).bind fun parts => readMany read parts.1 parts.2

theorem readMany_flatMap {pack : α → Bytes} {read : Bytes → Option (α × Bytes)} (items : List α)
    (back : ∀ item ∈ items, ∀ rest, read (pack item ++ rest) = some (item, rest)) (rest : Bytes) :
    readMany read items.length (items.flatMap pack ++ rest) = some (items, rest) := by
  induction items with
  | nil => rfl
  | cons head tail ih =>
    have first := back head List.mem_cons_self (tail.flatMap pack ++ rest)
    have later := ih fun item member => back item (List.mem_cons_of_mem head member)
    simp only [List.length_cons, List.flatMap_cons, List.append_assoc, readMany, first, later,
      Option.bind_eq_bind, Option.bind_some]

theorem readCounted_packMany {pack : α → Bytes} {read : Bytes → Option (α × Bytes)}
    (items : List α) (back : ∀ item ∈ items, ∀ rest, read (pack item ++ rest) = some (item, rest))
    (rest : Bytes) : readCounted read (packMany pack items ++ rest) = some (items, rest) := by
  simp only [readCounted, packMany, List.append_assoc, readUvar_uvar, Option.bind_some,
    readMany_flatMap items back rest]

end PulseVM.Lib.Leb128
