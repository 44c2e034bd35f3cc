import Mathlib
import PulseVM.Lib.Decimal

/-!
Account names: 64-bit numbers shown as up to twelve letters of five bits and a thirteenth
letter of four.
-/

namespace PulseVM.Types
open Lib.Decimal

inductive ParseNameError where
  | badChar (c : UInt8)
  | tooLong
  deriving DecidableEq, Repr

def ParseNameError.message : ParseNameError → String
  | .badChar c => "bad character in name: '" ++ (Char.ofNat c.toNat).toString ++ "'"
  | .tooLong => "name is too long"

namespace Name
open List

def byteOf (c : Char) : UInt8 := UInt8.ofNat c.toNat

def letters : Text :=
  ['.', '1', '2', '3', '4', '5', 'a', 'b', 'c', 'd', 'e', 'f', 'g', 'h', 'i', 'j', 'k', 'l', 'm',
    'n', 'o', 'p', 'q', 'r', 's', 't', 'u', 'v', 'w', 'x', 'y', 'z']

def nameChars : List UInt8 := letters.map byteOf

def nameMaxLen : Nat := 13

/-- The bytes of a dot, of the digits from 1 to 5 and of the lower case letters. -/
def charToValue (c : UInt8) : Option UInt8 :=
  if c = 46 then some 0
  else if 49 ≤ c ∧ c ≤ 53 then some (c - 49 + 1)
  else if 97 ≤ c ∧ c ≤ 122 then some (c - 97 + 6)
  else none

/-- Up to twelve letters, the number of them, and what is left to read. -/
def packChars (value : UInt64) (len : Nat) :
    List UInt8 → Except ParseNameError (UInt64 × Nat × List UInt8)
  | [] => .ok (value, len, [])
  | c :: rest =>
    match charToValue c with
    | none => .error (.badChar c)
    | some v =>
      let value := value <<< 5 ||| v.toUInt64
      if len + 1 = 12 then .ok (value, len + 1, rest) else packChars value (len + 1) rest

def nameFromBytes (bytes : List UInt8) : Except ParseNameError UInt64 := do
  let (value, len, rest) ← packChars 0 0 bytes
  if len = 0 then return 0
  let value := value <<< UInt64.ofNat (4 + 5 * (12 - len))
  match rest with
  | [] => return value
  | c :: rest =>
    match charToValue c with
    | none => throw (.badChar c)
    | some v =>
      if 0x0F < v then throw (.badChar c)
      else if rest ≠ [] then throw .tooLong
      else return value ||| v.toUInt64

/-- The letters from the top bits on; the last of them has four bits only. -/
def spell : Nat → UInt64 → List UInt8
  | 0, _ => []
  | left + 1, v =>
    let index := (v &&& 0xF800_0000_0000_0000) >>> (if left = 0 then 60 else 59)
    nameChars[index.toNat]?.getD (byteOf '.') :: spell left (v <<< 5)

def nameToBytes (value : UInt64) : List UInt8 :=
  if value = 0 then List.replicate nameMaxLen (byteOf '.') else spell nameMaxLen value

/-- The bytes as a text without the dots at its end. -/
def display (name : UInt64) : Text :=
  ((nameToBytes name).map fun b => Char.ofNat b.toNat).rdropWhile (· = '.')

/-- A decimal numeral is the number itself; any other text is read letter by letter. -/
def fromStr (s : Text) : Except String UInt64 :=
  match parseUnsigned (2 ^ 64) s with
  | some value => .ok (UInt64.ofNat value)
  | none => (nameFromBytes (s.flatMap String.utf8EncodeChar)).mapError fun e =>
    "invalid name format: " ++ e.message

def serialize (name : UInt64) : Text := display name

def deserialize (s : Text) : Except String UInt64 := fromStr s

/-! What the letters stand for. -/

/-- The number spelled by letters of which the first `place` have five bits. -/
def worth : Nat → List UInt8 → Nat
  | _, [] => 0
  | 0, d :: _ => d.toNat
  | place + 1, d :: rest => d.toNat * (16 * 32 ^ place) + worth place rest

/-- Letter by letter into five bits each. -/
def horner (start : Nat) (digits : List UInt8) : Nat :=
  digits.foldl (fun n d => 32 * n + d.toNat) start

theorem charToValue_lt {c v : UInt8} (known : charToValue c = some v) : v.toNat < 32 := by
  have all : ∀ i : Fin 256, ((charToValue (UInt8.ofNat i)).getD 0).toNat < 32 := by decide +kernel
  have own := all ⟨c.toNat, c.toNat_lt⟩
  simpa [known] using own

theorem worth_replicate (place count : Nat) : worth place (List.replicate count 0) = 0 := by
  induction count generalizing place with
  | zero => simp [worth]
  | succ count ih =>
    cases place with
    | zero => rfl
    | succ place => simp [replicate_succ, worth, ih]

theorem worth_zeros (place : Nat) (digits : List UInt8) (count : Nat) :
    worth place (digits ++ List.replicate count 0) = worth place digits := by
  induction digits generalizing place with
  | nil => simp [worth, worth_replicate]
  | cons d rest ih =>
    cases place with
    | zero => rfl
    | succ place => rw [cons_append, worth, worth, ih]

theorem horner_lt {start bound : Nat} {digits : List UInt8} (small : start < 32 ^ bound)
    (each : ∀ d ∈ digits, d.toNat < 32) :
    horner start digits < 32 ^ (bound + digits.length) := by
  induction digits generalizing start bound with
  | nil => exact small
  | cons d rest ih =>
    have low := each d mem_cons_self
    have next : 32 * start + d.toNat < 32 ^ (bound + 1) := by
      rw [pow_succ]
      omega
    have later := ih next fun d member => each d (mem_cons_of_mem _ member)
    rwa [length_cons, Nat.add_comm rest.length 1, ← Nat.add_assoc]

theorem horner_worth (start place : Nat) (digits : List UInt8) :
    horner start (digits.take place) * (16 * 32 ^ (place - digits.length)) +
        ((digits.drop place).head?.getD 0).toNat =
      start * (16 * 32 ^ place) + worth place digits := by
  induction digits generalizing start place with
  | nil => simp [horner, worth]
  | cons d rest ih =>
    cases place with
    | zero => simp [horner, worth]
    | succ place =>
      have later := ih (32 * start + d.toNat) place
      rw [take_succ_cons, drop_succ_cons, length_cons, Nat.add_sub_add_right, worth]
      rw [horner, foldl_cons]
      rw [horner] at later
      rw [later, pow_succ]
      ring

theorem shift_or {value : UInt64} {v : UInt8} (small : value.toNat < 32 ^ 11)
    (letter : v.toNat < 32) : value <<< 5 ||| v.toUInt64 = UInt64.ofNat (32 * value.toNat + v.toNat) := by
  apply UInt64.toNat_inj.mp
  have shifted : value.toNat <<< 5 % 2 ^ 64 = 2 ^ 5 * value.toNat := by
    rw [Nat.shiftLeft_eq]
    omega
  rw [UInt64.toNat_or, UInt64.toNat_shiftLeft, UInt64.toNat_ofNat']
  change value.toNat <<< (5 % 64) % 2 ^ 64 ||| v.toNat = _
  rw [shifted, ← Nat.two_pow_add_eq_or_of_lt letter]
  omega

def digit (c : UInt8) : UInt8 := (charToValue c).getD 0

theorem digit_lt (c : UInt8) : (digit c).toNat < 32 := by
  unfold digit
  cases known : charToValue c with
  | none => decide
  | some v => exact charToValue_lt known

/-- At most thirteen letters, the last of them one of four bits. -/
structure Spelled (bytes : List UInt8) : Prop where
  short : bytes.length ≤ nameMaxLen
  known : ∀ c ∈ bytes, (charToValue c).isSome
  last : ∀ c ∈ bytes[12]?, digit c ≤ 0x0F

theorem packChars_known (value : UInt64) (len : Nat) (bytes : List UInt8) (more : len < 12)
    (small : value.toNat < 32 ^ len) (known : ∀ c ∈ bytes.take (12 - len), (charToValue c).isSome) :
    packChars value len bytes =
      .ok (UInt64.ofNat (horner value.toNat ((bytes.take (12 - len)).map digit)),
        len + min (12 - len) bytes.length, bytes.drop (12 - len)) := by
  induction bytes generalizing value len with
  | nil => simp [packChars, horner]
  | cons c rest ih =>
    obtain ⟨left, room⟩ : ∃ left, 12 - len = left + 1 := ⟨11 - len, by omega⟩
    rw [room, take_succ_cons] at known
    rw [room, take_succ_cons, drop_succ_cons, length_cons, map_cons]
    obtain ⟨v, letter⟩ := Option.isSome_iff_exists.mp (known c mem_cons_self)
    have own : digit c = v := by simp [digit, letter]
    have low := charToValue_lt letter
    have bound : value.toNat < 32 ^ 11 :=
      small.trans_le (Nat.pow_le_pow_right (by decide) (by omega))
    have next : (UInt64.ofNat (32 * value.toNat + v.toNat)).toNat = 32 * value.toNat + v.toNat := by
      rw [UInt64.toNat_ofNat']
      omega
    simp only [packChars, letter, shift_or bound low, own, horner, foldl_cons]
    split
    · next full =>
      have zero : left = 0 := by omega
      subst zero
      simp [full]
    · next open_ =>
      have after : 12 - (len + 1) = left := by omega
      have grown : 32 * value.toNat + v.toNat < 32 ^ (len + 1) := by
        rw [pow_succ]
        omega
      rw [ih _ (len + 1) (by omega) (by rwa [next]) (by
        rw [after]
        exact fun c member => known c (mem_cons_of_mem _ member)), after, next]
      simp only [horner, Except.ok.injEq, Prod.mk.injEq, true_and, and_true]
      omega

theorem packChars_ok {value value' : UInt64} {len len' : Nat} {bytes rest : List UInt8}
    (more : len < 12) (packed : packChars value len bytes = .ok (value', len', rest)) :
    ∀ c ∈ bytes.take (12 - len), (charToValue c).isSome := by
  induction bytes generalizing value len with
  | nil => simp
  | cons c tail ih =>
    obtain ⟨left, room⟩ : ∃ left, 12 - len = left + 1 := ⟨11 - len, by omega⟩
    rw [room, take_succ_cons]
    unfold packChars at packed
    split at packed
    · cases packed
    · next v letter =>
      have first : (charToValue c).isSome := by simp [letter]
      split at packed
      · have zero : left = 0 := by omega
        simp [zero, first]
      · have after : 12 - (len + 1) = left := by omega
        have others := ih (by omega) packed
        rw [after] at others
        simpa [first] using others

theorem shift_worth {total len : Nat} (nonempty : 0 < len) (most : len ≤ 12)
    (small : total < 32 ^ len) :
    (UInt64.ofNat total <<< UInt64.ofNat (4 + 5 * (12 - len))).toNat =
      total * (16 * 32 ^ (12 - len)) := by
  have weight : 2 ^ (4 + 5 * (12 - len)) = 16 * 32 ^ (12 - len) := by
    rw [pow_add, pow_mul]
    rfl
  have scale : 32 ^ len * (16 * 32 ^ (12 - len)) = 2 ^ 64 := by
    rw [Nat.mul_left_comm, ← pow_add, Nat.add_sub_of_le most]
    rfl
  have fits : total * (16 * 32 ^ (12 - len)) < 2 ^ 64 := by
    rw [← scale]
    exact Nat.mul_lt_mul_of_pos_right small (by positivity)
  have total_lt : total < 2 ^ 64 :=
    small.trans_le (le_trans (Nat.pow_le_pow_right (by decide) most) (by decide))
  have amount : (UInt64.ofNat (4 + 5 * (12 - len))).toNat % 64 = 4 + 5 * (12 - len) := by
    rw [UInt64.toNat_ofNat']
    omega
  rw [UInt64.toNat_shiftLeft, amount, UInt64.toNat_ofNat', Nat.mod_eq_of_lt total_lt,
    Nat.shiftLeft_eq, weight, Nat.mod_eq_of_lt fits]

theorem horner_take_lt (bytes : List UInt8) :
    horner 0 ((bytes.take 12).map digit) < 32 ^ min 12 bytes.length := by
  have each : ∀ d ∈ (bytes.take 12).map digit, d.toNat < 32 := by
    intro d member
    obtain ⟨c, -, rfl⟩ := mem_map.mp member
    exact digit_lt c
  have zero : 0 < 32 ^ 0 := by decide
  simpa using horner_lt zero each

theorem nameFromBytes_spelled {bytes : List UInt8} (spelled : Spelled bytes) :
    nameFromBytes bytes = .ok (UInt64.ofNat (worth 12 (bytes.map digit))) := by
  have packed := packChars_known 0 0 bytes (by decide) (by decide)
    fun c member => spelled.known c (mem_of_mem_take member)
  have total := horner_worth 0 12 (bytes.map digit)
  have short := spelled.short
  rw [← map_take, ← map_drop, length_map, Nat.zero_mul, Nat.zero_add] at total
  unfold nameFromBytes
  rw [packed]
  simp only [Nat.zero_add, Nat.sub_zero, UInt64.toNat_zero, bind, Except.bind]
  split
  · next zero =>
    have empty : bytes = [] := length_eq_zero_iff.mp (by omega)
    subst empty
    rfl
  · next nonempty =>
    have shifted := shift_worth (by omega) (Nat.min_le_left _ _) (horner_take_lt bytes)
    have places : 12 - min 12 bytes.length = 12 - bytes.length := by omega
    rw [places] at shifted
    cases tail : bytes.drop 12 with
    | nil =>
      rw [tail] at total
      have whole : (UInt64.ofNat (horner 0 ((bytes.take 12).map digit)) <<<
          UInt64.ofNat (4 + 5 * (12 - bytes.length))).toNat = worth 12 (bytes.map digit) := by
        rw [shifted, ← total]
        simp
      rw [places, ← whole, UInt64.ofNat_toNat]
      rfl
    | cons c rest =>
      have size := congrArg List.length tail
      rw [length_drop, length_cons] at size
      have alone : rest = [] := length_eq_zero_iff.mp (by unfold nameMaxLen at short; omega)
      have place : bytes[12]? = some c := by
        rw [← head?_drop, tail]
        rfl
      subst alone
      obtain ⟨v, letter⟩ := Option.isSome_iff_exists.mp
        (spelled.known c (mem_of_getElem? place))
      have low := spelled.last c place
      have own : digit c = v := by simp [digit, letter]
      rw [own] at low
      rw [tail, map_cons, head?_cons, Option.getD_some, own] at total
      have thirteen : 12 - bytes.length = 0 := by simp only [length_nil] at size; omega
      rw [thirteen] at shifted total
      have above : ¬0x0F < v := by
        rw [UInt8.le_iff_toNat_le] at low
        rw [UInt8.lt_iff_toNat_lt]
        omega
      simp only [letter, above, if_false, ne_eq, not_true_eq_false, places, thirteen]
      have bound := horner_take_lt bytes
      rw [show min 12 bytes.length = 12 by omega] at bound
      rw [pow_zero, Nat.mul_one] at shifted total
      have four : v.toNat < 2 ^ 4 := Nat.lt_succ_of_le (UInt8.le_iff_toNat_le.mp low)
      have joined := Nat.two_pow_add_eq_or_of_lt four (horner 0 ((bytes.take 12).map digit))
      congr 1
      apply UInt64.toNat_inj.mp
      rw [UInt64.toNat_or, shifted, UInt8.toNat_toUInt64, UInt64.toNat_ofNat', ← total, Nat.mul_comm,
        ← joined]
      omega

theorem spelled_of_ok {bytes : List UInt8} {n : UInt64} (read : nameFromBytes bytes = .ok n) :
    Spelled bytes := by
  unfold nameFromBytes at read
  cases packed : packChars 0 0 bytes with
  | error e => simp [packed, bind, Except.bind] at read
  | ok parts =>
    obtain ⟨value, len, rest⟩ := parts
    have known := packChars_ok (by decide) packed
    have same := packChars_known 0 0 bytes (by decide) (by decide) known
    rw [packed, Except.ok.injEq, Prod.mk.injEq, Prod.mk.injEq] at same
    obtain ⟨-, count, remains⟩ := same
    rw [packed] at read
    simp only [Nat.zero_add, Nat.sub_zero, bind, Except.bind] at read known count remains
    have pieces := take_append_drop 12 bytes
    by_cases zero : len = 0
    · have empty : bytes = [] := length_eq_zero_iff.mp (by omega)
      subst empty
      exact ⟨by decide, by simp, by simp⟩
    · rw [if_neg zero] at read
      cases rest with
      | nil =>
        have short : bytes.length ≤ 12 := drop_eq_nil_iff.mp remains.symm
        rw [take_of_length_le short] at known
        exact ⟨by unfold nameMaxLen; omega, known, by simp [short]⟩
      | cons c rest =>
        have place : bytes[12]? = some c := by
          rw [← head?_drop, ← remains]
          rfl
        dsimp only at read
        split at read
        · cases read
        · next v letter =>
          split_ifs at read with high more
          have alone : rest = [] := not_not.mp more
          subst alone
          rw [← remains] at pieces
          refine ⟨?_, ?_, ?_⟩
          · rw [← pieces, length_append, length_take]
            simp only [length_singleton, nameMaxLen]
            omega
          · intro d member
            rw [← pieces, mem_append, mem_singleton] at member
            rcases member with early | rfl
            · exact known d early
            · simp [letter]
          · intro d there
            have same : d = c := by simpa [place] using there.symm
            rw [same, digit, letter, Option.getD_some]
            exact UInt8.not_lt.mp high

/-! The letters of a number. -/

theorem nameChars_digit {index : Nat} (small : index < 32) :
    ∃ c, nameChars[index]? = some c ∧ charToValue c = some (UInt8.ofNat index) ∧ c.toNat < 128 := by
  have all : ∀ i : Fin 32, ∃ c, nameChars[i.val]? = some c ∧
      charToValue c = some (UInt8.ofNat i) ∧ c.toNat < 128 := by decide +kernel
  exact all ⟨index, small⟩

theorem last_index_toNat (v : UInt64) :
    ((v &&& 0xF800_0000_0000_0000) >>> 60).toNat = v.toNat / 2 ^ 60 := by
  rw [UInt64.toNat_shiftRight, UInt64.toNat_and]
  rw [Nat.shiftRight_and_distrib]
  change v.toNat >>> 60 &&& (2 ^ 4 - 1) = _
  rw [Nat.and_two_pow_sub_one_eq_mod, Nat.shiftRight_eq_div_pow]
  have bound := v.toNat_lt
  omega

theorem index_toNat (v : UInt64) :
    ((v &&& 0xF800_0000_0000_0000) >>> 59).toNat = v.toNat / 2 ^ 59 := by
  rw [UInt64.toNat_shiftRight, UInt64.toNat_and]
  rw [Nat.shiftRight_and_distrib]
  change v.toNat >>> 59 &&& (2 ^ 5 - 1) = _
  rw [Nat.and_two_pow_sub_one_eq_mod, Nat.shiftRight_eq_div_pow]
  have bound := v.toNat_lt
  omega

theorem spell_succ (left : Nat) (v : UInt64) :
    ∃ c, spell (left + 1) v = c :: spell left (v <<< 5) ∧ c.toNat < 128 ∧ (charToValue c).isSome ∧
      (digit c).toNat = v.toNat / (if left = 0 then 2 ^ 60 else 2 ^ 59) := by
  have bound := v.toNat_lt
  have index : ((v &&& 0xF800_0000_0000_0000) >>> (if left = 0 then 60 else 59)).toNat =
      v.toNat / (if left = 0 then 2 ^ 60 else 2 ^ 59) := by
    split
    · exact last_index_toNat v
    · exact index_toNat v
  have small : v.toNat / (if left = 0 then 2 ^ 60 else 2 ^ 59) < 32 := by
    split <;> omega
  obtain ⟨c, there, letter, ascii⟩ := nameChars_digit small
  refine ⟨c, ?_, ascii, by simp [letter], ?_⟩
  · rw [spell, index, there, Option.getD_some]
  · rw [digit, letter, Option.getD_some, UInt8.toNat_ofNat', Nat.mod_eq_of_lt (by omega)]

theorem worth_spell (left : Nat) (v : UInt64) (most : left ≤ 12) :
    worth left ((spell (left + 1) v).map digit) = v.toNat / 2 ^ (60 - 5 * left) := by
  induction left generalizing v with
  | zero =>
    obtain ⟨c, list, -, -, top⟩ := spell_succ 0 v
    rw [list, map_cons, worth, top]
    rfl
  | succ left ih =>
    obtain ⟨c, list, -, -, top⟩ := spell_succ (left + 1) v
    have shifted : (v <<< 5).toNat = v.toNat % 2 ^ 59 * 32 := by
      rw [UInt64.toNat_shiftLeft]
      change v.toNat <<< 5 % 2 ^ 64 = _
      rw [Nat.shiftLeft_eq]
      omega
    rw [if_neg (by omega)] at top
    rw [list, map_cons, worth, ih _ (by omega), top, shifted]
    have less : left ≤ 11 := by omega
    interval_cases left <;> norm_num <;> omega

theorem spell_known (left : Nat) (v : UInt64) :
    (spell left v).length = left ∧
      ∀ c ∈ spell left v, (charToValue c).isSome ∧ c.toNat < 128 := by
  induction left generalizing v with
  | zero => simp [spell]
  | succ left ih =>
    obtain ⟨c, list, ascii, known, -⟩ := spell_succ left v
    obtain ⟨length, others⟩ := ih (v <<< 5)
    rw [list]
    refine ⟨by rw [length_cons, length], ?_⟩
    intro d member
    rcases mem_cons.mp member with rfl | later
    · exact ⟨known, ascii⟩
    · exact others d later

theorem spell_last (left : Nat) (v : UInt64) :
    ∀ c ∈ (spell (left + 1) v)[left]?, digit c ≤ 0x0F := by
  induction left generalizing v with
  | zero =>
    obtain ⟨c, list, -, -, top⟩ := spell_succ 0 v
    have bound := v.toNat_lt
    rw [list]
    intro d there
    have same : c = d := by simpa using there
    rw [if_pos rfl] at top
    rw [← same, UInt8.le_iff_toNat_le, top]
    change v.toNat / 2 ^ 60 ≤ 15
    omega
  | succ left ih =>
    obtain ⟨c, list, -, -, -⟩ := spell_succ (left + 1) v
    rw [list, getElem?_cons_succ]
    exact ih (v <<< 5)

theorem nameToBytes_eq (n : UInt64) : nameToBytes n = spell 13 n := by
  unfold nameToBytes
  split
  · next zero =>
    subst zero
    decide +kernel
  · rfl

def charOf (b : UInt8) : Char := Char.ofNat b.toNat

theorem charOf_ascii {b : UInt8} (ascii : b.toNat < 128) :
    String.utf8EncodeChar (charOf b) = [b] ∧ (charOf b = '.' ↔ b = byteOf '.') := by
  have all : ∀ i : Fin 128, String.utf8EncodeChar (charOf (UInt8.ofNat i)) = [UInt8.ofNat i] ∧
      (charOf (UInt8.ofNat i) = '.' ↔ UInt8.ofNat i = byteOf '.') := by decide +kernel
  simpa using all ⟨b.toNat, ascii⟩

theorem display_spell (n : UInt64) :
    ∃ bytes count, display n = bytes.map charOf ∧
      spell 13 n = bytes ++ List.replicate count (byteOf '.') := by
  let bytes := (spell 13 n).rdropWhile (· = byteOf '.')
  have pieces : bytes ++ (spell 13 n).rtakeWhile (· = byteOf '.') = spell 13 n :=
    rdropWhile_append_rtakeWhile
  have dots : ∀ b ∈ (spell 13 n).rtakeWhile (· = byteOf '.'), b = byteOf '.' := by
    intro b member
    simpa using mem_rtakeWhile_imp member
  refine ⟨bytes, _, ?_, by rw [← eq_replicate_of_mem dots, pieces]⟩
  have shown : ∀ list : List UInt8, (∀ b ∈ list, b.toNat < 128) →
      (list.map charOf).rdropWhile (· = '.') =
        (list.rdropWhile (· = byteOf '.')).map charOf := by
    intro list
    induction list using List.reverseRecOn with
    | nil => exact fun _ => rfl
    | append_singleton front b ih =>
      intro ascii
      have same := (charOf_ascii (ascii b (by simp))).2
      have before := ih fun b member => ascii b (by simp [member])
      by_cases dot : b = byteOf '.'
      · rw [map_append, map_singleton, rdropWhile_concat,
          if_pos (by simpa using same.mpr dot), before, rdropWhile_concat,
          if_pos (by simpa using dot)]
      · simp [dot, same]
  rw [display, nameToBytes_eq]
  exact shown _ fun b member => ((spell_known 13 n).2 b member).2

theorem display_worth (n : UInt64) :
    ∃ bytes, display n = bytes.map charOf ∧ Spelled bytes ∧ (∀ b ∈ bytes, b.toNat < 128) ∧
      worth 12 (bytes.map digit) = n.toNat := by
  obtain ⟨bytes, count, shown, letters⟩ := display_spell n
  obtain ⟨length, known⟩ := spell_known 13 n
  have whole := worth_spell 12 n (by decide)
  rw [letters, length_append] at length
  rw [letters] at known
  refine ⟨bytes, shown, ⟨by unfold nameMaxLen; omega, ?_, ?_⟩, ?_, ?_⟩
  · exact fun b member => (known b (mem_append_left _ member)).1
  · intro b there
    apply spell_last 12 n b
    rw [letters]
    exact getElem?_append_left (List.getElem?_eq_some_iff.mp there).1 ▸ there
  · exact fun b member => (known b (mem_append_left _ member)).2
  · have zero : digit (byteOf '.') = 0 := by decide
    rw [letters, map_append, map_replicate, zero, worth_zeros] at whole
    simpa using whole

theorem nameFromBytes_display (n : UInt64) :
    nameFromBytes ((display n).flatMap String.utf8EncodeChar) = .ok n := by
  obtain ⟨bytes, shown, spelled, ascii, whole⟩ := display_worth n
  have encoded : (display n).flatMap String.utf8EncodeChar = bytes := by
    rw [shown, flatMap_map]
    have single : ∀ b ∈ bytes, String.utf8EncodeChar (charOf b) = [b] :=
      fun b member => (charOf_ascii (ascii b member)).1
    rw [flatMap_congr single, flatMap_singleton']
  rw [encoded, nameFromBytes_spelled spelled, whole, UInt64.ofNat_toNat]

theorem display_injective : Function.Injective display := by
  intro n m same
  have back := nameFromBytes_display n
  rw [same, nameFromBytes_display m] at back
  exact (Except.ok.inj back).symm

/-! Which texts are read. -/

/-- A text of a name: at most thirteen letters, the last of them among the first sixteen. -/
structure Denotes (s : Text) : Prop where
  short : s.length ≤ 13
  known : ∀ c ∈ s, c ∈ letters
  last : ∀ c ∈ s[12]?, letters.idxOf c < 16

/-- A decimal numeral of 64 bits. -/
def Numeral (s : Text) : Prop := (parseUnsigned (2 ^ 64) s).isSome

theorem letter_bytes {c : Char} (letter : c ∈ letters) :
    String.utf8EncodeChar c = [byteOf c] ∧ (charToValue (byteOf c)).isSome ∧
      (digit (byteOf c)).toNat = letters.idxOf c := by
  have ascii : ∀ c ∈ letters, c.toNat < 128 := by simp [letters]
  have all : ∀ i : Fin 128, Char.ofNat i ∈ letters →
      String.utf8EncodeChar (Char.ofNat i) = [byteOf (Char.ofNat i)] ∧
      (charToValue (byteOf (Char.ofNat i))).isSome ∧
      (digit (byteOf (Char.ofNat i))).toNat = letters.idxOf (Char.ofNat i) := by decide +kernel
  have own := all ⟨c.toNat, ascii c letter⟩
  rw [Char.ofNat_toNat] at own
  exact own letter

theorem letter_of_bytes {c : Char}
    (known : ∀ b ∈ String.utf8EncodeChar c, (charToValue b).isSome) : c ∈ letters := by
  by_cases ascii : c.toNat < 128
  · have all : ∀ i : Fin 128, (∀ b ∈ String.utf8EncodeChar (Char.ofNat i), (charToValue b).isSome) →
        Char.ofNat i ∈ letters := by decide +kernel
    have own := all ⟨c.toNat, ascii⟩
    rw [Char.ofNat_toNat] at own
    exact own known
  · have first : ∃ b ∈ String.utf8EncodeChar c, 128 ≤ b.toNat := by
      have same : c.val.toNat = c.toNat := rfl
      unfold String.utf8EncodeChar
      dsimp only
      split_ifs
      · omega
      all_goals
        refine ⟨_, mem_cons_self, ?_⟩
        rw [UInt8.toNat_ofNat']
        omega
    obtain ⟨b, member, high⟩ := first
    have beyond : ∀ i : Fin 256, 128 ≤ i.val → charToValue (UInt8.ofNat i) = none := by decide +kernel
    have unknown := beyond ⟨b.toNat, b.toNat_lt⟩ high
    have letter := known b member
    simp only [UInt8.ofNat_toNat] at unknown
    simp [unknown] at letter

theorem flatMap_letters {s : Text} (known : ∀ c ∈ s, c ∈ letters) :
    s.flatMap String.utf8EncodeChar = s.map byteOf := by
  have single : ∀ c ∈ s, String.utf8EncodeChar c = [byteOf c] :=
    fun c member => (letter_bytes (known c member)).1
  rw [flatMap_congr single, ← map_eq_flatMap]

theorem denotes_iff (s : Text) : Denotes s ↔ Spelled (s.flatMap String.utf8EncodeChar) := by
  constructor
  · intro denotes
    rw [flatMap_letters denotes.known]
    refine ⟨by simpa [nameMaxLen] using denotes.short, ?_, ?_⟩
    · intro b member
      obtain ⟨c, listed, rfl⟩ := mem_map.mp member
      exact (letter_bytes (denotes.known c listed)).2.1
    · intro b there
      rw [getElem?_map, Option.mem_map] at there
      obtain ⟨c, place, rfl⟩ := there
      have index := (letter_bytes (denotes.known c (mem_of_getElem? place))).2.2
      rw [UInt8.le_iff_toNat_le, index]
      exact Nat.le_of_lt_succ (denotes.last c place)
  · intro spelled
    have known : ∀ c ∈ s, c ∈ letters := by
      intro c listed
      exact letter_of_bytes fun b member =>
        spelled.known b (mem_flatMap.mpr ⟨c, listed, member⟩)
    rw [flatMap_letters known] at spelled
    refine ⟨by simpa [nameMaxLen] using spelled.short, known, ?_⟩
    intro c place
    have low := spelled.last (byteOf c) (by rw [getElem?_map, place]; rfl)
    have index := (letter_bytes (known c (mem_of_getElem? place))).2.2
    rw [UInt8.le_iff_toNat_le, index] at low
    exact Nat.lt_succ_of_le low

theorem fromStr_ok_iff (s : Text) : (∃ n, fromStr s = .ok n) ↔ Numeral s ∨ Denotes s := by
  unfold fromStr Numeral
  cases number : parseUnsigned (2 ^ 64) s with
  | some value => simp
  | none =>
    simp only [Option.isSome_none, Bool.false_eq_true, false_or, denotes_iff]
    constructor
    · intro read
      obtain ⟨n, read⟩ := read
      cases bytes : nameFromBytes (s.flatMap String.utf8EncodeChar) with
      | ok value => exact spelled_of_ok bytes
      | error e => simp [bytes, Except.mapError] at read
    · intro spelled
      exact ⟨_, by rw [nameFromBytes_spelled spelled]; rfl⟩

theorem charOf_letter {b : UInt8} (ascii : b.toNat < 128) (known : (charToValue b).isSome) :
    charOf b ≠ '+' ∧ ((charOf b).isDigit → 0 < (digit b).toNat) := by
  have all : ∀ i : Fin 128, (charToValue (UInt8.ofNat i)).isSome → charOf (UInt8.ofNat i) ≠ '+' ∧
      ((charOf (UInt8.ofNat i)).isDigit → 0 < (digit (UInt8.ofNat i)).toNat) := by decide +kernel
  have own := all ⟨b.toNat, ascii⟩
  simp only [UInt8.ofNat_toNat] at own
  exact own known

/-- A name shown in digits is far above the number that these digits are read for. -/
theorem numeral_display {n : UInt64} {number : Nat}
    (read : parseUnsigned (2 ^ 64) (display n) = some number) :
    number < 10 ^ 13 ∧ 2 ^ 59 ≤ n.toNat := by
  obtain ⟨bytes, shown, spelled, ascii, whole⟩ := display_worth n
  rw [shown] at read
  have short : bytes.length ≤ 13 := spelled.short
  cases bytes with
  | nil => simp [parseUnsigned] at read
  | cons b rest =>
    obtain ⟨unsigned, positive⟩ := charOf_letter (ascii b mem_cons_self)
      (spelled.known b mem_cons_self)
    obtain ⟨digits, text, -, all, -, same⟩ := parseUnsigned_some read
    have plain : (b :: rest).map charOf = digits :=
      text.resolve_right fun signed => unsigned (List.cons.inj signed).1
    rw [← plain] at all same
    have small := value_lt all
    rw [length_map, ← same] at small
    constructor
    · exact small.trans_le (Nat.pow_le_pow_right (by decide) short)
    · have first := positive (all (charOf b) (by simp))
      rw [map_cons, worth] at whole
      rw [← whole]
      omega

theorem fromStr_display_iff (n : UInt64) :
    fromStr (display n) = .ok n ↔ ¬Numeral (display n) := by
  unfold fromStr Numeral
  cases read : parseUnsigned (2 ^ 64) (display n) with
  | none => simp [nameFromBytes_display, Except.mapError]
  | some number =>
    obtain ⟨low, high⟩ := numeral_display read
    have other : UInt64.ofNat number ≠ n := by
      intro same
      rw [← same, UInt64.toNat_ofNat'] at high
      omega
    simpa using other

/-- A name comes back from its text, plain or as JSON, exactly if the text is no numeral;
different names have different texts; and the texts that are read are those of names, except
that numerals are read too. -/
theorem name_text (n : UInt64) (s : Text) :
    ((fromStr (display n) = .ok n ↔ ¬Numeral (display n)) ∧
      (deserialize (serialize n) = .ok n ↔ ¬Numeral (display n))) ∧
    Function.Injective display ∧
    (((∃ n, fromStr s = .ok n) ↔ Denotes s) ↔ (Numeral s → Denotes s)) := by
  refine ⟨⟨fromStr_display_iff n, fromStr_display_iff n⟩, display_injective, ?_⟩
  rw [fromStr_ok_iff]
  tauto

/-- The name shown as `1` is read back as the number one, and `9` is read though it spells no
name. -/
theorem name_text_numerals :
    display 0x0800_0000_0000_0000 = ['1'] ∧ fromStr ['1'] = .ok 1 ∧
      fromStr ['9'] = .ok 9 ∧ ¬Denotes ['9'] := by
  refine ⟨by decide +kernel, by decide +kernel, by decide +kernel, fun denotes => ?_⟩
  have letter := denotes.known '9' (by simp)
  simp [letters] at letter

end Name

end PulseVM.Types
