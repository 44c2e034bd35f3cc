import PulseVM.Lib.Nested
import PulseVM.Types.Asset

/-!
The ABI of a contract and the decoder that shows packed rows as JSON. What is decoded
follows names that the contract has chosen. The decoder has room for so many nested calls.
-/

namespace PulseVM
open Lib Lib.Decimal Lib.Encoding PulseVM.Types

namespace Abi

inductive AbiError where
  | unexpectedEnd
  | varintOverflow
  | unknownType (name : String)
  | badVariantTag (name : String) (tag : Nat)
  | resolutionDepthExceeded
  | unsupportedBuiltin (name : String)
  | crypto (message : String)
  | badUtf8
  | zeroWidthArrayElement (name : String)
  deriving DecidableEq, Repr

inductive Value where
  | null
  | number (n : Int)
  | string (text : Text)
  | array (items : List Value)
  | object (fields : List (String × Value))

/-- The bytes that are left are the state. -/
abbrev Reader := StateT Bytes (Except AbiError)

abbrev Decoder := Nested Bytes AbiError

def remaining : Reader Nat := fun data => .ok (data.length, data)

def times {α : Type} (d : Reader α) : Nat → Reader (List α)
  | 0 => return []
  | count + 1 => do
    let a ← d
    let rest ← times d count
    return a :: rest

/-! Reading. -/

def take (n : Nat) : Reader Bytes := fun data =>
  if data.length < n then .error .unexpectedEnd else .ok (data.take n, data.drop n)

def readUint (width : Nat) : Reader Nat := do
  let b ← take width
  return ofLe b

def readInt (width : Nat) : Reader Int := do
  let n ← readUint width
  return if 2 * n < 256 ^ width then (n : Int) else n - 256 ^ width

/-- Bits beyond the thirty-second are shifted out. -/
def varuint (result shift : Nat) : Bytes → Except AbiError (Nat × Bytes)
  | [] => .error .unexpectedEnd
  | byte :: data =>
    if 32 ≤ shift then .error .varintOverflow
    else
      let result := result + byte.toNat % 128 * 2 ^ shift % 2 ^ 32
      if byte.toNat < 128 then .ok (result, data) else varuint result (shift + 7) data

def readVaruint32 : Reader Nat := varuint 0 0

/-- Zigzag over the unsigned form. -/
def readVarint32 : Reader Int := do
  let u ← readVaruint32
  return if u % 2 = 0 then (u / 2 : Int) else -(u / 2 : Int) - 1

def readString : Reader String := do
  let n ← readVaruint32
  let bytes ← take n
  match String.fromUTF8? ⟨bytes.toArray⟩ with
  | some s => return s
  | none => throw .badUtf8

/-! Built-in types. -/

def jsonI64 (v : Int) : Value :=
  if 2 ^ 31 ≤ v ∨ v < -2 ^ 31 then .string (signed v) else .number v

def jsonU64 (v : Nat) : Value := if 2 ^ 31 ≤ v then .string (numeral v) else .number v

def hexDigit (n : Nat) : Char := if n < 10 then Char.ofNat (48 + n) else Char.ofNat (87 + n)

def hexEncode (bytes : Bytes) : Text :=
  bytes.flatMap fun b => [hexDigit (b.toNat / 16), hexDigit (b.toNat % 16)]

/-- Bytes above the lowest one up to a zero; eight shifts leave nothing. -/
def codeLetters : Nat → Nat → Text
  | 0, _ => []
  | left + 1, code =>
    if code % 256 ≠ 0 then Char.ofNat (code % 256) :: codeLetters left (code / 256) else []

def symbolCodeString (packed : Nat) : Text := codeLetters 8 (packed / 256)

def formatSymbol (packed : Nat) : Text := numeral (packed % 256) ++ ',' :: symbolCodeString packed

def formatAsset (amount : Int) (symbol : Nat) : Text :=
  let precision := symbol % 256
  let digits := numeral amount.natAbs
  let scaled :=
    if precision = 0 then digits
    else
      let padded := if digits.length ≤ precision then padded (precision + 1) amount.natAbs else digits
      let point := padded.length - precision
      padded.take point ++ '.' :: padded.drop point
  (if amount < 0 then ['-'] else []) ++ scaled ++ ' ' :: symbolCodeString symbol

/-- The built-in types. Floating point numbers, times, keys and signatures are decoded by
`other`. -/
def decodeBuiltin (other : String → Reader Value) (name : String) : Reader Value :=
  match name with
  | "bool" => return jsonU64 (← readUint 1)
  | "int8" => return jsonI64 (← readInt 1)
  | "uint8" => return jsonU64 (← readUint 1)
  | "int16" => return jsonI64 (← readInt 2)
  | "uint16" => return jsonU64 (← readUint 2)
  | "int32" => return jsonI64 (← readInt 4)
  | "uint32" => return jsonU64 (← readUint 4)
  | "int64" => return jsonI64 (← readInt 8)
  | "uint64" => return jsonU64 (← readUint 8)
  | "int128" => return .string (signed (← readInt 16))
  | "uint128" => return .string (numeral (← readUint 16))
  | "varint32" => return jsonI64 (← readVarint32)
  | "varuint32" => return jsonU64 (← readVaruint32)
  | "name" => return .string (Name.display (UInt64.ofNat (← readUint 8)))
  | "string" => return .string (← readString).toList
  | "bytes" => do
    let n ← readVaruint32
    return .string (hexEncode (← take n))
  | "checksum160" | "ripemd160" => return .string (hexEncode (← take 20))
  | "checksum256" | "sha256" => return .string (hexEncode (← take 32))
  | "checksum512" => return .string (hexEncode (← take 64))
  | "symbol" => return .string (formatSymbol (← readUint 8))
  | "symbol_code" => return .string (symbolCodeString (← readUint 8))
  | "asset" => do
    let amount ← readInt 8
    return .string (formatAsset amount (← readUint 8))
  | "extended_asset" => do
    let amount ← readInt 8
    let sym ← readUint 8
    let contract ← readUint 8
    return .object [("contract", .string (Name.display (UInt64.ofNat contract))),
      ("quantity", .string (formatAsset amount sym))]
  | "float32" | "float64" | "time_point" | "time_point_sec" | "block_timestamp_type"
  | "public_key" | "signature" => other name
  | "float128" => throw (.unsupportedBuiltin name)
  | _ => throw (.unknownType name)

/-! The ABI. -/

structure StructDef where
  name : String
  base : String
  fields : List (String × String)
  deriving DecidableEq, Repr

structure VariantDef where
  name : String
  types : List String
  deriving DecidableEq, Repr

structure TableDef where
  name : Nat
  indexType : String
  ty : String
  deriving DecidableEq, Repr

end Abi

/-- Type definitions are pairs of a new name and the type it stands for. -/
structure Abi where
  types : List (String × String)
  structs : List Abi.StructDef
  variants : List Abi.VariantDef
  tables : List Abi.TableDef
  deriving DecidableEq, Repr

namespace Abi

def readPair : Reader (String × String) := do
  let first ← readString
  let second ← readString
  return (first, second)

/-- A list behind its count. -/
def readList {α : Type} (d : Reader α) : Reader (List α) := do
  let count ← readVaruint32
  times d count

def readStruct : Reader StructDef := do
  let name ← readString
  let base ← readString
  let fields ← readList readPair
  return ⟨name, base, fields⟩

def readTable : Reader TableDef := do
  let name ← readUint 8
  let indexType ← readString
  let _ ← readList readString
  let _ ← readList readString
  let ty ← readString
  return ⟨name, indexType, ty⟩

def readVariant : Reader VariantDef := do
  let name ← readString
  let types ← readList readString
  return ⟨name, types⟩

/-- Read a list if anything is left. -/
def readOptional {α : Type} (d : Reader α) : Reader (List α) := do
  let left ← remaining
  if left ≠ 0 then readList d else return []

def readAbi : Reader Abi := do
  let _ ← readString
  let types ← readList readPair
  let structs ← readList readStruct
  -- actions, with their ricardian contracts
  let _ ← readList do
    let _ ← readUint 8
    readPair
  let tables ← readList readTable
  -- ricardian clauses, error messages and extensions
  let _ ← readList readPair
  let _ ← readList do
    let _ ← readUint 8
    readString
  let _ ← readList do
    let _ ← readUint 2
    let n ← readVaruint32
    take n
  let variants ← readOptional readVariant
  let _ ← readOptional do
    let _ ← readUint 8
    readString
  return ⟨types, structs, variants, tables⟩

/-- Bytes behind the ABI are ignored. -/
def fromBytes (bytes : Bytes) : Except AbiError Abi := readAbi.run' bytes

/-! Decoding. -/

def stripSuffix (suffix : Text) (s : String) : Option String :=
  if suffix.isSuffixOf s.toList then
    some (String.ofList (s.toList.take (s.toList.length - suffix.length)))
  else none

def typedefTarget (abi : Abi) (name : String) : Option String :=
  (abi.types.find? fun t => t.1 = name).map (·.2)

def findVariant (abi : Abi) (name : String) : Option VariantDef :=
  abi.variants.find? fun v => v.name = name

def findStruct (abi : Abi) (name : String) : Option StructDef :=
  abi.structs.find? fun s => s.name = name

/-- Elements one after the other; each has to take at least one byte. -/
def decodeItems (inner : String) (item : Decoder Value) : Nat → Decoder (List Value)
  | 0 => return []
  | count + 1 => do
    let before ← remaining
    let value ← item
    let after ← remaining
    if after = before then Nested.fail (.zeroWidthArrayElement inner)
    else
      let rest ← decodeItems inner item count
      return value :: rest

/-- Fields one after the other, up to a missing binary extension. -/
def decodeFields (field : String → Decoder Value) :
    List (String × String) → List (String × Value) → Decoder (List (String × Value))
  | [], out => return out
  | (name, ty) :: rest, out => do
    let left ← remaining
    if (stripSuffix ['$'] ty).isSome ∧ left = 0 then return out
    else
      let value ← field ty
      decodeFields field rest (Serialization.insertEntry Prod.fst (name, value) out)

section
variable (abi : Abi) (other : String → Reader Value)

mutual

/-- The first argument bounds the calls that are nested in this one. -/
def decode : Nat → String → Nat → Decoder Value
  | 0, _, _ => Nested.exhausted
  | fuel + 1, typeName, depth =>
    if 64 < depth then Nested.fail .resolutionDepthExceeded
    else match stripSuffix ['[', ']'] typeName with
    | some inner => do
      let count ← readVaruint32
      let left ← remaining
      if left < count then Nested.fail .unexpectedEnd
      else
        let out ← decodeItems inner (decode fuel inner (depth + 1)) count
        return .array out
    | none => match stripSuffix ['?'] typeName with
      | some inner => do
        let present ← readUint 1
        if present = 0 then return .null else decode fuel inner (depth + 1)
      | none => match stripSuffix ['$'] typeName with
        | some inner => do
          let left ← remaining
          if left = 0 then return .null else decode fuel inner (depth + 1)
        | none => match abi.typedefTarget typeName with
          | some target => decode fuel target (depth + 1)
          | none => match abi.findVariant typeName with
            | some variant => do
              let tag ← readVaruint32
              match variant.types[tag]? with
              | none => Nested.fail (.badVariantTag variant.name tag)
              | some selected =>
                let value ← decode fuel selected (depth + 1)
                return .array [.string selected.toList, value]
            | none =>
              if (abi.findStruct typeName).isSome then do
                let map ← decodeStruct fuel typeName depth []
                return .object map
              else Nested.flat (decodeBuiltin other typeName)

/-- The base first, then the fields. -/
def decodeStruct : Nat → String → Nat → List (String × Value) → Decoder (List (String × Value))
  | 0, _, _, _ => Nested.exhausted
  | fuel + 1, name, depth, out =>
    match abi.findStruct name with
    | none => Nested.fail (.unknownType name)
    | some struct =>
      (if struct.base ≠ "" then decodeStruct fuel struct.base (depth + 1) out else pure out) >>=
        decodeFields (fun ty => decode fuel ty (depth + 1)) struct.fields

end

/-- Decode a value of a type, with room for so many nested calls. -/
def binToJson (fuel : Nat) (typeName : String) : Decoder Value := decode abi other fuel typeName 0

end

end Abi

end PulseVM
