import PulseVM.Abi.Decoder

/-!
The built-in types against the types of the chain. What the chain packs is read to its last
byte, and shown as the chain shows it; extended assets are shown with their two parts apart.
-/

namespace PulseVM.Abi
open Lib.Decimal Lib.Encoding PulseVM.Types Serialization SymbolCode

/-! Reading packed bytes, whatever follows. -/

def Parses {α : Type} (d : Reader α) (packed : Bytes) (a : α) : Prop :=
  ∀ tail, d (packed ++ tail) = .ok (a, tail)

section
variable {α β : Type} {d : Reader α} {next : α → Reader β} {packed rest : Bytes} {a : α} {b : β}

theorem Parses.bind (first : Parses d packed a) (second : Parses (next a) rest b) :
    Parses (d >>= next) (packed ++ rest) b := by
  intro tail
  have before := first (rest ++ tail)
  rw [← List.append_assoc] at before
  change (d (packed ++ rest ++ tail) >>= fun s => next s.1 s.2) = _
  rw [before]
  exact second tail

theorem Parses.map (first : Parses d packed a) (f : α → β) :
    Parses (d >>= fun a => pure (f a)) packed (f a) := by
  have last : Parses (pure (f a) : Reader β) [] (f a) := fun tail => rfl
  have both : Parses (d >>= fun a => pure (f a)) (packed ++ []) (f a) := first.bind last
  rwa [List.append_nil] at both

theorem parses_take (bytes : Bytes) : Parses (take bytes.length) bytes bytes := by
  intro tail
  rw [take, if_neg (by simp), List.take_left, List.drop_left]

end

theorem parses_readUint {width n : Nat} (small : n < 256 ^ width) :
    Parses (readUint width) (leBytes width n) n := by
  have taken := (parses_take (leBytes width n)).map ofLe
  rw [ofLe_leBytes width n small, length_leBytes] at taken
  exact taken

theorem parses_readInt {width : Nat} {n : Int} (range : SignedRange width n) :
    Parses (readInt width) (leBytes width (n % 256 ^ width).toNat) n := by
  have parsed := (parses_readUint (residue_lt width n)).map fun n =>
    if 2 * n < 256 ^ width then (n : Int) else n - 256 ^ width
  rwa [signed_residue range] at parsed

theorem varuint_groups {left result shift v : Nat} (place : shift + 7 * left = 35)
    (small : v * 2 ^ shift < 2 ^ 32) (more : 0 < left) (tail : Bytes) :
    varuint result shift (groups left v ++ tail) = .ok (result + v * 2 ^ shift, tail) := by
  induction left generalizing result shift v with
  | zero => omega
  | succ left ih =>
    have whole := first_group v shift
    have low : v % 128 * 2 ^ shift % 2 ^ 32 = v % 128 * 2 ^ shift := Nat.mod_eq_of_lt (by omega)
    -- the fifth group is the last one
    have last : left = 0 → v < 16 := by
      intro zero
      have fifth : shift = 28 := by omega
      rw [fifth] at small
      omega
    unfold groups
    split_ifs with rest
    · have byte : (UInt8.ofNat (v % 128 + 128)).toNat = v % 128 + 128 := by
        rw [UInt8.toNat_ofNat']
        omega
      rw [List.cons_append, varuint, if_neg (by omega), byte, Nat.add_mod_right, Nat.mod_mod, low,
        if_neg (by omega), ih (by omega) (by omega) (by omega), Nat.add_assoc, whole]
    · have byte : (UInt8.ofNat (v % 128)).toNat = v % 128 := by
        rw [UInt8.toNat_ofNat']
        omega
      have all : v / 128 = 0 := by omega
      rw [all, Nat.zero_mul, Nat.add_zero] at whole
      rw [List.cons_append, varuint, if_neg (by omega), byte, Nat.mod_mod, low, whole,
        if_pos (by omega), List.nil_append]

theorem parses_readVaruint32 {v : Nat} (small : v < 2 ^ 32) :
    Parses readVaruint32 (groups 5 v) v := by
  intro tail
  have read := @varuint_groups 5 0 0 v (by decide) (by omega) (by decide) tail
  rwa [Nat.zero_add, pow_zero, Nat.mul_one] at read

theorem parses_readString {s : String} (short : (utf8 s).length < 2 ^ 32) :
    Parses readString (groups 5 (utf8 s).length ++ utf8 s) s := by
  apply (parses_readVaruint32 short).bind
  intro tail
  have decoded : String.fromUTF8? ⟨(utf8 s).toArray⟩ = some s := by
    simp [utf8, String.fromUTF8?, s.isValidUTF8, String.fromUTF8]
  have taken := parses_take (utf8 s) tail
  simp only [bind, StateT.bind, Except.bind, taken, decoded]
  rfl

/-! The same letters and digits. -/

theorem codeLetters_eq_spell {left room code : Nat} (small : code < 256 ^ left)
    (more : left < room) : codeLetters room code = spell left code := by
  induction left generalizing room code with
  | zero =>
    have zero : code = 0 := by omega
    cases room with
    | zero => omega
    | succ room => simp [zero, codeLetters, spell]
  | succ left ih =>
    cases room with
    | zero => omega
    | succ room => rw [codeLetters, spell, ih (by omega) (by omega), ite_not]

theorem symbolCodeString_symbol {sym : Nat} (valid : Symbol.isValid sym) :
    symbolCodeString sym = SymbolCode.display (Symbol.code sym) :=
  codeLetters_eq_spell (Symbol.code_lt ((Symbol.isValid_iff _).mp valid).2) (by decide)

theorem formatAsset_eq_display {a : Asset} (valid : a.isValid) :
    formatAsset a.amount a.symbol = a.display := by
  have symbol := ((Asset.isValid_iff a).mp valid).2
  have filled : (if (numeral a.amount.natAbs).length ≤ a.symbol % 256 then
      padded (a.symbol % 256 + 1) a.amount.natAbs else numeral a.amount.natAbs) =
        padded (a.symbol % 256 + 1) a.amount.natAbs := by
    split_ifs with short
    · rfl
    · rw [padded, Nat.sub_eq_zero_of_le (by omega), List.replicate_zero, List.nil_append]
  simp only [formatAsset, Asset.display, symbolCodeString_symbol symbol, filled, Symbol.precision]
  by_cases whole : a.symbol % 256 = 0
  · simp only [whole, if_true, signed]
    split_ifs <;> simp
  · simp only [whole, if_false]

/-! Values of the chain. -/

inductive IntWidth where
  | one
  | two
  | four
  | eight
  | sixteen
  deriving DecidableEq, Repr

def IntWidth.bytes : IntWidth → Nat
  | one => 1
  | two => 2
  | four => 4
  | eight => 8
  | sixteen => 16

inductive CoreValue where
  | unsigned (width : IntWidth) (n : Nat)
  | signed (width : IntWidth) (n : Int)
  | varuint32 (n : Nat)
  | string (s : String)
  | bytes (b : Bytes)
  | name (n : UInt64)
  | symbol (sym : Nat)
  | symbolCode (code : Nat)
  | asset (a : Asset)
  | extendedAsset (quantity : Asset) (contract : UInt64)

namespace CoreValue

def Valid : CoreValue → Prop
  | unsigned width n => n < 256 ^ width.bytes
  | signed width n => SignedRange width.bytes n
  | varuint32 n => n < 2 ^ 32
  | string s => (utf8 s).length < 2 ^ 32
  | bytes b => b.length < 2 ^ 32
  | name _ => True
  | symbol sym => Symbol.isValid sym
  | symbolCode code => isValid code
  | asset a => a.isValid
  | extendedAsset quantity _ => quantity.isValid

def typeName : CoreValue → String
  | unsigned .one _ => "uint8"
  | unsigned .two _ => "uint16"
  | unsigned .four _ => "uint32"
  | unsigned .eight _ => "uint64"
  | unsigned .sixteen _ => "uint128"
  | signed .one _ => "int8"
  | signed .two _ => "int16"
  | signed .four _ => "int32"
  | signed .eight _ => "int64"
  | signed .sixteen _ => "int128"
  | varuint32 _ => "varuint32"
  | string _ => "string"
  | bytes _ => "bytes"
  | name _ => "name"
  | symbol _ => "symbol"
  | symbolCode _ => "symbol_code"
  | asset _ => "asset"
  | extendedAsset .. => "extended_asset"

def pack : CoreValue → Option (Except WriteError Bytes)
  | unsigned width n => (uint width.bytes).pack n
  | signed width n => (sint width.bytes).pack n
  | varuint32 n => varUint32.pack n
  | string s => Serialization.string.pack s
  | bytes b => Serialization.bytes.pack b
  | name n => (uint 8).pack n.toNat
  | symbol sym => (uint 8).pack sym
  | symbolCode code => (uint 8).pack code
  | asset a => Asset.wire.pack a
  | extendedAsset quantity contract => (pair Asset.wire (uint 8)).pack (quantity, contract.toNat)

/-- What the types show of themselves. -/
def display : CoreValue → Text
  | unsigned _ n => numeral n
  | signed _ n => Types.signed n
  | varuint32 n => numeral n
  | string s => s.toList
  | bytes b => hexEncode b
  | name n => Name.display n
  | symbol sym => Symbol.display sym
  | symbolCode code => SymbolCode.display code
  | asset a => a.display
  | extendedAsset quantity contract => quantity.display ++ '@' :: Name.display contract

end CoreValue

/-- The text or number of a JSON value as a text. -/
def Value.text : Value → Option Text
  | .number n => some (signed n)
  | .string text => some text
  | _ => none

theorem text_jsonU64 (n : Nat) : (jsonU64 n).text = some (numeral n) := by
  unfold jsonU64
  split_ifs
  · rfl
  · have positive : ¬ (n : Int) < 0 := by omega
    simp [Value.text, signed, positive]

theorem text_jsonI64 (n : Int) : (jsonI64 n).text = some (signed n) := by
  unfold jsonI64
  split_ifs <;> rfl

/-- What the decoder shows of a value; which text it shows of a symbol code is left open. -/
def CoreValue.Shown (json : Value) : CoreValue → Prop
  | .symbolCode _ => ∃ text, json.text = some text
  | .extendedAsset quantity contract => json = .object
      [("contract", .string (Name.display contract)), ("quantity", .string quantity.display)]
  | v => json.text = some v.display

variable (other : String → Reader Value)

/-- Packed and read to the last byte, and shown. -/
def Agrees (v : CoreValue) : Prop :=
  ∃ packed json, v.pack = some (.ok packed) ∧ Parses (decodeBuiltin other v.typeName) packed json ∧
    v.Shown json

variable {other}

theorem agrees_unsigned {width : IntWidth} {n : Nat} (small : n < 256 ^ width.bytes) :
    Agrees other (.unsigned width n) := by
  have packed := (lawful_uint width.bytes).pack small
  have parsed := parses_readUint small
  cases width with
  | sixteen => exact ⟨_, _, packed, parsed.map fun n => Value.string (numeral n), rfl⟩
  | one | two | four | eight => exact ⟨_, _, packed, parsed.map jsonU64, text_jsonU64 n⟩

theorem agrees_signed {width : IntWidth} {n : Int} (range : SignedRange width.bytes n) :
    Agrees other (.signed width n) := by
  have packed := (lawful_sint width.bytes).pack range
  have parsed := parses_readInt range
  cases width with
  | sixteen => exact ⟨_, _, packed, parsed.map fun n => Value.string (signed n), rfl⟩
  | one | two | four | eight => exact ⟨_, _, packed, parsed.map jsonI64, text_jsonI64 n⟩

theorem agrees_bytes {b : Bytes} (short : b.length < 2 ^ 32) : Agrees other (.bytes b) :=
  ⟨_, _, lawful_bytes.pack short,
    (parses_readVaruint32 short).bind ((parses_take b).map fun b => Value.string (hexEncode b)), rfl⟩

theorem symbol_lt {sym : Nat} (valid : Symbol.isValid sym) : sym < 256 ^ 8 := by
  have bound := Symbol.code_lt ((Symbol.isValid_iff _).mp valid).2
  unfold Symbol.code at bound
  omega

theorem parses_asset {a : Asset} (valid : a.isValid) {β : Type} {rest : Bytes} {b : β}
    {next : Int → Nat → Reader β} (later : Parses (next a.amount a.symbol) rest b) :
    Parses (readInt 8 >>= fun amount => readUint 8 >>= fun sym => next amount sym)
      (leBytes 8 (a.amount % 256 ^ 8).toNat ++ leBytes 8 a.symbol ++ rest) b := by
  obtain ⟨range, symbol⟩ := (Asset.isValid_iff a).mp valid
  have amount : SignedRange 8 a.amount := by
    unfold maxAmount at range
    unfold SignedRange
    omega
  exact (parses_readInt amount).bind ((parses_readUint (symbol_lt symbol)).bind later)

/-- Valid values are packed, the decoder reads their bytes and no others, and it shows their
text or number, and of an extended asset both parts. -/
theorem builtin_shows {v : CoreValue} (valid : v.Valid) : Agrees other v := by
  cases v with
  | unsigned width n => exact agrees_unsigned valid
  | signed width n => exact agrees_signed valid
  | varuint32 n =>
    exact ⟨_, _, lawful_varUint32.pack valid, (parses_readVaruint32 valid).map jsonU64,
      text_jsonU64 n⟩
  | string s =>
    exact ⟨_, _, lawful_string.pack valid,
      (parses_readString valid).map fun s => Value.string s.toList, rfl⟩
  | bytes b => exact agrees_bytes valid
  | name n =>
    have small : n.toNat < 256 ^ 8 := n.toNat_lt
    refine ⟨_, _, (lawful_uint 8).pack small,
      (parses_readUint small).map fun n => Value.string (Name.display (UInt64.ofNat n)), ?_⟩
    rw [UInt64.ofNat_toNat]
    rfl
  | symbol sym =>
    have small := symbol_lt valid
    refine ⟨_, _, (lawful_uint 8).pack small,
      (parses_readUint small).map fun n => Value.string (formatSymbol n), ?_⟩
    rw [formatSymbol, symbolCodeString_symbol valid]
    rfl
  | symbolCode code =>
    have small : code < 256 ^ 8 := (Symbol.code_lt valid).trans (by decide)
    exact ⟨_, _, (lawful_uint 8).pack small,
      (parses_readUint small).map fun n => Value.string (symbolCodeString n), _, rfl⟩
  | asset a =>
    have shown := formatAsset_eq_display valid
    have ends : Parses (pure (.string (formatAsset a.amount a.symbol)) : Reader Value) []
        (.string (formatAsset a.amount a.symbol)) := fun tail => rfl
    have parsed : Parses (decodeBuiltin other "asset") _ _ := parses_asset valid ends
    rw [List.append_nil, shown] at parsed
    exact ⟨_, _, Asset.lawful_wire.pack valid, parsed, rfl⟩
  | extendedAsset quantity contract =>
    have small : contract.toNat < 256 ^ 8 := contract.toNat_lt
    have packed := (lawful_pair Asset.lawful_wire (lawful_uint 8)).pack
      (v := (quantity, contract.toNat)) ⟨valid, small⟩
    have parsed : Parses (decodeBuiltin other "extended_asset") _ _ :=
      parses_asset valid ((parses_readUint small).map fun contract =>
        Value.object [("contract", .string (Name.display (UInt64.ofNat contract))),
          ("quantity", .string (formatAsset quantity.amount quantity.symbol))])
    rw [formatAsset_eq_display valid, UInt64.ofNat_toNat] at parsed
    exact ⟨_, _, packed, parsed, rfl⟩

def oneEos : Asset := ⟨10000, 1397703940⟩

theorem builtin_shows_oneEos : CoreValue.Valid (.asset oneEos) ∧
    ∀ other, Agrees other (.asset oneEos) :=
  have valid : CoreValue.Valid (.asset oneEos) := by simp only [CoreValue.Valid]; decide
  ⟨valid, fun _ => builtin_shows valid⟩

/-- An extended asset is shown as no text or number. -/
theorem builtin_differs :
    (CoreValue.extendedAsset oneEos 0).Valid ∧
    ∃ packed, (CoreValue.extendedAsset oneEos 0).pack = some (.ok packed) ∧ ∀ other,
      ∃ json, decodeBuiltin other "extended_asset" packed = .ok (json, []) ∧ json.text = none := by
  have quantity : (CoreValue.extendedAsset oneEos 0).Valid := by simp only [CoreValue.Valid]; decide
  refine ⟨quantity,
    [16, 39, 0, 0, 0, 0, 0, 0, 4, 69, 79, 83, 0, 0, 0, 0, 0, 0, 0, 0, 0, 0, 0, 0], by decide, ?_⟩
  exact fun other => ⟨_, rfl, rfl⟩

end PulseVM.Abi
