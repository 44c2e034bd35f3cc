import PulseVM.Lib.Sha256
import PulseVM.Serialization.Roundtrip

/-!
Packed transactions are billed for the bytes they came in, while their id and what is
signed come from packing what was read again. How many bytes a read may take for a value
therefore decides what a relay can add to a bill.
-/

namespace PulseVM.Serialization
open Lib.Encoding Lib.Codec Reader
open List

variable {α β : Type}

/-! The encodings a read accepts. -/

/-- Reads values that fit, from their encoding or from something longer. -/
def Wire.Minimal (wire : Wire α) (fits : α → Prop) (encode : α → Bytes) : Prop :=
  wire.read.Tight fun v e => fits v ∧ e = encode v

theorem tight_piece {bytes b : Bytes} {pos width next : Nat} (inside : width ≤ (bytes.drop pos).length)
    (read : some ((.ok ((bytes.drop pos).take width) : Except ReadError Bytes), pos + width) =
      some (.ok b, next)) :
    ∃ used encoding, (b.length = width ∧ encoding = b) ∧ bytes.drop pos = used ++ bytes.drop next ∧
      next = pos + used.length ∧ encoding.length ≤ used.length ∧
      (used.length = encoding.length → used = encoding) := by
  obtain ⟨rfl, rfl⟩ := read
  have size : ((bytes.drop pos).take width).length = width := by
    rw [length_take]
    omega
  refine ⟨_, _, ⟨size, rfl⟩, ?_, by rw [size], Nat.le_refl _, fun _ => rfl⟩
  rw [← drop_drop, take_append_drop]

theorem tight_takeAt (width : Nat) :
    (takeAt width).Tight fun b e => b.length = width ∧ e = b := by
  intro bytes pos b next read
  unfold takeAt at read
  split_ifs at read with outside short
  · simp at read
  · exact tight_piece (by omega) read

theorem tight_sliceAt (len : Nat) : (sliceAt len).Tight fun b e => b.length = len ∧ e = b := by
  intro bytes pos b next read
  unfold sliceAt at read
  split_ifs at read with short
  · simp at read
  · exact tight_piece (by rw [length_drop]; omega) read

theorem minimal_uint (width : Nat) : (uint width).Minimal (· < 256 ^ width) (leBytes width) := by
  apply ((tight_takeAt width).bind fun arr => tight_pure (ofLe arr)).mono
  intro n e read
  obtain ⟨arr, left, right, ⟨size, rfl⟩, ⟨rfl, rfl⟩, rfl⟩ := read
  subst size
  exact ⟨ofLe_lt left, by rw [leBytes_ofLe, append_nil]⟩

theorem groups_ne_nil {left : Nat} (more : 0 < left) (v : Nat) : 1 ≤ (groups left v).length := by
  cases left with
  | zero => omega
  | succ left =>
    unfold groups
    split_ifs <;> simp

theorem group_fits {shift left b : Nat} (place : shift + 7 * (left + 1) = 35)
    (last : left = 0 → b < 16) (small : b < 128) : b * 2 ^ shift < 2 ^ 32 := by
  by_cases zero : left = 0
  · have fifth : shift = 28 := by omega
    have few := last zero
    subst fifth
    omega
  · have room : 2 ^ (shift + 7) ≤ 2 ^ 28 := Nat.pow_le_pow_right (by decide) (by omega)
    have within : b * 2 ^ shift < 2 ^ (shift + 7) := by
      rw [pow_add, Nat.mul_comm]
      exact Nat.mul_lt_mul_of_pos_left small (by positivity)
    omega

theorem groups_fit {shift low v : Nat} (early : shift ≤ 25) (small : low < 128)
    (fit : v * 2 ^ (shift + 7) < 2 ^ 32) : (low + 128 * v) * 2 ^ shift < 2 ^ 32 := by
  have whole : 2 ^ (25 - shift) * 2 ^ (shift + 7) = 2 ^ 32 := by
    rw [← pow_add]
    congr 1
    omega
  have count : v < 2 ^ (25 - shift) := by
    rw [← whole] at fit
    exact Nat.lt_of_mul_lt_mul_right fit
  calc (low + 128 * v) * 2 ^ shift
      < (128 * (v + 1)) * 2 ^ shift := Nat.mul_lt_mul_of_pos_right (by omega) (by positivity)
    _ = (v + 1) * 2 ^ (shift + 7) := by rw [pow_add]; ring
    _ ≤ 2 ^ (25 - shift) * 2 ^ (shift + 7) := Nat.mul_le_mul_right _ count
    _ = 2 ^ 32 := whole

/-- A group that adds nothing makes the encoding longer than it has to be. -/
theorem tight_collect (left result shift : Nat) :
    (collect left result shift).Tight fun w e => ∃ v, w = result + v * 2 ^ shift ∧
      v < 128 ^ left ∧ (shift + 7 * left = 35 → v * 2 ^ shift < 2 ^ 32) ∧ e = groups left v := by
  induction left generalizing result shift with
  | zero => exact tight_fail _ _
  | succ left ih =>
    intro bytes pos w next read
    unfold collect at read
    split at read
    · simp at read
    · next byte there =>
      have bound := byte.toNat_lt
      have back : UInt8.ofNat byte.toNat = byte := UInt8.ofNat_toNat
      have step : bytes.drop pos = byte :: bytes.drop (pos + 1) := by
        obtain ⟨inside, same⟩ := List.getElem?_eq_some_iff.mp there
        rw [drop_eq_getElem_cons inside, same]
      dsimp only at read
      split_ifs at read with wide high single
      · simp at read
      · simp at read
      · obtain ⟨rfl, rfl⟩ := read
        have own : byte.toNat % 128 = byte.toNat := Nat.mod_eq_of_lt single
        have only : groups (left + 1) byte.toNat = [byte] := by
          rw [groups, if_neg (by omega), own, back]
        refine ⟨[byte], [byte], ⟨byte.toNat, by rw [own], ?_, ?_, only.symm⟩, step, rfl,
          Nat.le_refl _, fun _ => rfl⟩
        · rw [pow_succ]
          have one : 1 ≤ 128 ^ left := Nat.one_le_pow _ _ (by decide)
          omega
        · intro place
          exact group_fits place (by omega) single
      · obtain ⟨used, e, ⟨v, value, small, fit, rfl⟩, split, moved, enough, same⟩ :=
          ih _ _ bytes (pos + 1) w next read
        have last : 0 < left := by
          by_contra none
          have zero : left = 0 := by omega
          subst zero
          simp [collect, fail] at read
        have low : (byte.toNat % 128 + 128 * v) % 128 = byte.toNat % 128 := by omega
        have rest : (byte.toNat % 128 + 128 * v) / 128 = v := by omega
        have high : UInt8.ofNat (byte.toNat % 128 + 128) = byte := by
          rw [show byte.toNat % 128 + 128 = byte.toNat by omega, back]
        have more := groups_ne_nil last v
        refine ⟨byte :: used, groups (left + 1) (byte.toNat % 128 + 128 * v),
          ⟨byte.toNat % 128 + 128 * v, ?_, ?_, ?_, rfl⟩, by rw [step, split, cons_append], ?_, ?_, ?_⟩
        · rw [value, pow_add]
          ring
        · rw [pow_succ]
          omega
        · exact fun place => groups_fit (by omega) (by omega) (fit (by omega))
        · rw [moved, length_cons]
          omega
        · rw [groups, rest]
          split_ifs <;> simp only [length_cons, length_nil] <;> omega
        · intro equal
          rw [groups, low, rest, high] at equal ⊢
          split_ifs at equal ⊢ with zero
          · rw [same (by simpa using equal)]
          · simp only [length_cons, length_nil] at equal
            omega

theorem minimal_varUint32 : varUint32.Minimal (· < 2 ^ 32) (groups 5) := by
  apply (tight_collect 5 0 0).mono
  intro w e read
  obtain ⟨v, value, -, fit, rfl⟩ := read
  rw [pow_zero, Nat.mul_one, Nat.zero_add] at value
  subst value
  exact ⟨by simpa using fit rfl, rfl⟩

theorem minimal_bytes : bytes.Minimal (·.length < 2 ^ 32) (fun b => groups 5 b.length ++ b) := by
  apply (minimal_varUint32.bind fun len => tight_sliceAt len).mono
  intro b e read
  obtain ⟨len, left, right, ⟨small, rfl⟩, ⟨rfl, rfl⟩, rfl⟩ := read
  exact ⟨small, rfl⟩

section
variable {item : Wire α} {fits : α → Prop} {encode : α → Bytes}

theorem tight_items (minimal : item.Minimal fits encode) (count : Nat) :
    (readItems item count).Tight fun values e =>
      values.length = count ∧ (∀ v ∈ values, fits v) ∧ e = values.flatMap encode := by
  induction count with
  | zero =>
    apply (tight_pure []).mono
    intro values e read
    obtain ⟨rfl, rfl⟩ := read
    exact ⟨rfl, by simp, rfl⟩
  | succ count ih =>
    apply (minimal.bind fun value => ih.bind fun rest => tight_pure (value :: rest)).mono
    intro values e read
    obtain ⟨v, left, right, ⟨fit, rfl⟩, ⟨rest, left', right', ⟨size, others, rfl⟩, ⟨rfl, rfl⟩, rfl⟩, rfl⟩ :=
      read
    refine ⟨by rw [length_cons, size], ?_, by rw [append_nil, flatMap_cons]⟩
    intro u member
    rcases mem_cons.mp member with rfl | later
    · exact fit
    · exact others u later

theorem minimal_vec (minimal : item.Minimal fits encode) :
    (vec item).Minimal (fun values => values.length < 2 ^ 32 ∧ ∀ v ∈ values, fits v)
      (fun values => groups 5 values.length ++ values.flatMap encode) := by
  apply (minimal_varUint32.bind fun len => tight_items minimal len).mono
  intro values e read
  obtain ⟨len, left, right, ⟨small, rfl⟩, ⟨rfl, all, rfl⟩, rfl⟩ := read
  exact ⟨⟨small, all⟩, rfl⟩

end

/-- A wire format whose values have one shortest encoding, the one that is written. -/
def Sharp (wire : Wire α) : Prop :=
  ∃ fits encode, Lawful wire fits encode ∧ wire.Minimal fits encode

theorem sharp_uint (width : Nat) : Sharp (uint width) :=
  ⟨_, _, lawful_uint width, minimal_uint width⟩

theorem sharp_varUint32 : Sharp varUint32 := ⟨_, _, lawful_varUint32, minimal_varUint32⟩

theorem sharp_bytes : Sharp bytes := ⟨_, _, lawful_bytes, minimal_bytes⟩

theorem Sharp.pair {first : Wire α} {second : Wire β} (a : Sharp first) (b : Sharp second) :
    Sharp (pair first second) := by
  obtain ⟨_, _, lawA, minA⟩ := a
  obtain ⟨_, _, lawB, minB⟩ := b
  refine ⟨_, _, lawful_pair lawA lawB, (minA.bind fun x => minB.bind fun y => tight_pure (x, y)).mono ?_⟩
  intro v e read
  obtain ⟨x, left, right, ⟨fitsX, rfl⟩, ⟨y, left', right', ⟨fitsY, rfl⟩, ⟨rfl, rfl⟩, rfl⟩, rfl⟩ := read
  exact ⟨⟨fitsX, fitsY⟩, by rw [append_nil]⟩

theorem Sharp.vec {item : Wire α} (part : Sharp item) : Sharp (vec item) := by
  obtain ⟨_, _, law, min⟩ := part
  exact ⟨_, _, lawful_vec law, minimal_vec min⟩

/-- What is read from the start of some bytes can be packed, into no more bytes, and into the
same bytes if it takes as many. -/
theorem Sharp.repack {wire : Wire α} (sharp : Sharp wire) {bytes : Bytes} {v : α} {next : Nat}
    (read : wire.read bytes 0 = some (.ok v, next)) :
    ∃ packed, wire.pack v = some (.ok packed) ∧ wire.read packed 0 = some (.ok v, packed.length) ∧
      packed.length ≤ bytes.length ∧ (packed.length = bytes.length ↔ packed = bytes) := by
  obtain ⟨fits, encode, lawful, minimal⟩ := sharp
  obtain ⟨used, e, ⟨fit, rfl⟩, split, -, enough, same⟩ := minimal bytes 0 v next read
  have back := lawful.reads v fit [] []
  rw [drop_zero] at split
  have size := congrArg List.length split
  rw [length_append] at size
  refine ⟨encode v, lawful.pack fit, by simpa using back, by omega, ?_, fun equal => by rw [equal]⟩
  intro equal
  have exhausted : bytes.drop next = [] := length_eq_zero_iff.mp (by omega)
  rw [split, exhausted, append_nil, same (by omega)]

/-! Transactions. -/

/-- Expiration, reference block number and prefix, net words, cpu limit and delay. -/
abbrev TransactionHeader := Nat × Nat × Nat × Nat × Nat × Nat

/-- Account, name, authorization and data. -/
abbrev Action := Nat × Nat × List (Nat × Nat) × List Nat

/-- Header, context-free actions, actions and extensions. -/
abbrev Transaction := TransactionHeader × List Action × List Action × List (Nat × List Nat)

def transactionHeader : Wire TransactionHeader :=
  pair (uint 4) (pair (uint 2) (pair (uint 4) (pair varUint32 (pair (uint 1) varUint32))))

def action : Wire Action :=
  pair (uint 8) (pair (uint 8) (pair (vec (pair (uint 8) (uint 8))) (vec (uint 1))))

def transaction : Wire Transaction :=
  pair transactionHeader (pair (vec action) (pair (vec action) (vec (pair (uint 2) (vec (uint 1))))))

def contextFreeData : Wire (List Bytes) := vec bytes

theorem sharp_action : Sharp action :=
  (sharp_uint 8).pair ((sharp_uint 8).pair
    ((((sharp_uint 8).pair (sharp_uint 8)).vec).pair (sharp_uint 1).vec))

theorem sharp_transaction : Sharp transaction :=
  ((sharp_uint 4).pair ((sharp_uint 2).pair ((sharp_uint 4).pair
      (sharp_varUint32.pair ((sharp_uint 1).pair sharp_varUint32))))).pair
    (sharp_action.vec.pair (sharp_action.vec.pair ((sharp_uint 2).pair (sharp_uint 1).vec).vec))

theorem sharp_contextFreeData : Sharp contextFreeData := sharp_bytes.vec

/-! Packed transactions. -/

inductive TransactionCompression where
  | none
  | zlib
  deriving DecidableEq, Repr

def maxUncompressedPackedTrxSize : Nat := 8 * 1024 * 1024

def fixedNetOverheadOfPackedTrx : Nat := 16

def ReadError.message : ReadError → String
  | .notEnoughBytes => "not enough bytes to read"
  | .parseError => "parse error"
  | .overflow => "integer overflow"

def WriteError.message : WriteError → String
  | .notEnoughSpace => "not enough space to write"

/-- A call that may fail with a text, or panic. -/
abbrev Attempt := ExceptT String Option

def Wire.unpack (wire : Wire α) (context : String) (bytes : Bytes) : Attempt α :=
  (wire.read bytes 0).map fun result => result.1.mapError fun e => context ++ e.message

def Wire.packed (wire : Wire α) (context : String) (value : α) : Attempt Bytes :=
  (wire.pack value).map fun result => result.mapError fun e => context ++ e.message

/-- Decompression goes no further than one byte beyond the limit. -/
def maybeDecompress (inflate : Bytes → Except String Bytes) (compression : TransactionCompression)
    (data : Bytes) : Attempt Bytes :=
  match compression with
  | .none => return data
  | .zlib =>
    if data = [] then return []
    else match inflate data with
      | .error e => throw ("zlib decompress failed: " ++ e)
      | .ok out =>
        if out.length ≤ maxUncompressedPackedTrxSize then return out
        else throw "zlib decompress failed: uncompressed data is too big"

/-- The packed bytes as they came, and what they were unpacked into. -/
structure PackedTransaction (σ D : Type) where
  signatures : List σ
  compression : TransactionCompression
  packedContextFreeData : Bytes
  packedTrx : Bytes
  unpackedTrx : Transaction
  contextFreeData : List Bytes
  trxId : D

namespace PackedTransaction

variable {σ D : Type} (digest : Bytes → D) (inflate : Bytes → Except String Bytes)

def unpackContextFreeData (bytes : Bytes) : Attempt (List Bytes) :=
  if bytes.length > 0 then
    Serialization.contextFreeData.unpack "failed to unpack context free data: " bytes
  else pure []

def packContextFreeData (cfd : List Bytes) : Attempt Bytes :=
  if cfd = [] then pure []
  else Serialization.contextFreeData.packed "failed to pack context free data: " cfd

/-- Unpacking starts at the first byte and does not ask whether it gets to the last one. -/
def new (signatures : List σ) (compression : TransactionCompression)
    (packedContextFreeData packedTrx : Bytes) : Attempt (PackedTransaction σ D) := do
  let trxBytes ← maybeDecompress inflate compression packedTrx
  let cfdBytes ← maybeDecompress inflate compression packedContextFreeData
  let trx ← transaction.unpack "failed to unpack transaction: " trxBytes
  let cfd ← unpackContextFreeData cfdBytes
  let bytes ← transaction.packed "failed to pack transaction: " trx
  return ⟨signatures, compression, packedContextFreeData, packedTrx, trx, cfd, digest bytes⟩

/-- The packing of a transaction by its own signer. -/
def fromSignedTransaction (signatures : List σ) (trx : Transaction) (cfd : List Bytes) :
    Attempt (PackedTransaction σ D) := do
  let bytes ← transaction.packed "failed to pack transaction: " trx
  let packedCfd ← packContextFreeData cfd
  return ⟨signatures, .none, packedCfd, bytes, trx, cfd, digest bytes⟩

def getUnprunableSize (p : PackedTransaction σ D) : Except String Nat :=
  let size := fixedNetOverheadOfPackedTrx + p.packedTrx.length
  if size < 2 ^ 32 then .ok size else .error "packed_transaction is too big"

def getPrunableSize (numBytes : σ → Nat) (p : PackedTransaction σ D) : Except String Nat :=
  let size := usize.numBytes p.signatures.length + (p.signatures.map numBytes).sum +
    p.packedContextFreeData.length
  if size < 2 ^ 32 then .ok size else .error "packed_transaction is too big"

/-- An uncompressed transaction that was accepted and can be billed. -/
structure Admitted (numBytes : σ → Nat) (p : PackedTransaction σ D) : Prop where
  accepted : (new digest inflate p.signatures .none p.packedContextFreeData p.packedTrx).run =
    some (.ok p)
  unprunable : fixedNetOverheadOfPackedTrx + p.packedTrx.length < 2 ^ 32
  prunable : usize.numBytes p.signatures.length + (p.signatures.map numBytes).sum +
    p.packedContextFreeData.length < 2 ^ 32

def SameSize (numBytes : σ → Nat) (p q : PackedTransaction σ D) : Prop :=
  p.getUnprunableSize = q.getUnprunableSize ∧ p.getPrunableSize numBytes = q.getPrunableSize numBytes

def SameBytes (p q : PackedTransaction σ D) : Prop :=
  p.packedTrx = q.packedTrx ∧ p.packedContextFreeData = q.packedContextFreeData

theorem bind_done {x : Attempt α} {f : α → Attempt β} {b : β}
    (done : (x >>= f).run = some (.ok b)) : ∃ a, x.run = some (.ok a) ∧ (f a).run = some (.ok b) := by
  rw [ExceptT.run_bind] at done
  cases outcome : x.run with
  | none => simp [outcome] at done
  | some result =>
    cases result with
    | error e => simp [outcome] at done
    | ok a => exact ⟨a, rfl, by simpa [outcome] using done⟩

variable {wire : Wire α} {bytes : Bytes} {v : α} {p : PackedTransaction σ D}

theorem unpack_done {context : String} (done : (wire.unpack context bytes).run = some (.ok v)) :
    ∃ next, wire.read bytes 0 = some (.ok v, next) := by
  unfold Wire.unpack at done
  cases outcome : wire.read bytes 0 with
  | none =>
    rw [outcome] at done
    cases done
  | some result =>
    obtain ⟨answer, next⟩ := result
    rw [outcome] at done
    cases answer with
    | error e => cases done
    | ok a =>
      cases done
      exact ⟨next, rfl⟩

theorem unpack_eq (context : String) {next : Nat} (read : wire.read bytes 0 = some (.ok v, next)) :
    wire.unpack context bytes = pure v := by
  unfold Wire.unpack
  rw [read]
  rfl

theorem packed_eq (context : String) (pack : wire.pack v = some (.ok bytes)) :
    wire.packed context v = pure bytes := by
  unfold Wire.packed
  rw [pack]
  rfl

theorem repack_contextFreeData {cfd : List Bytes}
    (read : (unpackContextFreeData bytes).run = some (.ok cfd)) :
    ∃ packed, packContextFreeData cfd = pure packed ∧ unpackContextFreeData packed = pure cfd ∧
      packed.length ≤ bytes.length ∧ (packed.length = bytes.length ↔ packed = bytes) := by
  by_cases empty : cfd = []
  · subst empty
    refine ⟨[], rfl, rfl, Nat.zero_le _, ?_, fun same => by rw [same]⟩
    exact fun same => (length_eq_zero_iff.mp same.symm).symm
  · unfold unpackContextFreeData at read
    split_ifs at read with nonempty
    · obtain ⟨next, read⟩ := unpack_done read
      obtain ⟨packed, pack, reread, shorter, same⟩ := sharp_contextFreeData.repack read
      refine ⟨packed, ?_, ?_, shorter, same⟩
      · rw [packContextFreeData, if_neg empty, packed_eq _ pack]
      · have filled : packed.length > 0 := by
          apply length_pos_of_ne_nil
          intro empty
          rw [empty] at reread
          cases reread
        rw [unpackContextFreeData, if_pos filled, unpack_eq _ reread]
    · cases read
      exact absurd rfl empty

variable {digest inflate}

/-- What an accepted transaction was read from, and what its id is made of. -/
theorem new_none_ok {signatures : List σ} {cfd trx : Bytes}
    (accepted : (new digest inflate signatures .none cfd trx).run = some (.ok p)) :
    (∃ next, transaction.read trx 0 = some (.ok p.unpackedTrx, next)) ∧
    (unpackContextFreeData cfd).run = some (.ok p.contextFreeData) ∧
    p.compression = .none ∧
    ∀ bytes, transaction.pack p.unpackedTrx = some (.ok bytes) → p.trxId = digest bytes := by
  obtain ⟨trxBytes, first, accepted⟩ := bind_done accepted
  obtain ⟨cfdBytes, second, accepted⟩ := bind_done accepted
  cases first
  cases second
  obtain ⟨t, readTrx, accepted⟩ := bind_done accepted
  obtain ⟨c, readCfd, accepted⟩ := bind_done accepted
  obtain ⟨b, packed, accepted⟩ := bind_done accepted
  cases accepted
  refine ⟨unpack_done readTrx, readCfd, rfl, ?_⟩
  intro bytes pack
  rw [packed_eq _ pack] at packed
  cases packed
  rfl

theorem sameSize_iff {numBytes : σ → Nat} {q : PackedTransaction σ D}
    (signed : p.signatures = q.signatures)
    (billable : fixedNetOverheadOfPackedTrx + q.packedTrx.length < 2 ^ 32)
    (billable' : usize.numBytes q.signatures.length + (q.signatures.map numBytes).sum +
      q.packedContextFreeData.length < 2 ^ 32) :
    SameSize numBytes p q ↔ p.packedTrx.length = q.packedTrx.length ∧
      p.packedContextFreeData.length = q.packedContextFreeData.length := by
  simp only [SameSize, getUnprunableSize, getPrunableSize, if_pos billable, if_pos billable', signed]
  apply and_congr
  · split_ifs
    · simp
    · simp
      omega
  · split_ifs
    · simp
    · simp
      omega

/-- The signer's own packing of what was accepted: it is accepted with the same id, and it is
billed for the same sizes only if it is the same bytes. -/
theorem Admitted.own_packing {numBytes : σ → Nat} (admitted : Admitted digest inflate numBytes p) :
    ∃ c, (fromSignedTransaction digest p.signatures p.unpackedTrx p.contextFreeData).run =
        some (.ok c) ∧
      Admitted digest inflate numBytes c ∧ c.trxId = p.trxId ∧
      (SameSize numBytes c p ↔ SameBytes c p) := by
  obtain ⟨⟨_, readTrx⟩, readCfd, -, id⟩ := new_none_ok admitted.accepted
  obtain ⟨trx, packTrx, rereadTrx, shorterTrx, sameTrx⟩ := sharp_transaction.repack readTrx
  obtain ⟨cfd, packCfd, rereadCfd, shorterCfd, sameCfd⟩ := repack_contextFreeData readCfd
  let c : PackedTransaction σ D :=
    ⟨p.signatures, .none, cfd, trx, p.unpackedTrx, p.contextFreeData, digest trx⟩
  have unprunable := admitted.unprunable
  have prunable := admitted.prunable
  refine ⟨c, ?_, ⟨?_, ?_, ?_⟩, (id trx packTrx).symm, ?_⟩
  · simp only [fromSignedTransaction, packed_eq _ packTrx, packCfd]
    rfl
  · simp only [new, maybeDecompress, c, pure_bind, unpack_eq _ rereadTrx, rereadCfd,
      packed_eq _ packTrx]
    rfl
  · exact lt_of_le_of_lt (Nat.add_le_add_left shorterTrx _) unprunable
  · exact lt_of_le_of_lt (Nat.add_le_add_left shorterCfd _) prunable
  · have signed : c.signatures = p.signatures := rfl
    exact (sameSize_iff signed unprunable prunable).trans (and_congr sameTrx sameCfd)

/-- Two accepted packings of one transaction, with the same signatures and context-free data,
are billed alike exactly if they are equally long. They have one packing by the signer in
common, and each of the two is billed like that one exactly if it is that one, byte by byte.
The id names the transaction as far as the digests of these two do not collide. -/
theorem billed_alike_iff {numBytes : σ → Nat} {p q : PackedTransaction σ D}
    (one : Admitted digest inflate numBytes p) (other : Admitted digest inflate numBytes q)
    (sameId : p.trxId = q.trxId) (signed : p.signatures = q.signatures)
    (sameData : p.contextFreeData = q.contextFreeData)
    (apart : ∀ a b, transaction.pack p.unpackedTrx = some (.ok a) →
      transaction.pack q.unpackedTrx = some (.ok b) → digest a = digest b → a = b) :
    (SameSize numBytes p q ↔ p.packedTrx.length = q.packedTrx.length ∧
      p.packedContextFreeData.length = q.packedContextFreeData.length) ∧
    ∃ c, Admitted digest inflate numBytes c ∧ c.trxId = p.trxId ∧
      (fromSignedTransaction digest p.signatures p.unpackedTrx p.contextFreeData).run =
        some (.ok c) ∧
      (SameSize numBytes c p ↔ SameBytes c p) ∧ (SameSize numBytes c q ↔ SameBytes c q) := by
  obtain ⟨⟨_, readP⟩, -, -, idP⟩ := new_none_ok one.accepted
  obtain ⟨⟨_, readQ⟩, -, -, idQ⟩ := new_none_ok other.accepted
  obtain ⟨bytesP, packP, backP, -⟩ := sharp_transaction.repack readP
  obtain ⟨bytesQ, packQ, backQ, -⟩ := sharp_transaction.repack readQ
  have same : p.unpackedTrx = q.unpackedTrx := by
    have bytes : bytesP = bytesQ :=
      apart bytesP bytesQ packP packQ (by rw [← idP _ packP, ← idQ _ packQ, sameId])
    rw [bytes, backQ] at backP
    simpa using backP.symm
  obtain ⟨c, packed, admitted, id, sizeP⟩ := one.own_packing
  obtain ⟨c', packed', -, -, sizeQ⟩ := other.own_packing
  rw [← same, ← signed, ← sameData, packed] at packed'
  cases packed'
  exact ⟨sameSize_iff signed other.unprunable other.prunable, c, admitted, id, packed, sizeP, sizeQ⟩

/-- The transaction without actions, in sixteen bytes and then some. -/
def emptyPacked (extra : Bytes) : PackedTransaction Unit Bytes :=
  ⟨[], .none, [], List.replicate 16 0 ++ extra, ((0, 0, 0, 0, 0, 0), [], [], []), [],
    Lib.Sha256.digest (List.replicate 16 0)⟩

theorem billed_alike_emptyPacked :
    ¬SameSize (fun _ => 66) (emptyPacked []) (emptyPacked [7]) ∧
    ∃ c, (fromSignedTransaction Lib.Sha256.digest [] (emptyPacked []).unpackedTrx []).run =
        some (.ok c) ∧
      (SameSize (fun _ => 66) c (emptyPacked [7]) ↔ SameBytes c (emptyPacked [7])) := by
  obtain ⟨lengths, c, -, -, packed, -, other⟩ := @billed_alike_iff Unit Bytes Lib.Sha256.digest
    (fun data => .ok data) (fun _ => 66) (emptyPacked []) (emptyPacked [7])
    ⟨rfl, by decide, by decide⟩ ⟨rfl, by decide, by decide⟩ rfl rfl rfl
    fun _ _ packed packed' _ => Except.ok.inj (Option.some.inj (packed.symm.trans packed'))
  exact ⟨fun same => absurd (lengths.mp same).1 (by decide), c, packed, other⟩

/-- A byte behind the transaction changes nothing but the bill. -/
theorem billed_trailing_byte :
    Admitted Lib.Sha256.digest (fun data => .ok data) (fun _ => 66) (emptyPacked []) ∧
    Admitted Lib.Sha256.digest (fun data => .ok data) (fun _ => 66) (emptyPacked [7]) ∧
    (emptyPacked []).trxId = (emptyPacked [7]).trxId ∧
    (emptyPacked []).getUnprunableSize = .ok 32 ∧ (emptyPacked [7]).getUnprunableSize = .ok 33 :=
  ⟨⟨rfl, by decide, by decide⟩, ⟨rfl, by decide, by decide⟩, rfl, rfl, rfl⟩

end PackedTransaction

end PulseVM.Serialization
