import PulseVM.Arena.Object

/-!
Three row types of the chain database: contract key-value rows, whose value lives in
the blob arena, rows of the `double` secondary index, whose key order folds the two
zeros together, and deferred transactions, whose keys are independent of each other.
-/

namespace PulseVM.Arena
open Lib.Encoding

theorem pairOrder : Std.TransCmp (compareLex (compareOn fun k : Int64 × UInt64 => k.1.toInt)
    (compareOn fun k => k.2.toNat)) := inferInstance

theorem tripleOrder : Std.TransCmp (compareLex
    (compareOn fun k : UInt64 × UInt64 × UInt64 => k.1.toNat)
    (compareLex (compareOn fun k => k.2.1.toNat) (compareOn fun k => k.2.2.toNat))) :=
  inferInstance

/-- Rows ordered by table and primary key. -/
def byTableAndKey {T : Type} (name : String) (tId : T → Int64) (primaryKey : T → UInt64) :
    IndexedBy T where
  name := name
  Key := Int64 × UInt64
  key row := (tId row, primaryKey row)
  cmp := compareLex (compareOn fun k => k.1.toInt) (compareOn fun k => k.2.toNat)
  trans := pairOrder

structure ContractKeyValueRow where
  id : Int
  tId : Int64
  primaryKey : UInt64
  payer : UInt64
  value : BlobRef
  deriving DecidableEq, Repr

namespace ContractKeyValueRow

def asBytes (row : ContractKeyValueRow) : Bytes :=
  i64Bytes row.id ++ (leBytes 8 row.tId.toUInt64.toNat ++ (leBytes 8 row.primaryKey.toNat ++
    (leBytes 8 row.payer.toNat ++
      (leBytes 4 row.value.off.toNat ++ leBytes 4 row.value.len.toNat))))

def readFromBytes (bytes : Bytes) : Option ContractKeyValueRow := do
  let (id, bytes) ← readNat 8 bytes
  let (tId, bytes) ← readNat 8 bytes
  let (primaryKey, bytes) ← readNat 8 bytes
  let (payer, bytes) ← readNat 8 bytes
  let (off, bytes) ← readNat 4 bytes
  let (len, bytes) ← readNat 4 bytes
  if bytes = [] then
    some ⟨toI64 id, (UInt64.ofNat tId).toInt64, UInt64.ofNat primaryKey, UInt64.ofNat payer,
      ⟨UInt32.ofNat off, UInt32.ofNat len⟩⟩
  else none

theorem readFromBytes_asBytes (row : ContractKeyValueRow) (low : 0 ≤ row.id)
    (high : row.id < 2 ^ 63) : readFromBytes row.asBytes = some row := by
  have tId : row.tId.toUInt64.toNat < 256 ^ 8 := row.tId.toUInt64.toNat_lt
  have primaryKey : row.primaryKey.toNat < 256 ^ 8 := row.primaryKey.toNat_lt
  have payer : row.payer.toNat < 256 ^ 8 := row.payer.toNat_lt
  have off : row.value.off.toNat < 256 ^ 4 := row.value.off.toNat_lt
  have len : row.value.len.toNat < 256 ^ 4 := row.value.len.toNat_lt
  have last := readNat_append len []
  rw [List.append_nil] at last
  unfold readFromBytes asBytes
  simp only [readNat_i64Bytes, readNat_append tId, readNat_append primaryKey,
    readNat_append payer, readNat_append off, last, Option.bind_eq_bind, Option.bind_some,
    ↓reduceIte, UInt64.ofNat_toNat, UInt32.ofNat_toNat,
    Int64.toInt64_toUInt64, toI64_toNat row.id (by omega) high]

def byScopePrimary : IndexedBy ContractKeyValueRow :=
  byTableAndKey "ContractKvByScopePrimary" tId primaryKey

instance : ArenaObject ContractKeyValueRow where
  typeId := 8
  typeName := "ContractKeyValueRow"
  default := ⟨0, 0, 0, 0, BlobRef.empty⟩
  id := ContractKeyValueRow.id
  setId row n := { row with id := n }
  secondaryIndices := [byScopePrimary]
  size := 40
  asBytes := asBytes
  readFromBytes := readFromBytes
  blobRefs row := [row.value]
  length_asBytes row := by simp [asBytes, i64Bytes]
  readFromBytes_asBytes := readFromBytes_asBytes

end ContractKeyValueRow

/-- The bits of an IEEE-754 `double` used as a key. -/
structure DoubleKey where
  bits : UInt64
  deriving DecidableEq, Repr

namespace DoubleKey

/-- Both zeros fold onto the positive one. -/
def canonical (k : DoubleKey) : UInt64 := if k.bits = 0x8000000000000000 then 0 else k.bits

/-- The position of a bit pattern in the total order of `double` values. -/
def rank (bits : UInt64) : Int :=
  if bits.toNat < 2 ^ 63 then bits.toNat else -1 - (bits.toNat - 2 ^ 63)

end DoubleKey

structure ContractIndexDoubleRow where
  id : Int
  tId : Int64
  primaryKey : UInt64
  secondaryKey : UInt64
  payer : UInt64
  deriving DecidableEq, Repr

namespace ContractIndexDoubleRow

def asBytes (row : ContractIndexDoubleRow) : Bytes :=
  packRecord row.id [row.tId.toUInt64, row.primaryKey, row.secondaryKey, row.payer]

def readFromBytes (bytes : Bytes) : Option ContractIndexDoubleRow :=
  match readRecord 4 bytes with
  | some (id, [tId, primaryKey, secondaryKey, payer]) =>
    some ⟨id, tId.toInt64, primaryKey, secondaryKey, payer⟩
  | _ => none

def byPrimary : IndexedBy ContractIndexDoubleRow :=
  byTableAndKey "ContractIdxDoubleByPrimary" tId primaryKey

def bySecondary : IndexedBy ContractIndexDoubleRow where
  name := "ContractIdxDoubleBySecondary"
  Key := Int64 × DoubleKey × UInt64
  key row := (row.tId, ⟨row.secondaryKey⟩, row.primaryKey)
  cmp := compareLex (compareOn fun k => k.1.toInt)
    (compareLex (compareOn fun k => DoubleKey.rank k.2.1.canonical)
      (compareOn fun k => k.2.2.toNat))

instance : ArenaObject ContractIndexDoubleRow where
  typeId := 12
  typeName := "ContractIndexDoubleRow"
  default := ⟨0, 0, 0, 0, 0⟩
  id := ContractIndexDoubleRow.id
  setId row n := { row with id := n }
  secondaryIndices := [byPrimary, bySecondary]
  size := 40
  asBytes := asBytes
  readFromBytes := readFromBytes
  blobRefs _ := []
  length_asBytes row := by simp [asBytes]
  readFromBytes_asBytes row low high := by
    unfold readFromBytes asBytes
    rw [readRecord_packRecord low high (by rfl)]
    simp

end ContractIndexDoubleRow

structure DeferredTransactionRow where
  id : Int
  sender : UInt64
  senderIdLo : UInt64
  senderIdHi : UInt64
  payer : UInt64
  trxId : Vector UInt8 32
  delayUntil : Int64
  expiration : Int64
  published : Int64
  packedTrx : BlobRef
  deriving DecidableEq, Repr

namespace DeferredTransactionRow

def asBytes (row : DeferredTransactionRow) : Bytes :=
  i64Bytes row.id ++ (leBytes 8 row.sender.toNat ++ (leBytes 8 row.senderIdLo.toNat ++
    (leBytes 8 row.senderIdHi.toNat ++ (leBytes 8 row.payer.toNat ++ (row.trxId.toList ++
      (leBytes 8 row.delayUntil.toUInt64.toNat ++ (leBytes 8 row.expiration.toUInt64.toNat ++
        (leBytes 8 row.published.toUInt64.toNat ++
          (leBytes 4 row.packedTrx.off.toNat ++ leBytes 4 row.packedTrx.len.toNat)))))))))

/-- The next 32 bytes as an array. -/
def readArray32 (bytes : Bytes) : Option (Vector UInt8 32 × Bytes) :=
  if h : 32 ≤ bytes.length then
    some (⟨(bytes.take 32).toArray, by simp [h]⟩, bytes.drop 32)
  else none

theorem readArray32_append (array : Vector UInt8 32) (rest : Bytes) :
    readArray32 (array.toList ++ rest) = some (array, rest) := by
  have size : array.toList.length = 32 := array.length_toList
  have long : 32 ≤ (array.toList ++ rest).length := by
    rw [List.length_append]
    omega
  unfold readArray32
  rw [dif_pos long]
  simp only [List.take_left' size, List.drop_left' size, Option.some.injEq, Prod.mk.injEq,
    and_true]
  exact Vector.toArray_inj.mp Array.toArray_toList

def readFromBytes (bytes : Bytes) : Option DeferredTransactionRow := do
  let (id, bytes) ← readNat 8 bytes
  let (sender, bytes) ← readNat 8 bytes
  let (senderIdLo, bytes) ← readNat 8 bytes
  let (senderIdHi, bytes) ← readNat 8 bytes
  let (payer, bytes) ← readNat 8 bytes
  let (trxId, bytes) ← readArray32 bytes
  let (delayUntil, bytes) ← readNat 8 bytes
  let (expiration, bytes) ← readNat 8 bytes
  let (published, bytes) ← readNat 8 bytes
  let (off, bytes) ← readNat 4 bytes
  let (len, bytes) ← readNat 4 bytes
  if bytes = [] then
    some ⟨toI64 id, UInt64.ofNat sender, UInt64.ofNat senderIdLo, UInt64.ofNat senderIdHi,
      UInt64.ofNat payer, trxId, (UInt64.ofNat delayUntil).toInt64,
      (UInt64.ofNat expiration).toInt64, (UInt64.ofNat published).toInt64,
      ⟨UInt32.ofNat off, UInt32.ofNat len⟩⟩
  else none

theorem readFromBytes_asBytes (row : DeferredTransactionRow) (low : 0 ≤ row.id)
    (high : row.id < 2 ^ 63) : readFromBytes row.asBytes = some row := by
  have word : ∀ (n : UInt64) rest, readNat 8 (leBytes 8 n.toNat ++ rest) = some (n.toNat, rest) :=
    fun n rest => readNat_append n.toNat_lt rest
  have off : row.packedTrx.off.toNat < 256 ^ 4 := row.packedTrx.off.toNat_lt
  have len : row.packedTrx.len.toNat < 256 ^ 4 := row.packedTrx.len.toNat_lt
  have last := readNat_append len []
  rw [List.append_nil] at last
  unfold readFromBytes asBytes
  -- one field after the other: simplifying under all binders at once takes too long
  simp only [Option.bind_eq_bind]
  rw [readNat_i64Bytes]
  dsimp only [Option.bind_some]
  iterate 4 (rw [word]; dsimp only [Option.bind_some])
  rw [readArray32_append]
  dsimp only [Option.bind_some]
  iterate 3 (rw [word]; dsimp only [Option.bind_some])
  rw [readNat_append off]
  dsimp only [Option.bind_some]
  rw [last]
  dsimp only [Option.bind_some]
  simp only [↓reduceIte, UInt64.ofNat_toNat, UInt32.ofNat_toNat, Int64.toInt64_toUInt64,
    toI64_toNat row.id (by omega) high]

/-- Byte strings of one length, compared from the first byte on. -/
def arrayRank (array : Vector UInt8 32) : Nat := array.toList.foldl (fun n b => 256 * n + b.toNat) 0

def byTrxId : IndexedBy DeferredTransactionRow where
  name := "DeferredByTrxId"
  Key := Vector UInt8 32
  key row := row.trxId
  cmp := compareOn arrayRank

def bySenderId : IndexedBy DeferredTransactionRow where
  name := "DeferredBySenderId"
  Key := UInt64 × UInt64 × UInt64
  key row := (row.sender, row.senderIdHi, row.senderIdLo)
  cmp := compareLex (compareOn fun k => k.1.toNat)
    (compareLex (compareOn fun k => k.2.1.toNat) (compareOn fun k => k.2.2.toNat))
  trans := tripleOrder

def byDelay : IndexedBy DeferredTransactionRow where
  name := "DeferredByDelay"
  Key := Int64 × Int
  key row := (row.delayUntil, row.id)
  cmp := compareLex (compareOn fun k => k.1.toInt) (compareOn fun k => k.2)

instance : ArenaObject DeferredTransactionRow where
  typeId := 21
  typeName := "DeferredTransactionRow"
  default := ⟨0, 0, 0, 0, 0, Vector.replicate 32 0, 0, 0, 0, BlobRef.empty⟩
  id := DeferredTransactionRow.id
  setId row n := { row with id := n }
  secondaryIndices := [byTrxId, bySenderId, byDelay]
  size := 104
  asBytes := asBytes
  readFromBytes := readFromBytes
  blobRefs row := [row.packedTrx]
  length_asBytes row := by simp [asBytes, i64Bytes]
  readFromBytes_asBytes := readFromBytes_asBytes

end DeferredTransactionRow

end PulseVM.Arena
