import PulseVM.Arena.Registered
import PulseVM.ChainDb.Rows

/-!
The tables of contracts as arena rows: the table row itself and the six families of rows
stored under it. All six are found by their table and primary key; what is stored
beside the keys and how the secondary keys are ordered is each family's own.
-/

namespace PulseVM.Arena
open Lib.Encoding

def joinU128 (lo hi : UInt64) : BitVec 128 := hi.toBitVec ++ lo.toBitVec

/-- The two words of a `float128` used as a key. -/
structure LongDoubleKey where
  lo : UInt64
  hi : UInt64
  deriving DecidableEq, Repr

/-- Both zeros fold onto the positive one; then negative patterns are turned around and
everything is compared as a signed number. -/
def LongDoubleKey.orderingKey (k : LongDoubleKey) : Int :=
  let bits := joinU128 k.lo k.hi
  let signMask : BitVec 128 := 1 <<< 127
  let bits := if bits &&& ~~~signMask = 0 then 0 else bits
  (bits ^^^ (bits.sshiftRight 127 >>> 1)).toInt

end PulseVM.Arena

namespace PulseVM.ChainDb
open Arena Lib.Encoding
open ArenaObject hiding id

namespace ContractTableRow

def asBytes (row : ContractTableRow) : Bytes :=
  packRecord row.id [row.code, row.scope, row.table, row.payer, row.count.toUInt64]

def readFromBytes (bytes : Bytes) : Option ContractTableRow :=
  match readRecord 5 bytes with
  | some (id, [code, scope, table, payer, count]) =>
    some ⟨id, code, scope, table, payer, count.toUInt32⟩
  | _ => none

def byCodeScopeTable : IndexedBy ContractTableRow where
  name := "ContractTableByCodeScopeTable"
  Key := UInt64 × UInt64 × UInt64
  key row := (row.code, row.scope, row.table)
  cmp := compareLex (compareOn fun k => k.1.toNat)
    (compareLex (compareOn fun k => k.2.1.toNat) (compareOn fun k => k.2.2.toNat))
  trans := tripleOrder

instance : ArenaObject ContractTableRow where
  typeId := 7
  typeName := "ContractTableRow"
  default := ⟨0, 0, 0, 0, 0, 0⟩
  id := ContractTableRow.id
  setId row n := { row with id := n }
  secondaryIndices := [byCodeScopeTable]
  size := 48
  asBytes := asBytes
  readFromBytes := readFromBytes
  blobRefs _ := []
  length_asBytes row := by simp [asBytes]
  readFromBytes_asBytes row low high := by
    unfold readFromBytes asBytes
    rw [readRecord_packRecord low high (by rfl)]
    simp

instance : DeclaredIndex ContractTableRow byCodeScopeTable := ⟨0, rfl⟩

theorem matches_iff {row : ContractTableRow} {code scope table : UInt64} :
    byCodeScopeTable.Matches row (code, scope, table) ↔
      row.code = code ∧ row.scope = scope ∧ row.table = table := by
  simp [IndexedBy.Matches, byCodeScopeTable, compareLex, compareOn, UInt64.toNat_inj]

end ContractTableRow

namespace ContractIndex64Row

def asBytes (row : ContractIndex64Row) : Bytes :=
  packRecord row.id [row.tId.toUInt64, row.primaryKey, row.secondaryKey, row.payer]

def readFromBytes (bytes : Bytes) : Option ContractIndex64Row :=
  match readRecord 4 bytes with
  | some (id, [tId, primaryKey, secondaryKey, payer]) =>
    some ⟨id, tId.toInt64, primaryKey, secondaryKey, payer⟩
  | _ => none

def byPrimary : IndexedBy ContractIndex64Row :=
  byTableAndKey "ContractIdx64ByPrimary" tId primaryKey

def bySecondary : IndexedBy ContractIndex64Row where
  name := "ContractIdx64BySecondary"
  Key := Int64 × UInt64 × UInt64
  key row := (row.tId, row.secondaryKey, row.primaryKey)
  cmp := compareLex (compareOn fun k => k.1.toInt)
    (compareLex (compareOn fun k => k.2.1.toNat) (compareOn fun k => k.2.2.toNat))

instance : ArenaObject ContractIndex64Row where
  typeId := 9
  typeName := "ContractIndex64Row"
  default := ⟨0, 0, 0, 0, 0⟩
  id := ContractIndex64Row.id
  setId row n := { row with id := n }
  secondaryIndices := [byPrimary, bySecondary]
  size := 40
  asBytes := asBytes
  readFromBytes := readFromBytes
  blobRefs _ := []
  length_asBytes row := by simp [asBytes]
  readFromBytes_asBytes row low high := by
    unfold readFromBytes asBytes
    rw [readRecord_packRecord low high (by rfl)]
    simp

end ContractIndex64Row

namespace ContractIndex128Row

def secondaryKey (row : ContractIndex128Row) : BitVec 128 := joinU128 row.secLo row.secHi

def asBytes (row : ContractIndex128Row) : Bytes :=
  packRecord row.id [row.tId.toUInt64, row.primaryKey, row.secLo, row.secHi, row.payer]

def readFromBytes (bytes : Bytes) : Option ContractIndex128Row :=
  match readRecord 5 bytes with
  | some (id, [tId, primaryKey, secLo, secHi, payer]) =>
    some ⟨id, tId.toInt64, primaryKey, secLo, secHi, payer⟩
  | _ => none

def byPrimary : IndexedBy ContractIndex128Row :=
  byTableAndKey "ContractIdx128ByPrimary" tId primaryKey

def bySecondary : IndexedBy ContractIndex128Row where
  name := "ContractIdx128BySecondary"
  Key := Int64 × BitVec 128 × UInt64
  key row := (row.tId, row.secondaryKey, row.primaryKey)
  cmp := compareLex (compareOn fun k => k.1.toInt)
    (compareLex (compareOn fun k => k.2.1.toNat) (compareOn fun k => k.2.2.toNat))

instance : ArenaObject ContractIndex128Row where
  typeId := 10
  typeName := "ContractIndex128Row"
  default := ⟨0, 0, 0, 0, 0, 0⟩
  id := ContractIndex128Row.id
  setId row n := { row with id := n }
  secondaryIndices := [byPrimary, bySecondary]
  size := 48
  asBytes := asBytes
  readFromBytes := readFromBytes
  blobRefs _ := []
  length_asBytes row := by simp [asBytes]
  readFromBytes_asBytes row low high := by
    unfold readFromBytes asBytes
    rw [readRecord_packRecord low high (by rfl)]
    simp

end ContractIndex128Row

namespace ContractIndex256Row

def secondaryWords (row : ContractIndex256Row) : BitVec 128 × BitVec 128 :=
  (BitVec.ofNat 128 (ofLe (row.secondaryKey.toList.take 16)),
    BitVec.ofNat 128 (ofLe (row.secondaryKey.toList.drop 16)))

def asBytes (row : ContractIndex256Row) : Bytes :=
  i64Bytes row.id ++ (packWords [row.tId.toUInt64, row.primaryKey, row.payer] ++
    row.secondaryKey.toList)

def readFromBytes (bytes : Bytes) : Option ContractIndex256Row :=
  match readNat 8 bytes with
  | some (id, bytes) =>
    match readWords 3 bytes with
    | some ([tId, primaryKey, payer], bytes) =>
      match DeferredTransactionRow.readArray32 bytes with
      | some (secondaryKey, []) => some ⟨toI64 id, tId.toInt64, primaryKey, payer, secondaryKey⟩
      | _ => none
    | _ => none
  | none => none

def byPrimary : IndexedBy ContractIndex256Row :=
  byTableAndKey "ContractIdx256ByPrimary" tId primaryKey

def bySecondary : IndexedBy ContractIndex256Row where
  name := "ContractIdx256BySecondary"
  Key := Int64 × BitVec 128 × BitVec 128 × UInt64
  key row := (row.tId, row.secondaryWords.1, row.secondaryWords.2, row.primaryKey)
  cmp := compareLex (compareOn fun k => k.1.toInt) (compareLex (compareOn fun k => k.2.1.toNat)
    (compareLex (compareOn fun k => k.2.2.1.toNat) (compareOn fun k => k.2.2.2.toNat)))

instance : ArenaObject ContractIndex256Row where
  typeId := 11
  typeName := "ContractIndex256Row"
  default := ⟨0, 0, 0, 0, Vector.replicate 32 0⟩
  id := ContractIndex256Row.id
  setId row n := { row with id := n }
  secondaryIndices := [byPrimary, bySecondary]
  size := 64
  asBytes := asBytes
  readFromBytes := readFromBytes
  blobRefs _ := []
  length_asBytes row := by simp [asBytes, i64Bytes]
  readFromBytes_asBytes row low high := by
    have words := readWords_append [row.tId.toUInt64, row.primaryKey, row.payer]
      row.secondaryKey.toList
    have array := DeferredTransactionRow.readArray32_append row.secondaryKey []
    rw [List.append_nil] at array
    simp only [List.length_cons, List.length_nil, Nat.zero_add, Nat.reduceAdd] at words
    unfold readFromBytes asBytes
    rw [readNat_i64Bytes]
    dsimp only
    rw [words]
    dsimp only
    rw [array]
    simp only [toI64_toNat row.id (by omega) high, Int64.toInt64_toUInt64]

end ContractIndex256Row

namespace ContractIndexLongDoubleRow

def asBytes (row : ContractIndexLongDoubleRow) : Bytes :=
  packRecord row.id [row.tId.toUInt64, row.primaryKey, row.secLo, row.secHi, row.payer]

def readFromBytes (bytes : Bytes) : Option ContractIndexLongDoubleRow :=
  match readRecord 5 bytes with
  | some (id, [tId, primaryKey, secLo, secHi, payer]) =>
    some ⟨id, tId.toInt64, primaryKey, secLo, secHi, payer⟩
  | _ => none

def byPrimary : IndexedBy ContractIndexLongDoubleRow :=
  byTableAndKey "ContractIdxLongDoubleByPrimary" tId primaryKey

def bySecondary : IndexedBy ContractIndexLongDoubleRow where
  name := "ContractIdxLongDoubleBySecondary"
  Key := Int64 × LongDoubleKey × UInt64
  key row := (row.tId, ⟨row.secLo, row.secHi⟩, row.primaryKey)
  cmp := compareLex (compareOn fun k => k.1.toInt)
    (compareLex (compareOn fun k => k.2.1.orderingKey) (compareOn fun k => k.2.2.toNat))

instance : ArenaObject ContractIndexLongDoubleRow where
  typeId := 13
  typeName := "ContractIndexLongDoubleRow"
  default := ⟨0, 0, 0, 0, 0, 0⟩
  id := ContractIndexLongDoubleRow.id
  setId row n := { row with id := n }
  secondaryIndices := [byPrimary, bySecondary]
  size := 48
  asBytes := asBytes
  readFromBytes := readFromBytes
  blobRefs _ := []
  length_asBytes row := by simp [asBytes]
  readFromBytes_asBytes row low high := by
    unfold readFromBytes asBytes
    rw [readRecord_packRecord low high (by rfl)]
    simp

end ContractIndexLongDoubleRow

/-- What the rows of a family share: the table and the primary key they are stored under,
the account that pays for them, and what else is stored, a blob or a secondary key. -/
class ContractRow (T : Type) [ArenaObject T] where
  Stored : Type
  tId : T → Int64
  primaryKey : T → UInt64
  payer : T → UInt64
  indexName : String
  fill : Int64 → UInt64 → UInt64 → Stored → T → T
  rewrite : UInt64 → Stored → T → T

namespace ContractRow

/-- Every family has an index by table and primary key. -/
def byPrimary (T : Type) [ArenaObject T] [ContractRow T] : IndexedBy T :=
  byTableAndKey (indexName T) tId primaryKey

end ContractRow

def ContractRow.fields {T : Type} [ArenaObject T] [ContractRow T] (row : T) :
    Int × Int64 × UInt64 × UInt64 :=
  (ArenaObject.id row, tId row, primaryKey row, payer row)

theorem fst_eq_of_compareLex {α : Type} {rest : Int64 × α → Int64 × α → Ordering}
    {a b : Int64 × α} (same : compareLex (compareOn fun k => k.1.toInt) rest a b = .eq) :
    a.1 = b.1 := by
  rw [compareLex_eq_eq] at same
  exact Int64.toInt_inj.mp (compare_eq_iff_eq.mp same.1)

open ContractRow in
/-- The fields of a family behave as fields, its first index is the one by primary key,
and no index mixes rows of different tables. -/
class LawfulContractRow (T : Type) [ArenaObject T] [ContractRow T] : Prop where
  first : (secondaryIndices (T := T))[0]? = some (byPrimary T) := by rfl
  sameTable : ∀ decl ∈ secondaryIndices (T := T), ∀ a b : T,
    decl.Matches a (decl.key b) → tId a = tId b := by
      -- every index compares the tables first
      rintro decl member a b same
      fin_cases member <;> exact fst_eq_of_compareLex same
  fields_setId : ∀ (row : T) (n : Int),
    fields (setId row n) = (n, tId row, primaryKey row, payer row) := by intros; rfl
  fields_fill : ∀ (row : T) t k p s, fields (fill t k p s row) = (ArenaObject.id row, t, k, p) := by
    intros; rfl
  fields_rewrite : ∀ (row : T) p s,
    fields (rewrite p s row) = (ArenaObject.id row, tId row, primaryKey row, p) := by intros; rfl

instance : ContractRow ContractKeyValueRow where
  Stored := BlobRef
  tId := ContractKeyValueRow.tId
  primaryKey := ContractKeyValueRow.primaryKey
  payer := ContractKeyValueRow.payer
  indexName := "ContractKvByScopePrimary"
  fill tId primaryKey payer value row :=
    { row with tId := tId, primaryKey := primaryKey, payer := payer, value := value }
  rewrite payer value row := { row with value := value, payer := payer }

instance : ContractRow ContractIndex64Row where
  Stored := UInt64
  tId := ContractIndex64Row.tId
  primaryKey := ContractIndex64Row.primaryKey
  payer := ContractIndex64Row.payer
  indexName := "ContractIdx64ByPrimary"
  fill tId primaryKey payer secondaryKey row :=
    { row with tId := tId, primaryKey := primaryKey, secondaryKey := secondaryKey, payer := payer }
  rewrite payer secondaryKey row := { row with secondaryKey := secondaryKey, payer := payer }

/-- A wide key is stored as its low and its high word. -/
instance : ContractRow ContractIndex128Row where
  Stored := BitVec 128
  tId := ContractIndex128Row.tId
  primaryKey := ContractIndex128Row.primaryKey
  payer := ContractIndex128Row.payer
  indexName := "ContractIdx128ByPrimary"
  fill tId primaryKey payer key row :=
    { row with
      tId := tId
      primaryKey := primaryKey
      secLo := ⟨key.setWidth 64⟩
      secHi := ⟨(key >>> 64).setWidth 64⟩
      payer := payer }
  rewrite payer key row :=
    { row with secLo := ⟨key.setWidth 64⟩, secHi := ⟨(key >>> 64).setWidth 64⟩, payer := payer }

instance : ContractRow ContractIndex256Row where
  Stored := Vector UInt8 32
  tId := ContractIndex256Row.tId
  primaryKey := ContractIndex256Row.primaryKey
  payer := ContractIndex256Row.payer
  indexName := "ContractIdx256ByPrimary"
  fill tId primaryKey payer secondaryKey row :=
    { row with tId := tId, primaryKey := primaryKey, secondaryKey := secondaryKey, payer := payer }
  rewrite payer secondaryKey row := { row with secondaryKey := secondaryKey, payer := payer }

/-- The bits of the number are stored as they are. -/
instance : ContractRow ContractIndexDoubleRow where
  Stored := UInt64
  tId := ContractIndexDoubleRow.tId
  primaryKey := ContractIndexDoubleRow.primaryKey
  payer := ContractIndexDoubleRow.payer
  indexName := "ContractIdxDoubleByPrimary"
  fill tId primaryKey payer bits row :=
    { row with tId := tId, primaryKey := primaryKey, secondaryKey := bits, payer := payer }
  rewrite payer bits row := { row with secondaryKey := bits, payer := payer }

instance : ContractRow ContractIndexLongDoubleRow where
  Stored := UInt64 × UInt64
  tId := ContractIndexLongDoubleRow.tId
  primaryKey := ContractIndexLongDoubleRow.primaryKey
  payer := ContractIndexLongDoubleRow.payer
  indexName := "ContractIdxLongDoubleByPrimary"
  fill tId primaryKey payer words row :=
    { row with
      tId := tId
      primaryKey := primaryKey
      secLo := words.1
      secHi := words.2
      payer := payer }
  rewrite payer words row := { row with secLo := words.1, secHi := words.2, payer := payer }

instance : LawfulContractRow ContractKeyValueRow where

instance : LawfulContractRow ContractIndex64Row where

instance : LawfulContractRow ContractIndex128Row where

instance : LawfulContractRow ContractIndex256Row where

instance : LawfulContractRow ContractIndexDoubleRow where

instance : LawfulContractRow ContractIndexLongDoubleRow where

namespace ContractRow

variable {T : Type} [ArenaObject T] [ContractRow T] [LawfulContractRow T]

instance : DeclaredIndex T (byPrimary T) := ⟨0, LawfulContractRow.first⟩

@[simp] theorem tId_setId (row : T) (n : Int) : tId (setId row n) = tId row :=
  congrArg (·.2.1) (LawfulContractRow.fields_setId row n)

@[simp] theorem primaryKey_setId (row : T) (n : Int) : primaryKey (setId row n) = primaryKey row :=
  congrArg (·.2.2.1) (LawfulContractRow.fields_setId row n)

@[simp] theorem payer_setId (row : T) (n : Int) : payer (setId row n) = payer row :=
  congrArg (·.2.2.2) (LawfulContractRow.fields_setId row n)

section Fill

variable (row : T) (t : Int64) (k p : UInt64) (s : Stored T)

@[simp] theorem tId_fill : tId (fill t k p s row) = t :=
  congrArg (·.2.1) (LawfulContractRow.fields_fill row t k p s)

@[simp] theorem primaryKey_fill : primaryKey (fill t k p s row) = k :=
  congrArg (·.2.2.1) (LawfulContractRow.fields_fill row t k p s)

@[simp] theorem payer_fill : payer (fill t k p s row) = p :=
  congrArg (·.2.2.2) (LawfulContractRow.fields_fill row t k p s)

@[simp] theorem id_rewrite : ArenaObject.id (rewrite p s row) = ArenaObject.id row :=
  congrArg (·.1) (LawfulContractRow.fields_rewrite row p s)

@[simp] theorem tId_rewrite : tId (rewrite p s row) = tId row :=
  congrArg (·.2.1) (LawfulContractRow.fields_rewrite row p s)

@[simp] theorem primaryKey_rewrite : primaryKey (rewrite p s row) = primaryKey row :=
  congrArg (·.2.2.1) (LawfulContractRow.fields_rewrite row p s)

@[simp] theorem payer_rewrite : payer (rewrite p s row) = p :=
  congrArg (·.2.2.2) (LawfulContractRow.fields_rewrite row p s)

end Fill

omit [LawfulContractRow T] in
theorem matches_iff {row : T} {t : Int64} {k : UInt64} :
    (byPrimary T).Matches row (t, k) ↔ tId row = t ∧ primaryKey row = k := by
  simp [IndexedBy.Matches, byPrimary, byTableAndKey, compareLex, compareOn, UInt64.toNat_inj,
    Int64.toInt_inj]

end ContractRow

/-- The six kinds of rows a contract stores. -/
inductive Family where
  | primary
  | idx64
  | idx128
  | idx256
  | idxDouble
  | idxLongDouble
  deriving DecidableEq, Repr

namespace Family

instance : Fintype Family where
  elems := {primary, idx64, idx128, idx256, idxDouble, idxLongDouble}
  complete f := by cases f <;> decide

def Row : Family → Type
  | primary => ContractKeyValueRow
  | idx64 => ContractIndex64Row
  | idx128 => ContractIndex128Row
  | idx256 => ContractIndex256Row
  | idxDouble => ContractIndexDoubleRow
  | idxLongDouble => ContractIndexLongDoubleRow

instance : (f : Family) → ArenaObject f.Row
  | primary => inferInstanceAs (ArenaObject ContractKeyValueRow)
  | idx64 => inferInstanceAs (ArenaObject ContractIndex64Row)
  | idx128 => inferInstanceAs (ArenaObject ContractIndex128Row)
  | idx256 => inferInstanceAs (ArenaObject ContractIndex256Row)
  | idxDouble => inferInstanceAs (ArenaObject ContractIndexDoubleRow)
  | idxLongDouble => inferInstanceAs (ArenaObject ContractIndexLongDoubleRow)

instance : (f : Family) → ContractRow f.Row
  | primary => inferInstanceAs (ContractRow ContractKeyValueRow)
  | idx64 => inferInstanceAs (ContractRow ContractIndex64Row)
  | idx128 => inferInstanceAs (ContractRow ContractIndex128Row)
  | idx256 => inferInstanceAs (ContractRow ContractIndex256Row)
  | idxDouble => inferInstanceAs (ContractRow ContractIndexDoubleRow)
  | idxLongDouble => inferInstanceAs (ContractRow ContractIndexLongDoubleRow)

instance : (f : Family) → LawfulContractRow f.Row
  | primary => inferInstanceAs (LawfulContractRow ContractKeyValueRow)
  | idx64 => inferInstanceAs (LawfulContractRow ContractIndex64Row)
  | idx128 => inferInstanceAs (LawfulContractRow ContractIndex128Row)
  | idx256 => inferInstanceAs (LawfulContractRow ContractIndex256Row)
  | idxDouble => inferInstanceAs (LawfulContractRow ContractIndexDoubleRow)
  | idxLongDouble => inferInstanceAs (LawfulContractRow ContractIndexLongDoubleRow)

def Value : Family → Type
  | primary => Bytes
  | idx64 => UInt64
  | idx128 => BitVec 128
  | idx256 => Vector UInt8 32
  | idxDouble => UInt64
  | idxLongDouble => UInt64 × UInt64

end Family

end PulseVM.ChainDb
