import PulseVM.ChainDb.FloatIndex
import PulseVM.Lib.Cursors

/-!
Positioning reads of the six families of contract rows. Every read is a range of an index
that orders the rows by their table, then by the rank of their secondary key and then by
their primary key. Some ranges end with the table, others run on and the hit is checked
for its table afterwards; both find the neighbour of a row among the rows of its table.
-/

namespace PulseVM.ChainDb
open Arena Lib.Encoding Lib.Cursors
open ArenaObject hiding id
open ContractRow

section Ranges

variable {T : Type} [ArenaObject T] (rows : Registered T) (decl : IndexedBy T)
  [DeclaredIndex T decl] (lower upper : Bound decl.Key)

def firstIn : Option decl.Key :=
  ((rows.index decl).toList.find? fun e => Bound.within decl.cmp lower upper e.1).map Prod.fst

def lastIn : Option decl.Key :=
  ((rows.index decl).toList.reverse.find? fun e => Bound.within decl.cmp lower upper e.1).map
    Prod.fst

end Ranges

def maxU64 : UInt64 := 0xFFFFFFFFFFFFFFFF

def maxU128 : BitVec 128 := BitVec.allOnes 128

def splitKey256 (key : Vector UInt8 32) : BitVec 128 × BitVec 128 :=
  (BitVec.ofNat 128 (ofLe (key.toList.take 16)), BitVec.ofNat 128 (ofLe (key.toList.drop 16)))

/-- The inverse of `splitKey256`. -/
def joinKey256 (w0 w1 : BitVec 128) : Vector UInt8 32 :=
  ⟨(leBytes 16 w0.toNat ++ leBytes 16 w1.toNat).toArray, by simp⟩

/-- What the families with whole numbers as secondaries share: the index by secondary, how
its keys are put together and taken apart, and the least and the greatest secondary. -/
class IntegerRow (T : Type) [ArenaObject T] [ContractRow T] where
  Secondary : Type
  bySecondary : IndexedBy T
  declared : DeclaredIndex T bySecondary
  secondary : T → Secondary
  key : Int64 → Secondary → UInt64 → bySecondary.Key
  parts : bySecondary.Key → Int64 × Secondary × UInt64
  least : Secondary
  greatest : Secondary

instance (T : Type) [ArenaObject T] [ContractRow T] [IntegerRow T] :
    DeclaredIndex T (IntegerRow.bySecondary (T := T)) where
  pos := IntegerRow.declared.pos
  found := IntegerRow.declared.found

instance : IntegerRow ContractIndex64Row where
  Secondary := UInt64
  bySecondary := ContractIndex64Row.bySecondary
  declared := ⟨1, rfl⟩
  secondary := ContractIndex64Row.secondaryKey
  key tId secondary primary := (tId, secondary, primary)
  parts k := k
  least := 0
  greatest := maxU64

instance : IntegerRow ContractIndex128Row where
  Secondary := BitVec 128
  bySecondary := ContractIndex128Row.bySecondary
  declared := ⟨1, rfl⟩
  secondary := ContractIndex128Row.secondaryKey
  key tId secondary primary := (tId, secondary, primary)
  parts k := k
  least := 0
  greatest := maxU128

instance : IntegerRow ContractIndex256Row where
  Secondary := Vector UInt8 32
  bySecondary := ContractIndex256Row.bySecondary
  declared := ⟨1, rfl⟩
  secondary := ContractIndex256Row.secondaryKey
  key tId secondary primary :=
    (tId, (splitKey256 secondary).1, (splitKey256 secondary).2, primary)
  parts k := (k.1, joinKey256 k.2.1 k.2.2.1, k.2.2.2)
  least := joinKey256 0 0
  greatest := joinKey256 maxU128 maxU128

namespace IntegerRow

variable {T : Type} [ArenaObject T] [ContractRow T] [LawfulContractRow T] [IntegerRow T]
  (tables : Registered ContractTableRow) (rows : Registered T) (code scope table : UInt64)

/-- Primary and secondary key of a hit. -/
def landing (k : (bySecondary (T := T)).Key) : UInt64 × Secondary T := ((parts k).2.2, (parts k).2.1)

/-- Keep a hit only if it stayed in the table. -/
def inTable (tId : Int64) (hit : Option (bySecondary (T := T)).Key) : Option UInt64 :=
  (hit.filter fun k => (parts k).1 = tId).map fun k => (parts k).2.2

def lowerBound (secondary : Secondary T) : Option (UInt64 × Secondary T) := do
  let tId ← resolveTId tables code scope table
  (firstIn rows (bySecondary (T := T)) (.included (key tId secondary 0))
    (.included (key tId greatest maxU64))).map landing

/-! Steps whose ranges end with the table. -/

def nextInside (primary : UInt64) : Option (UInt64 × Secondary T) := do
  let tId ← resolveTId tables code scope table
  let row ← rows.findBy (byPrimary T) (tId, primary)
  (firstIn rows (bySecondary (T := T)) (.excluded (key tId (secondary row) primary))
    (.included (key tId greatest maxU64))).map landing

def previousInside (primary : UInt64) : Option (UInt64 × Secondary T) := do
  let tId ← resolveTId tables code scope table
  let row ← rows.findBy (byPrimary T) (tId, primary)
  (lastIn rows (bySecondary (T := T)) (.included (key tId least 0))
    (.excluded (key tId (secondary row) primary))).map landing

def lastInside : Option (UInt64 × Secondary T) := do
  let tId ← resolveTId tables code scope table
  (lastIn rows (bySecondary (T := T)) (.included (key tId least 0))
    (.included (key tId greatest maxU64))).map landing

/-! Steps whose ranges run on past the table. -/

def next (primary : UInt64) : Option UInt64 := do
  let tId ← resolveTId tables code scope table
  let row ← rows.findBy (byPrimary T) (tId, primary)
  inTable tId (firstIn rows (bySecondary (T := T)) (.excluded (key tId (secondary row) primary))
    .unbounded)

def previous (primary : UInt64) : Option UInt64 := do
  let tId ← resolveTId tables code scope table
  let row ← rows.findBy (byPrimary T) (tId, primary)
  inTable tId (lastIn rows (bySecondary (T := T)) .unbounded
    (.excluded (key tId (secondary row) primary)))

def last : Option UInt64 := do
  let tId ← resolveTId tables code scope table
  inTable tId (lastIn rows (bySecondary (T := T)) .unbounded (.included (key tId greatest maxU64)))

end IntegerRow

open IntegerRow

namespace ContractDb

variable (db : ContractDb) (code scope table : UInt64)

def keyValues : Registered ContractKeyValueRow := db.rows .primary

def kvLowerBound (key : UInt64) : Option UInt64 := do
  let tId ← resolveTId db.tables code scope table
  (firstIn db.keyValues (byPrimary ContractKeyValueRow) (.included (tId, key))
    (.included (tId, maxU64))).map Prod.snd

def kvUpperBound (key : UInt64) : Option UInt64 := do
  let tId ← resolveTId db.tables code scope table
  (firstIn db.keyValues (byPrimary ContractKeyValueRow) (.excluded (tId, key))
    (.included (tId, maxU64))).map Prod.snd

def kvPrev (key : UInt64) : Option UInt64 := do
  let tId ← resolveTId db.tables code scope table
  (lastIn db.keyValues (byPrimary ContractKeyValueRow) (.included (tId, 0))
    (.excluded (tId, key))).map Prod.snd

def kvLast : Option UInt64 := do
  let tId ← resolveTId db.tables code scope table
  (lastIn db.keyValues (byPrimary ContractKeyValueRow) (.included (tId, 0))
    (.included (tId, maxU64))).map Prod.snd

/-! The family `idx64` ends its ranges with the table also when it steps. -/

def index64 : Registered ContractIndex64Row := db.rows .idx64

def idx64LowerBound : UInt64 → Option (UInt64 × UInt64) :=
  IntegerRow.lowerBound db.tables db.index64 code scope table

def idx64Next : UInt64 → Option (UInt64 × UInt64) :=
  nextInside db.tables db.index64 code scope table

def idx64Previous : UInt64 → Option (UInt64 × UInt64) :=
  previousInside db.tables db.index64 code scope table

def idx64Last : Option (UInt64 × UInt64) :=
  lastInside db.tables db.index64 code scope table

def index128 : Registered ContractIndex128Row := db.rows .idx128

def idx128LowerBound : BitVec 128 → Option (UInt64 × BitVec 128) :=
  IntegerRow.lowerBound db.tables db.index128 code scope table

def idx128Next : UInt64 → Option UInt64 := next db.tables db.index128 code scope table

def idx128Previous : UInt64 → Option UInt64 :=
  previous db.tables db.index128 code scope table

def idx128Last : Option UInt64 := IntegerRow.last db.tables db.index128 code scope table

def index256 : Registered ContractIndex256Row := db.rows .idx256

def idx256LowerBound : Vector UInt8 32 → Option (UInt64 × Vector UInt8 32) :=
  IntegerRow.lowerBound db.tables db.index256 code scope table

def idx256Next : UInt64 → Option UInt64 := next db.tables db.index256 code scope table

def idx256Previous : UInt64 → Option UInt64 :=
  previous db.tables db.index256 code scope table

def idx256Last : Option UInt64 := IntegerRow.last db.tables db.index256 code scope table

end ContractDb

end PulseVM.ChainDb
