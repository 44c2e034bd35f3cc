import PulseVM.Chain.ApplyContext
import PulseVM.ChainDb.RowOrder

/-!
The iterators of a contract. A lookup lands on a row and gives out its handle, or runs off
the table and gives out the end iterator of the table; `next` and `previous` step from a
handle along the order of the rows.
-/

namespace PulseVM.Chain
open Arena ChainDb Lib.Encoding Lib.Calls
open ArenaObject hiding id

/-- The table of an end iterator that was given out. -/
def ArenaIteratorCache.tableOfEnd (c : ArenaIteratorCache) (handle : Int32) : Option TableKey :=
  if -1 ≤ handle then none else c.endToTable[(-handle - 2).toInt.toNat]?

namespace ApplyCall

variable (f : Family)

def landOn (t : TableKey) (primary : UInt64) : ApplyCall Int32 :=
  onCache f (·.add (t.1, t.2.1, t.2.2, primary))

def endOf (t : TableKey) : ApplyCall Int32 := onCache f (·.cacheTable t)

/-! Contract rows: the end iterator is given out only where the search runs off the table. -/

def dbEndI64 (code scope table : UInt64) : ApplyCall Int32 := do
  let there ← arenaTableExists code scope table
  if there then endOf .primary (code, scope, table) else return -1

def landOrEnd (t : TableKey) : Option UInt64 → ApplyCall Int32
  | some primary => landOn f t primary
  | none => endOf f t

def dbLowerboundI64 (code scope table primary : UInt64) : ApplyCall Int32 := do
  let there ← arenaTableExists code scope table
  if there then
    landOrEnd .primary (code, scope, table)
      (← Call.read fun s => s.contract.kvLowerBound code scope table primary)
  else return -1

/-- What `next` returns, with the primary key that is written where it lands. -/
def stepOn (t : TableKey) (primary : UInt64) (hit : Option UInt64) : ApplyCall (Int32 × UInt64) := do
  let handle ← landOrEnd f t hit
  return (handle, hit.getD primary)

/-- What `previous` returns: it never lands on an end iterator. -/
def stepBack (t : TableKey) (primary : UInt64) : Option UInt64 → ApplyCall (Int32 × UInt64)
  | some hit => do
    let handle ← landOn f t hit
    return (handle, hit)
  | none => return (-1, primary)

/-- From an end iterator it stays put. -/
def dbNextI64 (iterator : Int32) (primary : UInt64) : ApplyCall (Int32 × UInt64) := do
  match ← Call.read fun s => (s.caches .primary).rowOf iterator with
  | some (code, scope, table, current) =>
    stepOn .primary (code, scope, table) primary
      (← Call.read fun s => s.contract.kvUpperBound code scope table current)
  | none => return (iterator, primary)

/-- Step back from a row, or from an end iterator onto the last row. -/
def dbPreviousI64 (iterator : Int32) (primary : UInt64) : ApplyCall (Int32 × UInt64) := do
  match ← Call.read fun s => (s.caches .primary).rowOf iterator with
  | some (code, scope, table, current) =>
    stepBack .primary (code, scope, table) primary
      (← Call.read fun s => s.contract.kvPrev code scope table current)
  | none =>
    match ← Call.read fun s => (s.caches .primary).tableOfEnd iterator with
    | some (code, scope, table) =>
      stepBack .primary (code, scope, table) primary
        (← Call.read fun s => s.contract.kvLast code scope table)
    | none => return (-1, primary)

/-! Secondary indices: a hit gives out the end iterator of its table as well. -/

def dbIdxEnd (code scope table : UInt64) : ApplyCall Int32 := do
  let there ← arenaTableExists code scope table
  if there then endOf f (code, scope, table) else return -1

/-- The handle of a hit, the end iterator of a table that is there, or minus one. -/
def landIdx (t : TableKey) : Option UInt64 → ApplyCall Int32
  | some primary => do
    let _ ← endOf f t
    landOn f t primary
  | none => do
    let there ← arenaTableExists t.1 t.2.1 t.2.2
    if there then endOf f t else return -1

/-- Both keys of the row it lands on are written. -/
def landBoth (t : TableKey) (secondary : f.Value) (primary : UInt64)
    (hit : Option (UInt64 × f.Value)) : ApplyCall (Int32 × f.Value × UInt64) := do
  let handle ← landIdx f t (hit.map Prod.fst)
  return (handle, (hit.map Prod.snd).getD secondary, (hit.map Prod.fst).getD primary)

def dbIdxLowerbound (code scope table : UInt64) (secondary : f.Value) (primary : UInt64) :
    ApplyCall (Int32 × f.Value × UInt64) := do
  landBoth f (code, scope, table) secondary primary
    (← Call.read fun s => s.contract.idxLowerBound code scope table f secondary)

def dbIdxNext (iterator : Int32) (primary : UInt64) : ApplyCall (Int32 × UInt64) := do
  if iterator < -1 then return (-1, primary)
  else
    match ← Call.read fun s => (s.caches f).rowOf iterator with
    | some (code, scope, table, current) =>
      stepOn f (code, scope, table) primary
        (← Call.read fun s => s.contract.rowAfter code scope table current f)
    | none => return (-1, primary)

def dbIdxPrevious (iterator : Int32) (primary : UInt64) : ApplyCall (Int32 × UInt64) := do
  match ← Call.read fun s => (s.caches f).tableOfEnd iterator with
  | some (code, scope, table) =>
    stepBack f (code, scope, table) primary
      (← Call.read fun s => s.contract.lastRow code scope table f)
  | none =>
    match ← Call.read fun s => (s.caches f).rowOf iterator with
    | some (code, scope, table, current) =>
      stepBack f (code, scope, table) primary
        (← Call.read fun s => s.contract.rowBefore code scope table current f)
    | none => return (-1, primary)

def dbIdx64Lowerbound := dbIdxLowerbound .idx64
def dbIdx64End := dbIdxEnd .idx64
def dbIdx64Next := dbIdxNext .idx64
def dbIdx64Previous := dbIdxPrevious .idx64

def dbIdx128Lowerbound := dbIdxLowerbound .idx128
def dbIdx128End := dbIdxEnd .idx128
def dbIdx128Next := dbIdxNext .idx128
def dbIdx128Previous := dbIdxPrevious .idx128

def dbIdx256Lowerbound := dbIdxLowerbound .idx256
def dbIdx256End := dbIdxEnd .idx256
def dbIdx256Next := dbIdxNext .idx256
def dbIdx256Previous := dbIdxPrevious .idx256

def dbIdxDoubleLowerbound := dbIdxLowerbound .idxDouble
def dbIdxDoubleEnd := dbIdxEnd .idxDouble
def dbIdxDoubleNext := dbIdxNext .idxDouble
def dbIdxDoublePrevious := dbIdxPrevious .idxDouble

def dbIdxLongDoubleLowerbound := dbIdxLowerbound .idxLongDouble
def dbIdxLongDoubleEnd := dbIdxEnd .idxLongDouble
def dbIdxLongDoubleNext := dbIdxNext .idxLongDouble
def dbIdxLongDoublePrevious := dbIdxPrevious .idxLongDouble

/-! One call for all families. -/

def dbEnd : Family → UInt64 → UInt64 → UInt64 → ApplyCall Int32
  | .primary => dbEndI64
  | f => dbIdxEnd f

def dbNext : Family → Int32 → UInt64 → ApplyCall (Int32 × UInt64)
  | .primary => dbNextI64
  | f => dbIdxNext f

def dbPrevious : Family → Int32 → UInt64 → ApplyCall (Int32 × UInt64)
  | .primary => dbPreviousI64
  | f => dbIdxPrevious f

def dbFirst : Family → UInt64 → UInt64 → UInt64 → ApplyCall Int32
  | .primary, code, scope, table => dbLowerboundI64 code scope table 0
  | f, code, scope, table => do
    let (handle, _, _) ← dbIdxLowerbound f code scope table f.leastKey 0
    return handle

end ApplyCall

end PulseVM.Chain
