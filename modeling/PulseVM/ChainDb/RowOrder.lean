import PulseVM.ChainDb.TableRows

/-!
The order in which the rows of a table are walked, family by family, and the reads that
step along it. Floating-point secondaries are ordered by their bits, so only a NaN lies
outside the range from minus to plus infinity.
-/

namespace PulseVM.Arena
open Lib.Encoding

namespace DoubleKey

def isNan (k : DoubleKey) : Bool := 0x7FF0000000000000 < k.bits &&& 0x7FFFFFFFFFFFFFFF

def infinity : DoubleKey := ⟨0x7FF0000000000000⟩

def negInfinity : DoubleKey := ⟨0xFFF0000000000000⟩

theorem rank_bounds {k : DoubleKey} (number : k.isNan = false) :
    rank negInfinity.canonical ≤ rank k.canonical ∧
      rank k.canonical ≤ rank infinity.canonical := by
  have low : rank negInfinity.canonical = -1 - 0x7FF0000000000000 := by decide
  have high : rank infinity.canonical = 0x7FF0000000000000 := by decide
  have mantissa : k.bits.toNat % 2 ^ 63 ≤ 0x7FF0000000000000 := by
    have small : ¬(0x7FF0000000000000 : UInt64) < k.bits &&& 0x7FFFFFFFFFFFFFFF := by
      simpa [isNan] using number
    rw [UInt64.lt_iff_toNat_lt, UInt64.toNat_and] at small
    have masked : k.bits.toNat &&& 0x7FFFFFFFFFFFFFFF = k.bits.toNat % 2 ^ 63 :=
      Nat.and_two_pow_sub_one_eq_mod k.bits.toNat 63
    have value : (0x7FFFFFFFFFFFFFFF : UInt64).toNat = 0x7FFFFFFFFFFFFFFF := rfl
    have bound : (0x7FF0000000000000 : UInt64).toNat = 0x7FF0000000000000 := rfl
    rw [value, masked, bound] at small
    omega
  have size := k.bits.toNat_lt
  rw [low, high]
  unfold canonical
  split_ifs with zero
  · decide
  · unfold rank
    split <;> omega

end DoubleKey

namespace LongDoubleKey

/-- All ones in the exponent and something in the mantissa. -/
def isNan (k : LongDoubleKey) : Bool :=
  (k.hi >>> 48) &&& 0x7FFF = 0x7FFF && (k.hi &&& 0x0000FFFFFFFFFFFF != 0 || k.lo != 0)

def infinity : LongDoubleKey := ⟨0, 0x7FFF000000000000⟩

def negInfinity : LongDoubleKey := ⟨0, 0xFFFF000000000000⟩

theorem toInt_fold (x : BitVec 128) :
    (x ^^^ (x.sshiftRight 127 >>> 1)).toInt =
      if x.toNat < 2 ^ 127 then (x.toNat : Int) else -1 - (x.toNat - 2 ^ 127) := by
  by_cases positive : x.toNat < 2 ^ 127
  · have sign : x.msb = false := by
      rw [BitVec.msb_eq_decide]
      simpa using positive
    have shifted : x.sshiftRight 127 = 0#128 := by
      rw [BitVec.sshiftRight_eq_of_msb_false sign]
      apply BitVec.eq_of_toNat_eq
      rw [BitVec.toNat_ushiftRight, Nat.shiftRight_eq_div_pow]
      exact Nat.div_eq_of_lt positive
    rw [shifted, if_pos positive]
    have same : x ^^^ (0#128 >>> 1) = x := by simp
    rw [same, BitVec.toInt_eq_toNat_cond, if_pos (by omega)]
  · have sign : x.msb = true := by
      rw [BitVec.msb_eq_decide]
      simpa using positive
    have shifted : x.sshiftRight 127 = BitVec.allOnes 128 := by
      apply BitVec.eq_of_getLsbD_eq
      intro i bound
      have top : x.getLsbD 127 = true := by simpa [BitVec.msb_eq_getLsbD_last] using sign
      rw [BitVec.getLsbD_sshiftRight, BitVec.getLsbD_allOnes]
      by_cases first : i = 0
      · simp [first, top]
      · simp [bound, sign, show ¬127 + i < 128 by omega]
    have flipped : x ^^^ (BitVec.allOnes 128 >>> 1) = ~~~(x &&& (BitVec.allOnes 128 >>> 1)) := by
      apply BitVec.eq_of_getLsbD_eq
      intro i bound
      have top : x.getLsbD 127 = true := by simpa [BitVec.msb_eq_getLsbD_last] using sign
      rw [BitVec.getLsbD_xor, BitVec.getLsbD_not, BitVec.getLsbD_and, BitVec.getLsbD_ushiftRight,
        BitVec.getLsbD_allOnes]
      by_cases last : i = 127
      · simp [last, top]
      · simp [bound, show 1 + i < 128 by omega]
    have masked : (x &&& (BitVec.allOnes 128 >>> 1)).toNat = x.toNat - 2 ^ 127 := by
      have ones : (BitVec.allOnes 128 >>> 1).toNat = 2 ^ 127 - 1 := by decide
      rw [BitVec.toNat_and, ones, Nat.and_two_pow_sub_one_eq_mod]
      omega
    have size := x.isLt
    rw [shifted, flipped, if_neg positive, BitVec.toInt_eq_toNat_cond, BitVec.toNat_not, masked,
      if_neg (by omega)]
    omega

theorem toNat_joinU128 (lo hi : UInt64) : (joinU128 lo hi).toNat = hi.toNat * 2 ^ 64 + lo.toNat := by
  have small : lo.toBitVec.toNat < 2 ^ 64 := lo.toBitVec.isLt
  unfold joinU128
  rw [BitVec.toNat_append, ← Nat.shiftLeft_add_eq_or_of_lt small, Nat.shiftLeft_eq]
  rfl

theorem mantissa_le {k : LongDoubleKey} (number : k.isNan = false) :
    (joinU128 k.lo k.hi).toNat % 2 ^ 127 ≤ 0x7FFF * 2 ^ 112 := by
  have exponent : ((k.hi >>> 48) &&& 0x7FFF).toNat = k.hi.toNat / 2 ^ 48 % 2 ^ 15 := by
    rw [UInt64.toNat_and, UInt64.toNat_shiftRight, Nat.shiftRight_eq_div_pow]
    exact Nat.and_two_pow_sub_one_eq_mod _ 15
  have high : (k.hi &&& 0x0000FFFFFFFFFFFF).toNat = k.hi.toNat % 2 ^ 48 := by
    rw [UInt64.toNat_and]
    exact Nat.and_two_pow_sub_one_eq_mod _ 48
  have sizeLo := k.lo.toNat_lt
  rw [toNat_joinU128]
  simp only [isNan, Bool.and_eq_false_iff, Bool.or_eq_false_iff, decide_eq_false_iff_not,
    bne_eq_false_iff_eq, ← UInt64.toNat_inj, exponent, high] at number
  have ones : (0x7FFF : UInt64).toNat = 0x7FFF := rfl
  have zero : (0 : UInt64).toNat = 0 := rfl
  rw [ones, zero] at number
  omega

theorem orderingKey_bounds {k : LongDoubleKey} (number : k.isNan = false) :
    negInfinity.orderingKey ≤ k.orderingKey ∧ k.orderingKey ≤ infinity.orderingKey := by
  have low : negInfinity.orderingKey = -1 - 0x7FFF * 2 ^ 112 := by decide
  have high : infinity.orderingKey = 0x7FFF * 2 ^ 112 := by decide
  have mantissa : (joinU128 k.lo k.hi).toNat % 2 ^ 127 ≤ 0x7FFF * 2 ^ 112 :=
    mantissa_le number
  rw [low, high]
  unfold orderingKey
  dsimp only
  split_ifs
  · decide
  · rw [toInt_fold]
    split <;> omega

end LongDoubleKey

end PulseVM.Arena

namespace PulseVM.ChainDb
open Arena Lib.Encoding Lib.Cursors
open ArenaObject hiding id

namespace Family

/-- Where the secondary key of a row stands among all secondary keys. -/
def rank : (f : Family) → f.Row → Int
  | primary, _ => 0
  | idx64, (row : ContractIndex64Row) => row.secondaryKey.toNat
  | idx128, (row : ContractIndex128Row) => row.secondaryKey.toNat
  | idx256, (row : ContractIndex256Row) =>
    (row.secondaryWords.1.toNat * 2 ^ 128 + row.secondaryWords.2.toNat : Nat)
  | idxDouble, (row : ContractIndexDoubleRow) => DoubleKey.rank (DoubleKey.mk row.secondaryKey).canonical
  | idxLongDouble, (row : ContractIndexLongDoubleRow) =>
    (LongDoubleKey.mk row.secLo row.secHi).orderingKey

/-- Rows are ordered by their secondary key and then by their primary key. -/
def Before (f : Family) (a b : f.Row) : Prop :=
  f.rank a < f.rank b ∨
    f.rank a = f.rank b ∧ ContractRow.primaryKey a < ContractRow.primaryKey b

/-- The secondary key of a row is a number. -/
def IsNumber : (f : Family) → f.Row → Prop
  | idxDouble, (row : ContractIndexDoubleRow) => (DoubleKey.mk row.secondaryKey).isNan = false
  | idxLongDouble, (row : ContractIndexLongDoubleRow) =>
    (LongDoubleKey.mk row.secLo row.secHi).isNan = false
  | primary, _ | idx64, _ | idx128, _ | idx256, _ => True

/-- The smallest key that can be searched for. -/
def leastKey : (f : Family) → f.Value
  | primary => ([] : Bytes)
  | idx64 => (0 : UInt64)
  | idx128 => (0 : BitVec 128)
  | idx256 => joinKey256 0 0
  | idxDouble => (0xFFF0000000000000 : UInt64)
  | idxLongDouble => ((0, 0xFFFF000000000000) : UInt64 × UInt64)

end Family

namespace ContractDb

variable (db : ContractDb) (code scope table : UInt64)

/-! One read for all families. -/

def rowAfter (primary : UInt64) : Family → Option UInt64
  | .primary => db.kvUpperBound code scope table primary
  | .idx64 => (db.idx64Next code scope table primary).map Prod.fst
  | .idx128 => db.idx128Next code scope table primary
  | .idx256 => db.idx256Next code scope table primary
  | .idxDouble => db.idxDoubleNext code scope table primary
  | .idxLongDouble => db.idxLongDoubleNext code scope table primary

def rowBefore (primary : UInt64) : Family → Option UInt64
  | .primary => db.kvPrev code scope table primary
  | .idx64 => (db.idx64Previous code scope table primary).map Prod.fst
  | .idx128 => db.idx128Previous code scope table primary
  | .idx256 => db.idx256Previous code scope table primary
  | .idxDouble => db.idxDoublePrevious code scope table primary
  | .idxLongDouble => db.idxLongDoublePrevious code scope table primary

def lastRow : Family → Option UInt64
  | .primary => db.kvLast code scope table
  | .idx64 => (db.idx64Last code scope table).map Prod.fst
  | .idx128 => db.idx128Last code scope table
  | .idx256 => db.idx256Last code scope table
  | .idxDouble => db.idxDoubleLast code scope table
  | .idxLongDouble => db.idxLongDoubleLast code scope table

/-- Primary and secondary key of the first row whose secondary is not below the one given.
Contract rows have no secondary. -/
def idxLowerBound : (f : Family) → f.Value → Option (UInt64 × f.Value)
  | .primary, _ => none
  | .idx64, secondary => db.idx64LowerBound code scope table secondary
  | .idx128, secondary => db.idx128LowerBound code scope table secondary
  | .idx256, secondary => db.idx256LowerBound code scope table secondary
  | .idxDouble, secondary =>
    (db.idxDoubleLowerBound code scope table ⟨secondary⟩).map fun hit => (hit.1, hit.2.bits)
  | .idxLongDouble, secondary =>
    (db.idxLongDoubleLowerBound code scope table ⟨secondary.1, secondary.2⟩).map fun hit =>
      (hit.1, hit.2.lo, hit.2.hi)

/-- The first row of a table: the lower bound of the smallest key. -/
def firstRow : Family → Option UInt64
  | .primary => db.kvLowerBound code scope table 0
  | f => (db.idxLowerBound code scope table f f.leastKey).map Prod.fst

end ContractDb

section Ordered

variable {T : Type} [ArenaObject T] [ContractRow T] {rows : Registered T} {decl : IndexedBy T}
  [DeclaredIndex T decl] [TableOrder decl] {tId : Int64} {rank : T → Int}

/-- The rows of a table, by rank and primary key, and the reads that walk them. -/
structure Listing (rows : Registered T) (rank : T → Int) (tId : Int64) (listing : List T)
    (first last : Option UInt64) (next previous : UInt64 → Option UInt64) : Prop where
  sorted : listing.Pairwise fun a b => rank a < rank b ∨
    rank a = rank b ∧ ContractRow.primaryKey a < ContractRow.primaryKey b
  mem_iff : ∀ row, row ∈ listing ↔
    (∃ n, rows.table.primary.get n = some row) ∧ ContractRow.tId row = tId
  neighbours : Neighbours listing first last next previous

variable {first last : Option UInt64} {next previous : UInt64 → Option UInt64}

theorem listing_tableRows (sound : rows.table.Sound)
    (ranked : ∀ row, TableOrder.rank (decl.key row) = rank row)
    (neighbours : Neighbours (tableRows rows decl tId) first last next previous) :
    Listing rows rank tId (tableRows rows decl tId) first last next previous where
  sorted := by
    apply (tableRows_sorted decl tId sound).imp_of_mem
    intro a b memberA memberB before
    have insideA := ((mem_tableRows sound).mp memberA).2
    have insideB := ((mem_tableRows sound).mp memberB).2
    rw [TableOrder.before_iff, TableOrder.table_key, TableOrder.table_key, ranked, ranked,
      TableOrder.primary_key, TableOrder.primary_key, insideA, insideB] at before
    rcases before with less | ⟨_, order⟩
    · exact absurd less (lt_irrefl _)
    · exact order
  mem_iff _ := mem_tableRows sound
  neighbours := neighbours

end Ordered

namespace ContractDb

variable {db : ContractDb} {code scope table : UInt64} {tId : Int64}

/-- The rows of a table in the order of their family, and the reads that walk them. -/
def Walks (db : ContractDb) (code scope table : UInt64) (f : Family) (tId : Int64)
    (listing : List f.Row) : Prop :=
  Listing (db.rows f) f.rank tId listing (db.firstRow code scope table f)
    (db.lastRow code scope table f) (db.rowAfter code scope table · f)
    (db.rowBefore code scope table · f)

theorem exists_walks (f : Family) (sound : (db.rows f).table.Sound)
    (resolved : resolveTId db.tables code scope table = some tId)
    (numbers : ∀ n row, (db.rows f).table.primary.get n = some row →
      ContractRow.tId row = tId → f.IsNumber row) :
    ∃ listing, db.Walks code scope table f tId listing := by
  cases f with
  | primary =>
    have sound : db.keyValues.table.Sound := sound
    have neighbours := kv_neighbours sound resolved
    have listing : Listing db.keyValues Family.primary.rank tId _ _ _ _ _ :=
      listing_tableRows sound (fun _ => rfl) neighbours
    exact ⟨_, listing⟩
  | idx64 =>
    have sound : db.index64.table.Sound := sound
    have neighbours := IntegerRow.neighbours_inside sound resolved
    have listing : Listing db.index64 Family.idx64.rank tId _ _ _ _ _ :=
      listing_tableRows sound (fun _ => rfl) neighbours
    exact ⟨_, listing⟩
  | idx128 =>
    have sound : db.index128.table.Sound := sound
    have neighbours := IntegerRow.neighbours sound resolved
    have listing : Listing db.index128 Family.idx128.rank tId _ _ _ _ _ :=
      listing_tableRows sound (fun _ => rfl) neighbours
    exact ⟨_, listing⟩
  | idx256 =>
    have sound : db.index256.table.Sound := sound
    have neighbours := IntegerRow.neighbours sound resolved
    have listing : Listing db.index256 Family.idx256.rank tId _ _ _ _ _ :=
      listing_tableRows sound (fun _ => rfl) neighbours
    exact ⟨_, listing⟩
  | idxDouble =>
    have sound : db.doubles.table.Sound := sound
    have walk := FloatRow.neighbours sound resolved fun row member => by
      obtain ⟨⟨n, live⟩, inside⟩ := (mem_tableRows sound).mp member
      exact DoubleKey.rank_bounds (numbers n row live inside)
    have first : db.firstRow code scope table .idxDouble = _ :=
      (Option.map_map ..).trans walk.first
    have listing : Listing db.doubles Family.idxDouble.rank tId _ _ _ _ _ :=
      listing_tableRows sound (fun _ => rfl) ⟨first, walk.last, walk.next, walk.previous⟩
    exact ⟨_, listing⟩
  | idxLongDouble =>
    have sound : db.longDoubles.table.Sound := sound
    have walk := FloatRow.neighbours sound resolved fun row member => by
      obtain ⟨⟨n, live⟩, inside⟩ := (mem_tableRows sound).mp member
      exact LongDoubleKey.orderingKey_bounds (numbers n row live inside)
    have first : db.firstRow code scope table .idxLongDouble = _ :=
      (Option.map_map ..).trans walk.first
    have listing : Listing db.longDoubles Family.idxLongDouble.rank tId _ _ _ _ _ :=
      listing_tableRows sound (fun _ => rfl) ⟨first, walk.last, walk.next, walk.previous⟩
    exact ⟨_, listing⟩

end ContractDb

abbrev ContractDb.Sound (db : ContractDb) : Prop :=
  db.Each (·.table.Sound) fun _ t => t.table.Sound

namespace ContractDb

theorem lasting_sound : Lasting (·.table.Sound) (fun _ t => t.table.Sound) fun _ => True where
  steadyTables := steady_sound
  steadyRows _ := steady_sound
  setCount _ id _ sound := (Table.modify_refines sound id _).sound
  rewrite _ _ _ id m sound := (Table.modify_refines sound id m).sound
  allocBlob _ value sound := (Table.allocBlob_refines sound value).sound
  freeBlob _ value sound := (Table.freeBlob_refines sound value).sound

theorem sound_run (ops : List ContractOp) : (ContractDb.new.run ops).Sound := by
  have start : ContractDb.new.Sound := lasting_sound.new
  generalize ContractDb.new = db at start
  induction ops generalizing db with
  | nil => exact start
  | cons op rest ih =>
    exact ih _ (lasting_sound.apply trivial start op fun _ _ _ _ _ _ _ _ => trivial)

end ContractDb

end PulseVM.ChainDb
