import PulseVM.Chain.Iterators

/-!
Walking a contract table. The cache of a family keeps every handle it gave out, so a walk
with `next` from the lower bound of the smallest key lists the rows of the table in their
order, and a walk with `previous` from the end iterator meets the same handles backwards.
-/

namespace PulseVM.Chain
open Arena ChainDb Lib.Encoding Lib.Calls Lib.Calls.Call
open ArenaObject hiding id
open List Int32 ApplyState Function ContractRow

/-! Handles as numbers. -/

theorem toInt_ofNat_of_lt {n : Nat} (small : n < 2 ^ 31) : (Int32.ofNat n).toInt = n := by
  rw [← ofInt_eq_ofNat]
  exact toInt_ofInt_of_le (by omega) (by omega)

theorem ofNat_toNat_of_nonneg {handle : Int32} (nonneg : ¬handle < 0) :
    Int32.ofNat handle.toInt.toNat = handle := by
  have low : (0 : Int32).toInt ≤ handle.toInt := by
    rw [lt_iff_toInt_lt] at nonneg
    exact not_lt.mp nonneg
  have zero : (0 : Int32).toInt = 0 := rfl
  rw [← ofInt_eq_ofNat, Int.toNat_of_nonneg (by omega), ofInt_toInt]

theorem negative_of_end {e : Int32} (below : e < -1) : e < 0 := by
  rw [lt_iff_toInt_lt] at below ⊢
  have one : (-1 : Int32).toInt = -1 := rfl
  have zero : (0 : Int32).toInt = 0 := rfl
  omega

/-- The end iterator of the table that is the `n`th to get one. -/
def endHandle (n : Nat) : Int32 := -(Int32.ofNat n + 2)

theorem toInt_endHandle {n : Nat} (small : n + 2 < 2 ^ 31) : (endHandle n).toInt = -(n + 2) := by
  have value : endHandle n = Int32.ofInt (-(n + 2)) := by
    rw [ofInt_neg, ofInt_add, ofInt_eq_ofNat]
    rfl
  rw [value, toInt_ofInt_of_le (by omega) (by omega)]

theorem endHandle_index {n : Nat} (small : n + 2 < 2 ^ 31) :
    (-endHandle n - 2).toInt.toNat = n := by
  have value : -endHandle n - 2 = Int32.ofNat n := by
    unfold endHandle
    rw [Int32.neg_neg, Int32.add_sub_cancel]
  rw [value, toInt_ofNat_of_lt (by omega)]
  rfl

theorem endHandle_lt {n : Nat} (small : n + 2 < 2 ^ 31) : endHandle n < -1 := by
  rw [lt_iff_toInt_lt, toInt_endHandle small]
  have one : (-1 : Int32).toInt = -1 := rfl
  omega

namespace ArenaIteratorCache

/-- What lookups and removals do to a cache. -/
inductive CacheOp where
  | cacheTable (t : TableKey)
  | add (row : RowKey)
  | remove (handle : Int32)

def apply (c : ArenaIteratorCache) : CacheOp → ArenaIteratorCache
  | .cacheTable t => (c.cacheTable t).2
  | .add row => (c.add row).2
  | .remove handle => c.remove handle

def run (c : ArenaIteratorCache) (ops : List CacheOp) : ArenaIteratorCache := ops.foldl apply c

/-- The maps of a cache are the inverses of its lists. -/
structure Lawful (c : ArenaIteratorCache) : Prop where
  tableToEnd : ∀ t e, c.tableToEnd t = some e ↔
    ∃ i : Nat, c.endToTable[i]? = some t ∧ e = endHandle i
  rowToIter : ∀ row h, c.rowToIter row = some h ↔
    ∃ i : Nat, c.iterToRow[i]? = some (some row) ∧ h = Int32.ofNat i
  rowOnce : ∀ (i j : Nat) (row : RowKey),
    c.iterToRow[i]? = some (some row) → c.iterToRow[j]? = some (some row) → i = j

variable {c : ArenaIteratorCache} {t : TableKey} {row other : RowKey} {handle : Int32}

theorem lawful_empty : empty.Lawful where
  tableToEnd _ _ := by simp [empty]
  rowToIter _ _ := by simp [empty]
  rowOnce _ _ _ := by simp [empty]

section Inverse

variable {κ ι : Type} {map : κ → Option Int32} {l : List ι} {slot : κ → ι} {name : Nat → Int32}

theorem unlisted
    (inverse : ∀ k e, map k = some e ↔ ∃ i : Nat, l[i]? = some (slot k) ∧ e = name i) {k : κ}
    (absent : map k = none) (i : Nat) : l[i]? ≠ some (slot k) := by
  intro listed
  have known := (inverse k _).mpr ⟨i, listed, rfl⟩
  rw [absent] at known
  cases known

theorem getElem?_concat {α : Type} {l : List α} {a b : α} {i : Nat} :
    (l ++ [a])[i]? = some b ↔ l[i]? = some b ∨ i = l.length ∧ a = b := by
  rw [getElem?_append]
  split_ifs with inside
  · constructor
    · exact .inl
    · intro either
      rcases either with here | ⟨last, _⟩
      · exact here
      · omega
  · have outside : l[i]? = none := getElem?_eq_none (by omega)
    by_cases last : i = l.length
    · simp [last]
    · have behind : [a][i - l.length]? = none := getElem?_eq_none (by simp; omega)
      simp [behind, outside, last]

/-- A map that is the inverse of a list stays it when both get the same new member. -/
theorem inverse_concat [DecidableEq κ] (inj : Function.Injective slot)
    (inverse : ∀ k e, map k = some e ↔ ∃ i : Nat, l[i]? = some (slot k) ∧ e = name i) {k : κ}
    (absent : map k = none) (other : κ) (e : Int32) :
    Function.update map k (some (name l.length)) other = some e ↔
      ∃ i : Nat, (l ++ [slot k])[i]? = some (slot other) ∧ e = name i := by
  by_cases same : other = k
  · subst same
    rw [update_self]
    constructor
    · intro given
      exact ⟨l.length, getElem?_concat.mpr (.inr ⟨rfl, rfl⟩), (Option.some.inj given).symm⟩
    · intro ⟨i, listed, named⟩
      rcases getElem?_concat.mp listed with before | ⟨last, _⟩
      · exact absurd before (unlisted inverse absent i)
      · rw [named, last]
  · rw [update_of_ne same, inverse other e]
    constructor
    · intro ⟨i, listed, named⟩
      exact ⟨i, getElem?_concat.mpr (.inl listed), named⟩
    · intro ⟨i, listed, named⟩
      rcases getElem?_concat.mp listed with before | ⟨_, here⟩
      · exact ⟨i, before, named⟩
      · exact absurd (inj here).symm same

end Inverse

theorem Lawful.cacheTable (lawful : c.Lawful) (t : TableKey) : (c.cacheTable t).2.Lawful := by
  unfold ArenaIteratorCache.cacheTable
  cases known : c.tableToEnd t with
  | some e => exact lawful
  | none =>
    exact ⟨inverse_concat injective_id lawful.tableToEnd known, lawful.rowToIter,
      lawful.rowOnce⟩

theorem Lawful.add (lawful : c.Lawful) (row : RowKey) : (c.add row).2.Lawful := by
  unfold ArenaIteratorCache.add
  cases known : c.rowToIter row with
  | some h => exact lawful
  | none =>
    have unlisted := unlisted lawful.rowToIter known
    refine ⟨lawful.tableToEnd, ?_, fun i j r atI atJ => ?_⟩
    · exact inverse_concat (Option.some_injective _) lawful.rowToIter known
    · rcases getElem?_concat.mp atI with beforeI | ⟨lastI, hereI⟩
      · rcases getElem?_concat.mp atJ with beforeJ | ⟨lastJ, hereJ⟩
        · exact lawful.rowOnce i j r beforeI beforeJ
        · exact absurd beforeI (Option.some.inj hereJ ▸ unlisted i)
      · rcases getElem?_concat.mp atJ with beforeJ | ⟨lastJ, hereJ⟩
        · exact absurd beforeJ (Option.some.inj hereI ▸ unlisted j)
        · rw [lastI, lastJ]

theorem getElem?_of_rowOf (found : c.rowOf handle = some row) :
    ¬handle < 0 ∧ c.iterToRow[handle.toInt.toNat]? = some (some row) := by
  unfold rowOf at found
  by_cases negative : handle < 0
  · rw [if_pos negative] at found
    cases found
  · rw [if_neg negative] at found
    exact ⟨negative, Option.join_eq_some_iff.mp found⟩

theorem Lawful.remove (lawful : c.Lawful) (handle : Int32) : (c.remove handle).Lawful := by
  unfold ArenaIteratorCache.remove
  split_ifs with negative
  · exact lawful
  cases slot : (c.iterToRow[handle.toInt.toNat]?).join with
  | none => exact lawful
  | some row =>
    have listed := Option.join_eq_some_iff.mp slot
    have slots (i : Nat) (r : RowKey) :
        (c.iterToRow.set handle.toInt.toNat none)[i]? = some (some r) ↔
          c.iterToRow[i]? = some (some r) ∧ r ≠ row := by
      rw [getElem?_set]
      by_cases here : handle.toInt.toNat = i
      · subst here
        rw [if_pos rfl, listed]
        simp only [Option.some.injEq]
        constructor
        · intro cleared
          split at cleared <;> cases cleared
        · intro ⟨same, apart⟩
          exact absurd same.symm apart
      · rw [if_neg here]
        constructor
        · intro there
          refine ⟨there, fun same => here ?_⟩
          exact lawful.rowOnce _ _ row listed (same ▸ there)
        · exact And.left
    refine ⟨lawful.tableToEnd, fun r h => ?_, fun i j r atI atJ => ?_⟩
    · dsimp only
      by_cases same : r = row
      · subst same
        rw [update_self]
        constructor
        · intro given
          cases given
        · intro ⟨i, there, _⟩
          exact absurd rfl ((slots i r).mp there).2
      · rw [update_of_ne same, lawful.rowToIter r h]
        constructor
        · intro ⟨i, there, named⟩
          exact ⟨i, (slots i r).mpr ⟨there, same⟩, named⟩
        · intro ⟨i, there, named⟩
          exact ⟨i, ((slots i r).mp there).1, named⟩
    · exact lawful.rowOnce i j r ((slots i r).mp atI).1 ((slots j r).mp atJ).1

theorem Lawful.run (lawful : c.Lawful) (ops : List CacheOp) : (c.run ops).Lawful := by
  induction ops generalizing c with
  | nil => exact lawful
  | cons op rest ih =>
    apply ih
    cases op with
    | cacheTable t => exact lawful.cacheTable t
    | add row => exact lawful.add row
    | remove handle => exact lawful.remove handle

/-! A handle that was given out stays valid, and a known row gets its handle again. -/

theorem rowOf_cacheTable (c : ArenaIteratorCache) (t : TableKey) :
    (c.cacheTable t).2.rowOf = c.rowOf := by
  unfold cacheTable
  split <;> rfl

theorem rowOf_add (row : RowKey) (found : c.rowOf handle = some other) :
    (c.add row).2.rowOf handle = some other := by
  obtain ⟨nonneg, listed⟩ := getElem?_of_rowOf found
  unfold add
  split
  · exact found
  · unfold rowOf
    rw [if_neg nonneg]
    exact Option.join_eq_some_iff.mpr (getElem?_concat.mpr (.inl listed))

theorem Lawful.add_known (lawful : c.Lawful) (found : c.rowOf handle = some row) :
    c.add row = (handle, c) := by
  obtain ⟨nonneg, listed⟩ := getElem?_of_rowOf found
  have known := (lawful.rowToIter row _).mpr ⟨_, listed, (ofNat_toNat_of_nonneg nonneg).symm⟩
  unfold ArenaIteratorCache.add
  rw [known]

theorem rowOf_ofNat {i : Nat} (small : i < 2 ^ 31) (listed : c.iterToRow[i]? = some (some row)) :
    c.rowOf (Int32.ofNat i) = some row := by
  have value := toInt_ofNat_of_lt small
  have nonneg : ¬Int32.ofNat i < 0 := by
    have zero : (0 : Int32).toInt = 0 := rfl
    rw [lt_iff_toInt_lt]
    omega
  unfold rowOf
  rw [if_neg nonneg, value, Int.toNat_natCast, listed]
  rfl

theorem Lawful.rowOf_add_self (lawful : c.Lawful) (room : c.iterToRow.length < 2 ^ 31)
    (row : RowKey) : (c.add row).2.rowOf (c.add row).1 = some row := by
  unfold ArenaIteratorCache.add
  cases known : c.rowToIter row with
  | some h =>
    obtain ⟨i, listed, rfl⟩ := (lawful.rowToIter row h).mp known
    have inside := (List.getElem?_eq_some_iff.mp listed).1
    exact rowOf_ofNat (by omega) listed
  | none => exact rowOf_ofNat room (getElem?_concat.mpr (.inr ⟨rfl, rfl⟩))

theorem cacheTable_known {e : Int32} (known : c.tableToEnd t = some e) :
    c.cacheTable t = (e, c) := by
  unfold cacheTable
  rw [known]

theorem tableToEnd_cacheTable (c : ArenaIteratorCache) (t : TableKey) :
    (c.cacheTable t).2.tableToEnd t = some (c.cacheTable t).1 := by
  unfold cacheTable
  cases known : c.tableToEnd t with
  | some e => exact known
  | none => exact update_self ..

theorem Lawful.end_of_known (lawful : c.Lawful) (room : c.endToTable.length + 1 < 2 ^ 31)
    {e : Int32} (known : c.tableToEnd t = some e) : e < -1 ∧ c.tableOfEnd e = some t := by
  obtain ⟨i, listed, rfl⟩ := (lawful.tableToEnd t e).mp known
  have inside := (List.getElem?_eq_some_iff.mp listed).1
  have small : i + 2 < 2 ^ 31 := by omega
  have negative := endHandle_lt small
  refine ⟨negative, ?_⟩
  have beyond : ¬-1 ≤ endHandle i := by
    rw [le_iff_toInt_le]
    rw [lt_iff_toInt_lt] at negative
    omega
  unfold tableOfEnd
  rw [if_neg beyond, endHandle_index small, listed]

theorem rowOf_negative (negative : handle < -1) : c.rowOf handle = none := by
  unfold rowOf
  rw [if_pos (negative_of_end negative)]

theorem tableOfEnd_of_row (found : c.rowOf handle = some row) : c.tableOfEnd handle = none := by
  obtain ⟨nonneg, _⟩ := getElem?_of_rowOf found
  have above : -1 ≤ handle := Int32.not_lt.mp fun below => nonneg (negative_of_end below)
  unfold tableOfEnd
  rw [if_pos above]

/-- Where a search lands: on a row, or behind the table. -/
def landed (c : ArenaIteratorCache) (t : TableKey) : Option UInt64 → Int32 × ArenaIteratorCache
  | some primary => c.add (t.1, t.2.1, t.2.2, primary)
  | none => c.cacheTable t

theorem length_add (c : ArenaIteratorCache) (row : RowKey) :
    (c.add row).2.iterToRow.length ≤ c.iterToRow.length + 1 ∧
      (c.add row).2.endToTable = c.endToTable := by
  unfold add
  split <;> simp

theorem length_cacheTable (c : ArenaIteratorCache) (t : TableKey) :
    (c.cacheTable t).2.endToTable.length ≤ c.endToTable.length + 1 ∧
      (c.cacheTable t).2.iterToRow = c.iterToRow := by
  unfold cacheTable
  split <;> simp

end ArenaIteratorCache

namespace ApplyState

def withCache (s : ApplyState) (f : Family) (c : ArenaIteratorCache) : ApplyState :=
  { s with caches := Function.update s.caches f c }

variable {s : ApplyState} {f : Family} {c : ArenaIteratorCache}

@[simp] theorem caches_withCache : (s.withCache f c).caches f = c := update_self ..

theorem withCache_self (s : ApplyState) (f : Family) : s.withCache f (s.caches f) = s := by
  unfold withCache
  rw [update_eq_self]

end ApplyState

namespace ApplyCall
open ArenaIteratorCache hiding empty add remove

variable {s : ApplyState} {f : Family} {c : ArenaIteratorCache} {t : TableKey}

theorem onCache_run {α : Type} (op : ArenaIteratorCache → α × ArenaIteratorCache) :
    onCache f op (s.withCache f c) = (.ok (op c).1, s.withCache f (op c).2) := by
  unfold onCache
  rw [caches_withCache]
  unfold ApplyState.withCache
  simp only [update_idem]

theorem landOrEnd_run (hit : Option UInt64) : landOrEnd f t hit (s.withCache f c) =
    (.ok (c.landed t hit).1, s.withCache f (c.landed t hit).2) := by
  cases hit with
  | none => exact onCache_run (·.cacheTable t)
  | some primary => exact onCache_run (·.add (t.1, t.2.1, t.2.2, primary))

/-- Follow the steps from a handle until one is negative: the handles that were met, and
where the walk ended. -/
def follow (step : Int32 → ApplyCall Int32) : Nat → Int32 → ApplyCall (List Int32 × Int32)
  | 0, iterator => return ([], iterator)
  | fuel + 1, iterator =>
    if iterator < 0 then return ([], iterator)
    else do
      let next ← step iterator
      let (handles, last) ← follow step fuel next
      return (iterator :: handles, last)

def stepNext (f : Family) (iterator : Int32) : ApplyCall Int32 := do
  let (next, _) ← dbNext f iterator 0
  return next

def stepPrevious (f : Family) (iterator : Int32) : ApplyCall Int32 := do
  let (previous, _) ← dbPrevious f iterator 0
  return previous

/-- From the lower bound of the smallest key with `next`. -/
def forward (f : Family) (code scope table : UInt64) (fuel : Nat) :
    ApplyCall (List Int32 × Int32) := do
  follow (stepNext f) fuel (← dbFirst f code scope table)

/-- From an end iterator with `previous`. -/
def backward (f : Family) (fuel : Nat) (iterator : Int32) : ApplyCall (List Int32 × Int32) := do
  follow (stepPrevious f) fuel (← stepPrevious f iterator)

section Steps

variable {code scope table current : UInt64} {iterator : Int32} {hit : Option UInt64}

theorem dbNext_row (f : Family) (s : ApplyState)
    (found : c.rowOf iterator = some (code, scope, table, current)) (primary : UInt64) :
    dbNext f iterator primary (s.withCache f c) =
      stepOn f (code, scope, table) primary (s.contract.rowAfter code scope table current f)
        (s.withCache f c) := by
  have above : ¬iterator < -1 := fun below =>
    (getElem?_of_rowOf found).1 (negative_of_end below)
  cases f with
  | primary =>
    change dbNextI64 iterator primary _ = _
    unfold dbNextI64
    rw [read_bind, caches_withCache, found]
    rfl
  | _ =>
    change dbIdxNext _ iterator primary _ = _
    unfold dbIdxNext
    rw [if_neg above, read_bind, caches_withCache, found]
    rfl

theorem dbPrevious_row (f : Family) (s : ApplyState)
    (found : c.rowOf iterator = some (code, scope, table, current)) (primary : UInt64) :
    dbPrevious f iterator primary (s.withCache f c) =
      stepBack f (code, scope, table) primary (s.contract.rowBefore code scope table current f)
        (s.withCache f c) := by
  have notEnd := tableOfEnd_of_row found
  cases f with
  | primary =>
    change dbPreviousI64 iterator primary _ = _
    unfold dbPreviousI64
    rw [read_bind, caches_withCache, found]
    rfl
  | _ =>
    change dbIdxPrevious _ iterator primary _ = _
    unfold dbIdxPrevious
    rw [read_bind, caches_withCache, notEnd]
    dsimp only
    rw [read_bind, caches_withCache, found]
    rfl

theorem dbPrevious_end (f : Family) (s : ApplyState) (negative : iterator < -1)
    (found : c.tableOfEnd iterator = some (code, scope, table)) (primary : UInt64) :
    dbPrevious f iterator primary (s.withCache f c) =
      stepBack f (code, scope, table) primary (s.contract.lastRow code scope table f)
        (s.withCache f c) := by
  have notRow : c.rowOf iterator = none := rowOf_negative negative
  cases f with
  | primary =>
    change dbPreviousI64 iterator primary _ = _
    unfold dbPreviousI64
    rw [read_bind, caches_withCache, notRow]
    dsimp only
    rw [read_bind, caches_withCache, found]
    rfl
  | _ =>
    change dbIdxPrevious _ iterator primary _ = _
    unfold dbIdxPrevious
    rw [read_bind, caches_withCache, found]
    rfl

theorem stepNext_run (found : c.rowOf iterator = some (code, scope, table, current)) :
    stepNext f iterator (s.withCache f c) =
      (.ok (c.landed (code, scope, table) (s.contract.rowAfter code scope table current f)).1,
        s.withCache f
          (c.landed (code, scope, table) (s.contract.rowAfter code scope table current f)).2) := by
  have step := dbNext_row f s found 0
  unfold stepOn at step
  rw [bind_ok (landOrEnd_run _)] at step
  unfold stepNext
  rw [bind_ok step]
  rfl

/-- A step back onto a row whose handle is known leaves the cache as it is. -/
theorem stepBack_known (lawful : c.Lawful) {known : Int32} {primary : UInt64}
    (there : c.rowOf known = some (code, scope, table, primary)) (given : UInt64) :
    stepBack f (code, scope, table) given (some primary) (s.withCache f c) =
      (.ok (known, primary), s.withCache f c) := by
  change (landOrEnd f (code, scope, table) (some primary) >>= fun handle =>
    pure (handle, primary)) _ = _
  rw [bind_ok (landOrEnd_run _), landed, lawful.add_known there]
  rfl

theorem stepPrevious_of {handle : Int32} {primary : UInt64}
    (step : dbPrevious f iterator 0 (s.withCache f c) = (.ok (handle, primary), s.withCache f c)) :
    stepPrevious f iterator (s.withCache f c) = (.ok handle, s.withCache f c) := by
  unfold stepPrevious
  rw [bind_ok step]
  rfl

theorem follow_negative (step : Int32 → ApplyCall Int32) (fuel : Nat) (negative : iterator < 0)
    (s : ApplyState) : follow step fuel iterator s = (.ok ([], iterator), s) := by
  cases fuel with
  | zero => rfl
  | succ fuel =>
    unfold follow
    rw [if_pos negative]
    rfl

theorem follow_step {step : Int32 → ApplyCall Int32} {fuel : Nat} {next last : Int32}
    {handles : List Int32} {s' s'' : ApplyState} (nonneg : ¬iterator < 0)
    (one : step iterator s = (.ok next, s'))
    (rest : follow step fuel next s' = (.ok (handles, last), s'')) :
    follow step (fuel + 1) iterator s = (.ok (iterator :: handles, last), s'') := by
  rw [follow, if_neg nonneg, bind_ok one, bind_ok rest]
  rfl

end Steps

section Walk

variable {code scope table : UInt64} {tId : Int64} {listing : List f.Row}

def keyOf (code scope table : UInt64) {f : Family} (row : f.Row) : RowKey :=
  (code, scope, table, primaryKey row)

/-- Where a walk forward leaves the cache: it gave out the handles of the rows and the end
iterator, and took no handle back. -/
structure Walked (code scope table : UInt64) (c c' : ArenaIteratorCache) (rows : List f.Row)
    (handles : List Int32) (last : Int32) : Prop where
  lawful : c'.Lawful
  keeps : ∀ h row, c.rowOf h = some row → c'.rowOf h = some row
  rows : handles.map c'.rowOf = rows.map fun row => some (keyOf code scope table row)
  ends : c'.tableToEnd (code, scope, table) = some last
  room : c'.endToTable.length + 1 < 2 ^ 31

theorem walked_end (lawful : c.Lawful) (ends : c.endToTable.length + 2 < 2 ^ 31) :
    Walked code scope table c (c.cacheTable (code, scope, table)).2 ([] : List f.Row) []
      (c.cacheTable (code, scope, table)).1 ∧ (c.cacheTable (code, scope, table)).1 < 0 := by
  have lawful' := lawful.cacheTable (code, scope, table)
  have known := tableToEnd_cacheTable c (code, scope, table)
  have grown := (length_cacheTable c (code, scope, table)).1
  have room : (c.cacheTable (code, scope, table)).2.endToTable.length + 1 < 2 ^ 31 := by omega
  refine ⟨⟨lawful', ?_, rfl, known, room⟩, negative_of_end (lawful'.end_of_known room known).1⟩
  intro h r there
  rw [rowOf_cacheTable]
  exact there

theorem known_concat {before : List f.Row} {row : f.Row} {handles : List Int32}
    (rows : handles.map c.rowOf =
      (before ++ [row]).map fun row => some (keyOf code scope table row)) :
    ∃ front handle, handles = front ++ [handle] ∧
      (front.map c.rowOf = before.map fun row => some (keyOf code scope table row)) ∧
      c.rowOf handle = some (keyOf code scope table row) := by
  rw [map_append, map_singleton] at rows
  obtain ⟨front, back, rfl, fronts, backs⟩ := map_eq_append_iff.mp rows
  obtain ⟨handle, rfl⟩ : ∃ handle, back = [handle] := by
    have one : back.length = 1 := by simpa using congrArg List.length backs
    exact length_eq_one_iff.mp one
  exact ⟨front, handle, rfl, fronts, by simpa using backs⟩

theorem follow_next (walks : s.contract.Walks code scope table f tId listing) (rows : List f.Row) :
    ∀ (before : List f.Row) (c : ArenaIteratorCache), listing = before ++ rows → c.Lawful →
      c.iterToRow.length + rows.length ≤ 2 ^ 31 → c.endToTable.length + 2 < 2 ^ 31 →
      ∃ handles last c', Walked code scope table c c' rows handles last ∧
        ∀ fuel, rows.length ≤ fuel → follow (stepNext f) fuel
          (c.landed (code, scope, table) (rows.head?.map primaryKey)).1 (s.withCache f
            (c.landed (code, scope, table) (rows.head?.map primaryKey)).2) =
          (.ok (handles, last), s.withCache f c') := by
  induction rows with
  | nil =>
    intro before c split lawful _ ends
    obtain ⟨walked, below⟩ := walked_end (f := f) lawful ends
    exact ⟨[], _, _, walked, fun fuel _ => follow_negative _ fuel below _⟩
  | cons row after ih =>
    intro before c split lawful rows ends
    rw [length_cons] at rows
    have there := lawful.rowOf_add_self (by omega) (keyOf code scope table row)
    obtain ⟨longer, sameEnds⟩ := length_add c (keyOf code scope table row)
    obtain ⟨handles, last, c', walked, rest⟩ := ih (before ++ [row]) _
      (by rw [split, append_assoc]; rfl) (lawful.add (keyOf code scope table row)) (by omega)
      (by rw [sameEnds]; exact ends)
    have step := stepNext_run (f := f) (s := s) there
    rw [walks.neighbours.next before row after split] at step
    refine ⟨(c.add (keyOf code scope table row)).1 :: handles, last, c', ?_, ?_⟩
    · refine ⟨walked.lawful, ?_, ?_, walked.ends, walked.room⟩
      · intro h r known
        exact walked.keeps h r (rowOf_add _ known)
      · rw [map_cons, map_cons, walked.rows, walked.keeps _ _ there]
    · intro fuel enough
      rw [length_cons] at enough
      obtain ⟨fuel, rfl⟩ : ∃ n, fuel = n + 1 := ⟨fuel - 1, by omega⟩
      exact follow_step (getElem?_of_rowOf there).1 step (rest fuel (by omega))

/-- From the row at a handle the walk back lists the rows before it, whose handles are
known. -/
theorem follow_previous (walks : s.contract.Walks code scope table f tId listing)
    (lawful : c.Lawful) (before : List f.Row) : ∀ (after : List f.Row) (row : f.Row)
      (iterator : Int32) (handles : List Int32), listing = before ++ row :: after →
      c.rowOf iterator = some (keyOf code scope table row) →
      (handles.map c.rowOf = before.map fun row => some (keyOf code scope table row)) →
      ∀ fuel, before.length < fuel → follow (stepPrevious f) fuel iterator (s.withCache f c) =
        (.ok (iterator :: handles.reverse, -1), s.withCache f c) := by
  induction before using List.reverseRecOn with
  | nil =>
    intro after row iterator handles split found rows fuel enough
    obtain rfl : handles = [] := by simpa using rows
    have nothing : s.contract.rowBefore code scope table (primaryKey row) f = none :=
      walks.neighbours.previous [] row after split
    have step := dbPrevious_row f s found 0
    rw [nothing] at step
    obtain ⟨fuel, rfl⟩ : ∃ n, fuel = n + 1 := ⟨fuel - 1, by omega⟩
    exact follow_step (getElem?_of_rowOf found).1 (stepPrevious_of step)
      (follow_negative _ fuel (by decide) _)
  | append_singleton before previous ih =>
    intro after row iterator handles split found rows fuel enough
    have something : s.contract.rowBefore code scope table (primaryKey row) f =
        some (primaryKey previous) := by
      rw [walks.neighbours.previous (before ++ [previous]) row after split]
      simp
    -- the handle of the row before is the last of the known ones
    obtain ⟨front, handle, rfl, fronts, there⟩ := known_concat rows
    have step := dbPrevious_row f s found 0
    rw [something, stepBack_known lawful there] at step
    rw [length_append] at enough
    obtain ⟨fuel, rfl⟩ : ∃ n, fuel = n + 1 := ⟨fuel - 1, by omega⟩
    have rest := ih (row :: after) previous handle front
      (by rw [split, append_assoc]; rfl) there fronts fuel (by simp at enough; omega)
    have walked := follow_step (getElem?_of_rowOf found).1 (stepPrevious_of step)
      rest
    rw [walked, reverse_append]
    rfl

theorem arenaTableExists_run (resolved : resolveTId s.contract.tables code scope table = some tId) :
    arenaTableExists code scope table (s.withCache f c) = (.ok true, s.withCache f c) := by
  obtain ⟨t, found, _⟩ := Option.map_eq_some_iff.mp resolved
  have there : (s.contract.tables.findBy ContractTableRow.byCodeScopeTable
      (code, scope, table)).isSome = true := by rw [found]; rfl
  exact Prod.ext (congrArg Except.ok there) rfl

/-- A search in an index that is there gives out the end iterator of the table first. -/
theorem landIdx_run (resolved : resolveTId s.contract.tables code scope table = some tId)
    (hit : Option UInt64) : ∃ c', (c' = c ∨ c' = (c.cacheTable (code, scope, table)).2) ∧
      landIdx f (code, scope, table) hit (s.withCache f c) =
        (.ok (c'.landed (code, scope, table) hit).1,
          s.withCache f (c'.landed (code, scope, table) hit).2) := by
  cases hit with
  | none =>
    refine ⟨c, .inl rfl, ?_⟩
    change (arenaTableExists code scope table >>= _) _ = _
    rw [bind_ok (arenaTableExists_run resolved), if_pos rfl]
    exact landOrEnd_run none
  | some primary =>
    refine ⟨(c.cacheTable (code, scope, table)).2, .inr rfl, ?_⟩
    change (landOrEnd f (code, scope, table) none >>= _) _ = _
    rw [bind_ok (landOrEnd_run none)]
    exact landOrEnd_run (some primary)

theorem dbFirst_index (f : Family) (index : f ≠ .primary) (s : ApplyState) :
    dbFirst f code scope table s =
      landIdx f (code, scope, table) (s.contract.firstRow code scope table f) s := by
  have search (g : Family) : (dbIdxLowerbound g code scope table g.leastKey 0 >>= fun hit =>
      pure hit.1 : ApplyCall Int32) s = landIdx g (code, scope, table)
        ((s.contract.idxLowerBound code scope table g g.leastKey).map Prod.fst) s := by
    change ((Call.read _ >>= fun hit => (landIdx g _ _ >>= _)) >>= _) s = _
    rw [Call.bind_assoc', read_bind, Call.bind_assoc']
    exact congrFun (Call.bind_pure' _) s
  cases f with
  | primary => exact absurd rfl index
  | idx64 | idx128 | idx256 | idxDouble | idxLongDouble => exact search _

theorem dbFirst_run (resolved : resolveTId s.contract.tables code scope table = some tId) :
    ∃ c', (c' = c ∨ c' = (c.cacheTable (code, scope, table)).2) ∧
      dbFirst f code scope table (s.withCache f c) =
        (.ok (c'.landed (code, scope, table) (s.contract.firstRow code scope table f)).1,
          s.withCache f
            (c'.landed (code, scope, table) (s.contract.firstRow code scope table f)).2) := by
  by_cases index : f = .primary
  · subst index
    refine ⟨c, .inl rfl, ?_⟩
    change (arenaTableExists code scope table >>= _) _ = _
    rw [bind_ok (arenaTableExists_run resolved), if_pos rfl, read_bind]
    exact landOrEnd_run _
  · rw [dbFirst_index f index]
    exact landIdx_run resolved _

theorem forward_walked (walks : s.contract.Walks code scope table f tId listing)
    (resolved : resolveTId s.contract.tables code scope table = some tId) (lawful : c.Lawful)
    (rows : c.iterToRow.length + listing.length ≤ 2 ^ 31)
    (ends : c.endToTable.length + 3 < 2 ^ 31) :
    ∃ handles last c', Walked code scope table c c' listing handles last ∧
      ∀ fuel, listing.length ≤ fuel → forward f code scope table fuel (s.withCache f c) =
        (.ok (handles, last), s.withCache f c') := by
  obtain ⟨c₁, either, start⟩ := dbFirst_run (f := f) (c := c) resolved
  obtain ⟨lawful₁, sameRows, sameIter, grown⟩ : c₁.Lawful ∧ c₁.rowOf = c.rowOf ∧
      c₁.iterToRow = c.iterToRow ∧ c₁.endToTable.length ≤ c.endToTable.length + 1 := by
    rcases either with rfl | rfl
    · exact ⟨lawful, rfl, rfl, by omega⟩
    · obtain ⟨grown, same⟩ := length_cacheTable c (code, scope, table)
      exact ⟨lawful.cacheTable _, rowOf_cacheTable c _, same, grown⟩
  obtain ⟨handles, last, c', walked, rest⟩ := follow_next walks listing [] c₁ rfl lawful₁
    (by rw [sameIter]; exact rows) (by omega)
  refine ⟨handles, last, c', ⟨walked.lawful, ?_, walked.rows, walked.ends, walked.room⟩, ?_⟩
  · intro h r known
    rw [← sameRows] at known
    exact walked.keeps h r known
  · intro fuel enough
    unfold forward
    rw [bind_ok start, walks.neighbours.first]
    exact rest fuel enough

theorem backward_walked (walks : s.contract.Walks code scope table f tId listing)
    {c' : ArenaIteratorCache} {handles : List Int32} {last : Int32}
    (walked : Walked code scope table c c' listing handles last) (fuel : Nat)
    (enough : listing.length ≤ fuel) :
    backward f fuel last (s.withCache f c') = (.ok (handles.reverse, -1), s.withCache f c') := by
  obtain ⟨below, there⟩ := walked.lawful.end_of_known walked.room walked.ends
  have step := dbPrevious_end f s below there 0
  have lastRow := walks.neighbours.last
  have rows := walked.rows
  unfold backward
  rcases eq_nil_or_concat' listing with rfl | ⟨before, row, rfl⟩
  · obtain rfl : handles = [] := by simpa using rows
    have nothing : s.contract.lastRow code scope table f = none := lastRow
    rw [nothing] at step
    rw [bind_ok (stepPrevious_of step)]
    exact follow_negative _ fuel (by decide) _
  · have something : s.contract.lastRow code scope table f = some (primaryKey row) := by
      rw [lastRow]
      simp
    obtain ⟨front, handle, rfl, fronts, known⟩ := known_concat rows
    rw [something, stepBack_known walked.lawful known] at step
    rw [bind_ok (stepPrevious_of step), follow_previous walks walked.lawful before [] row handle
      front rfl known fronts fuel (by simp at enough; omega), reverse_append]
    rfl

theorem dbEnd_run {e : Int32} (resolved : resolveTId s.contract.tables code scope table = some tId)
    (known : c.tableToEnd (code, scope, table) = some e) :
    dbEnd f code scope table (s.withCache f c) = (.ok e, s.withCache f c) := by
  have there : endOf f (code, scope, table) (s.withCache f c) = (.ok e, s.withCache f c) := by
    refine (landOrEnd_run none).trans ?_
    rw [landed, cacheTable_known known]
  cases f with
  | _ =>
    change (arenaTableExists code scope table >>= _) _ = _
    rw [bind_ok (arenaTableExists_run resolved), if_pos rfl]
    exact there

/-- From an end iterator `next` stays put on contract rows and returns minus one in an
index. -/
theorem dbNext_end (f : Family) (s : ApplyState) {e : Int32} (below : e < -1) (primary : UInt64) :
    dbNext f e primary s = (.ok (if f = .primary then e else -1, primary), s) := by
  cases f with
  | primary =>
    change dbNextI64 e primary s = _
    unfold dbNextI64
    rw [read_bind, rowOf_negative below]
    rfl
  | _ =>
    change dbIdxNext _ e primary s = _
    unfold dbIdxNext
    rw [if_pos below]
    rfl

end Walk

end ApplyCall

namespace ApplyState
open ApplyCall

/-- A context on a database that contract calls built, with caches as lookups and removals
leave them. -/
structure Reached (s : ApplyState) : Prop where
  contract : ∃ ops, s.contract = ContractDb.new.run ops
  caches : ∀ f, ∃ history, s.caches f = ArenaIteratorCache.empty.run history

def HoldsRow (s : ApplyState) (f : Family) (tId : Int64) (row : f.Row) : Prop :=
  (∃ n, (s.contract.rows f).table.primary.get n = some row) ∧ ContractRow.tId row = tId

/-- The cache has a handle left for every row of the table and end iterators left. -/
structure HasRoom (s : ApplyState) (f : Family) (tId : Int64) : Prop where
  rows : ∀ rows : List f.Row, rows.Nodup → (∀ row ∈ rows, s.HoldsRow f tId row) →
    (s.caches f).iterToRow.length + rows.length ≤ 2 ^ 31
  ends : (s.caches f).endToTable.length + 3 < 2 ^ 31

/-- What the calls report when a table is walked from end to end: `next` from the lower
bound of the smallest key meets the rows one after the other and then the end iterator of
the table, and `previous` from there meets the same handles backwards. -/
structure Toured (s s' : ApplyState) (f : Family) (code scope table : UInt64) (rows : List f.Row)
    (handles : List Int32) (last : Int32) : Prop where
  forward : ∀ fuel, rows.length ≤ fuel →
    forward f code scope table fuel s = (.ok (handles, last), s')
  visited : handles.map (s'.caches f).rowOf =
    rows.map fun row => some (keyOf code scope table row)
  atEnd : dbEnd f code scope table s' = (.ok last, s')
  backward : ∀ fuel, rows.length ≤ fuel →
    backward f fuel last s' = (.ok (handles.reverse, -1), s')

/-- Iteration is exhaustive: every row of the table once, in order, there and back, and
nothing behind the end. -/
def Exhaustive (s : ApplyState) (f : Family) (code scope table : UInt64) (tId : Int64) : Prop :=
  ∃ (rows : List f.Row) (handles : List Int32) (last : Int32) (s' : ApplyState),
    rows.Pairwise f.Before ∧ (∀ row, row ∈ rows ↔ s.HoldsRow f tId row) ∧
      s.Toured s' f code scope table rows handles last ∧
        ∀ primary, (dbNext f last primary s').1 = .ok (-1, primary)

variable {s : ApplyState} {f : Family} {code scope table : UInt64} {tId : Int64}

theorem exists_toured (sound : (s.contract.rows f).table.Sound) (lawful : (s.caches f).Lawful)
    (resolved : resolveTId s.contract.tables code scope table = some tId)
    (room : s.HasRoom f tId) (numbers : ∀ row, s.HoldsRow f tId row → f.IsNumber row) :
    ∃ (rows : List f.Row) (handles : List Int32) (last : Int32) (s' : ApplyState),
      rows.Pairwise f.Before ∧ (∀ row, row ∈ rows ↔ s.HoldsRow f tId row) ∧
        s.Toured s' f code scope table rows handles last ∧ last < -1 := by
  obtain ⟨listing, walks⟩ := ContractDb.exists_walks f sound resolved
    fun n row live inside => numbers row ⟨⟨n, live⟩, inside⟩
  have sorted : listing.Pairwise f.Before := walks.sorted
  have distinct : listing.Nodup := by
    apply sorted.imp
    intro a b before same
    subst same
    rcases before with less | ⟨_, less⟩
    · exact lt_irrefl _ less
    · exact UInt64.lt_irrefl _ less
  have fits := room.rows listing distinct fun row member => (walks.mem_iff row).mp member
  obtain ⟨handles, last, c', walked, there⟩ :=
    forward_walked walks resolved lawful fits room.ends
  rw [s.withCache_self f] at there
  have visited := walked.rows
  have below := (walked.lawful.end_of_known walked.room walked.ends).1
  refine ⟨listing, handles, last, s.withCache f c', sorted, walks.mem_iff, ⟨there, ?_, ?_, ?_⟩, below⟩
  · rw [caches_withCache]
    exact visited
  · exact dbEnd_run resolved walked.ends
  · exact backward_walked walks walked

theorem Reached.sound (reached : s.Reached) (f : Family) : (s.contract.rows f).table.Sound := by
  obtain ⟨ops, built⟩ := reached.contract
  rw [built]
  exact (ContractDb.sound_run ops).rows f

theorem Reached.lawful (reached : s.Reached) (f : Family) : (s.caches f).Lawful := by
  obtain ⟨history, filled⟩ := reached.caches f
  rw [filled]
  exact ArenaIteratorCache.lawful_empty.run history

/-- Walking the same table twice from one state reports the same. -/
theorem Toured.unique {s₁ s₂ : ApplyState} {rows₁ rows₂ : List f.Row} {handles₁ handles₂ : List Int32}
    {last₁ last₂ : Int32} (one : s.Toured s₁ f code scope table rows₁ handles₁ last₁)
    (two : s.Toured s₂ f code scope table rows₂ handles₂ last₂) : last₁ = last₂ ∧ s₁ = s₂ := by
  have first := one.forward (rows₁.length + rows₂.length) (by omega)
  have second := two.forward (rows₁.length + rows₂.length) (by omega)
  rw [first] at second
  obtain ⟨reports, states⟩ := Prod.mk.inj second
  exact ⟨(Prod.mk.inj (Except.ok.inj reports)).2, states⟩

/-- On contract rows the end iterator is its own successor. -/
theorem not_exhaustive_primary (reached : s.Reached)
    (resolved : resolveTId s.contract.tables code scope table = some tId)
    (room : s.HasRoom .primary tId) : ¬s.Exhaustive .primary code scope table tId := by
  obtain ⟨_, _, last, s₁, _, _, toured, below⟩ := exists_toured (reached.sound .primary)
    (reached.lawful .primary) resolved room fun _ _ => trivial
  intro ⟨_, _, _, _, _, _, other, past⟩
  obtain ⟨rfl, rfl⟩ := toured.unique other
  have report := past 0
  rw [dbNext_end .primary s₁ below 0, if_pos rfl] at report
  have stays : last = -1 := (Prod.mk.inj (Except.ok.inj report)).1
  rw [stays] at below
  exact absurd below (by decide)

/-- Iteration over a table is exhaustive in the five secondary indices and fails on
contract rows, where `next` stays on the end iterator. -/
theorem exhaustive_iff (reached : s.Reached)
    (resolved : resolveTId s.contract.tables code scope table = some tId)
    (room : s.HasRoom f tId) (numbers : ∀ row, s.HoldsRow f tId row → f.IsNumber row) :
    s.Exhaustive f code scope table tId ↔ f ≠ .primary := by
  constructor
  · intro exhaustive primary
    subst primary
    exact not_exhaustive_primary reached resolved room exhaustive
  · intro index
    obtain ⟨rows, handles, last, s', sorted, all, toured, below⟩ := exists_toured (reached.sound f)
      (reached.lawful f) resolved room numbers
    refine ⟨rows, handles, last, s', sorted, all, toured, fun primary => ?_⟩
    rw [dbNext_end f s' below primary, if_neg index]

theorem length_le_len (sound : (s.contract.rows f).table.Sound) {rows : List f.Row}
    (distinct : rows.Nodup) (held : ∀ row ∈ rows, s.HoldsRow f tId row) :
    rows.length ≤ (s.contract.rows f).table.primary.slab.len := by
  have ids : (rows.map ArenaObject.id).Nodup := by
    apply distinct.map_on
    intro a memberA b memberB same
    obtain ⟨⟨n, liveA⟩, _⟩ := held a memberA
    obtain ⟨⟨m, liveB⟩, _⟩ := held b memberB
    rw [sound.named liveA, sound.named liveB] at same
    obtain rfl := Int.ofNat.inj same
    exact Option.some.inj (liveA.symm.trans liveB)
  have listed : rows.map ArenaObject.id ⊆
      (List.range (s.contract.rows f).table.primary.slab.len).map Int.ofNat := by
    intro id member
    obtain ⟨row, rowMember, rfl⟩ := mem_map.mp member
    obtain ⟨⟨n, live⟩, _⟩ := held row rowMember
    have inside : n < (s.contract.rows f).table.primary.slab.len := by
      by_contra past
      have empty := (s.contract.rows f).table.primary.slab.get_past n (not_lt.mp past)
      have held : (s.contract.rows f).table.primary.slab.get n = some row := live
      rw [empty] at held
      cases held
    exact mem_map.mpr ⟨n, mem_range.mpr inside, (sound.named live).symm⟩
  have short := (ids.subperm listed).length_le
  simpa using short

theorem hasRoom_of_len (sound : (s.contract.rows f).table.Sound)
    (rows : (s.caches f).iterToRow.length + (s.contract.rows f).table.primary.slab.len ≤ 2 ^ 31)
    (ends : (s.caches f).endToTable.length + 3 < 2 ^ 31) (tId : Int64) : s.HasRoom f tId where
  rows _ distinct held := by
    have short := length_le_len sound distinct held
    omega
  ends := ends

/-- A fresh context on the database that calls build. -/
def onRun (ops : List ContractOp) : ApplyState :=
  .enter (ContractDb.new.run ops) .new (fun _ => none) 0

theorem reached_onRun (ops : List ContractOp) : (onRun ops).Reached :=
  ⟨⟨ops, rfl⟩, fun _ => ⟨[], rfl⟩⟩

/-- Three rows of an index, two of them under one secondary key, and a row of another
table. -/
def pairs : List ContractOp :=
  [.create .idx64 1 1 1 1 7 (5 : UInt64), .create .idx64 1 1 1 1 3 (5 : UInt64),
    .create .idx64 1 1 2 1 9 (4 : UInt64), .create .idx64 1 1 1 1 8 (2 : UInt64)]

theorem exhaustive_iff_pairs :
    resolveTId (onRun pairs).contract.tables 1 1 1 = some 0 ∧
      ((onRun pairs).Exhaustive .idx64 1 1 1 0 ↔ Family.idx64 ≠ .primary) := by
  have resolved : resolveTId (onRun pairs).contract.tables 1 1 1 = some 0 := by decide +kernel
  have room : (onRun pairs).HasRoom .idx64 0 := by
    apply hasRoom_of_len ((reached_onRun pairs).sound .idx64)
    · decide +kernel
    · decide +kernel
  exact ⟨resolved, exhaustive_iff (reached_onRun pairs) resolved room fun _ _ => trivial⟩

/-- One contract row. -/
def lone : List ContractOp := [.create .primary 1 1 1 1 7 ([1, 2] : Bytes)]

/-- The walk over one contract row ends at its end iterator, and `next` from there returns
the same iterator again. -/
theorem lone_not_exhaustive :
    (forward .primary 1 1 1 1 (onRun lone)).1 = .ok ([0], -2) ∧
      (dbNextI64 (-2) 0 (forward .primary 1 1 1 1 (onRun lone)).2).1 =
        .ok (-2, 0) ∧
      ¬(onRun lone).Exhaustive .primary 1 1 1 0 := by
  have resolved : resolveTId (onRun lone).contract.tables 1 1 1 = some 0 := by decide +kernel
  have room : (onRun lone).HasRoom .primary 0 := by
    apply hasRoom_of_len ((reached_onRun lone).sound .primary)
    · decide +kernel
    · decide +kernel
  refine ⟨by decide +kernel, by decide +kernel, ?_⟩
  exact not_exhaustive_primary (reached_onRun lone) resolved room

end ApplyState

end PulseVM.Chain
