import PulseVM.ChainDb.Positions

/-!
The rows of one contract table in the order of an index, and the positioning reads as
searches among them.
-/

namespace PulseVM.ChainDb
open Arena Lib.Encoding Lib.Cursors
open ArenaObject hiding id
open ContractRow hiding tId

/-- An index that orders rows by their table, then by a rank and then by primary key. -/
class TableOrder {T : Type} [ArenaObject T] [ContractRow T] (decl : IndexedBy T) where
  table : decl.Key → Int64
  rank : decl.Key → Int
  primary : decl.Key → UInt64
  cmp_eq : ∀ a b, decl.cmp a b = (compare (table a).toInt (table b).toInt).then
    ((compare (rank a) (rank b)).then (compare (primary a).toNat (primary b).toNat)) := by intros; rfl
  table_key : ∀ row, table (decl.key row) = ContractRow.tId row := by intros; rfl
  primary_key : ∀ row, primary (decl.key row) = primaryKey row := by intros; rfl

namespace TableOrder

variable {T : Type} [ArenaObject T] [ContractRow T] {decl : IndexedBy T} [TableOrder decl]
  {a b : decl.Key}

theorem alike_iff :
    decl.cmp a b = .eq ↔ table a = table b ∧ rank a = rank b ∧ primary a = primary b := by
  rw [cmp_eq, Ordering.then_eq_eq, Ordering.then_eq_eq, compare_eq_iff_eq, compare_eq_iff_eq,
    compare_eq_iff_eq, Int64.toInt_inj, UInt64.toNat_inj]

theorem before_iff :
    decl.cmp a b = .lt ↔ (table a).toInt < (table b).toInt ∨ (table a = table b ∧
      (rank a < rank b ∨ rank a = rank b ∧ (primary a).toNat < (primary b).toNat)) := by
  rw [cmp_eq, Ordering.then_eq_lt, Ordering.then_eq_lt, compare_lt_iff_lt, compare_eq_iff_eq,
    compare_lt_iff_lt, compare_eq_iff_eq, compare_lt_iff_lt, Int64.toInt_inj]

theorem notAfter_iff :
    (decl.cmp a b).isLE = true ↔ (table a).toInt < (table b).toInt ∨ (table a = table b ∧
      (rank a < rank b ∨ rank a = rank b ∧ (primary a).toNat ≤ (primary b).toNat)) := by
  rw [Ordering.isLE_iff_eq_lt_or_eq_eq, before_iff, alike_iff, ← UInt64.toNat_inj]
  constructor
  · intro le
    rcases le with (first | ⟨same, second | ⟨equal, third⟩⟩) | ⟨same, equal, third⟩
    · exact .inl first
    · exact .inr ⟨same, .inl second⟩
    · exact .inr ⟨same, .inr ⟨equal, third.le⟩⟩
    · exact .inr ⟨same, .inr ⟨equal, third.le⟩⟩
  · intro le
    rcases le with first | ⟨same, second | ⟨equal, third⟩⟩
    · exact .inl (.inl first)
    · exact .inl (.inr ⟨same, .inl second⟩)
    · rcases third.lt_or_eq with less | same'
      · exact .inl (.inr ⟨same, .inr ⟨equal, less⟩⟩)
      · exact .inr ⟨same, equal, same'⟩

theorem table_le_of_notAfter (le : (decl.cmp a b).isLE = true) :
    (table a).toInt ≤ (table b).toInt := by
  rcases notAfter_iff.mp le with less | ⟨same, _⟩
  · exact less.le
  · rw [same]

theorem table_of_matches {row : T} {k : decl.Key} (same : decl.Matches row k) :
    table k = ContractRow.tId row :=
  (alike_iff.mp same).1.symm.trans (table_key row)

end TableOrder

section Listed

variable {T : Type} [ArenaObject T] (rows : Registered T) (decl : IndexedBy T)
  [DeclaredIndex T decl]

def listed : List T := (rows.index decl).toList.filterMap fun e => rows.table.find e.2

variable {rows decl}

theorem listed_matches (decl : IndexedBy T) [DeclaredIndex T decl] (sound : rows.table.Sound) :
    List.Forall₂ (fun (e : decl.Key × Int) row => decl.Matches row e.1)
      (rows.index decl).toList (listed rows decl) := by
  apply forall₂_filterMap
  intro e member
  obtain ⟨n, row, named, live, same⟩ :=
    IndexedBy.Exact.entry (Registered.index_exact sound) member
  exact ⟨row, by rw [named]; exact live, same⟩

theorem mem_listed (sound : rows.table.Sound) {row : T} :
    row ∈ listed rows decl ↔ ∃ n, rows.table.primary.get n = some row := by
  have exact : IndexedBy.Exact (rows.index decl) rows.table.primary.get :=
    Registered.index_exact sound
  unfold listed
  rw [List.mem_filterMap]
  constructor
  · intro ⟨e, member, found⟩
    obtain ⟨n, other, named, _, _⟩ := exact.entry member
    rw [named] at found
    exact ⟨n, found⟩
  · intro ⟨n, live⟩
    obtain ⟨e, member, named⟩ := List.mem_map.mp (exact.listed live)
    exact ⟨e, member, by rw [named]; exact live⟩

theorem listed_sorted (decl : IndexedBy T) [DeclaredIndex T decl] (sound : rows.table.Sound) :
    (listed rows decl).Pairwise fun a b => decl.cmp (decl.key a) (decl.key b) = .lt := by
  have exact : IndexedBy.Exact (rows.index decl) rows.table.primary.get :=
    Registered.index_exact sound
  unfold listed
  rw [List.pairwise_filterMap]
  apply (Std.ExtTreeMap.ordered_keys_toList (t := rows.index decl)).imp_of_mem
  intro first second memberFirst memberSecond before a foundA b foundB
  obtain ⟨n, _, namedA, liveA, sameA⟩ := exact.entry memberFirst
  obtain ⟨m, _, namedB, liveB, sameB⟩ := exact.entry memberSecond
  rw [namedA] at foundA
  rw [namedB] at foundB
  obtain rfl := Option.some.inj (liveA.symm.trans foundA)
  obtain rfl := Option.some.inj (liveB.symm.trans foundB)
  rw [Std.TransCmp.congr_left sameA, Std.TransCmp.congr_right sameB]
  exact before

omit [ArenaObject T] [DeclaredIndex T decl] in
theorem rel_map_fst {hit : Option (decl.Key × Int)} {found : Option T}
    (related : Option.Rel (fun e row => decl.Matches row e.1) hit found) :
    Option.Rel (fun k row => decl.Matches row k) (hit.map Prod.fst) found := by
  cases related with
  | none => exact .none
  | some same => exact .some same

/-- The first key in a range belongs to the first row whose key lies in it. -/
theorem firstIn_rel (sound : rows.table.Sound) (lower upper : Bound decl.Key) :
    Option.Rel (fun k row => decl.Matches row k) (firstIn rows decl lower upper)
      ((listed rows decl).find? fun row => Bound.within decl.cmp lower upper (decl.key row)) := by
  apply rel_map_fst
  apply rel_find? (listed_matches decl sound)
  intro e row same
  exact (Bound.within_congr same).symm

theorem lastIn_rel (sound : rows.table.Sound) (lower upper : Bound decl.Key) :
    Option.Rel (fun k row => decl.Matches row k) (lastIn rows decl lower upper)
      ((listed rows decl).reverse.find? fun row =>
        Bound.within decl.cmp lower upper (decl.key row)) := by
  apply rel_map_fst
  apply rel_find? (List.rel_reverse (listed_matches decl sound))
  intro e row same
  exact (Bound.within_congr same).symm

end Listed

section TableRows

variable {T : Type} [ArenaObject T] [ContractRow T] (rows : Registered T) (decl : IndexedBy T)
  [DeclaredIndex T decl]

def tableRows (tId : Int64) : List T :=
  (listed rows decl).filter fun row => ContractRow.tId row = tId

variable {rows decl} {tId : Int64}

theorem mem_tableRows (sound : rows.table.Sound) {row : T} :
    row ∈ tableRows rows decl tId ↔
      (∃ n, rows.table.primary.get n = some row) ∧ ContractRow.tId row = tId := by
  unfold tableRows
  rw [List.mem_filter, mem_listed sound, decide_eq_true_iff]

theorem tableRows_sorted (decl : IndexedBy T) [DeclaredIndex T decl] (tId : Int64)
    (sound : rows.table.Sound) :
    (tableRows rows decl tId).Pairwise fun a b => decl.cmp (decl.key a) (decl.key b) = .lt :=
  (listed_sorted decl sound).filter _

variable [TableOrder decl]

open TableOrder

omit [DeclaredIndex T decl] in
theorem map_primary_of_rel {hit : Option decl.Key} {found : Option T}
    (related : Option.Rel (fun k row => decl.Matches row k) hit found) :
    hit.map primary = found.map primaryKey := by
  cases related with
  | none => rfl
  | some same => exact congrArg some ((alike_iff.mp same).2.2.symm.trans (primary_key _))

omit [DeclaredIndex T decl] in
theorem filter_table_of_rel {hit : Option decl.Key} {found : Option T}
    (related : Option.Rel (fun k row => decl.Matches row k) hit found) :
    Option.Rel (fun k row => decl.Matches row k) (hit.filter fun k => table k = tId)
      (found.filter fun row => ContractRow.tId row = tId) := by
  cases related with
  | none => exact .none
  | some same =>
    rename_i k row
    have here : table k = ContractRow.tId row := table_of_matches same
    by_cases inside : ContractRow.tId row = tId
    · simpa [Option.filter, here, inside] using same
    · simp [Option.filter, here, inside]

/-- The range begins in the table or behind it. -/
def Onward (decl : IndexedBy T) (tId : Int64) (lower : Bound decl.Key) : Prop :=
  ∀ row : T, lower.below decl.cmp (decl.key row) = true → tId.toInt ≤ (ContractRow.tId row).toInt

/-- The range ends in the table or before it. -/
def UpTo (decl : IndexedBy T) (tId : Int64) (upper : Bound decl.Key) : Prop :=
  ∀ row : T, upper.above decl.cmp (decl.key row) = true → (ContractRow.tId row).toInt ≤ tId.toInt

section Ends

omit [DeclaredIndex T decl]

variable {k : decl.Key} (here : table k = tId)
include here

theorem onward_included : Onward decl tId (.included k) := by
  intro row reached
  have le := table_le_of_notAfter reached
  rwa [here, table_key] at le

theorem onward_excluded : Onward decl tId (.excluded k) := by
  intro row reached
  exact onward_included here row (by rw [Bound.below, eq_of_beq reached]; rfl)

theorem upTo_included : UpTo decl tId (.included k) := by
  intro row reached
  have le := table_le_of_notAfter reached
  rwa [here, table_key] at le

theorem upTo_excluded : UpTo decl tId (.excluded k) := by
  intro row reached
  exact upTo_included here row (by rw [Bound.above, eq_of_beq reached]; rfl)

end Ends

omit [DeclaredIndex T decl] in
/-- A key of the table with the least rank is not behind a row of the table. -/
theorem below_of_rank {k : decl.Key} {row : T} (here : table k = tId) (zero : primary k = 0)
    (inside : ContractRow.tId row = tId) (least : rank k ≤ rank (decl.key row)) :
    (Bound.included k).below decl.cmp (decl.key row) = true := by
  apply notAfter_iff.mpr
  rw [here, zero, table_key, inside]
  rcases least.lt_or_eq with less | same
  · exact .inr ⟨rfl, .inl less⟩
  · exact .inr ⟨rfl, .inr ⟨same, Nat.zero_le _⟩⟩

omit [DeclaredIndex T decl] in
/-- A key of the table with the greatest rank is not before a row of the table. -/
theorem above_of_rank {k : decl.Key} {row : T} (here : table k = tId) (top : primary k = maxU64)
    (inside : ContractRow.tId row = tId) (greatest : rank (decl.key row) ≤ rank k) :
    (Bound.included k).above decl.cmp (decl.key row) = true := by
  apply notAfter_iff.mpr
  rw [here, top, table_key, inside]
  have small : (primary (decl.key row)).toNat ≤ maxU64.toNat := by
    have bound := (primary (decl.key row)).toNat_lt
    have value : maxU64.toNat = 2 ^ 64 - 1 := rfl
    omega
  rcases greatest.lt_or_eq with less | same
  · exact .inr ⟨rfl, .inl less⟩
  · exact .inr ⟨rfl, .inr ⟨same, small⟩⟩

/-- No row of the table is before the lower end. -/
def Bottom (decl : IndexedBy T) (tId : Int64) (lower : Bound decl.Key) : Prop :=
  ∀ row : T, ContractRow.tId row = tId → lower.below decl.cmp (decl.key row) = true

/-- No row of the table is behind the upper end. -/
def Top (decl : IndexedBy T) (tId : Int64) (upper : Bound decl.Key) : Prop :=
  ∀ row : T, ContractRow.tId row = tId → upper.above decl.cmp (decl.key row) = true

section Ranges

variable {lower upper : Bound decl.Key}

omit [DeclaredIndex T decl] [TableOrder decl] in
theorem bottom_unbounded : Bottom decl tId .unbounded := fun _ _ => rfl

omit [DeclaredIndex T decl] [TableOrder decl] in
theorem top_unbounded : Top decl tId .unbounded := fun _ _ => rfl

omit [TableOrder decl] in
theorem below_mem (sound : rows.table.Sound) (bottom : Bottom decl tId lower) :
    ∀ row ∈ tableRows rows decl tId, lower.below decl.cmp (decl.key row) = true :=
  fun row member => bottom row ((mem_tableRows sound).mp member).2

omit [TableOrder decl] in
theorem above_mem (sound : rows.table.Sound) (top : Top decl tId upper) :
    ∀ row ∈ tableRows rows decl tId, upper.above decl.cmp (decl.key row) = true :=
  fun row member => top row ((mem_tableRows sound).mp member).2

theorem listed_by_table (decl : IndexedBy T) [DeclaredIndex T decl] [TableOrder decl]
    (sound : rows.table.Sound) :
    (listed rows decl).Pairwise fun a b =>
      (ContractRow.tId a).toInt ≤ (ContractRow.tId b).toInt := by
  apply (listed_sorted decl sound).imp
  intro a b before
  have le : (table (decl.key a)).toInt ≤ (table (decl.key b)).toInt :=
    table_le_of_notAfter (by rw [before]; rfl)
  rwa [table_key, table_key] at le

/-- The first hit from a place in the table on, if it stayed in the table. The range may run
on behind the table. -/
theorem firstIn_table (sound : rows.table.Sound) (onward : Onward decl tId lower)
    (top : Top decl tId upper) :
    ((firstIn rows decl lower upper).filter fun k => table k = tId).map primary =
      ((tableRows rows decl tId).find? fun row => lower.below decl.cmp (decl.key row)).map
        primaryKey := by
  rw [map_primary_of_rel (filter_table_of_rel (firstIn_rel sound lower upper)),
    find?_filter_of_later]
  · congr 1
    apply List.find?_congr
    intro row member
    rw [Bound.within, above_mem sound top row member, Bool.and_true]
  · apply (listed_by_table decl sound).imp
    intro a b ordered inRange inside
    rw [decide_eq_true_iff] at inside ⊢
    rw [inside] at ordered
    exact Int64.toInt_inj.mp
      (le_antisymm ordered (onward a (Bool.and_eq_true_iff.mp inRange).1))

theorem lastIn_table (sound : rows.table.Sound) (upTo : UpTo decl tId upper)
    (bottom : Bottom decl tId lower) :
    ((lastIn rows decl lower upper).filter fun k => table k = tId).map primary =
      ((tableRows rows decl tId).reverse.find? fun row => upper.above decl.cmp (decl.key row)).map
        primaryKey := by
  rw [map_primary_of_rel (filter_table_of_rel (lastIn_rel sound lower upper)),
    find?_filter_of_later, List.filter_reverse]
  · congr 1
    apply List.find?_congr
    intro row member
    rw [Bound.within, below_mem sound bottom row (List.mem_reverse.mp member), Bool.true_and]
  · rw [List.pairwise_reverse]
    apply (listed_by_table decl sound).imp
    intro a b ordered inRange inside
    rw [decide_eq_true_iff] at inside ⊢
    rw [inside] at ordered
    exact Int64.toInt_inj.mp
      (le_antisymm (upTo b (Bool.and_eq_true_iff.mp inRange).2) ordered)

omit [DeclaredIndex T decl] in
theorem filter_inside (onward : Onward decl tId lower) (upTo : UpTo decl tId upper)
    {hit : Option decl.Key} {found : Option T}
    (related : Option.Rel (fun k row => decl.Matches row k) hit found)
    (inRange : ∀ row, found = some row → Bound.within decl.cmp lower upper (decl.key row) = true) :
    hit.filter (fun k => table k = tId) = hit := by
  cases related with
  | none => rfl
  | some same =>
    obtain ⟨afterLower, beforeUpper⟩ := Bool.and_eq_true_iff.mp (inRange _ rfl)
    have inside : ContractRow.tId _ = tId :=
      Int64.toInt_inj.mp (le_antisymm (upTo _ beforeUpper) (onward _ afterLower))
    simp [Option.filter, table_of_matches same, inside]

theorem firstIn_inside (sound : rows.table.Sound) (onward : Onward decl tId lower)
    (upTo : UpTo decl tId upper) :
    (firstIn rows decl lower upper).map primary =
      ((firstIn rows decl lower upper).filter fun k => table k = tId).map primary := by
  rw [filter_inside onward upTo (firstIn_rel sound lower upper)]
  intro row found
  simpa using List.find?_some found

theorem lastIn_inside (sound : rows.table.Sound) (onward : Onward decl tId lower)
    (upTo : UpTo decl tId upper) :
    (lastIn rows decl lower upper).map primary =
      ((lastIn rows decl lower upper).filter fun k => table k = tId).map primary := by
  rw [filter_inside onward upTo (lastIn_rel sound lower upper)]
  intro row found
  simpa using List.find?_some found

end Ranges

end TableRows

/-- The reads of a table go from one of its rows to the next. -/
structure Neighbours {T : Type} [ArenaObject T] [ContractRow T] (rows : List T)
    (first last : Option UInt64) (next previous : UInt64 → Option UInt64) : Prop where
  first : first = rows.head?.map primaryKey
  last : last = rows.getLast?.map primaryKey
  next : ∀ before row after, rows = before ++ row :: after →
    next (primaryKey row) = after.head?.map primaryKey
  previous : ∀ before row after, rows = before ++ row :: after →
    previous (primaryKey row) = before.getLast?.map primaryKey

section Steps

variable {T : Type} [ArenaObject T] [ContractRow T] {rows : Registered T} {decl : IndexedBy T}
  [DeclaredIndex T decl] {tId : Int64} {row : T} {before after : List T}
  {lower upper : Bound decl.Key}

theorem findBy_of_split [LawfulContractRow T] (sound : rows.table.Sound)
    (split : tableRows rows decl tId = before ++ row :: after) :
    ContractRow.tId row = tId ∧
      rows.findBy (byPrimary T) (tId, primaryKey row) = some row := by
  have member : row ∈ tableRows rows decl tId := by simp [split]
  obtain ⟨⟨n, live⟩, inside⟩ := (mem_tableRows sound).mp member
  refine ⟨inside, (Registered.findBy_eq_some_iff sound).mpr ⟨n, live, ?_⟩⟩
  exact matches_iff.mpr ⟨inside, rfl⟩

variable [TableOrder decl]

open TableOrder

theorem table_of_split (sound : rows.table.Sound)
    (split : tableRows rows decl tId = before ++ row :: after) : table (decl.key row) = tId := by
  have member : row ∈ tableRows rows decl tId := by simp [split]
  exact (table_key row).trans ((mem_tableRows sound).mp member).2

theorem firstIn_head (sound : rows.table.Sound) (onward : Onward decl tId lower)
    (top : Top decl tId upper)
    (bottom : ∀ row ∈ tableRows rows decl tId, lower.below decl.cmp (decl.key row) = true) :
    ((firstIn rows decl lower upper).filter fun k => table k = tId).map primary =
      (tableRows rows decl tId).head?.map primaryKey := by
  rw [firstIn_table sound onward top, find?_of_forall bottom]

theorem lastIn_last (sound : rows.table.Sound) (upTo : UpTo decl tId upper)
    (bottom : Bottom decl tId lower)
    (top : ∀ row ∈ tableRows rows decl tId, upper.above decl.cmp (decl.key row) = true) :
    ((lastIn rows decl lower upper).filter fun k => table k = tId).map primary =
      (tableRows rows decl tId).getLast?.map primaryKey := by
  rw [lastIn_table sound upTo bottom,
    find?_of_forall fun row member => top row (List.mem_reverse.mp member), List.head?_reverse]

theorem firstIn_next (sound : rows.table.Sound)
    (split : tableRows rows decl tId = before ++ row :: after) (top : Top decl tId upper) :
    ((firstIn rows decl (.excluded (decl.key row)) upper).filter
        fun k => table k = tId).map primary =
      after.head?.map primaryKey := by
  have sorted := tableRows_sorted decl tId sound
  rw [firstIn_table sound (onward_excluded (table_of_split sound split)) top]
  rw [split] at sorted ⊢
  exact congrArg _ (find?_after sorted Std.ReflCmp.compare_self)

theorem lastIn_previous (sound : rows.table.Sound)
    (split : tableRows rows decl tId = before ++ row :: after) (bottom : Bottom decl tId lower) :
    ((lastIn rows decl lower (.excluded (decl.key row))).filter
        fun k => table k = tId).map primary =
      before.getLast?.map primaryKey := by
  have sorted := tableRows_sorted decl tId sound
  rw [lastIn_table sound (upTo_excluded (table_of_split sound split)) bottom]
  rw [split] at sorted ⊢
  exact congrArg _ (find?_before sorted Std.ReflCmp.compare_self)

end Steps

/-! The six families. -/

instance {T : Type} [ArenaObject T] [ContractRow T] : TableOrder (byPrimary T) where
  table k := k.1
  rank _ := 0
  primary k := k.2

instance {T : Type} [ArenaObject T] [ContractRow T] [FloatRow T] :
    TableOrder (FloatRow.bySecondary T) where
  table k := k.1
  rank k := FloatRow.order k.2.1
  primary k := k.2.2

open IntegerRow in
/-- Bounds are keys of the index, a row has the key of its parts, and every key is between
the least and the greatest one. -/
class LawfulIntegerRow (T : Type) [ArenaObject T] [ContractRow T] [IntegerRow T] extends
    TableOrder (bySecondary (T := T)) where
  table_parts : ∀ k, (parts (T := T) k).1 = table k := by intros; rfl
  primary_parts : ∀ k, (parts (T := T) k).2.2 = primary k := by intros; rfl
  table_bound : ∀ tId s p, table (key (T := T) tId s p) = tId := by intros; rfl
  primary_bound : ∀ tId s p, primary (key (T := T) tId s p) = p := by intros; rfl
  key_row : ∀ row : T, key (ContractRow.tId row) (secondary row) (primaryKey row) =
    bySecondary.key row := by intros; rfl
  le_rank : ∀ tId p k, rank (key (T := T) tId least p) ≤ rank k
  rank_le : ∀ tId p k, rank k ≤ rank (key (T := T) tId greatest p)

theorem compare_natCast (a b : Nat) : compare (a : Int) (b : Int) = compare a b := by
  simp only [compare, compareOfLessAndEq, Int.ofNat_lt, Int.natCast_inj]

instance : LawfulIntegerRow ContractIndex64Row where
  table k := k.1
  rank k := k.2.1.toNat
  primary k := k.2.2
  cmp_eq a b := by
    rw [compare_natCast]
    rfl
  le_rank _ _ _ := Int.natCast_nonneg _
  rank_le _ _ k := by
    have small := k.2.1.toNat_lt
    have top : (maxU64 : UInt64).toNat = 2 ^ 64 - 1 := rfl
    simp only [IntegerRow.key, IntegerRow.greatest, top]
    omega

instance : LawfulIntegerRow ContractIndex128Row where
  table k := k.1
  rank k := k.2.1.toNat
  primary k := k.2.2
  cmp_eq a b := by
    rw [compare_natCast]
    rfl
  le_rank _ _ _ := Int.natCast_nonneg _
  rank_le _ _ k := by
    have small := k.2.1.isLt
    have top : maxU128.toNat = 2 ^ 128 - 1 := rfl
    simp only [IntegerRow.key, IntegerRow.greatest, top]
    omega

theorem compare_words (a b c d : BitVec 128) :
    compare ((a.toNat * 2 ^ 128 + b.toNat : Nat) : Int) ((c.toNat * 2 ^ 128 + d.toNat : Nat) : Int) =
      (compare a.toNat c.toNat).then (compare b.toNat d.toNat) := by
  rw [compare_natCast]
  rcases lt_trichotomy a.toNat c.toNat with less | same | more
  · have lower : a.toNat * 2 ^ 128 + b.toNat < c.toNat * 2 ^ 128 + d.toNat := by omega
    rw [compare_lt_iff_lt.mpr less, compare_lt_iff_lt.mpr lower]
    rfl
  · rw [same, compare_eq_iff_eq.mpr rfl]
    simp only [compare, compareOfLessAndEq, Nat.add_lt_add_iff_left, Nat.add_left_cancel_iff]
    rfl
  · have higher : c.toNat * 2 ^ 128 + d.toNat < a.toNat * 2 ^ 128 + b.toNat := by omega
    rw [compare_gt_iff_gt.mpr more, compare_gt_iff_gt.mpr higher]
    rfl

theorem splitKey256_joinKey256 (w0 w1 : BitVec 128) :
    splitKey256 (joinKey256 w0 w1) = (w0, w1) := by
  have fits (w : BitVec 128) : w.toNat < 256 ^ 16 := w.isLt
  have words : (joinKey256 w0 w1).toList = leBytes 16 w0.toNat ++ leBytes 16 w1.toNat := rfl
  have low : (leBytes 16 w0.toNat ++ leBytes 16 w1.toNat).take 16 = leBytes 16 w0.toNat :=
    List.take_left' (length_leBytes ..)
  have high : (leBytes 16 w0.toNat ++ leBytes 16 w1.toNat).drop 16 = leBytes 16 w1.toNat :=
    List.drop_left' (length_leBytes ..)
  unfold splitKey256
  rw [words, low, high, ofLe_leBytes 16 _ (fits w0), ofLe_leBytes 16 _ (fits w1)]
  simp

instance : LawfulIntegerRow ContractIndex256Row where
  table k := k.1
  rank k := (k.2.1.toNat * 2 ^ 128 + k.2.2.1.toNat : Nat)
  primary k := k.2.2.2
  cmp_eq a b := by
    rw [compare_words, Ordering.then_assoc]
    rfl
  le_rank _ _ _ := by
    simp only [IntegerRow.key, IntegerRow.least, splitKey256_joinKey256]
    exact Int.natCast_nonneg _
  rank_le _ _ k := by
    have small := k.2.1.isLt
    have small' := k.2.2.1.isLt
    have top : maxU128.toNat = 2 ^ 128 - 1 := rfl
    simp only [IntegerRow.key, IntegerRow.greatest, splitKey256_joinKey256, top]
    omega

namespace ContractDb

variable {db : ContractDb} {code scope table : UInt64} {tId : Int64}

theorem kv_bottom : Bottom (byPrimary ContractKeyValueRow) tId (.included (tId, 0)) :=
  fun _ inside => below_of_rank rfl rfl inside le_rfl

theorem kv_top :
    Top (byPrimary ContractKeyValueRow) tId (.included (tId, maxU64)) :=
  fun _ inside => above_of_rank rfl rfl inside le_rfl

theorem kv_onward : Onward (byPrimary ContractKeyValueRow) tId (.included (tId, 0)) :=
  onward_included rfl

theorem kv_upTo : UpTo (byPrimary ContractKeyValueRow) tId (.included (tId, maxU64)) :=
  upTo_included rfl

theorem kv_neighbours (sound : db.keyValues.table.Sound)
    (resolved : resolveTId db.tables code scope table = some tId) :
    Neighbours (tableRows db.keyValues (byPrimary ContractKeyValueRow) tId)
      (db.kvLowerBound code scope table 0) (db.kvLast code scope table)
      (db.kvUpperBound code scope table) (db.kvPrev code scope table) where
  first := by
    unfold kvLowerBound
    rw [resolved]
    exact (firstIn_inside sound kv_onward kv_upTo).trans
      (firstIn_head sound kv_onward kv_top (below_mem sound kv_bottom))
  last := by
    unfold kvLast
    rw [resolved]
    exact (lastIn_inside sound kv_onward kv_upTo).trans
      (lastIn_last sound kv_upTo kv_bottom (above_mem sound kv_top))
  next before row after split := by
    have here := onward_excluded (table_of_split sound split)
    obtain ⟨rfl, _⟩ := findBy_of_split sound split
    unfold kvUpperBound
    rw [resolved]
    exact (firstIn_inside sound here kv_upTo).trans (firstIn_next sound split kv_top)
  previous before row after split := by
    have here := upTo_excluded (table_of_split sound split)
    obtain ⟨rfl, _⟩ := findBy_of_split sound split
    unfold kvPrev
    rw [resolved]
    exact (lastIn_inside sound kv_onward here).trans (lastIn_previous sound split kv_bottom)

end ContractDb

namespace IntegerRow

variable {T : Type} [ArenaObject T] [ContractRow T] [IntegerRow T] [LawfulIntegerRow T]
  {tables : Registered ContractTableRow} {rows : Registered T} {code scope table : UInt64}
  {tId : Int64}

open LawfulIntegerRow

theorem bottom : Bottom (bySecondary (T := T)) tId (.included (key tId least 0)) :=
  fun _ inside => below_of_rank (table_bound ..) (primary_bound ..) inside (le_rank ..)

theorem top : Top (bySecondary (T := T)) tId (.included (key tId greatest maxU64)) :=
  fun _ inside => above_of_rank (table_bound ..) (primary_bound ..) inside (rank_le ..)

theorem inTable_eq (hit : Option (bySecondary (T := T)).Key) :
    inTable tId hit = (hit.filter fun k => TableOrder.table k = tId).map TableOrder.primary := by
  unfold inTable
  simp only [table_parts, primary_parts]

theorem map_landing (hit : Option (bySecondary (T := T)).Key) :
    (hit.map landing).map Prod.fst = hit.map TableOrder.primary := by
  rw [Option.map_map]
  congr 1
  funext k
  exact primary_parts k

theorem lowerBound_least (sound : rows.table.Sound)
    (resolved : resolveTId tables code scope table = some tId) :
    (lowerBound tables rows code scope table least).map Prod.fst =
      (tableRows rows (bySecondary (T := T)) tId).head?.map primaryKey := by
  unfold lowerBound
  simp only [resolved, Option.bind_eq_bind, Option.bind_some, map_landing]
  exact (firstIn_inside sound (onward_included (table_bound ..))
    (upTo_included (table_bound ..))).trans
    (firstIn_head sound (onward_included (table_bound ..)) top (below_mem sound bottom))

variable [LawfulContractRow T]

theorem neighbours_inside (sound : rows.table.Sound)
    (resolved : resolveTId tables code scope table = some tId) :
    Neighbours (tableRows rows (bySecondary (T := T)) tId)
      ((lowerBound tables rows code scope table least).map Prod.fst)
      ((lastInside tables rows code scope table).map Prod.fst)
      (fun primary => (nextInside tables rows code scope table primary).map Prod.fst)
      (fun primary => (previousInside tables rows code scope table primary).map Prod.fst) where
  first := lowerBound_least sound resolved
  last := by
    unfold lastInside
    simp only [resolved, Option.bind_eq_bind, Option.bind_some, map_landing]
    exact (lastIn_inside sound (onward_included (table_bound ..))
      (upTo_included (table_bound ..))).trans
      (lastIn_last sound (upTo_included (table_bound ..)) bottom (above_mem sound top))
  next before row after split := by
    obtain ⟨inside, found⟩ := findBy_of_split sound split
    unfold nextInside
    simp only [resolved, found, Option.bind_eq_bind, Option.bind_some, map_landing]
    rw [← inside, key_row, inside]
    exact (firstIn_inside sound (onward_excluded (table_of_split sound split))
      (upTo_included (table_bound ..))).trans (firstIn_next sound split top)
  previous before row after split := by
    obtain ⟨inside, found⟩ := findBy_of_split sound split
    unfold previousInside
    simp only [resolved, found, Option.bind_eq_bind, Option.bind_some, map_landing]
    rw [← inside, key_row, inside]
    exact (lastIn_inside sound (onward_included (table_bound ..))
      (upTo_excluded (table_of_split sound split))).trans (lastIn_previous sound split bottom)

theorem neighbours (sound : rows.table.Sound)
    (resolved : resolveTId tables code scope table = some tId) :
    Neighbours (tableRows rows (bySecondary (T := T)) tId)
      ((lowerBound tables rows code scope table least).map Prod.fst)
      (last tables rows code scope table) (next tables rows code scope table)
      (previous tables rows code scope table) where
  first := lowerBound_least sound resolved
  last := by
    unfold last
    simp only [resolved, Option.bind_eq_bind, Option.bind_some, inTable_eq]
    exact lastIn_last sound (upTo_included (table_bound ..)) bottom_unbounded (above_mem sound top)
  next before row after split := by
    obtain ⟨inside, found⟩ := findBy_of_split sound split
    unfold next
    simp only [resolved, found, Option.bind_eq_bind, Option.bind_some, inTable_eq]
    rw [← inside, key_row, inside]
    exact firstIn_next sound split top_unbounded
  previous before row after split := by
    obtain ⟨inside, found⟩ := findBy_of_split sound split
    unfold previous
    simp only [resolved, found, Option.bind_eq_bind, Option.bind_some, inTable_eq]
    rw [← inside, key_row, inside]
    exact lastIn_previous sound split bottom_unbounded

end IntegerRow

namespace FloatRow

variable {T : Type} [ArenaObject T] [ContractRow T] [LawfulContractRow T] [FloatRow T]
  [LawfulFloatRow T] {tables : Registered ContractTableRow} {rows : Registered T}
  {code scope table : UInt64} {tId : Int64} {least : Bits T}

omit [LawfulContractRow T] [LawfulFloatRow T] in
theorem inTable_eq (hit : Option ((bySecondary T).Key × Int)) :
    (inTable tId hit).map Prod.fst =
      ((hit.map Prod.fst).filter fun k => TableOrder.table k = tId).map TableOrder.primary := by
  cases hit with
  | none => rfl
  | some e =>
    obtain ⟨⟨rt, b, primary⟩, id⟩ := e
    by_cases inside : rt = tId
    · subst inside
      simp only [inTable, if_true, Option.map_some, Option.filter, TableOrder.table, decide_true]
      rfl
    · simp [inTable, Option.filter, TableOrder.table, inside]

omit [LawfulContractRow T] in
theorem inTable_firstEntry (lower : Bound (bySecondary T).Key)
    {within : (bySecondary T).Key → Bool} (same : within = lower.below (bySecondary T).cmp) :
    (inTable tId (firstEntry rows within)).map Prod.fst =
      ((firstIn rows (bySecondary T) lower .unbounded).filter fun k =>
        TableOrder.table k = tId).map TableOrder.primary := by
  rw [inTable_eq]
  unfold firstEntry firstIn
  simp only [same, Bound.within, Bound.above, Bool.and_true]

omit [LawfulContractRow T] in
theorem inTable_lastEntry (upper : Bound (bySecondary T).Key)
    {within : (bySecondary T).Key → Bool} (same : within = upper.above (bySecondary T).cmp) :
    (inTable tId (lastEntry rows within)).map Prod.fst =
      ((lastIn rows (bySecondary T) .unbounded upper).filter fun k =>
        TableOrder.table k = tId).map TableOrder.primary := by
  rw [inTable_eq]
  unfold lastEntry lastIn
  simp only [same, Bound.within, Bound.below, Bool.true_and]

theorem neighbours (sound : rows.table.Sound)
    (resolved : resolveTId tables code scope table = some tId)
    (bounded : ∀ row : T, row ∈ tableRows rows (bySecondary T) tId →
      order (T := T) least ≤ order (bits row) ∧ order (bits row) ≤ order (T := T) infinity) :
    Neighbours (tableRows rows (bySecondary T) tId)
      ((lowerBound tables rows code scope table least).map Prod.fst)
      (last tables rows code scope table) (next tables rows code scope table)
      (previous tables rows code scope table) where
  first := by
    unfold lowerBound
    simp only [resolved, Option.bind_eq_bind, Option.bind_some]
    apply (inTable_firstEntry (.included (tId, least, 0)) rfl).trans
    apply firstIn_head sound (onward_included rfl) top_unbounded
    intro row member
    exact below_of_rank rfl rfl ((mem_tableRows sound).mp member).2 (bounded row member).1
  last := by
    unfold last
    simp only [resolved, Option.bind_eq_bind, Option.bind_some]
    apply (inTable_lastEntry (.included (tId, infinity, maxU64)) rfl).trans
    apply lastIn_last sound (upTo_included rfl) bottom_unbounded
    intro row member
    exact above_of_rank rfl rfl ((mem_tableRows sound).mp member).2 (bounded row member).2
  next before row after split := by
    obtain ⟨inside, found⟩ := findBy_of_split sound split
    unfold next
    simp only [resolved, found, Option.bind_eq_bind, Option.bind_some, Option.map_some]
    apply (inTable_firstEntry (.excluded ((bySecondary T).key row)) (by rw [← inside]; rfl)).trans
    exact firstIn_next sound split top_unbounded
  previous before row after split := by
    obtain ⟨inside, found⟩ := findBy_of_split sound split
    unfold previous
    simp only [resolved, found, Option.bind_eq_bind, Option.bind_some, Option.map_some]
    apply (inTable_lastEntry (.excluded ((bySecondary T).key row)) (by rw [← inside]; rfl)).trans
    exact lastIn_previous sound split bottom_unbounded

end FloatRow

end PulseVM.ChainDb
