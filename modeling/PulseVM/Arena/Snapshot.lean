import PulseVM.Arena.Rows

/-!
Snapshots of a table: the next id, the live rows under their ids and the blob arena.
Undo states and free spans are not part of a snapshot. Loading rebuilds the indices
in one pass; a load that fails leaves behind what it had read so far.
-/

namespace PulseVM.Arena
open Lib.Encoding Lib.Undo
open ArenaObject hiding id
open List Std.ExtTreeMap

variable {T : Type}

def someRows (rows : Nat → Option T) (ids : List Nat) (n : Nat) : Option T :=
  if n ∈ ids then rows n else none

theorem someRows_append (rows : Nat → Option T) (ids : List Nat) {id : Nat} {row : T}
    (live : rows id = some row) :
    Function.update (someRows rows ids) id (some row) = someRows rows (ids ++ [id]) := by
  funext n
  rw [Function.update_apply]
  unfold someRows
  by_cases here : n = id
  · subst here
    simp [live]
  · simp [here]

theorem someRows_nil (rows : Nat → Option T) : someRows rows [] = fun _ => none := by
  funext n
  exact if_neg not_mem_nil

theorem someRows_all {rows : List (Nat × T)} {get : Nat → Option T}
    (live : ∀ n row, (n, row) ∈ rows ↔ get n = some row) :
    someRows get (rows.map Prod.fst) = get := by
  funext n
  unfold someRows
  split
  · rfl
  · next missing =>
    cases held : get n with
    | none => rfl
    | some row => exact absurd (mem_map_of_mem ((live n row).mpr held)) missing

namespace IndexedBy

variable {decl : IndexedBy T} {rows : Nat → Option T}

theorem Clashes.of_some {ids : List Nat} {n : Nat} {obj : T}
    (clashes : decl.Clashes (someRows rows ids) n obj) : decl.Clashes rows n obj := by
  obtain ⟨m, row, other, live, same⟩ := clashes
  unfold someRows at live
  split at live
  · exact ⟨m, row, other, live, same⟩
  · cases live

def enter (decl : IndexedBy T) (entries : decl.Entries) (todo : List (Nat × T)) : decl.Entries :=
  todo.foldl (fun m r => m.insert (decl.key r.2) (r.1 : Int)) entries

theorem enter_cons (entries : decl.Entries) (r : Nat × T) (rest : List (Nat × T)) :
    decl.enter entries (r :: rest) =
      decl.enter (entries.insert (decl.key r.2) (r.1 : Int)) rest := rfl

theorem size_enter_le (todo : List (Nat × T)) (entries : decl.Entries) :
    (decl.enter entries todo).size ≤ entries.size + todo.length := by
  induction todo generalizing entries with
  | nil => exact Nat.le_refl _
  | cons r rest ih =>
    have step := ih (entries.insert (decl.key r.2) (r.1 : Int))
    have one := size_insert_le (t := entries) (k := decl.key r.2) (v := (r.1 : Int))
    rw [enter_cons, length_cons]
    omega

/-- The count comes out right and the entries are exact, or two of the rows share a key. -/
theorem Exact.enter (todo : List (Nat × T)) (ids : List Nat) (entries : decl.Entries)
    (exact : Exact entries (someRows rows ids)) (live : ∀ r ∈ todo, rows r.1 = some r.2)
    (fresh : (ids ++ todo.map Prod.fst).Nodup) :
    (decl.enter entries todo).size = entries.size + todo.length ∧
      Exact (decl.enter entries todo) (someRows rows (ids ++ todo.map Prod.fst)) ∨
    (decl.enter entries todo).size ≠ entries.size + todo.length ∧
      ∃ r ∈ todo, decl.Clashes rows r.1 r.2 := by
  induction todo generalizing ids entries with
  | nil =>
    rw [map_nil, append_nil]
    exact .inl ⟨rfl, exact⟩
  | cons r rest ih =>
    have here := live r (mem_cons_self ..)
    have empty : someRows rows ids r.1 = none := if_neg fun member =>
      disjoint_of_nodup_append fresh member (mem_cons_self ..)
    have bound := size_enter_le rest (entries.insert (decl.key r.2) (r.1 : Int))
    have grown := size_insert (t := entries) (k := decl.key r.2) (v := (r.1 : Int))
    rw [enter_cons, length_cons]
    by_cases clashes : decl.Clashes (someRows rows ids) r.1 r.2
    · right
      have present : decl.key r.2 ∈ entries := by
        obtain ⟨m, row, _, other, same⟩ := clashes
        rw [mem_iff_isSome_getElem?, exact.isSome_iff]
        exact ⟨m, row, other, same⟩
      rw [if_pos (mem_iff_contains.mp present)] at grown
      exact ⟨by omega, r, mem_cons_self .., clashes.of_some⟩
    · have missing : decl.key r.2 ∉ entries := by
        rw [mem_iff_isSome_getElem?, exact.isSome_iff]
        intro ⟨m, row, other, same⟩
        refine clashes ⟨m, row, ?_, other, same⟩
        rintro rfl
        cases empty.symm.trans other
      rw [if_neg fun held => missing (mem_iff_contains.mpr held)] at grown
      have inserted := exact.insert empty clashes
      rw [someRows_append rows ids here] at inserted
      have order : ids ++ (r :: rest).map Prod.fst = ids ++ [r.1] ++ rest.map Prod.fst := by simp
      rw [order] at fresh ⊢
      obtain ⟨count, last⟩ | ⟨short, s, member, shared⟩ := ih _ _ inserted
        (fun s member => live s (mem_cons_of_mem r member)) fresh
      · exact .inl ⟨by omega, last⟩
      · exact .inr ⟨by omega, s, mem_cons_of_mem r member, shared⟩

end IndexedBy

namespace Table

/-- Rebuild the indices one after the other, stopping at the first duplicate key. -/
def buildAll (rows : List (Nat × T)) : List (KeyIndex T) → List (KeyIndex T) × Bool
  | [] => ([], true)
  | ix :: rest =>
    if (ix.bulkBuild rows).2 then
      ((ix.bulkBuild rows).1 :: (buildAll rows rest).1, (buildAll rows rest).2)
    else ((ix.bulkBuild rows).1 :: rest, false)

theorem buildAll_cases {rows : List (Nat × T)} {get : Nat → Option T}
    (live : ∀ n row, (n, row) ∈ rows ↔ get n = some row) (nodup : (rows.map Prod.fst).Nodup)
    (ixs : List (KeyIndex T)) :
    ((buildAll rows ixs).2 = true ∧
      (buildAll rows ixs).1.map KeyIndex.decl = ixs.map KeyIndex.decl ∧
      ∀ ix ∈ (buildAll rows ixs).1, ix.Exact get ∧
        ∃ blank : KeyIndex T, ix = (blank.bulkBuild rows).1) ∨
    ((buildAll rows ixs).2 = false ∧
      ∃ ix ∈ ixs, ∃ n row, get n = some row ∧ ix.decl.Clashes get n row) := by
  have listed : someRows get ([] ++ rows.map Prod.fst) = get := someRows_all live
  induction ixs with
  | nil => exact .inl ⟨rfl, rfl, fun ix member => by cases member⟩
  | cons ix rest ih =>
    have start : IndexedBy.Exact (∅ : ix.decl.Entries) (someRows get []) := by
      rw [someRows_nil]
      exact IndexedBy.exact_empty
    have entered := start.enter rows [] ∅ (fun r member => (live r.1 r.2).mp member) nodup
    rw [listed, size_empty, Nat.zero_add] at entered
    unfold buildAll
    obtain ⟨count, built⟩ | ⟨short, r, member, clashes⟩ := entered
    · have flag : (ix.bulkBuild rows).2 = true := decide_eq_true count
      rw [if_pos flag]
      obtain ⟨good, decls, exact⟩ | ⟨bad, other, member, shared⟩ := ih
      · refine .inl ⟨good, congrArg (ix.decl :: ·) decls, fun other member => ?_⟩
        rcases mem_cons.mp member with rfl | later
        · exact ⟨built, ix, rfl⟩
        · exact exact other later
      · exact .inr ⟨bad, other, mem_cons_of_mem ix member, shared⟩
    · have flag : ¬(ix.bulkBuild rows).2 = true := fun flag => short (of_decide_eq_true flag)
      rw [if_neg flag]
      exact .inr ⟨rfl, ix, mem_cons_self .., r.1, r.2, (live r.1 r.2).mp member, clashes⟩

/-- Append the arena of a snapshot or delta, which ends the record. -/
def loadBlobs (tooShort trailing : String) (t : Table T) (bytes : Bytes) :
    Except TableError Unit × Table T :=
  match readNat 8 bytes with
  | none => (.error (.corrupted "snapshot truncated"), t)
  | some (blobLen, bytes) =>
    match takeExact blobLen bytes with
    | none => (.error (.corrupted tooShort), t)
    | some (arena, rest) =>
      if rest ≠ [] then (.error (.corrupted trailing), { t with blobs := t.blobs ++ arena })
      else
        (.ok (), { t with
          blobs := t.blobs ++ arena
          flushedBlobLen := (t.blobs ++ arena).length })

theorem loadBlobs_packed {tooShort trailing : String} (t : Table T) {arena : Bytes}
    (small : arena.length < 2 ^ 64) :
    t.loadBlobs tooShort trailing (leBytes 8 arena.length ++ arena) =
      (.ok (), { t with
        blobs := t.blobs ++ arena
        flushedBlobLen := (t.blobs ++ arena).length }) := by
  have whole : takeExact arena.length arena = some (arena, []) := by
    have split := takeExact_append arena []
    rwa [append_nil] at split
  unfold loadBlobs
  rw [readNat_append small]
  dsimp only
  rw [whole]
  exact if_neg (not_not.mpr rfl)

variable {t u : Table T}

theorem loadBlobs_ok {tooShort trailing : String} {bytes : Bytes}
    (read : t.loadBlobs tooShort trailing bytes = (.ok (), u)) :
    ∃ arena, u = { t with blobs := arena, flushedBlobLen := arena.length } := by
  unfold loadBlobs at read
  split at read
  · cases read
  · split at read
    · cases read
    · next arena _ _ =>
      split at read
      · cases read
      · cases read
        exact ⟨t.blobs ++ arena, rfl⟩

/-- Rows read so far: stored in the table, listed once and counted. -/
structure Reading (nextId : Nat) (rows : List (Nat × T)) (t : Table T) : Prop where
  len : t.primary.len = nextId
  listed : ∀ n row, (n, row) ∈ rows ↔ t.primary.get n = some row
  nodup : (rows.map Prod.fst).Nodup
  counted : t.rowCount = rows.length

theorem Reading.store {nextId id : Nat} {rows : List (Nat × T)} {obj : T}
    (reading : Reading nextId rows t) (inside : id < nextId) (empty : t.primary.get id = none) :
    Reading nextId (rows ++ [(id, obj)])
      { t with primary := (t.primary.insert id obj).1, rowCount := t.rowCount + 1 } := by
  have room : id < t.primary.len := by
    rw [reading.len]
    exact inside
  have absent : ∀ row, (id, row) ∉ rows := by
    intro row member
    have held := (reading.listed id row).mp member
    rw [empty] at held
    cases held
  exact
    { len := (t.primary.len_insert id obj).trans reading.len
      listed := by
        intro n row
        rw [mem_append, mem_singleton, reading.listed, PagedPrimary.get_insert _ room]
        by_cases here : n = id
        · subst here
          rw [if_pos rfl, empty]
          simp [eq_comm]
        · rw [if_neg here]
          simp [here]
      nodup := by
        rw [map_append, nodup_append]
        refine ⟨reading.nodup, pairwise_singleton _ _, ?_⟩
        intro a memberA b memberB same
        obtain ⟨⟨n, row⟩, member, rfl⟩ := mem_map.mp memberA
        have here : b = id := mem_singleton.mp memberB
        exact absent row (by rw [← here, ← same]; exact member)
      counted := by
        rw [length_append, reading.counted]
        rfl }

end Table

variable [ArenaObject T]

def packRow (row : Nat × T) : Bytes := leBytes 8 row.1 ++ asBytes row.2

namespace Table

/-- What the state hash of a table covers. -/
def hashState (t : Table T) : Bytes :=
  leBytes 8 t.rowCount ++ (t.primary.iterWithIds.flatMap packRow ++
    (leBytes 8 t.blobs.length ++ t.blobs))

def packInto (t : Table T) : Bytes := leBytes 8 t.nextId ++ t.hashState

def readRow (bytes : Bytes) : Except TableError ((Nat × T) × Bytes) :=
  match readNat 8 bytes with
  | none => .error (.corrupted "snapshot truncated")
  | some (id, bytes) =>
    match takeExact (size T) bytes with
    | none => .error (.corrupted "row extends past snapshot")
    | some (row, bytes) =>
      match readFromBytes (T := T) row with
      | none => .error (.corrupted "row bytes do not decode")
      | some obj => .ok ((id, obj), bytes)

/-- Read `live` rows and store each under its id, collecting them for the indices. -/
def loadRows (nextId : Nat) : Nat → Bytes → List (Nat × T) → Table T →
    Except TableError (List (Nat × T) × Bytes) × Table T
  | 0, bytes, rows, t => (.ok (rows, bytes), t)
  | live + 1, bytes, rows, t =>
    match readRow (T := T) bytes with
    | .error e => (.error e, t)
    | .ok ((id, obj), bytes) =>
      if nextId ≤ id ∨ (t.primary.get id).isSome then
        (.error (.corrupted "row id out of range or duplicated"), t)
      else
        loadRows nextId live bytes (rows ++ [(id, obj)])
          { t with primary := (t.primary.insert id obj).1, rowCount := t.rowCount + 1 }

/-- Restore rows written by `packInto` into this freshly registered table. -/
def loadFrom (t : Table T) (bytes : Bytes) : Except TableError Unit × Table T :=
  match readNat 8 bytes with
  | none => (.error (.corrupted "snapshot truncated"), t)
  | some (nextId, bytes) =>
    match readNat 8 bytes with
    | none => (.error (.corrupted "snapshot truncated"), t)
    | some (live, bytes) =>
      match loadRows nextId live bytes [] { t with primary := t.primary.setLen nextId } with
      | (.error e, t) => (.error e, t)
      | (.ok (rows, bytes), t) =>
        if (buildAll rows t.secondaries).2 then
          loadBlobs "blob arena extends past snapshot" "trailing bytes in table snapshot"
            { t with secondaries := (buildAll rows t.secondaries).1 } bytes
        else
          (.error (.corrupted "duplicate secondary key in snapshot"),
            { t with secondaries := (buildAll rows t.secondaries).1 })

/-- Ids and lengths that the fixed-width fields of a record can hold. -/
structure Fits (t : Table T) : Prop where
  ids : t.nextId ≤ 2 ^ 63
  arena : t.blobs.length < 2 ^ 64

variable {t u : Table T}

theorem packRow_read (r : Nat × T) (rest : Bytes) (small : r.1 < 2 ^ 64)
    (low : 0 ≤ ArenaObject.id r.2) (high : ArenaObject.id r.2 < 2 ^ 63) :
    readRow (packRow r ++ rest) = .ok (r, rest) := by
  unfold readRow packRow
  rw [append_assoc, readNat_append small]
  dsimp only
  rw [takeExact_append_of_eq rest (length_asBytes r.2)]
  dsimp only
  rw [readFromBytes_asBytes r.2 low high]

theorem loadRows_ok {nextId live : Nat} {bytes rest : Bytes} {rows done : List (Nat × T)}
    (reading : Reading nextId rows t)
    (read : loadRows nextId live bytes rows t = (.ok (done, rest), u)) :
    Reading nextId done u ∧
      u = { t with primary := u.primary, rowCount := u.rowCount } := by
  induction live generalizing bytes rows t with
  | zero =>
    cases read
    exact ⟨reading, rfl⟩
  | succ live ih =>
    unfold loadRows at read
    split at read
    · cases read
    · next id obj later _ =>
      split at read
      · cases read
      · next allowed =>
        rw [not_or, Nat.not_le, Bool.not_eq_true, Option.isSome_eq_false_iff,
          Option.isNone_iff_eq_none] at allowed
        obtain ⟨finished, rest⟩ := ih (reading.store allowed.1 allowed.2) read
        exact ⟨finished, rest⟩

theorem loadRows_packed {nextId : Nat} (bound : nextId ≤ 2 ^ 63) (todo rows : List (Nat × T))
    (rest : Bytes) (t : Table T) (reading : Reading nextId rows t)
    (named : ∀ r ∈ todo, r.1 < nextId ∧ ArenaObject.id r.2 = r.1)
    (nodup : ((rows ++ todo).map Prod.fst).Nodup) :
    ∃ u, loadRows nextId todo.length (todo.flatMap packRow ++ rest) rows t =
      (.ok (rows ++ todo, rest), u) := by
  induction todo generalizing rows t with
  | nil =>
    rw [append_nil]
    exact ⟨t, rfl⟩
  | cons r others ih =>
    obtain ⟨small, own⟩ := named r (mem_cons_self ..)
    have empty : t.primary.get r.1 = none := by
      cases live : t.primary.get r.1 with
      | none => rfl
      | some row =>
        have listed := mem_map_of_mem (f := Prod.fst) ((reading.listed r.1 row).mpr live)
        rw [map_append] at nodup
        cases disjoint_of_nodup_append nodup listed (mem_cons_self ..)
    have read : readRow (packRow r ++ (others.flatMap packRow ++ rest)) = .ok (r, _) :=
      packRow_read r _ (by omega) (by omega) (by omega)
    obtain ⟨u, loaded⟩ := ih (rows ++ [r]) _ (reading.store small empty)
      (fun s member => named s (mem_cons_of_mem r member)) (by simpa using nodup)
    refine ⟨u, ?_⟩
    rw [flatMap_cons, append_assoc, length_cons, loadRows, read]
    dsimp only
    rw [if_neg (by rw [empty]; simp; omega), loaded, append_assoc]
    rfl

/-- A table without sessions, free spans or unflushed changes: what a load leaves. -/
structure Loaded (t : Table T) (rows : Slab T) (arena : Bytes) : Prop where
  slab : t.primary.slab = rows
  blobs : t.blobs = arena
  indexed : Indexed t.secondaries t.primary.get
  counted : t.rowCount = t.primary.slab.live
  undoStack : t.undoStack = []
  free : t.free = []
  dirty : t.dirty = DirtyIds.new
  blobPatches : t.blobPatches = []
  flushedBlobLen : t.flushedBlobLen = t.blobs.length

theorem Sound.live_le (sound : t.Sound) : t.rowCount ≤ t.nextId := by
  rw [sound.counted]
  calc (List.range t.primary.slab.len).countP _ ≤ (List.range t.primary.slab.len).length :=
        countP_le_length
    _ = t.nextId := length_range

theorem reading_new (nextId : Nat) : Reading nextId ([] : List (Nat × T))
    { (new : Table T) with primary := (new : Table T).primary.setLen nextId } where
  len := PagedPrimary.len_setLen _ _
  listed := by
    intro n row
    have blank : ((new : Table T).primary.setLen nextId).get n = none := by
      rw [PagedPrimary.get_setLen]
      split <;> rfl
    rw [blank]
    simp
  nodup := nodup_nil
  counted := rfl

/-- Whatever snapshot a fresh table accepts, its indices are exact and built from the
rows. -/
theorem loadFrom_ok {bytes : Bytes} (read : (new : Table T).loadFrom bytes = (.ok (), t)) :
    t.Loaded t.primary.slab t.blobs ∧ t.revision = 0 ∧
      ∃ rows, (∀ n row, (n, row) ∈ rows ↔ t.primary.get n = some row) ∧
        ∀ ix ∈ t.secondaries, ∃ blank : KeyIndex T, ix = (blank.bulkBuild rows).1 := by
  unfold loadFrom at read
  split at read
  · cases read
  · next nextId _ _ =>
    split at read
    · cases read
    · split at read
      · cases read
      · next rows _ filled loaded =>
        obtain ⟨reading, same⟩ := loadRows_ok (reading_new nextId) loaded
        have decls : filled.secondaries.map KeyIndex.decl = secondaryIndices := by
          rw [same]
          exact indexed_new.decls
        have live : rows.length = filled.primary.slab.live := by
          have listed : rows.Perm filled.primary.iterWithIds := by
            apply (perm_ext_iff_of_nodup (reading.nodup.of_map _)
              (filled.primary.nodup_iterWithIds.of_map _)).mpr
            intro r
            rw [reading.listed r.1 r.2, filled.primary.mem_iterWithIds]
          rw [listed.length_eq, filled.primary.length_iterWithIds]
        split at read
        · next built =>
          obtain ⟨_, kept, exact⟩ | ⟨failed, _⟩ := buildAll_cases reading.listed reading.nodup
            filled.secondaries
          · obtain ⟨arena, result⟩ := loadBlobs_ok read
            subst result
            exact ⟨⟨rfl, rfl, ⟨kept.trans decls, fun ix member => (exact ix member).1⟩,
              reading.counted.trans live, congrArg Table.undoStack same, congrArg Table.free same,
              congrArg Table.dirty same, congrArg Table.blobPatches same, rfl⟩,
              congrArg Table.revision same, rows, reading.listed, fun ix member => (exact ix member).2⟩
          · cases built.symm.trans failed
        · cases read

/-- Loading a snapshot of a sound table into a fresh one brings back its rows, its
arena and exact indices. -/
theorem loadFrom_packInto (sound : t.Sound) (fits : t.Fits) :
    ∃ u : Table T, (new : Table T).loadFrom t.packInto = (.ok (), u) ∧
      u.Loaded t.primary.slab t.blobs ∧ u.revision = 0 := by
  have ids := fits.ids
  have counted := sound.live_le
  have rows := t.primary.mem_iterWithIds
  have length : t.primary.iterWithIds.length = t.rowCount := by
    rw [t.primary.length_iterWithIds, sound.counted]
  have named : ∀ r ∈ t.primary.iterWithIds, r.1 < t.nextId ∧ ArenaObject.id r.2 = r.1 := by
    intro r member
    have live := (rows r.1 r.2).mp member
    exact ⟨Slab.lt_of_get (s := t.primary.slab) live, sound.named live⟩
  obtain ⟨v, loaded⟩ := loadRows_packed ids t.primary.iterWithIds []
    (leBytes 8 t.blobs.length ++ t.blobs) _ (reading_new t.nextId) named t.primary.nodup_iterWithIds
  rw [nil_append] at loaded
  obtain ⟨reading, same⟩ := loadRows_ok (reading_new t.nextId) loaded
  have get : ∀ n, v.primary.get n = t.primary.get n := by
    intro n
    apply Option.ext
    intro row
    exact (reading.listed n row).symm.trans (rows n row)
  have slab : v.primary.slab = t.primary.slab := Slab.eq_of_get reading.len get
  have flag : (buildAll t.primary.iterWithIds v.secondaries).2 = true := by
    obtain ⟨built, _⟩ | ⟨_, ix, member, n, row, live, clashes⟩ :=
      buildAll_cases rows t.primary.nodup_iterWithIds v.secondaries
    · exact built
    · rw [same] at member
      have declared : ix.decl ∈ secondaryIndices (T := T) := indexed_new.decl_mem member
      cases clash_eq_none_iff.mp (sound.indexed.distinct live) ix.decl declared clashes
  have result : (new : Table T).loadFrom t.packInto = (.ok (), { v with
      secondaries := (buildAll t.primary.iterWithIds v.secondaries).1
      blobs := v.blobs ++ t.blobs
      flushedBlobLen := (v.blobs ++ t.blobs).length }) := by
    unfold loadFrom packInto hashState
    rw [readNat_append (by omega)]
    dsimp only
    rw [readNat_append (by omega)]
    dsimp only
    rw [← length, loaded]
    dsimp only
    rw [if_pos flag, loadBlobs_packed _ fits.arena]
  have blobs : v.blobs ++ t.blobs = t.blobs := by
    rw [same]
    rfl
  rw [blobs] at result
  obtain ⟨whole, revision, _⟩ := loadFrom_ok result
  rw [slab] at whole
  exact ⟨_, result, whole, revision⟩

end Table

end PulseVM.Arena
