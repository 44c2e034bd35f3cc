import PulseVM.Arena.Snapshot

/-!
Delta records: the rows touched since the last flush in the order of their first
touch, the spans overwritten in the flushed part of the arena and the bytes appended
to it. A record is replayed row by row; a row enters the indices before rows that
stand later in the record have left them.
-/

namespace PulseVM.Arena
open Lib.Encoding Lib.Spans Lib.Undo
open ArenaObject hiding id
open List Function PagedPrimary

variable {T : Type}

/-- The first ref of each offset. -/
def firstByOff (seen : List UInt32) : List BlobRef → List BlobRef
  | [] => []
  | r :: rest =>
    if r.off ∈ seen then firstByOff seen rest else r :: firstByOff (r.off :: seen) rest

theorem firstByOff_subset (seen : List UInt32) (refs : List BlobRef) :
    firstByOff seen refs ⊆ refs := by
  induction refs generalizing seen with
  | nil => exact List.Subset.refl _
  | cons r rest ih =>
    unfold firstByOff
    split
    · exact subset_cons_of_subset r (ih seen)
    · exact cons_subset_cons r (ih (r.off :: seen))

theorem firstByOff_nodup (seen : List UInt32) (refs : List BlobRef) :
    ((firstByOff seen refs).map BlobRef.off).Nodup ∧
      ∀ off ∈ seen, off ∉ (firstByOff seen refs).map BlobRef.off := by
  induction refs generalizing seen with
  | nil => exact ⟨nodup_nil, fun _ _ => not_mem_nil⟩
  | cons r rest ih =>
    unfold firstByOff
    split
    · exact ih seen
    · next absent =>
      obtain ⟨distinct, apart⟩ := ih (r.off :: seen)
      refine ⟨nodup_cons.mpr ⟨apart r.off (mem_cons_self ..), distinct⟩, ?_⟩
      intro off member listed
      rcases mem_cons.mp listed with here | later
      · exact absent (here ▸ member)
      · exact apart off (mem_cons_of_mem _ member) later

theorem firstByOff_covers (seen : List UInt32) {refs : List BlobRef} {r : BlobRef}
    (member : r ∈ refs) (unseen : r.off ∉ seen) :
    ∃ kept ∈ firstByOff seen refs, kept.off = r.off := by
  induction refs generalizing seen with
  | nil => cases member
  | cons first rest ih =>
    unfold firstByOff
    split
    · next present =>
      have later : r ∈ rest := (mem_cons.mp member).resolve_left fun here =>
        unseen (here ▸ present)
      exact ih seen later unseen
    · by_cases same : first.off = r.off
      · exact ⟨first, mem_cons_self .., same⟩
      · have later : r ∈ rest := (mem_cons.mp member).resolve_left fun here =>
          same (congrArg BlobRef.off here.symm)
        have absent : r.off ∉ first.off :: seen := fun listed =>
          (mem_cons.mp listed).elim (fun here => same here.symm) unseen
        obtain ⟨kept, found, off⟩ := ih (first.off :: seen) later absent
        exact ⟨kept, mem_cons_of_mem _ found, off⟩

/-- Overwrite an arena with the bytes another one has at the listed refs. -/
def patchFrom (live : Bytes) (refs : List BlobRef) (arena : Bytes) : Bytes :=
  refs.foldl (fun arena r => splice arena r.off.toNat (slice live r.off.toNat r.len.toNat)) arena

def BlobRef.Covers (r : BlobRef) (i : Nat) : Prop := r.off.toNat ≤ i ∧ i < r.off.toNat + r.len.toNat

theorem patchFrom_get {live arena : Bytes} {refs : List BlobRef}
    (insideLive : ∀ r ∈ refs, r.off.toNat + r.len.toNat ≤ live.length)
    (inside : ∀ r ∈ refs, r.off.toNat + r.len.toNat ≤ arena.length) :
    (patchFrom live refs arena).length = arena.length ∧
      ∀ i, ((∃ r ∈ refs, r.Covers i) → (patchFrom live refs arena)[i]? = live[i]?) ∧
        ((∀ r ∈ refs, ¬r.Covers i) → (patchFrom live refs arena)[i]? = arena[i]?) := by
  induction refs generalizing arena with
  | nil =>
    refine ⟨rfl, fun i => ⟨?_, fun _ => rfl⟩⟩
    intro ⟨r, member, _⟩
    cases member
  | cons r rest ih =>
    have size := length_slice (insideLive r (mem_cons_self ..))
    have room := inside r (mem_cons_self ..)
    rw [← size] at room
    have length := length_splice room
    obtain ⟨total, gets⟩ := @ih (splice arena r.off.toNat _)
      (fun s member => insideLive s (mem_cons_of_mem r member))
      (fun s member => by rw [length]; exact inside s (mem_cons_of_mem r member))
    refine ⟨total.trans length, fun i => ?_⟩
    have written := getElem?_splice room i
    rw [size] at written
    obtain ⟨covered, kept⟩ := gets i
    constructor
    · intro ⟨s, member, covers⟩
      by_cases later : ∃ s ∈ rest, s.Covers i
      · exact covered later
      · have here : r.Covers i := by
          rcases mem_cons.mp member with same | other
          · exact same ▸ covers
          · exact absurd ⟨s, other, covers⟩ later
        have others : ∀ s ∈ rest, ¬s.Covers i := fun s listed also => later ⟨s, listed, also⟩
        calc (patchFrom live (r :: rest) arena)[i]?
            = (splice arena r.off.toNat (slice live r.off.toNat r.len.toNat))[i]? := kept others
          _ = (slice live r.off.toNat r.len.toNat)[i - r.off.toNat]? :=
              written.trans (if_pos here)
          _ = live[i]? := by
              obtain ⟨low, high⟩ := here
              rw [getElem?_slice, if_pos (by omega), Nat.add_sub_cancel' low]
    · intro apart
      have others : ∀ s ∈ rest, ¬s.Covers i := fun s listed =>
        apart s (mem_cons_of_mem r listed)
      exact (kept others).trans (written.trans (if_neg (apart r (mem_cons_self ..))))

theorem nodup_length_le {l : List Nat} {bound : Nat} (nodup : l.Nodup) (small : ∀ n ∈ l, n < bound) :
    l.length ≤ bound := by
  have part : l ⊆ List.range bound := fun n member => mem_range.mpr (small n member)
  calc l.length ≤ (List.range bound).length := (subperm_of_subset nodup part).length_le
    _ = bound := length_range

namespace Table

/-- Overwritten spans of the flushed part, the last write first; a later write at the
same offset covers an earlier one. -/
def deltaPatches (t : Table T) : List BlobRef :=
  firstByOff [] (t.blobPatches.reverse.filter fun r => r.off.toNat < t.flushedBlobLen)

theorem mem_deltaPatches {t : Table T} {r : BlobRef} (member : r ∈ t.deltaPatches) : r ∈ t.blobPatches :=
  mem_reverse.mp (mem_filter.mp (firstByOff_subset _ _ member)).1

theorem deltaPatches_length (t : Table T) : t.deltaPatches.length < 2 ^ 64 := by
  have distinct := (firstByOff_nodup [] (t.blobPatches.reverse.filter fun r =>
    r.off.toNat < t.flushedBlobLen)).1
  have numbers : ((t.deltaPatches.map BlobRef.off).map UInt32.toNat).Nodup :=
    distinct.map fun a b same => UInt32.toNat_inj.mp same
  have bound := @nodup_length_le _ (2 ^ 32) numbers (by
    intro n member
    obtain ⟨off, _, same⟩ := mem_map.mp member
    subst same
    exact off.toNat_lt)
  rw [length_map, length_map] at bound
  omega

def packPatch (live : Bytes) (r : BlobRef) : Bytes :=
  leBytes 8 r.off.toNat ++ (leBytes 8 r.len.toNat ++ slice live r.off.toNat r.len.toNat)

def markFlushed (t : Table T) : Table T :=
  { t with dirty := t.dirty.flush, blobPatches := [], flushedBlobLen := t.blobs.length }

def applyPatch (t : Table T) (bytes : Bytes) : Except TableError Bytes × Table T :=
  match readNat 8 bytes with
  | none => (.error (.corrupted "snapshot truncated"), t)
  | some (off, bytes) =>
    match readNat 8 bytes with
    | none => (.error (.corrupted "snapshot truncated"), t)
    | some (len, bytes) =>
      match takeExact len bytes with
      | none => (.error (.corrupted "delta patch extends past record"), t)
      | some (patch, bytes) =>
        if t.blobs.length < off + len then (.error (.corrupted "delta patch out of range"), t)
        else (.ok bytes, { t with blobs := splice t.blobs off patch })

/-- Run a reading step `n` times, stopping at the first error. -/
def repeatRead (step : Table T → Bytes → Except TableError Bytes × Table T) :
    Nat → Table T → Bytes → Except TableError Bytes × Table T
  | 0, t, bytes => (.ok bytes, t)
  | n + 1, t, bytes =>
    match step t bytes with
    | (.error e, t) => (.error e, t)
    | (.ok bytes, t) => repeatRead step n t bytes

theorem repeatRead_error {step : Table T → Bytes → Except TableError Bytes × Table T}
    {t : Table T} {bytes : Bytes} {e : TableError} (n : Nat)
    (stopped : (step t bytes).1 = .error e) :
    (repeatRead step (n + 1) t bytes).1 = .error e := by
  rcases result : step t bytes with ⟨verdict, u⟩
  rw [result] at stopped
  rw [repeatRead, result]
  dsimp only at stopped
  rw [stopped]

theorem applyPatches_run {live : Bytes} (rest : Bytes) (refs : List BlobRef) (t : Table T)
    (insideLive : ∀ r ∈ refs, r.off.toNat + r.len.toNat ≤ live.length)
    (inside : ∀ r ∈ refs, r.off.toNat + r.len.toNat ≤ t.blobs.length) :
    repeatRead applyPatch refs.length t (refs.flatMap (packPatch live) ++ rest) =
      (.ok rest, { t with blobs := patchFrom live refs t.blobs }) := by
  induction refs generalizing t with
  | nil => rfl
  | cons r others ih =>
    have size := length_slice (insideLive r (mem_cons_self ..))
    have room := inside r (mem_cons_self ..)
    have off : r.off.toNat < 256 ^ 8 := Nat.lt_trans r.off.toNat_lt (by decide)
    have len : r.len.toNat < 256 ^ 8 := Nat.lt_trans r.len.toNat_lt (by decide)
    have length := length_splice (size.symm ▸ room)
    have first : t.applyPatch (packPatch live r ++ (others.flatMap (packPatch live) ++ rest)) =
        (.ok (others.flatMap (packPatch live) ++ rest), { t with
          blobs := splice t.blobs r.off.toNat (slice live r.off.toNat r.len.toNat) }) := by
      unfold applyPatch packPatch
      rw [append_assoc, readNat_append off]
      dsimp only
      rw [append_assoc, readNat_append len]
      dsimp only
      rw [takeExact_append_of_eq _ size]
      exact if_neg (by omega)
    rw [flatMap_cons, append_assoc, length_cons, repeatRead, first]
    apply ih
    · intro s member
      exact insideLive s (mem_cons_of_mem r member)
    · intro s member
      rw [length]
      exact inside s (mem_cons_of_mem r member)

/-- Make room for new ids; a record never shrinks the table. -/
def growTo (t : Table T) (nextId : Nat) : Table T :=
  if t.nextId < nextId then { t with primary := t.primary.setLen nextId } else t

theorem growTo_rows (t : Table T) (next : Nat) :
    (t.growTo next).primary.len = max t.primary.len next ∧
      (t.growTo next).primary.get = t.primary.get ∧
      (t.growTo next).primary.slab.live = t.primary.slab.live ∧
      t.growTo next = { t with primary := (t.growTo next).primary } := by
  unfold growTo nextId
  by_cases smaller : t.primary.len < next
  · have rows : (t.primary.setLen next).get = t.primary.get := by
      funext n
      rw [get_setLen]
      split
      · rfl
      · next past =>
        have beyond : t.primary.slab.get n = none := t.primary.slab.get_past n (by
          rw [slab_len]
          omega)
        exact beyond.symm
    have larger : t.primary.slab.len ≤ (t.primary.setLen next).slab.len := by
      rw [slab_len, slab_len, len_setLen]
      omega
    rw [if_pos smaller]
    refine ⟨?_, rows, Slab.live_grow larger rows, rfl⟩
    rw [len_setLen]
    omega
  · rw [if_neg smaller]
    exact ⟨by omega, rfl, rfl, rfl⟩

variable [ArenaObject T]

/-- A touched row, or the tombstone of a removed one. -/
def packChange (rows : Nat → Option T) (id : Nat) : Bytes :=
  leBytes 8 id ++ (rows id).elim [0] fun obj => 1 :: asBytes obj

/-- Only the rows touched since the last flush, the patches and the blob tail. -/
def packDelta (t : Table T) : Bytes :=
  leBytes 8 t.nextId ++ (leBytes 8 t.dirty.order.length ++
    (t.dirty.order.flatMap (packChange t.primary.get) ++ (leBytes 8 t.deltaPatches.length ++
      (t.deltaPatches.flatMap (packPatch t.blobs) ++
        (leBytes 8 (t.blobs.drop t.flushedBlobLen).length ++ t.blobs.drop t.flushedBlobLen)))))

/-- Take a row out of its slot and of the indices. -/
def vacate (t : Table T) (id : Nat) : Table T :=
  match t.primary.get id with
  | some old =>
    { t with
      primary := (t.primary.take id).2
      secondaries := t.secondaries.map (·.erase old)
      rowCount := t.rowCount - 1 }
  | none => t

/-- Enter a row into one index after the other; a conflict stops the loop and is not
rolled back. -/
def insertEach (obj : T) : List (KeyIndex T) → List (KeyIndex T) × Bool
  | [] => ([], true)
  | ix :: rest =>
    match ix.tryInsert obj with
    | none => (ix :: rest, false)
    | some inserted => (inserted :: (insertEach obj rest).1, (insertEach obj rest).2)

def applyRow (t : Table T) (id : Nat) (bytes : Bytes) : Except TableError Bytes × Table T :=
  match takeExact (size T) bytes with
  | none => (.error (.corrupted "delta row extends past record"), t)
  | some (row, bytes) =>
    match readFromBytes (T := T) row with
    | none => (.error (.corrupted "delta row does not decode"), t)
    | some obj =>
      if t.nextId ≤ id then (.error (.corrupted "delta row id out of range"), t)
      else if (insertEach obj t.secondaries).2 then
        (.ok bytes, { t with
          secondaries := (insertEach obj t.secondaries).1
          primary := (t.primary.insert id obj).1
          rowCount := t.rowCount + 1 })
      else
        (.error (.corrupted "delta secondary key conflict"),
          { t with secondaries := (insertEach obj t.secondaries).1 })

def applyChange (t : Table T) (bytes : Bytes) : Except TableError Bytes × Table T :=
  match readNat 8 bytes with
  | none => (.error (.corrupted "snapshot truncated"), t)
  | some (id, bytes) =>
    match bytes with
    | [] => (.error (.corrupted "delta truncated"), t)
    | tag :: bytes =>
      if tag = 1 then (t.vacate id).applyRow id bytes else (.ok bytes, t.vacate id)

/-- Replay a record written by `packDelta` onto the current state. -/
def applyDelta (t : Table T) (bytes : Bytes) : Except TableError Unit × Table T :=
  match readNat 8 bytes with
  | none => (.error (.corrupted "snapshot truncated"), t)
  | some (nextId, bytes) =>
    match readNat 8 bytes with
    | none => (.error (.corrupted "snapshot truncated"), t.growTo nextId)
    | some (count, bytes) =>
      match repeatRead applyChange count (t.growTo nextId) bytes with
      | (.error e, t) => (.error e, t)
      | (.ok bytes, t) =>
        match readNat 8 bytes with
        | none => (.error (.corrupted "snapshot truncated"), t)
        | some (patchCount, bytes) =>
          match repeatRead applyPatch patchCount t bytes with
          | (.error e, t) => (.error e, t)
          | (.ok bytes, t) =>
            t.loadBlobs "delta blob extends past record" "trailing bytes in delta" bytes

end Table

/-- No row takes a key that a row written later in the record had before: with `old`
the rows at the last flush and `new` the rows now. -/
def HandoverFree [ArenaObject T] (old new : Nat → Option T) (order : List Nat) : Prop :=
  order.Pairwise fun earlier later => ∀ decl ∈ secondaryIndices (T := T), ∀ a b,
    new earlier = some a → old later = some b → ¬decl.Matches b (decl.key a)

variable [ArenaObject T]

namespace Table

theorem insertEach_eq (obj : T) (ixs : List (KeyIndex T)) :
    (insertEach obj ixs).2 = (ixs.find? (·.taken obj)).isNone ∧
      (ixs.find? (·.taken obj) = none → (insertEach obj ixs).1 = ixs.map (·.add obj)) := by
  induction ixs with
  | nil => exact ⟨rfl, fun _ => rfl⟩
  | cons ix rest ih =>
    obtain ⟨flag, added⟩ := ih
    cases taken : ix.taken obj with
    | true => simp [insertEach, KeyIndex.tryInsert, taken]
    | false =>
      simp only [insertEach, KeyIndex.tryInsert, taken, Bool.false_eq_true, ↓reduceIte,
        find?_cons, map_cons]
      exact ⟨flag, fun free => by rw [added free]⟩

/-- Same rows, indices and row count as those given; everything else as in `t`. -/
structure Replayed (t u : Table T) (rows : Nat → Option T) : Prop where
  rest : u = { t with
    primary := u.primary, secondaries := u.secondaries, rowCount := u.rowCount }
  len : u.primary.len = t.primary.len
  get : ∀ n, u.primary.get n = rows n
  indexed : Indexed u.secondaries rows
  counted : u.rowCount = u.primary.slab.live

variable {t : Table T} {rows : Nat → Option T}

theorem Replayed.trans {u v : Table T} {later : Nat → Option T} (first : t.Replayed u rows)
    (second : u.Replayed v later) : t.Replayed v later where
  rest := by
    rw [second.rest, first.rest]
  len := second.len.trans first.len
  get := second.get
  indexed := second.indexed
  counted := second.counted

theorem vacate_replayed (indexed : Indexed t.secondaries t.primary.get)
    (counted : t.rowCount = t.primary.slab.live) (id : Nat) :
    t.Replayed (t.vacate id) (Function.update t.primary.get id none) := by
  unfold vacate
  cases held : t.primary.get id with
  | none =>
    have same : Function.update t.primary.get id none = t.primary.get := by
      rw [← held]
      exact update_eq_self id _
    rw [same]
    exact ⟨rfl, rfl, fun _ => rfl, indexed, counted⟩
  | some old =>
    have taken := t.primary.slab_take id
    refine ⟨rfl, congrArg Slab.len taken, fun n => ?_, indexed.erase held, ?_⟩
    · rw [update_apply]
      exact congrFun (congrArg Slab.get taken) n
    · rw [taken, Slab.live_erase (s := t.primary.slab) held, counted]

section Row

variable {id : Nat} {obj : T} (rest : Bytes)

theorem applyRow_stored (indexed : Indexed t.secondaries t.primary.get)
    (counted : t.rowCount = t.primary.slab.live) (empty : t.primary.get id = none)
    (inside : id < t.nextId) (named : ArenaObject.id obj = id)
    (accepted : (insertEach obj t.secondaries).2 = true) :
    t.Replayed { t with
      secondaries := (insertEach obj t.secondaries).1
      primary := (t.primary.insert id obj).1
      rowCount := t.rowCount + 1 } (Function.update t.primary.get id (some obj)) := by
  obtain ⟨flag, added⟩ := insertEach_eq obj t.secondaries
  have first : t.secondaries.find? (·.taken obj) = none := by
    rw [accepted] at flag
    exact Option.isNone_iff_eq_none.mp flag.symm
  have free : clash t.primary.get id obj = none := by
    rw [← find_taken obj indexed empty, first]
    rfl
  have room : id < t.primary.slab.len := inside
  have written := t.primary.slab_insert room obj
  rw [added first]
  refine ⟨rfl, t.primary.len_insert id obj, fun n => ?_,
    (tryInsertAll_free indexed empty named free).2, ?_⟩
  · rw [update_apply]
    exact t.primary.get_insert inside obj n
  · rw [written, Slab.live_set, slab_get, empty]
    exact congrArg (· + 1) counted

/-- A row is stored in its vacated slot if it clashes with no other, and refused otherwise. -/
theorem applyRow_packed (indexed : Indexed t.secondaries t.primary.get)
    (counted : t.rowCount = t.primary.slab.live) (empty : t.primary.get id = none)
    (inside : id < t.nextId) (named : ArenaObject.id obj = id) (small : id < 2 ^ 63) :
    (clash t.primary.get id obj = none ∧ ∃ u, t.applyRow id (asBytes obj ++ rest) = (.ok rest, u) ∧
      t.Replayed u (Function.update t.primary.get id (some obj))) ∨
    (clash t.primary.get id obj ≠ none ∧ (t.applyRow id (asBytes obj ++ rest)).1 =
      .error (.corrupted "delta secondary key conflict")) := by
  have flag := (insertEach_eq obj t.secondaries).1
  rw [← find_taken obj indexed empty]
  unfold applyRow
  rw [takeExact_append_of_eq rest (length_asBytes obj)]
  dsimp only
  rw [readFromBytes_asBytes obj (by omega) (by omega)]
  dsimp only
  rw [if_neg (by omega)]
  cases first : t.secondaries.find? (·.taken obj) with
  | none =>
    rw [first, Option.isNone_none] at flag
    rw [if_pos flag]
    exact .inl ⟨rfl, _, rfl, applyRow_stored indexed counted empty inside named flag⟩
  | some ix =>
    rw [first, Option.isNone_some] at flag
    rw [if_neg (by rw [flag]; decide)]
    exact .inr ⟨by simp, rfl⟩

end Row

section Changes

variable {target : Slab T}

theorem clash_update (rows : Nat → Option T) (n : Nat) (value : Option T) (obj : T) :
    clash (Function.update rows n value) n obj = clash rows n obj := by
  have same : ∀ decl : IndexedBy T,
      decl.Clashes (Function.update rows n value) n obj ↔ decl.Clashes rows n obj := by
    intro decl
    constructor
    · intro ⟨m, row, other, live, key⟩
      rw [update_of_ne other] at live
      exact ⟨m, row, other, live, key⟩
    · intro ⟨m, row, other, live, key⟩
      exact ⟨m, row, other, by rw [update_of_ne other]; exact live, key⟩
  refine congrArg (Option.map IndexedBy.name) (congrArg (List.find? · _) (funext fun decl => ?_))
  exact decide_eq_decide.mpr (same decl)

/-- One line of a record moves one row to its target, unless its key is taken. -/
theorem applyChange_cases {id : Nat} (indexed : Indexed t.secondaries t.primary.get)
    (counted : t.rowCount = t.primary.slab.live) (valid : Valid target)
    (len : t.primary.len = target.len) (bound : target.len ≤ 2 ^ 63) (small : id < 2 ^ 64)
    (rest : Bytes) :
    ((∀ obj, target.get id = some obj → clash t.primary.get id obj = none) ∧
      ∃ u, t.applyChange (packChange target.get id ++ rest) = (.ok rest, u) ∧
        t.Replayed u (Function.update t.primary.get id (target.get id))) ∨
    ((¬∀ obj, target.get id = some obj → clash t.primary.get id obj = none) ∧
      (t.applyChange (packChange target.get id ++ rest)).1 =
        .error (.corrupted "delta secondary key conflict")) := by
  have vacated := vacate_replayed indexed counted id
  have rows := funext vacated.get
  unfold applyChange packChange
  rw [append_assoc, readNat_append small]
  cases goal : target.get id with
  | none => exact .inl ⟨by simp, _, rfl, vacated⟩
  | some obj =>
    have inside := Slab.lt_of_get goal
    have stored := applyRow_packed (t := t.vacate id) rest (by rw [rows]; exact vacated.indexed)
      vacated.counted (by rw [vacated.get]; exact update_self ..)
      (by rw [nextId, vacated.len, len]; exact inside) (valid.named id obj goal) (by omega)
    rw [rows, clash_update, update_idem] at stored
    obtain ⟨free, u, applied, replayed⟩ | ⟨clashes, stopped⟩ := stored
    · exact .inl ⟨by simpa using free, u, applied, vacated.trans replayed⟩
    · exact .inr ⟨by simpa using clashes, stopped⟩

/-- A row of a record clashes exactly with rows that stand later in the record. -/
theorem clash_of_later (valid : Valid target) {id : Nat} {later : List Nat} {obj : T}
    (fresh : id ∉ later) (agree : ∀ n, n ∉ id :: later → target.get n = rows n)
    (goal : target.get id = some obj) :
    clash rows id obj = none ↔ ∀ l ∈ later, ∀ decl ∈ secondaryIndices (T := T), ∀ b,
      rows l = some b → ¬decl.Matches b (decl.key obj) := by
  have whole := valid.distinct id obj goal
  rw [clash_eq_none_iff] at whole ⊢
  constructor
  · intro free l member decl declared b live same
    exact free decl declared ⟨l, b, fun here => fresh (here ▸ member), live, same⟩
  · intro free decl declared ⟨m, row, other, live, same⟩
    by_cases listed : m ∈ later
    · exact free m listed decl declared row live same
    · have kept : target.get m = rows m := agree m fun member =>
        (mem_cons.mp member).elim other listed
      exact whole decl declared ⟨m, row, other, kept.trans live, same⟩

/-- Replaying the lines of a record: without a handover of a key every row reaches its
target, with one the replay stops. -/
theorem applyChanges_run (valid : Valid target) (bound : target.len ≤ 2 ^ 63) (rest : Bytes)
    (order : List Nat) (indexed : Indexed t.secondaries t.primary.get)
    (counted : t.rowCount = t.primary.slab.live) (len : t.primary.len = target.len)
    (nodup : order.Nodup) (small : ∀ id ∈ order, id < 2 ^ 64)
    (agree : ∀ n, n ∉ order → target.get n = t.primary.get n) :
    (HandoverFree t.primary.get target.get order →
      ∃ u, repeatRead applyChange order.length t
          (order.flatMap (packChange target.get) ++ rest) = (.ok rest, u) ∧
        t.Replayed u target.get) ∧
    (¬HandoverFree t.primary.get target.get order →
      (repeatRead applyChange order.length t
        (order.flatMap (packChange target.get) ++ rest)).1 =
          .error (.corrupted "delta secondary key conflict")) := by
  induction order generalizing t with
  | nil =>
    have same : t.primary.get = target.get := funext fun n => (agree n not_mem_nil).symm
    refine ⟨fun _ => ⟨t, rfl, rfl, rfl, fun n => congrFun same n, same ▸ indexed, counted⟩, ?_⟩
    intro blocked
    exact absurd List.Pairwise.nil blocked
  | cons id later ih =>
    obtain ⟨fresh, laterNodup⟩ := nodup_cons.mp nodup
    have here := small id (mem_cons_self ..)
    have lines : (id :: later).flatMap (packChange target.get) ++ rest =
        packChange target.get id ++ (later.flatMap (packChange target.get) ++ rest) := by
      rw [flatMap_cons, append_assoc]
    -- the head of the record meets the rows that stand later
    have head : (∀ obj, target.get id = some obj → clash t.primary.get id obj = none) ↔
        ∀ l ∈ later, ∀ decl ∈ secondaryIndices (T := T), ∀ a b,
          target.get id = some a → t.primary.get l = some b → ¬decl.Matches b (decl.key a) := by
      constructor
      · intro free l member decl declared a b goal live
        exact (clash_of_later valid fresh agree goal).mp (free a goal) l member decl declared b live
      · intro free obj goal
        exact (clash_of_later valid fresh agree goal).mpr fun l member decl declared b =>
          free l member decl declared obj b goal
    have split : HandoverFree t.primary.get target.get (id :: later) ↔
        (∀ obj, target.get id = some obj → clash t.primary.get id obj = none) ∧
          HandoverFree t.primary.get target.get later := by
      rw [head]
      exact pairwise_cons
    obtain ⟨free, u, applied, replayed⟩ | ⟨taken, stopped⟩ := applyChange_cases indexed counted valid
      len bound here (later.flatMap (packChange target.get) ++ rest)
    · have rowsU := funext replayed.get
      have unchanged : ∀ l ∈ later, u.primary.get l = t.primary.get l := by
        intro l member
        have other : l ≠ id := fun same => fresh (same ▸ member)
        rw [replayed.get, update_of_ne other]
      have handover : HandoverFree u.primary.get target.get later ↔
          HandoverFree t.primary.get target.get later := by
        apply List.Pairwise.iff_of_mem
        intro earlier l _ member
        rw [unchanged l member]
      have next := ih (t := u) (by rw [rowsU]; exact replayed.indexed) replayed.counted
        (replayed.len.trans len) laterNodup (fun l member => small l (mem_cons_of_mem _ member))
        (by
          intro n missing
          rw [replayed.get, update_apply]
          split
          · next same => rw [same]
          · next other => exact agree n fun member => (mem_cons.mp member).elim other missing)
      have unfolded : repeatRead applyChange (id :: later).length t
          ((id :: later).flatMap (packChange target.get) ++ rest) =
          repeatRead applyChange later.length u
            (later.flatMap (packChange target.get) ++ rest) := by
        rw [length_cons, repeatRead, lines, applied]
      rw [unfolded, split]
      constructor
      · intro ⟨_, laterFree⟩
        obtain ⟨v, final, done⟩ := next.1 (handover.mpr laterFree)
        exact ⟨v, final, replayed.trans done⟩
      · intro blocked
        exact next.2 fun laterFree => blocked ⟨free, handover.mp laterFree⟩
    · refine ⟨fun all => absurd (split.mp all).1 taken, fun _ => ?_⟩
      rw [length_cons, lines]
      exact repeatRead_error _ stopped

end Changes

/-- A live table against the rows and the arena of its last flush: every row that
differs is dirty, and every flushed byte that differs lies in a recorded patch. -/
structure Ahead (t : Table T) (stored : Slab T) (arena : Bytes) : Prop where
  valid : Valid t.primary.slab
  ids : t.nextId ≤ 2 ^ 63
  touched : ∀ id ∈ t.dirty.order, id < 2 ^ 63
  grown : stored.len ≤ t.nextId
  rows : ∀ n, n ∉ t.dirty.order → t.primary.get n = stored.get n
  watermark : t.flushedBlobLen = arena.length
  extended : arena.length ≤ t.blobs.length
  small : t.blobs.length < 2 ^ 64
  inside : ∀ r ∈ t.blobPatches, r.off.toNat + r.len.toNat ≤ arena.length
  same_off : ∀ r ∈ t.blobPatches, ∀ s ∈ t.blobPatches, r.off = s.off → r = s
  bytes : ∀ i, i < arena.length → (∃ r ∈ t.blobPatches, r.Covers i) ∨ t.blobs[i]? = arena[i]?

section Record

variable {u : Table T} {stored : Slab T} {arena : Bytes}

theorem growTo_loaded (loaded : u.Loaded stored arena) {next : Nat} (grown : stored.len ≤ next) :
    (u.growTo next).primary.len = next ∧ (u.growTo next).primary.get = stored.get ∧
      Indexed (u.growTo next).secondaries stored.get ∧
      (u.growTo next).rowCount = (u.growTo next).primary.slab.live ∧
      u.growTo next = { u with primary := (u.growTo next).primary } := by
  obtain ⟨size, rows, live, same⟩ := u.growTo_rows next
  have stands : u.primary.get = stored.get := congrArg Slab.get loaded.slab
  have len : u.primary.len = stored.len := congrArg Slab.len loaded.slab
  refine ⟨by omega, rows.trans stands, ?_, ?_, same⟩
  · rw [same]
    exact stands ▸ loaded.indexed
  · calc (u.growTo next).rowCount = u.rowCount := by rw [same]
      _ = u.primary.slab.live := loaded.counted
      _ = (u.growTo next).primary.slab.live := live.symm

/-- The patches of a record are some of those recorded and cover what they cover. -/
theorem Ahead.deltaPatches_covers (ahead : t.Ahead stored arena) {i : Nat}
    (covered : ∃ r ∈ t.blobPatches, r.Covers i) : ∃ r ∈ t.deltaPatches, r.Covers i := by
  obtain ⟨r, member, covers⟩ := covered
  have inside := ahead.inside r member
  have below : r.off.toNat < t.flushedBlobLen := by
    obtain ⟨low, high⟩ := covers
    rw [ahead.watermark]
    omega
  have listed : r ∈ t.blobPatches.reverse.filter fun r => r.off.toNat < t.flushedBlobLen :=
    mem_filter.mpr ⟨mem_reverse.mpr member, decide_eq_true below⟩
  obtain ⟨kept, found, off⟩ := firstByOff_covers [] listed not_mem_nil
  have original := mem_reverse.mp (mem_filter.mp (firstByOff_subset _ _ found)).1
  rw [ahead.same_off kept original r member off] at found
  exact ⟨r, found, covers⟩

theorem Ahead.patched (ahead : t.Ahead stored arena) :
    patchFrom t.blobs t.deltaPatches arena = t.blobs.take arena.length := by
  have extended := ahead.extended
  obtain ⟨length, gets⟩ := @patchFrom_get t.blobs arena t.deltaPatches
    (fun r member => Nat.le_trans (ahead.inside r (mem_deltaPatches member)) extended)
    (fun r member => ahead.inside r (mem_deltaPatches member))
  apply ext_getElem?
  intro i
  rw [getElem?_take]
  split_ifs with inside
  · by_cases covered : ∃ r ∈ t.deltaPatches, r.Covers i
    · exact (gets i).1 covered
    · have apart : ∀ r ∈ t.deltaPatches, ¬r.Covers i := fun r member covers =>
        covered ⟨r, member, covers⟩
      rw [(gets i).2 apart]
      rcases ahead.bytes i inside with patched | same
      · exact absurd (ahead.deltaPatches_covers patched) covered
      · exact same.symm
  · exact getElem?_eq_none (by omega)

/-- What stands in a record behind the rows. -/
def deltaBlobs (t : Table T) : Bytes :=
  leBytes 8 t.deltaPatches.length ++ (t.deltaPatches.flatMap (packPatch t.blobs) ++
    (leBytes 8 (t.blobs.drop t.flushedBlobLen).length ++ t.blobs.drop t.flushedBlobLen))

theorem Ahead.touched_length (ahead : t.Ahead stored arena) : t.dirty.order.length ≤ 2 ^ 63 :=
  nodup_length_le t.dirty.nodup ahead.touched

variable {v : Table T}

/-- Once the rows are replayed, patches and appended bytes make the live arena. -/
theorem Ahead.applyDelta_blobs (ahead : t.Ahead stored arena) (blobs : v.blobs = arena)
    (applied : repeatRead applyChange t.dirty.order.length (u.growTo t.nextId)
      (t.dirty.order.flatMap (packChange t.primary.get) ++ t.deltaBlobs) = (.ok t.deltaBlobs, v)) :
    u.applyDelta t.packDelta =
      (.ok (), { v with blobs := t.blobs, flushedBlobLen := t.blobs.length }) := by
  have ids := ahead.ids
  have count := ahead.touched_length
  have whole : patchFrom t.blobs t.deltaPatches arena ++ t.blobs.drop t.flushedBlobLen = t.blobs := by
    rw [ahead.patched, ahead.watermark, take_append_drop]
  have patched := @applyPatches_run _ t.blobs
    (leBytes 8 (t.blobs.drop t.flushedBlobLen).length ++ t.blobs.drop t.flushedBlobLen)
    t.deltaPatches v
    (fun r member => Nat.le_trans (ahead.inside r (mem_deltaPatches member)) ahead.extended)
    (fun r member => by rw [blobs]; exact ahead.inside r (mem_deltaPatches member))
  rw [blobs] at patched
  have tail : (t.blobs.drop t.flushedBlobLen).length < 2 ^ 64 := by
    have small := ahead.small
    rw [length_drop]
    omega
  unfold deltaBlobs at applied
  unfold applyDelta packDelta
  rw [readNat_append (by omega)]
  dsimp only
  rw [readNat_append (by omega)]
  dsimp only
  rw [applied]
  dsimp only
  rw [readNat_append t.deltaPatches_length]
  dsimp only
  rw [patched]
  dsimp only
  rw [loadBlobs_packed _ tail, whole]

theorem Loaded.of_replayed (loaded : u.Loaded stored arena) (len : v.primary.len = t.primary.len)
    (replayed : (u.growTo t.nextId).Replayed v t.primary.get) (frame : v = { u with
      primary := v.primary, secondaries := v.secondaries, rowCount := v.rowCount }) :
    { v with blobs := t.blobs, flushedBlobLen := t.blobs.length : Table T }.Loaded
      t.primary.slab t.blobs where
  slab := Slab.eq_of_get len replayed.get
  blobs := rfl
  indexed := by
    have rows := replayed.indexed
    rw [← funext replayed.get] at rows
    exact rows
  counted := replayed.counted
  undoStack := by rw [frame]; exact loaded.undoStack
  free := by rw [frame]; exact loaded.free
  dirty := by rw [frame]; exact loaded.dirty
  blobPatches := by rw [frame]; exact loaded.blobPatches
  flushedBlobLen := rfl

/-- A record brings a loaded table up to the live one exactly when no key is handed
over to a row that stands earlier in it. -/
theorem applyDelta_packDelta (ahead : t.Ahead stored arena) (loaded : u.Loaded stored arena) :
    (HandoverFree stored.get t.primary.get t.dirty.order →
      ∃ v, u.applyDelta t.packDelta = (.ok (), v) ∧ v.Loaded t.primary.slab t.blobs ∧
        v.revision = u.revision) ∧
    (¬HandoverFree stored.get t.primary.get t.dirty.order →
      (u.applyDelta t.packDelta).1 = .error (.corrupted "delta secondary key conflict")) := by
  obtain ⟨len, get, indexed, counted, grown⟩ := growTo_loaded loaded ahead.grown
  obtain ⟨free, blocked⟩ := applyChanges_run (t := u.growTo t.nextId) ahead.valid ahead.ids
    t.deltaBlobs t.dirty.order (by rw [get]; exact indexed) counted len t.dirty.nodup
    (fun id member => Nat.lt_trans (ahead.touched id member) (by decide))
    (fun n missing => by rw [get]; exact ahead.rows n missing)
  have live : t.primary.slab.get = t.primary.get := rfl
  rw [get, live] at free blocked
  constructor
  · intro noHandover
    obtain ⟨v, applied, replayed⟩ := free noHandover
    have frame : v = { u with
        primary := v.primary, secondaries := v.secondaries, rowCount := v.rowCount } := by
      rw [replayed.rest, grown]
    have blobs : v.blobs = arena := by
      rw [frame]
      exact loaded.blobs
    exact ⟨_, ahead.applyDelta_blobs blobs applied,
      loaded.of_replayed (replayed.len.trans len) replayed frame, by rw [frame]⟩
  · intro handover
    have ids := ahead.ids
    have count := ahead.touched_length
    have stopped := blocked handover
    unfold applyDelta packDelta
    rw [readNat_append (by omega)]
    dsimp only
    rw [readNat_append (by omega)]
    dsimp only
    rcases outcome : repeatRead applyChange t.dirty.order.length (u.growTo t.nextId)
        (t.dirty.order.flatMap (packChange t.primary.get) ++ _) with ⟨verdict, v⟩
    rw [deltaBlobs, outcome] at stopped
    dsimp only at stopped
    rw [stopped]

end Record

end Table

end PulseVM.Arena
