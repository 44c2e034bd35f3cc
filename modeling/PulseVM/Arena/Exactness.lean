import PulseVM.Arena.Isolation

/-!
Tables built in any way: by calls that succeed or fail, by sessions and commits, from
snapshots and from records read back. As long as every record that is read back
stores its rows under their own ids and fits the state it is applied to, each index
has one entry per live row and nothing else.
-/

namespace PulseVM.Arena
open Lib.Encoding Lib.Undo Lib.Sessions
open ArenaObject hiding id

variable {T : Type}

namespace IndexedBy

variable {decl : IndexedBy T} {rows : Nat → Option T}

variable {entries : decl.Entries}

theorem Exact.entry (exact : Exact entries rows) {entry : decl.Key × Int}
    (listed : entry ∈ entries.toList) :
    ∃ (n : Nat) (row : T), entry.2 = n ∧ rows n = some row ∧ decl.Matches row entry.1 := by
  obtain ⟨k, id⟩ := entry
  have found := (Std.ExtTreeMap.mem_toList_iff_getKey?_eq_some_and_getElem?_eq_some.mp listed).2
  exact (exact k id).mp found

theorem Exact.nodup_ids (exact : Exact entries rows) : (entries.toList.map Prod.snd).Nodup := by
  have distinct := Std.ExtTreeMap.distinct_keys_toList (t := entries)
  rw [List.Nodup, List.pairwise_map]
  apply distinct.imp_of_mem
  intro a b memberA memberB apart same
  obtain ⟨n, row, idA, live, keyA⟩ := exact.entry memberA
  obtain ⟨m, other, idB, liveB, keyB⟩ := exact.entry memberB
  have here : n = m := by
    rw [idA, idB] at same
    exact Int.ofNat.inj same
  subst here
  rw [live] at liveB
  cases liveB
  exact apart (Std.TransCmp.eq_trans (Std.OrientedCmp.eq_symm keyA) keyB)

theorem Exact.listed (exact : Exact entries rows) {n : Nat} {row : T} (live : rows n = some row) :
    (n : Int) ∈ entries.toList.map Prod.snd := by
  have found := (exact (decl.key row) n).mpr ⟨n, row, rfl, live, decl.matches_refl row⟩
  have present : decl.key row ∈ entries := by
    rw [Std.ExtTreeMap.mem_iff_isSome_getElem?, found]
    rfl
  have stored := Std.ExtTreeMap.getKey?_eq_some_getKey (t := entries) present
  have entry := List.mem_of_find?_eq_some
    (Std.ExtTreeMap.find?_toList_eq_some_iff_getKey?_eq_some_and_getElem?_eq_some.mpr
      ⟨stored, found⟩)
  exact List.mem_map_of_mem (f := Prod.snd) entry

end IndexedBy

def KeyIndex.ids (ix : KeyIndex T) : List Int := ix.map.toList.map Prod.snd

namespace Table

variable {t u : Table T}

variable {count : Nat} {bytes rest : Bytes}

theorem applyPatches_ok (read : repeatRead applyPatch count t bytes = (.ok rest, u)) :
    ∃ arena, u = { t with blobs := arena } := by
  induction count generalizing t bytes with
  | zero =>
    cases read
    exact ⟨u.blobs, rfl⟩
  | succ count ih =>
    unfold repeatRead at read
    split at read
    · cases read
    · next later v step =>
      obtain ⟨arena, result⟩ := ih read
      have written : ∃ arena, v = { t with blobs := arena } := by
        unfold applyPatch at step
        split at step
        · cases step
        · split at step
          · cases step
          · split at step
            · cases step
            · split at step
              · cases step
              · cases step
                exact ⟨_, rfl⟩
      obtain ⟨first, same⟩ := written
      rw [same] at result
      exact ⟨arena, result⟩

variable [ArenaObject T]

/-- Without sessions a table is sound when its rows have their own ids and its indices
are exact. -/
theorem sound_of_closed (closed : t.undoStack = [])
    (named : ∀ n row, t.primary.get n = some row → ArenaObject.id row = n)
    (indexed : Indexed t.secondaries t.primary.get) (counted : t.rowCount = t.primary.slab.live) :
    t.Sound := by
  refine ⟨?_, indexed, counted⟩
  rw [closed]
  exact indexed.valid (s := t.primary.slab) named

/-- The next changes of a record store rows under their own ids. -/
def namedChanges (T : Type) [ArenaObject T] : Nat → Bytes → Bool
  | 0, _ => true
  | count + 1, bytes =>
    match readNat 8 bytes with
    | some (id, tag :: bytes) =>
      if tag = 1 then
        match takeExact (size T) bytes with
        | some (row, rest) =>
          (readFromBytes (T := T) row).all (fun obj => ArenaObject.id obj = id) &&
            namedChanges T count rest
        | none => true
      else namedChanges T count bytes
    | _ => true

/-- A record that stores rows under their own ids. -/
def namedRecord (T : Type) [ArenaObject T] (bytes : Bytes) : Bool :=
  match readNat 8 bytes with
  | none => true
  | some (_, bytes) =>
    match readNat 8 bytes with
    | none => true
    | some (count, bytes) => namedChanges T count bytes

theorem Replayed.sound {rows : Nat → Option T} (replayed : t.Replayed u rows)
    (closed : t.undoStack = []) (named : ∀ n row, rows n = some row → ArenaObject.id row = n) :
    u.Sound ∧ u.undoStack = [] := by
  have open' : u.undoStack = [] := (congrArg Table.undoStack replayed.rest).trans closed
  have get : u.primary.get = rows := funext replayed.get
  refine ⟨sound_of_closed open' ?_ ?_ replayed.counted, open'⟩
  · rw [get]
    exact named
  · rw [get]
    exact replayed.indexed

theorem vacate_sound (sound : t.Sound) (closed : t.undoStack = []) (id : Nat) :
    (t.vacate id).Sound ∧ (t.vacate id).undoStack = [] ∧ (t.vacate id).primary.get id = none := by
  have replayed := vacate_replayed sound.indexed sound.counted id
  have named : ∀ n row, Function.update t.primary.get id none n = some row →
      ArenaObject.id row = n := by
    intro n row live
    rw [Function.update_apply] at live
    split at live
    · cases live
    · exact sound.named live
  obtain ⟨kept, open'⟩ := replayed.sound closed named
  refine ⟨kept, open', ?_⟩
  rw [replayed.get id, Function.update_self]

theorem applyRow_sound {id : Nat} (sound : t.Sound) (closed : t.undoStack = [])
    (empty : t.primary.get id = none)
    (named : ∀ row tail obj, takeExact (size T) bytes = some (row, tail) →
      readFromBytes (T := T) row = some obj → ArenaObject.id obj = id)
    (read : t.applyRow id bytes = (.ok rest, u)) :
    u.Sound ∧ u.undoStack = [] ∧ ∃ row, takeExact (size T) bytes = some (row, rest) := by
  unfold applyRow at read
  split at read
  · cases read
  · next row tail taken =>
    split at read
    · cases read
    · next obj decoded =>
      split at read
      · cases read
      · next inside =>
        split at read
        · next accepted =>
          cases read
          have own := named row rest obj taken decoded
          have stored := applyRow_stored sound.indexed sound.counted empty (by omega) own accepted
          obtain ⟨kept, open'⟩ := stored.sound closed (by
            intro n other live
            rw [Function.update_apply] at live
            split at live
            · next here =>
              cases live
              rw [own, here]
            · exact sound.named live)
          exact ⟨kept, open', row, taken⟩
        · cases read

theorem applyChange_sound (sound : t.Sound) (closed : t.undoStack = [])
    (named : namedChanges T (count + 1) bytes = true) (read : t.applyChange bytes = (.ok rest, u)) :
    u.Sound ∧ u.undoStack = [] ∧ namedChanges T count rest = true := by
  unfold applyChange at read
  unfold namedChanges at named
  cases first : readNat 8 bytes with
  | none =>
    rw [first] at read
    cases read
  | some found =>
    obtain ⟨id, later⟩ := found
    rw [first] at read named
    obtain ⟨kept, open', empty⟩ := vacate_sound sound closed id
    cases later with
    | nil => cases read
    | cons tag later =>
      dsimp only at read named
      split_ifs at read named with present
      · have own : ∀ row tail obj, takeExact (size T) later = some (row, tail) →
            readFromBytes (T := T) row = some obj → ArenaObject.id obj = id := by
          intro row tail obj taken decoded
          rw [taken] at named
          have own := (Bool.and_eq_true_iff.mp named).1
          rw [decoded] at own
          exact of_decide_eq_true own
        obtain ⟨result, shut, row, taken⟩ := applyRow_sound kept open' empty own read
        rw [taken] at named
        exact ⟨result, shut, (Bool.and_eq_true_iff.mp named).2⟩
      · cases read
        exact ⟨kept, open', named⟩

theorem applyChanges_sound (sound : t.Sound) (closed : t.undoStack = [])
    (named : namedChanges T count bytes = true)
    (read : repeatRead applyChange count t bytes = (.ok rest, u)) : u.Sound ∧ u.undoStack = [] := by
  induction count generalizing t bytes with
  | zero =>
    cases read
    exact ⟨sound, closed⟩
  | succ count ih =>
    unfold repeatRead at read
    split at read
    · cases read
    · next later v step =>
      obtain ⟨kept, open', others⟩ := applyChange_sound sound closed named step
      exact ih kept open' others read

theorem growTo_sound (sound : t.Sound) (closed : t.undoStack = []) (nextId : Nat) :
    (t.growTo nextId).Sound ∧ (t.growTo nextId).undoStack = [] := by
  obtain ⟨_, get, live, same⟩ := t.growTo_rows nextId
  have open' : (t.growTo nextId).undoStack = [] := (congrArg Table.undoStack same).trans closed
  have counted : (t.growTo nextId).rowCount = t.rowCount := by rw [same]
  have indices : (t.growTo nextId).secondaries = t.secondaries := by rw [same]
  refine ⟨sound_of_closed open' ?_ ?_ ?_, open'⟩
  · rw [get]
    intro n row held
    exact sound.named held
  · rw [get, indices]
    exact sound.indexed
  · rw [counted, live]
    exact sound.counted

/-- Whatever record a table accepts, its indices stay exact. -/
theorem applyDelta_sound (sound : t.Sound) (closed : t.undoStack = [])
    (named : namedRecord T bytes = true) (read : t.applyDelta bytes = (.ok (), u)) :
    u.Sound ∧ u.undoStack = [] := by
  unfold applyDelta at read
  unfold namedRecord at named
  cases first : readNat 8 bytes with
  | none =>
    rw [first] at read
    cases read
  | some head =>
    obtain ⟨nextId, later⟩ := head
    rw [first] at read named
    dsimp only at read named
    cases second : readNat 8 later with
    | none =>
      rw [second] at read
      cases read
    | some counter =>
      rw [second] at read named
      dsimp only at read named
      obtain ⟨grown, open'⟩ := growTo_sound sound closed nextId
      split at read
      · cases read
      · next changed =>
        obtain ⟨kept, shut⟩ := applyChanges_sound grown open' named changed
        split at read
        · cases read
        · split at read
          · cases read
          · next patched =>
            obtain ⟨arena, same⟩ := applyPatches_ok patched
            obtain ⟨final, result⟩ := loadBlobs_ok read
            rw [result, same]
            exact ⟨⟨kept.chain, kept.indexed, kept.counted⟩, shut⟩

/-- Tables that any sequence of operations builds. Records read back store rows under
their own ids; a snapshot is read into a fresh table, a record while no session is
open. -/
inductive Built : Table T → Prop
  | new : Built new
  | call {t : Table T} (op : TableOp T) : Built t → Built (t.apply op)
  | startUndoSession {t : Table T} : Built t → Built t.startUndoSession
  | undo {t : Table T} : Built t → Built t.undo
  | squash {t : Table T} : Built t → Built t.squash
  | commit {t : Table T} (revision : Int) : Built t → Built (t.commit revision)
  | setRevision {t : Table T} (revision : Int) : Built t → Built (t.setRevision revision).2
  | markFlushed {t : Table T} : Built t → Built t.markFlushed
  | loadFrom {t : Table T} (bytes : Bytes) :
      (Table.new : Table T).loadFrom bytes = (.ok (), t) →
      (∀ n row, t.primary.get n = some row → ArenaObject.id row = n) → Built t
  | applyDelta {t u : Table T} (bytes : Bytes) : Built t → t.undoStack = [] →
      namedRecord T bytes = true → t.applyDelta bytes = (.ok (), u) → Built u

theorem Built.sound (built : t.Built) : t.Sound := by
  induction built with
  | new => exact new_refines.sound
  | call op _ sound => exact (apply_refines sound op).sound
  | startUndoSession _ sound => exact (startUndoSession_refines sound).sound
  | undo _ sound => exact (undo_refines sound).sound
  | squash _ sound => exact (squash_refines sound).sound
  | commit revision _ sound => exact (commit_refines sound revision).sound
  | @setRevision t revision _ sound =>
    obtain ⟨later, same⟩ := t.setRevision_eq revision
    rw [same]
    exact ⟨sound.chain, sound.indexed, sound.counted⟩
  | markFlushed _ sound => exact ⟨sound.chain, sound.indexed, sound.counted⟩
  | loadFrom bytes read named =>
    have loaded := (loadFrom_ok read).1
    exact sound_of_closed loaded.undoStack named loaded.indexed loaded.counted
  | applyDelta bytes _ closed named read sound => exact (applyDelta_sound sound closed named read).1

/-- Every declared index has one entry for each live row, under the key of the row, and
no other; the row count is the number of live rows. -/
structure OneEntryPerRow (t : Table T) : Prop where
  decls : t.secondaries.map KeyIndex.decl = secondaryIndices
  ids : ∀ ix ∈ t.secondaries, ix.ids.Perm (t.primary.iterWithIds.map fun r => (r.1 : Int))
  keys : ∀ ix ∈ t.secondaries, ∀ entry ∈ ix.map.toList, ∃ row, t.find entry.2 = some row ∧
    ix.decl.Matches row entry.1
  counted : t.rowCount = t.primary.iterWithIds.length

theorem Sound.oneEntryPerRow (sound : t.Sound) : t.OneEntryPerRow where
  decls := sound.indexed.decls
  ids := by
    intro ix member
    have exact := sound.indexed.exact ix member
    have rows : (t.primary.iterWithIds.map fun r => (r.1 : Int)).Nodup := by
      have cast := t.primary.nodup_iterWithIds.map (f := Int.ofNat) fun a b same => Int.ofNat.inj same
      rw [List.map_map] at cast
      exact cast
    apply (List.perm_ext_iff_of_nodup (IndexedBy.Exact.nodup_ids exact) rows).mpr
    intro id
    constructor
    · intro listed
      obtain ⟨entry, inside, rfl⟩ := List.mem_map.mp listed
      obtain ⟨n, row, named, live, _⟩ := IndexedBy.Exact.entry exact inside
      rw [named]
      exact List.mem_map_of_mem (f := fun r : Nat × T => (r.1 : Int))
        ((t.primary.mem_iterWithIds n row).mpr live)
    · intro listed
      obtain ⟨⟨n, row⟩, inside, rfl⟩ := List.mem_map.mp listed
      exact IndexedBy.Exact.listed exact ((t.primary.mem_iterWithIds n row).mp inside)
  keys := by
    intro ix member entry inside
    obtain ⟨n, row, named, live, same⟩ :=
      IndexedBy.Exact.entry (sound.indexed.exact ix member) inside
    refine ⟨row, ?_, same⟩
    rw [named]
    exact live
  counted := sound.counted.trans t.primary.length_iterWithIds.symm

theorem emplace_refused (sound : t.Sound) {f : T → T} {e : TableError}
    (refused : (t.emplace f).1 = .error e) : (t.emplace f).2 = t := by
  obtain ⟨name, _, result⟩ | ⟨_, _, result⟩ := emplace_cases sound f
  · rw [result]
  · rw [result] at refused
    cases refused

theorem modify_refused (sound : t.Sound) {raw : Int} {m : T → T} {e : TableError}
    (refused : (t.modify raw m).1 = .error e) :
    ∃ ixs, (t.modify raw m).2 = { t with secondaries := ixs } ∧ Indexed ixs t.primary.get := by
  have modified := sound.modify_cases raw m
  generalize t.modify raw m = result at modified refused ⊢
  cases modified with
  | missing | renamed => exact ⟨t.secondaries, rfl, sound.indexed⟩
  | clashed _ _ _ indexed => exact ⟨_, rfl, indexed⟩
  | replaced => cases refused

/-- Indices follow the rows through every operation, and a refused call leaves the
table as it was. -/
theorem indices_follow_rows (built : t.Built) :
    t.OneEntryPerRow ∧
      (∀ f e, (t.emplace f).1 = .error e → (t.emplace f).2 = t) ∧
      ∀ id m e, (t.modify id m).1 = .error e →
        ∃ ixs, (t.modify id m).2 = { t with secondaries := ixs } ∧
          List.Forall₂ KeyIndex.Agree ixs t.secondaries ∧
          ((∀ decl ∈ secondaryIndices (T := T), Std.LawfulEqCmp decl.cmp) →
            ixs = t.secondaries) := by
  have sound := built.sound
  refine ⟨sound.oneEntryPerRow, fun f e refused => emplace_refused sound refused, ?_⟩
  intro id m e refused
  obtain ⟨ixs, result, indexed⟩ := modify_refused sound refused
  exact ⟨ixs, result, indexed.agree sound.indexed, indexed.eq_of_lawful sound.indexed⟩

/-- A deferred transaction with a fresh id but a taken sender id: the entry already made
in the first index is taken back. -/
theorem indices_follow_rows_deferred : ∃ t : Table DeferredTransactionRow, t.Built ∧
    (t.emplace fun row => { row with sender := 1, trxId := Vector.replicate 32 7 }).1 =
      .error (.uniquenessViolation "DeferredTransactionRow" "DeferredBySenderId") ∧
    (t.emplace fun row => { row with sender := 1, trxId := Vector.replicate 32 7 }).2 = t ∧
    t.OneEntryPerRow := by
  have built : (new.apply (.emplace fun row : DeferredTransactionRow =>
      { row with sender := 1 })).Built := Built.new.call _
  have refused : ((new.apply (.emplace fun row : DeferredTransactionRow =>
      { row with sender := 1 })).emplace fun row =>
        { row with sender := 1, trxId := Vector.replicate 32 7 }).1 =
      .error (.uniquenessViolation "DeferredTransactionRow" "DeferredBySenderId") := by
    decide +kernel
  obtain ⟨one, emplaced, _⟩ := indices_follow_rows built
  exact ⟨_, built, refused, emplaced _ _ refused, one⟩

def recordOf (nextId id : Nat) (row : T) : Bytes :=
  leBytes 8 nextId ++ (leBytes 8 1 ++ (packChange (fun _ => some row) id ++
    (leBytes 8 0 ++ leBytes 8 0)))

/-- Where indices part from the rows: a snapshot or record that is refused half-way, a
row stored under a foreign id, a record applied below an open session, and a key whose
bits change within one place of the index order. -/
theorem indices_part_from_rows :
    (∃ bytes, ((new : Table ContractKeyValueRow).loadFrom bytes).1 =
        .error (.corrupted "duplicate secondary key in snapshot") ∧
      ¬((new : Table ContractKeyValueRow).loadFrom bytes).2.OneEntryPerRow) ∧
    (∃ (t : Table DeferredTransactionRow) (bytes : Bytes), t.Built ∧
      (t.applyDelta bytes).1 = .error (.corrupted "delta secondary key conflict") ∧
      ¬(t.applyDelta bytes).2.OneEntryPerRow) ∧
    (∃ bytes, ((new : Table ContractKeyValueRow).applyDelta bytes).1 = .ok () ∧
      ¬((new : Table ContractKeyValueRow).applyDelta bytes).2.OneEntryPerRow) ∧
    (∃ (t : Table ContractKeyValueRow) (bytes : Bytes), t.Built ∧
      namedRecord ContractKeyValueRow bytes = true ∧ (t.applyDelta bytes).1 = .ok () ∧
      ¬(t.applyDelta bytes).2.undo.OneEntryPerRow) ∧
    ∃ t : Table ContractIndexDoubleRow, t.Built ∧
      ¬∀ ix ∈ t.secondaries, ∀ entry ∈ ix.map.toList, ∃ row, t.find entry.2 = some row ∧
        ix.decl.key row = entry.1 := by
  refine ⟨?_, ?_, ?_, ?_, ?_⟩
  · refine ⟨leBytes 8 2 ++ (leBytes 8 2 ++ (packRow (0, ContractKeyValueRow.mk 0 0 7 0 BlobRef.empty) ++
      packRow (1, ContractKeyValueRow.mk 1 0 7 0 BlobRef.empty))), by decide +kernel, ?_⟩
    intro one
    exact absurd one.ids (by decide +kernel)
  · refine ⟨new.apply (.emplace fun row => { row with sender := 1 }),
      recordOf 2 1 (DeferredTransactionRow.mk 1 1 0 0 0 (Vector.replicate 32 7) 0 0 0 BlobRef.empty),
      Built.new.call _, by decide +kernel, ?_⟩
    intro one
    exact absurd one.ids (by decide +kernel)
  · refine ⟨recordOf 2 1 (ContractKeyValueRow.mk 5 0 9 0 BlobRef.empty), by decide +kernel, ?_⟩
    intro one
    exact absurd one.ids (by decide +kernel)
  · -- the record gives the key of row 0 to row 1 while a session has moved row 0 away from it
    refine ⟨(((new.apply (.emplace fun row => { row with primaryKey := 1 })).apply
      (.emplace fun row => { row with primaryKey := 2 })).startUndoSession.apply
        (.modify 0 fun row => { row with primaryKey := 3 })),
      recordOf 2 1 (ContractKeyValueRow.mk 1 0 1 0 BlobRef.empty),
      ((Built.new.call _).call _).startUndoSession.call _, by decide +kernel, by decide +kernel, ?_⟩
    intro one
    exact absurd one.ids (by decide +kernel)
  · refine ⟨(new.apply (.emplace fun row => row)).apply
      (.modify 0 fun row => { row with secondaryKey := 0x8000000000000000 }),
      (Built.new.call _).call _, ?_⟩
    intro bitwise
    have indices : ((new.apply (.emplace fun row : ContractIndexDoubleRow => row)).apply
        (.modify 0 fun row => { row with secondaryKey := 0x8000000000000000 })).secondaries =
        [(KeyIndex.new ContractIndexDoubleRow.byPrimary).add ⟨0, 0, 0, 0, 0⟩,
          (KeyIndex.new ContractIndexDoubleRow.bySecondary).add ⟨0, 0, 0, 0, 0⟩] := rfl
    obtain ⟨row, found, same⟩ := bitwise _ (List.mem_cons_of_mem _ (List.mem_cons_self ..)) _
      (KeyIndex.entry_add _ _)
    have zero : row = ⟨0, 0, 0, 0x8000000000000000, 0⟩ := by
      apply Option.some.inj
      rw [← found]
      decide +kernel
    rw [zero] at same
    have bits := congrArg (fun k : Int64 × DoubleKey × UInt64 => k.2.1.bits) same
    exact absurd bits (by decide)

end Table

end PulseVM.Arena
