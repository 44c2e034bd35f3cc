import PulseVM.Arena.Rows

/-!
Undo refines the snapshot store: dropping the rows of the session, vacating the
keys of the changed rows and only then putting the old rows back never meets a
taken key, and it ends in exactly the rows of the snapshot.
-/

namespace PulseVM.Arena
open Lib.Undo
open ArenaObject hiding id
open PagedPrimary (get_insert get_setLen insert_absent len_insert len_setLen slab_get slab_insert
  slab_len)

variable {T : Type}

/-- Erase the keys of the rows at the given ids, one id after the other. -/
def eraseRows (get : Nat → Option T) (ids : List Nat) (ixs : List (KeyIndex T)) :
    List (KeyIndex T) :=
  ids.foldl (fun ixs id => (get id).elim ixs fun obj => ixs.map (·.erase obj)) ixs

namespace Table
open Std.ExtTreeMap

variable {t u : Table T}

/-- Only rows, indices, the row count and the dirty set may differ. -/
structure RowsOnly (t u : Table T) : Prop where
  undoStack : u.undoStack = t.undoStack
  blobs : u.blobs = t.blobs
  free : u.free = t.free
  revision : u.revision = t.revision
  blobPatches : u.blobPatches = t.blobPatches
  flushedBlobLen : u.flushedBlobLen = t.flushedBlobLen

theorem RowsOnly.refl (t : Table T) : RowsOnly t t := ⟨rfl, rfl, rfl, rfl, rfl, rfl⟩

theorem RowsOnly.trans {v : Table T} (first : RowsOnly t u) (second : RowsOnly u v) :
    RowsOnly t v where
  undoStack := second.undoStack.trans first.undoStack
  blobs := second.blobs.trans first.blobs
  free := second.free.trans first.free
  revision := second.revision.trans first.revision
  blobPatches := second.blobPatches.trans first.blobPatches
  flushedBlobLen := second.flushedBlobLen.trans first.flushedBlobLen

theorem RowsOnly.foldl {α : Type} {f : Table T → α → Table T} (frame : ∀ t a, RowsOnly t (f t a))
    (l : List α) (t : Table T) : RowsOnly t (l.foldl f t) := by
  induction l generalizing t with
  | nil => exact RowsOnly.refl t
  | cons a rest ih => exact (frame t a).trans (ih (f t a))

theorem foldl_dropCreated (ids : List Nat) (t : Table T) :
    ids.foldl dropCreated t = { t with
      dirty := ids.foldl DirtyIds.mark t.dirty
      secondaries := eraseRows t.primary.get ids t.secondaries
      rowCount := t.rowCount - ids.countP fun i => (t.primary.get i).isSome } := by
  induction ids generalizing t with
  | nil => rfl
  | cons id rest ih =>
    rw [List.foldl_cons, ih, List.countP_cons]
    unfold dropCreated eraseRows
    cases held : t.primary.get id with
    | none => simp [held]
    | some obj =>
      simp only [List.foldl_cons, held, Option.elim_some, Option.isSome_some, ↓reduceIte]
      congr 1
      omega

theorem foldl_eraseCurrent (ids : List Nat) (t : Table T) :
    ids.foldl eraseCurrent t =
      { t with secondaries := eraseRows t.primary.get ids t.secondaries } := by
  induction ids generalizing t with
  | nil => rfl
  | cons id rest ih =>
    rw [List.foldl_cons, ih]
    unfold eraseCurrent eraseRows
    cases held : t.primary.get id with
    | none => simp [held]
    | some obj => simp only [List.foldl_cons, held, Option.elim_some]

section Session

variable {state : UndoState T}

def removedPairs (state : UndoState T) : List (Nat × T) :=
  state.removedValues.toList.map fun entry => (entry.1, state.oldValues[entry.1]?.getD entry.2)

theorem removedRestore_eq (state : UndoState T) :
    removedRestore state = (removedPairs state).map Prod.snd := by
  unfold removedRestore removedPairs
  rw [List.map_map]
  rfl

theorem mem_modified {i : Nat} :
    i ∈ (modifiedRestore state).map Prod.fst ↔
      state.oldValues[i]? ≠ none ∧ state.removedValues[i]? = none := by
  unfold modifiedRestore
  simp only [List.mem_map, List.mem_filter, Prod.exists, exists_and_right, exists_eq_right,
    mem_toList_iff_getElem?_eq_some, Bool.not_eq_true',
    contains_eq_isSome_getElem?, Option.isSome_eq_false_iff,
    Option.isNone_iff_eq_none, ← Option.ne_none_iff_exists']

theorem mem_removedPairs {i : Nat} :
    i ∈ (removedPairs state).map Prod.fst ↔ state.removedValues[i]? ≠ none := by
  unfold removedPairs
  simp only [List.mem_map, Prod.exists, mem_toList_iff_getElem?_eq_some,
    Option.ne_none_iff_exists']
  constructor
  · intro ⟨slot, row, ⟨id, removed, found, pair⟩, here⟩
    cases pair
    exact ⟨removed, here ▸ found⟩
  · intro ⟨removed, found⟩
    exact ⟨i, _, ⟨i, removed, found, rfl⟩, rfl⟩

theorem nodup_keys (m : Std.ExtTreeMap Nat T) : (m.toList.map Prod.fst).Nodup := by
  rw [List.nodup_iff_pairwise_ne, List.pairwise_map]
  apply distinct_keys_toList.imp
  intro a b apart same
  exact apart (compare_eq_iff_eq.mpr same)

theorem nodup_modified (state : UndoState T) : ((modifiedRestore state).map Prod.fst).Nodup :=
  (nodup_keys state.oldValues).sublist (List.filter_sublist.map Prod.fst)

theorem nodup_restored (state : UndoState T) :
    ((modifiedRestore state ++ removedPairs state).map Prod.fst).Nodup := by
  rw [List.map_append, List.nodup_append]
  refine ⟨?_, ?_, ?_⟩
  · exact nodup_modified state
  · have keys : (removedPairs state).map Prod.fst = state.removedValues.toList.map Prod.fst := by
      unfold removedPairs
      rw [List.map_map]
      rfl
    rw [keys]
    exact nodup_keys state.removedValues
  · intro i modified j removed same
    rw [mem_modified] at modified
    rw [mem_removedPairs, ← same] at removed
    exact removed modified.2

end Session

def below (base : Nat) (rows : Nat → Option T) (i : Nat) : Option T :=
  if i < base then rows i else none

section Restore

variable {t : Table T} {state : UndoState T} {rows : Slab T}

theorem restored_goal (tracks : state.patch.Tracks rows) {pair : Nat × T}
    (member : pair ∈ modifiedRestore state ++ removedPairs state) :
    (state.patch.restore rows).get pair.1 = some pair.2 := by
  rcases List.mem_append.mp member with modified | removed
  · have found : state.patch.old pair.1 = some pair.2 := by
      exact mem_toList_iff_getElem?_eq_some.mp (List.mem_filter.mp modified).1
    have inside := tracks.old_below pair.1 (by rw [found]; simp)
    rw [Patch.restore_get_lt _ _ inside, found]
    rfl
  · obtain ⟨entry, listed, same⟩ := List.mem_map.mp removed
    subst same
    have found : state.patch.removed entry.1 = some entry.2 :=
      mem_toList_iff_getElem?_eq_some.mp listed
    have inside := tracks.removed_below entry.1 (by rw [found]; simp)
    rw [Patch.restore_get_lt _ _ inside, found]
    change (state.oldValues[entry.1]?).or (some entry.2) = _
    cases state.oldValues[entry.1]? with
    | none => rfl
    | some old => rfl

/-- Rows the session neither changed nor removed are restored as they are. -/
theorem restored_kept (rows : Slab T) {i : Nat}
    (kept : i ∉ (modifiedRestore state ++ removedPairs state).map Prod.fst) :
    (state.patch.restore rows).get i = below state.oldNextId rows.get i := by
  rw [List.map_append, List.mem_append, mem_modified, mem_removedPairs] at kept
  have removed : state.patch.removed i = none := by
    by_contra present
    exact kept (.inr present)
  have old : state.patch.old i = none := by
    by_contra present
    exact kept (.inl ⟨present, removed⟩)
  unfold below
  by_cases inside : i < state.oldNextId
  · rw [Patch.restore_get_lt _ _ inside, old, removed, if_pos inside]
    rfl
  · rw [Patch.restore_get_ge _ _ inside, if_neg inside]

/-- The table between the two halves of an undo: the created rows are dropped, and the
keys of the rows to be put back are vacated. -/
def vacated (t : Table T) (state : UndoState T) : Table T :=
  let dropped := (List.range' state.oldNextId (t.primary.len - state.oldNextId)).foldl dropCreated t
  ((modifiedRestore state).map Prod.fst).foldl eraseCurrent
    { dropped with primary := dropped.primary.setLen state.oldNextId }

/-- The rows whose keys are still indexed then. -/
def untouched (t : Table T) (state : UndoState T) (i : Nat) : Option T :=
  if i ∈ (modifiedRestore state).map Prod.fst then none else below state.oldNextId t.primary.get i

theorem vacated_eq (t : Table T) (state : UndoState T) :
    t.vacated state = { t with
      primary := t.primary.setLen state.oldNextId
      dirty := (t.vacated state).dirty
      rowCount := ((List.range' state.oldNextId (t.primary.len - state.oldNextId)).foldl
        dropCreated t).rowCount
      secondaries := eraseRows (t.primary.setLen state.oldNextId).get
        ((modifiedRestore state).map Prod.fst)
        (eraseRows t.primary.get (List.range' state.oldNextId (t.primary.len - state.oldNextId))
          t.secondaries) } := by
  unfold vacated
  rw [foldl_dropCreated, foldl_eraseCurrent]

theorem restored_pairs (tracks : state.patch.Tracks t.primary.slab)
    {pair : Nat × T} (member : pair ∈ modifiedRestore state ++ removedPairs state) :
    (state.patch.restore t.primary.slab).get pair.1 = some pair.2 ∧
      t.untouched state pair.1 = none := by
  refine ⟨restored_goal tracks member, ?_⟩
  unfold untouched
  split
  · rfl
  · next unmodified =>
    have listed : pair.1 ∈ (modifiedRestore state ++ removedPairs state).map Prod.fst :=
      List.mem_map_of_mem member
    rw [List.map_append, List.mem_append, mem_removedPairs] at listed
    have gone : t.primary.get pair.1 = none :=
      tracks.removed_absent _ (listed.resolve_left unmodified)
    unfold below
    rw [gone, ite_self]

/-- The rows put back and the untouched ones together are those of the target. -/
theorem restored_rows (t : Table T) (state : UndoState T) (i : Nat) :
    (if i ∈ (modifiedRestore state ++ removedPairs state).map Prod.fst then
      (state.patch.restore t.primary.slab).get i else t.untouched state i) =
      (state.patch.restore t.primary.slab).get i := by
  split
  · rfl
  · next kept =>
    rw [restored_kept t.primary.slab kept, untouched, if_neg]
    · rfl
    · intro modified
      apply kept
      rw [List.map_append]
      exact List.mem_append_left _ modified

end Restore

end Table

/-! Rows that are dropped one after the other. -/

section Dropped

variable {rows get : Nat → Option T} {id : Nat} {rest : List Nat}

theorem update_agrees (fresh : id ∉ rest) (agree : ∀ i ∈ id :: rest, rows i = get i) :
    ∀ i ∈ rest, Function.update rows id none i = get i := by
  intro i member
  have different : i ≠ id := fun here => fresh (here ▸ member)
  rw [Function.update_of_ne different]
  exact agree i (List.mem_cons_of_mem id member)

theorem update_none_eq (rows : Nat → Option T) (id : Nat) (rest : List Nat) (i : Nat) :
    (if i ∈ rest then none else Function.update rows id none i) =
      if i ∈ id :: rest then none else rows i := by
  rw [Function.update_apply]
  by_cases here : i = id
  · simp [here]
  · simp [here]

end Dropped

variable [ArenaObject T] {good : KeyIndex T → (Nat → Option T) → Prop} [Followed good]

theorem Follow.eraseRows {ixs : List (KeyIndex T)} {rows get : Nat → Option T} {ids : List Nat}
    (indexed : Follow good ixs rows) (agree : ∀ i ∈ ids, rows i = get i) (nodup : ids.Nodup) :
    Follow good (Arena.eraseRows get ids ixs) fun i => if i ∈ ids then none else rows i := by
  induction ids generalizing ixs rows with
  | nil => exact indexed.congr fun i => by simp
  | cons id rest ih =>
    obtain ⟨fresh, nodupRest⟩ := List.nodup_cons.mp nodup
    have first : rows id = get id := agree id (List.mem_cons_self ..)
    have step : Follow good ((get id).elim ixs fun obj => ixs.map (·.erase obj))
        (Function.update rows id none) := by
      cases held : get id with
      | none =>
        apply indexed.congr
        intro i
        rw [Function.update_apply]
        split
        · next here => rw [here, first, held]
        · rfl
      | some obj => exact indexed.erase (first.trans held)
    apply (ih step (update_agrees fresh agree) nodupRest).congr
    exact update_none_eq rows id rest

namespace Table

variable {t : Table T}

/-- Part of the rows of the target is indexed, the rest is still to be put back. -/
structure Restoring (good : KeyIndex T → (Nat → Option T) → Prop) (t : Table T) (target : Slab T)
    (rows : Nat → Option T) : Prop where
  len : t.primary.len = target.len
  indexed : Follow good t.secondaries rows
  part : ∀ i row, rows i = some row → target.get i = some row
  counted : t.rowCount = t.primary.slab.live

section Restoring

variable {target : Slab T} {rows : Nat → Option T} {n : Nat} {obj : T}

theorem clash_of_part (valid : Valid target)
    (part : ∀ i row, rows i = some row → target.get i = some row)
    (goal : target.get n = some obj) : clash rows n obj = none := by
  have whole := valid.distinct n obj goal
  rw [clash_eq_none_iff] at whole ⊢
  intro decl member ⟨m, row, here, live, same⟩
  exact whole decl member ⟨m, row, here, part m row live, same⟩

theorem restoreRow_eq (named : ArenaObject.id obj = n) :
    t.restoreRow obj = { t with
      secondaries := t.secondaries.map fun ix => (ix.tryInsert obj).getD ix
      primary := (t.primary.insert n obj).1
      rowCount := if (t.primary.insert n obj).2 then t.rowCount + 1 else t.rowCount
      dirty := t.dirty.mark n } := by
  unfold restoreRow
  rw [named]

theorem restoreRow_frame (t : Table T) (obj : T) : RowsOnly t (t.restoreRow obj) := by
  unfold restoreRow
  split
  · exact ⟨rfl, rfl, rfl, rfl, rfl, rfl⟩
  · exact RowsOnly.refl t

theorem Restoring.step (valid : Valid target) (restoring : Restoring good t target rows)
    (goal : target.get n = some obj) (empty : rows n = none) :
    Restoring good (t.restoreRow obj) target (Function.update rows n (some obj)) ∧
      ∀ i, (t.restoreRow obj).primary.get i = if i = n then some obj else t.primary.get i := by
  have named := valid.named n obj goal
  have inside : n < t.primary.slab.len := by
    rw [slab_len, restoring.len]
    exact Slab.lt_of_get goal
  have free := clash_of_part valid restoring.part goal
  rw [restoreRow_eq named]
  refine ⟨⟨?_, ?_, ?_, ?_⟩, ?_⟩
  · rw [len_insert]
    exact restoring.len
  · exact restoring.indexed.restore empty named free
  · intro i row live
    rw [Function.update_apply] at live
    split at live
    · next here =>
      cases live
      rw [here]
      exact goal
    · exact restoring.part i row live
  · have counted := restoring.counted
    rw [insert_absent _ inside, slab_insert _ inside, Slab.live_set]
    cases held : t.primary.get n with
    | none => simp [held, counted]
    | some row => simp [held, counted]
  · intro i
    exact get_insert _ inside obj i

omit [ArenaObject T] in
theorem vacant_after {slot : Nat} {row : T} {rest : List (Nat × T)}
    (fresh : slot ∉ rest.map Prod.fst)
    (goal : ∀ pair ∈ (slot, row) :: rest, target.get pair.1 = some pair.2 ∧ rows pair.1 = none) :
    ∀ pair ∈ rest, target.get pair.1 = some pair.2 ∧
      Function.update rows slot (some row) pair.1 = none := by
  intro other member
  obtain ⟨found, vacant⟩ := goal other (List.mem_cons_of_mem _ member)
  have different : other.1 ≠ slot := by
    intro same
    have listed : other.1 ∈ rest.map Prod.fst := List.mem_map_of_mem member
    rw [same] at listed
    exact fresh listed
  exact ⟨found, by rw [Function.update_of_ne different]; exact vacant⟩

omit [ArenaObject T] in
theorem merge_restored {slot : Nat} {row : T} (here : target.get slot = some row)
    (slots : List Nat) (f : Nat → Option T) (i : Nat) :
    (if i ∈ slots then target.get i else if i = slot then some row else f i) =
      if i ∈ slot :: slots then target.get i else f i := by
  by_cases listed : i ∈ slots
  · rw [if_pos listed, if_pos (List.mem_cons_of_mem _ listed)]
  · rw [if_neg listed]
    by_cases same : i = slot
    · simp [same, here]
    · simp [same, listed]

theorem Restoring.run (valid : Valid target) (pairs : List (Nat × T))
    (restoring : Restoring good t target rows)
    (goal : ∀ pair ∈ pairs, target.get pair.1 = some pair.2 ∧ rows pair.1 = none)
    (nodup : (pairs.map Prod.fst).Nodup) :
    Restoring good ((pairs.map Prod.snd).foldl restoreRow t) target
        (fun i => if i ∈ pairs.map Prod.fst then target.get i else rows i) ∧
      ∀ i, ((pairs.map Prod.snd).foldl restoreRow t).primary.get i =
        if i ∈ pairs.map Prod.fst then target.get i else t.primary.get i := by
  induction pairs generalizing t rows with
  | nil => simpa using restoring
  | cons pair rest ih =>
    obtain ⟨slot, row⟩ := pair
    obtain ⟨fresh, nodupRest⟩ := List.nodup_cons.mp nodup
    obtain ⟨here, empty⟩ := goal (slot, row) (List.mem_cons_self ..)
    obtain ⟨next, get⟩ := restoring.step valid here empty
    obtain ⟨final, gets⟩ := ih next (vacant_after fresh goal) nodupRest
    rw [List.map_cons, List.map_cons, List.foldl_cons]
    refine ⟨?_, ?_⟩
    · have pointwise : (fun i => if i ∈ rest.map Prod.fst then target.get i
          else Function.update rows slot (some row) i) =
          fun i => if i ∈ slot :: rest.map Prod.fst then target.get i else rows i := by
        funext i
        rw [Function.update_apply]
        exact merge_restored here _ rows i
      rw [← pointwise]
      exact final
    · intro i
      rw [gets, get]
      exact merge_restored here _ t.primary.get i

end Restoring

omit [ArenaObject T] in
theorem erased_below (t : Table T) (base i : Nat) :
    (if i ∈ List.range' base (t.primary.len - base) then none else t.primary.get i) =
      below base t.primary.get i := by
  have member : i ∈ List.range' base (t.primary.len - base) ↔ base ≤ i ∧ i < t.primary.len := by
    rw [List.mem_range'_1]
    omega
  unfold below
  by_cases inside : i < base
  · rw [if_pos inside, if_neg (by rw [member]; omega)]
  · rw [if_neg inside]
    by_cases created : i < t.primary.len
    · rw [if_pos (member.mpr ⟨by omega, created⟩)]
    · rw [if_neg (by rw [member]; omega)]
      exact t.primary.slab.get_past i (by rw [slab_len]; omega)

/-- Dropping the rows created since `base` and shrinking the storage to it. -/
theorem drop_created {base : Nat} (small : base ≤ t.primary.len)
    (indexed : Follow good t.secondaries t.primary.get)
    (counted : t.rowCount = t.primary.slab.live) :
    Follow good ((List.range' base (t.primary.len - base)).foldl dropCreated t).secondaries
        (below base t.primary.get) ∧
      ((List.range' base (t.primary.len - base)).foldl dropCreated t).rowCount =
        (t.primary.setLen base).slab.live := by
  rw [foldl_dropCreated]
  constructor
  · apply (indexed.eraseRows (fun _ _ => rfl) List.nodup_range').congr
    exact erased_below t base
  · have split : List.range t.primary.len =
        List.range base ++ List.range' base (t.primary.len - base) := by
      have joined := @List.range'_append_1 0 base (t.primary.len - base)
      rw [Nat.zero_add, Nat.add_sub_of_le small] at joined
      rw [List.range_eq_range', List.range_eq_range', joined]
    have kept : (t.primary.setLen base).slab.live =
        (List.range base).countP fun i => (t.primary.get i).isSome := by
      unfold Slab.live
      rw [slab_len, len_setLen]
      apply List.countP_congr
      intro i inside
      rw [slab_get, get_setLen, if_pos (List.mem_range.mp inside)]
    have total : t.primary.slab.live = (List.range base).countP (fun i => (t.primary.get i).isSome) +
        (List.range' base (t.primary.len - base)).countP fun i => (t.primary.get i).isSome := by
      unfold Slab.live
      rw [slab_len, split, List.countP_append]
      rfl
    dsimp only
    omega

theorem revertRows_frame (t : Table T) (state : UndoState T) :
    RowsOnly t (t.revertRows state) := by
  unfold revertRows
  dsimp only
  rw [foldl_dropCreated, foldl_eraseCurrent]
  refine RowsOnly.trans ?_ (RowsOnly.foldl restoreRow_frame _ _)
  exact ⟨rfl, rfl, rfl, rfl, rfl, rfl⟩

theorem revertRows_eq (t : Table T) (state : UndoState T) : t.revertRows state =
    ((modifiedRestore state ++ removedPairs state).map Prod.snd).foldl restoreRow
      (t.vacated state) := by
  unfold revertRows vacated
  rw [removedRestore_eq, ← List.map_append]

theorem vacated_restoring {state : UndoState T} (tracks : state.patch.Tracks t.primary.slab)
    (indexed : Follow good t.secondaries t.primary.get)
    (counted : t.rowCount = t.primary.slab.live) :
    Restoring good (t.vacated state) (state.patch.restore t.primary.slab) (t.untouched state) := by
  have small : state.oldNextId ≤ t.primary.len := tracks.base_le
  obtain ⟨droppedIndex, droppedCount⟩ := drop_created small indexed counted
  rw [foldl_dropCreated] at droppedIndex
  rw [vacated_eq]
  refine ⟨len_setLen _ _, ?_, ?_, droppedCount⟩
  · exact droppedIndex.eraseRows (fun i _ => (get_setLen _ _ _).symm)
      (nodup_modified state)
  · intro i row live
    unfold untouched at live
    split at live
    · cases live
    · next unmodified =>
      have kept : i ∉ (modifiedRestore state ++ removedPairs state).map Prod.fst := by
        rw [List.map_append, List.mem_append, mem_removedPairs]
        rintro (modified | removed)
        · exact unmodified modified
        · have gone : t.primary.get i = none := tracks.removed_absent i removed
          unfold below at live
          split at live
          · rw [gone] at live
            cases live
          · cases live
      rw [← live]
      exact restored_kept t.primary.slab kept

theorem revertRows_spec {state : UndoState T} (tracks : state.patch.Tracks t.primary.slab)
    (valid : Valid (state.patch.restore t.primary.slab))
    (indexed : Follow good t.secondaries t.primary.get)
    (counted : t.rowCount = t.primary.slab.live) :
    (t.revertRows state).primary.slab = state.patch.restore t.primary.slab ∧
      Follow good (t.revertRows state).secondaries (t.revertRows state).primary.get ∧
      (t.revertRows state).rowCount = (t.revertRows state).primary.slab.live := by
  obtain ⟨final, gets⟩ := (vacated_restoring tracks indexed counted).run valid
    (modifiedRestore state ++ removedPairs state) (fun _ => restored_pairs tracks)
    (nodup_restored state)
  rw [← revertRows_eq] at final gets
  have rows : ∀ i, (t.revertRows state).primary.get i =
      (state.patch.restore t.primary.slab).get i := by
    intro i
    rw [gets]
    split
    · rfl
    · next kept =>
      rw [vacated_eq]
      exact (get_setLen _ _ _).trans (restored_kept t.primary.slab kept).symm
  refine ⟨Slab.eq_of_get final.len rows, ?_, final.counted⟩
  apply final.indexed.congr
  intro i
  rw [restored_rows, rows]

/-- The rows of the table after an undo are those of the snapshot. -/
theorem undo_refines (sound : t.Sound) : t.undo.Refines t.view.undo := by
  cases stack : t.undoStack with
  | nil =>
    have same : t.undo = t := by simp only [undo, stack]
    have spec : t.view.undo = t.view := by
      simp only [RowStore.undo, Table.view, stack, List.map_nil, Lib.Undo.saved]
    rw [same, spec]
    exact ⟨sound, rfl⟩
  | cons state rest =>
    have chain := sound.chain
    rw [stack, List.map_cons] at chain
    obtain ⟨_, tracks, deeper⟩ := chain
    have frame := revertRows_frame (t.revertHeap state rest) state
    obtain ⟨slab, indexed, counted⟩ :=
      revertRows_spec (t := t.revertHeap state rest) tracks deeper.valid_top sound.indexed
        sound.counted
    have sessions : ((t.revertHeap state rest).revertRows state).undoStack = rest :=
      frame.undoStack
    have revision : ((t.revertHeap state rest).revertRows state).revision = t.revision :=
      frame.revision
    have result : t.undo = { (t.revertHeap state rest).revertRows state with
        revision := ((t.revertHeap state rest).revertRows state).revision - 1 } := by
      simp only [undo, stack]
    rw [result]
    refine ⟨⟨?_, indexed, counted⟩, ?_⟩
    · rw [sessions, slab]
      exact deeper
    · simp only [Table.view, sessions, slab, revision, RowStore.undo, stack, List.map_cons,
        Lib.Undo.saved]
      rfl

end Table

end PulseVM.Arena
