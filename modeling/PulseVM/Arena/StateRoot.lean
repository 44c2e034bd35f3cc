import PulseVM.Arena.Db

/-!
When an undone session leaves the state root alone. The root covers the arena byte by
byte, abandoned spans included. Without free spans a session only appends to the arena
and undo cuts it back; a free span can be overwritten and keeps the new bytes.
-/

namespace PulseVM.Arena
open Lib Lib.Encoding Lib.Spans Lib.Leases Lib.Sessions Lib.Undo
open ArenaObject hiding id

namespace Table

section Appending

variable {T : Type} {t u : Table T}

/-- The arena can only grow: nothing is free and the newest session took nothing that
was. -/
structure Appending (t : Table T) : Prop where
  free : t.free = []
  top : ∃ f rest, t.frames = f :: rest ∧ f.reused = []

/-- The arena grew since `t`, within the same session. -/
structure Extends (t u : Table T) : Prop where
  blobs : t.blobs <+: u.blobs
  below : u.frames.tail = t.frames.tail
  mark : u.frames.head?.map Frame.mark = t.frames.head?.map Frame.mark

theorem Extends.refl (t : Table T) : t.Extends t := ⟨List.prefix_rfl, rfl, rfl⟩

theorem Extends.trans {v : Table T} (first : t.Extends u) (second : u.Extends v) : t.Extends v :=
  ⟨first.blobs.trans second.blobs, second.below.trans first.below,
    second.mark.trans first.mark⟩

theorem SameHeap.appending (same : SameHeap t u) (appending : t.Appending) :
    u.Appending ∧ t.Extends u := by
  refine ⟨⟨same.free.trans appending.free, ?_⟩, ?_, ?_, ?_⟩
  · rw [same.frames]
    exact appending.top
  · rw [same.blobs]
  · rw [same.frames]
  · rw [same.frames]

theorem Appending.alloc (appending : t.Appending) (bytes : Bytes) :
    (t.allocBlob bytes).2.Appending ∧ t.Extends (t.allocBlob bytes).2 := by
  by_cases empty : bytes = []
  · rw [empty, allocBlob_nil]
    exact ⟨appending, Extends.refl t⟩
  · rw [allocBlob_append empty (by rw [appending.free]; rfl)]
    exact ⟨⟨appending.free, appending.top⟩, List.prefix_append _ _, rfl, rfl⟩

theorem Appending.freed (appending : t.Appending) (r : BlobRef) :
    (t.freeBlob r).Appending ∧ t.Extends (t.freeBlob r) := by
  obtain ⟨f, rest, frames, unused⟩ := appending.top
  unfold freeBlob
  split
  · exact ⟨appending, Extends.refl t⟩
  · unfold Table.frames at frames
    split
    · next state below stack =>
      rw [stack, List.map_cons] at frames
      obtain ⟨top, others⟩ := List.cons.inj frames
      refine ⟨⟨appending.free, _, rest, congrArg _ others, ?_⟩, List.prefix_rfl, ?_, ?_⟩
      · rw [← top] at unused
        exact unused
      · unfold Table.frames
        rw [stack]
        rfl
      · unfold Table.frames
        rw [stack]
        rfl
    · next stack =>
      rw [stack] at frames
      cases frames

theorem appending_start (free : t.free = []) : t.startUndoSession.Appending :=
  ⟨free, _, _, rfl, rfl⟩

theorem Extends.squash (grown : t.startUndoSession.Extends u) (appending : u.Appending)
    (before : t.Appending) : u.squash.Appending ∧ t.Extends u.squash := by
  obtain ⟨f, rest, frames, unused⟩ := appending.top
  obtain ⟨g, deeper, framesT, unusedT⟩ := before.top
  have below := grown.below
  have arena : t.blobs <+: u.squash.blobs := by
    rw [squash_blobs]
    exact grown.blobs
  have older : u.frames.tail = t.frames := below
  unfold Table.frames at frames older framesT
  unfold Table.squash at arena ⊢
  split
  · next stack =>
    rw [stack] at frames
    cases frames
  · next top stack =>
    rw [stack, framesT] at older
    cases older
  · next top previous lower stack =>
    rw [stack] at older frames
    have topUnused : top.frame.reused = [] := by
      rw [(List.cons.inj frames).1]
      exact unused
    have merged := UndoState.frame_absorb previous top
    rw [framesT] at older
    obtain ⟨previousFrame, lowerFrames⟩ := List.cons.inj older
    refine ⟨⟨appending.free, _, _, rfl, ?_⟩, ?_, ?_, ?_⟩
    · rw [merged, previousFrame, unusedT, topUnused]
      rfl
    · simpa only [stack] using arena
    · unfold Table.frames
      rw [framesT]
      exact lowerFrames
    · unfold Table.frames
      rw [framesT]
      simp only [List.map_cons, List.head?_cons, Option.map_some, merged, previousFrame]

variable [ArenaObject T]

theorem Appending.apply (appending : t.Appending) (op : TableOp T) :
    (t.apply op).Appending ∧ t.Extends (t.apply op) := by
  cases op with
  | emplace f => exact (t.emplace_sameHeap f).appending appending
  | modify id m => exact (t.modify_sameHeap id m).appending appending
  | remove id => exact (t.remove_sameHeap id).appending appending
  | allocBlob bytes => exact appending.alloc bytes
  | freeBlob r => exact appending.freed r
  | reallocBlob old bytes =>
    obtain ⟨freed, first⟩ := appending.freed old
    obtain ⟨done, second⟩ := freed.alloc bytes
    exact ⟨done, first.trans second⟩

theorem Extends.undo (grown : t.startUndoSession.Extends u) (appending : u.Appending) :
    u.undo.blobs = t.blobs ∧ u.undo.free = [] ∧ u.undo.frames = t.frames := by
  obtain ⟨f, rest, frames, unused⟩ := appending.top
  have mark := grown.mark
  have below := grown.below
  unfold Table.frames at frames
  cases stack : u.undoStack with
  | nil =>
    rw [stack] at frames
    cases frames
  | cons state older =>
    rw [stack, List.map_cons] at frames
    obtain ⟨top, others⟩ := List.cons.inj frames
    have heap := undo_heap stack
    have reused : state.reused = [] := by
      rw [← top] at unused
      exact List.map_eq_nil_iff.mp unused
    have size : state.oldBlobLen = t.blobs.length := by
      unfold Table.frames at mark
      rw [stack] at mark
      exact Option.some.inj mark
    refine ⟨?_, ?_, ?_⟩
    · rw [heap.1, size]
      exact (List.prefix_iff_eq_take.mp grown.blobs).symm
    · rw [heap.2.1, reused, appending.free]
      rfl
    · unfold Table.frames at below ⊢
      rw [stack] at below
      rw [heap.2.2.1]
      exact below

theorem undo_run_blobs (free : t.free = []) (body : Body (TableOp T)) :
    (machine.run body t.startUndoSession).undo.blobs = t.blobs := by
  have frame := Machine.run_frame (m := machine (T := T)) (fun _ _ => True) Appending Extends
    (fun t _ => Extends.refl t) Extends.trans
    (fun t op appending _ => appending.apply op)
    (fun t appending => appending_start appending.free)
    (fun t u ending before after grown => by
      cases ending with
      | undo =>
        obtain ⟨blobs, free, frames⟩ := grown.undo after
        refine ⟨⟨free, ?_⟩, ?_, ?_, ?_⟩
        · change ∃ f rest, u.undo.frames = f :: rest ∧ f.reused = []
          rw [frames]
          exact before.top
        · change t.blobs <+: u.undo.blobs
          rw [blobs]
        · change u.undo.frames.tail = _
          rw [frames]
        · change u.undo.frames.head?.map Frame.mark = _
          rw [frames]
      | squash => exact grown.squash after before)
    body t.startUndoSession (Machine.admits_true body _) (appending_start free)
  exact (frame.2.undo frame.1).1

theorem hashState_congr (counted : u.rowCount = t.rowCount) (slab : u.primary.slab = t.primary.slab)
    (blobs : u.blobs = t.blobs) : u.hashState = t.hashState := by
  have len : u.primary.len = t.primary.len := congrArg Slab.len slab
  have get : u.primary.get = t.primary.get := congrArg Slab.get slab
  have rows : u.primary.iterWithIds = t.primary.iterWithIds := by
    rw [PagedPrimary.iterWithIds_eq, PagedPrimary.iterWithIds_eq, len, get]
  unfold hashState
  rw [counted, rows, blobs]

end Appending

end Table

/-- Concatenations of pieces of the same lengths are equal piece by piece. -/
theorem flatMap_inj {α β : Type} {f g : α → List β} {l : List α}
    (lengths : ∀ a ∈ l, (f a).length = (g a).length) (same : l.flatMap f = l.flatMap g) :
    ∀ a ∈ l, f a = g a := by
  induction l with
  | nil =>
    intro a member
    cases member
  | cons first rest ih =>
    rw [List.flatMap_cons, List.flatMap_cons] at same
    obtain ⟨here, later⟩ := List.append_inj same (lengths first (List.mem_cons_self ..))
    intro a member
    rcases List.mem_cons.mp member with rfl | member
    · exact here
    · exact ih (fun b inside => lengths b (List.mem_cons_of_mem _ inside)) later a member

section Root

variable {S : Schema} {nodes : (i : S.Pos) → Node (S.Row i)}

/-- Adding one to every byte. -/
def bump (bytes : Bytes) : Bytes := bytes.map (· + 1)

theorem bump_ne {bytes : Bytes} (nonempty : bytes ≠ []) : bump bytes ≠ bytes := by
  intro same
  cases bytes with
  | nil => exact nonempty rfl
  | cons first rest =>
    have head : first + 1 = first := (List.cons.inj same).1
    simp at head

namespace Table

variable {T : Type} [ArenaObject T] {t : Table T}

theorem undo_run_rows (sound : t.Sound) (body : Body (TableOp T)) :
    (machine.run body t.startUndoSession).undo.rowCount = t.rowCount ∧
      (machine.run body t.startUndoSession).undo.primary.slab = t.primary.slab := by
  have refines := undo_run_refines sound body
  have slab : (machine.run body t.startUndoSession).undo.primary.slab = t.primary.slab :=
    congrArg RowStore.rows refines.view
  refine ⟨?_, slab⟩
  rw [refines.sound.counted, sound.counted, slab]

theorem hashState_blobs {u : Table T} (counted : u.rowCount = t.rowCount)
    (slab : u.primary.slab = t.primary.slab) (length : u.blobs.length = t.blobs.length)
    (same : u.hashState = t.hashState) : u.blobs = t.blobs := by
  have rows := hashState_congr (t := t) (u := { u with blobs := t.blobs }) counted slab rfl
  have swapped : u.hashState = Table.hashState { u with blobs := t.blobs } := same.trans rows.symm
  unfold hashState at swapped
  rw [length] at swapped
  exact List.append_cancel_left (List.append_cancel_left (List.append_cancel_left swapped))

theorem hashState_length {u : Table T} (counted : u.rowCount = t.rowCount)
    (slab : u.primary.slab = t.primary.slab) (length : u.blobs.length = t.blobs.length) :
    u.hashState.length = t.hashState.length := by
  have rows := hashState_congr (t := t) (u := { u with blobs := t.blobs }) counted slab rfl
  rw [← rows]
  unfold hashState
  simp only [List.length_append, length_leBytes, length]

/-- A free span can be overwritten by a session that is then undone. -/
theorem undo_overwrites {r : BlobRef} {rest : List BlobRef} (free : t.free = r :: rest)
    (positive : 0 < r.span.len) (inside : r.span.off + r.span.len ≤ t.blobs.length) :
    ∃ bytes, (machine.run (.call (.allocBlob bytes) .done) t.startUndoSession).undo.blobs.length =
        t.blobs.length ∧
      (machine.run (.call (.allocBlob bytes) .done) t.startUndoSession).undo.blobs ≠ t.blobs := by
  have size := length_slice inside
  have bumped : (bump (slice t.blobs r.span.off r.span.len)).length = r.len.toNat := by
    rw [bump, List.length_map, size]
    rfl
  have nonempty : slice t.blobs r.span.off r.span.len ≠ [] := by
    intro empty
    rw [empty, List.length_nil] at size
    omega
  have filled : bump (slice t.blobs r.span.off r.span.len) ≠ [] := by
    intro empty
    exact nonempty (List.map_eq_nil_iff.mp empty)
  have taken : takeFree (UInt32.ofNat (bump (slice t.blobs r.span.off r.span.len)).length)
      t.free = some (r, rest) := by
    rw [bumped, UInt32.ofNat_toNat, free]
    exact if_pos rfl
  have room : r.off.toNat + (bump (slice t.blobs r.span.off r.span.len)).length ≤
      t.blobs.length := by
    rw [bumped]
    exact inside
  have left := undo_leaves_bytes filled taken room
  refine ⟨bump (slice t.blobs r.span.off r.span.len), ?_, ?_⟩
  · rw [left]
    exact length_splice room
  · rw [left]
    intro same
    have read := slice_splice_same room
    rw [same, bumped] at read
    exact bump_ne nonempty read.symm

end Table

/-- Sessions that are undone leave the root alone exactly when no span is free. -/
theorem stateRoot_undo_iff (reachable : ∀ i, (nodes i).Reachable) :
    (∀ (D : Type) (digest : Bytes → D) (body : Body (DbOp S)),
      Db.rootWith digest (Db.machine.run body (Db.startUndoSession fun i => (nodes i).table)).undo =
        Db.rootWith digest fun i => (nodes i).table) ↔
      ∀ i, (nodes i).table.free = [] := by
  have runs : ∀ (body : Body (DbOp S)) i,
      (Db.machine.run body (Db.startUndoSession fun i => (nodes i).table)).undo i =
        (Table.machine.run (body.project i) (nodes i).table.startUndoSession).undo := by
    intro body i
    exact congrArg Table.undo (Machine.family_run (fun i => Table.machine (T := S.Row i)) body
      (Db.startUndoSession fun i => (nodes i).table) i)
  have rows := fun (body : Body (DbOp S)) i =>
    Table.undo_run_rows (reachable i).good.kept.sound (body.project i)
  constructor
  · intro kept i
    by_contra held
    obtain ⟨r, rest, free⟩ := List.exists_cons_of_ne_nil held
    have accounted := (reachable i).good.kept.accounted
    have listed : r.span ∈ (nodes i).table.freeSpans := by
      unfold Table.freeSpans
      rw [free]
      exact List.mem_cons_self ..
    have inLayout := List.mem_append_right
      ((nodes i).account.held ++ pending (nodes i).table.frames) listed
    obtain ⟨bytes, length, changed⟩ := Table.undo_overwrites free
      (accounted.layout.nonempty r.span inLayout) (accounted.layout.inside r.span inLayout)
    let body : Body (DbOp S) := .call ⟨i, .allocBlob bytes⟩ .done
    have own : body.project i = .call (.allocBlob bytes) .done := Body.project_self _ _
    -- tables other than `i` see an empty session
    have lengths : ∀ j, (Table.machine.run (body.project j)
        (nodes j).table.startUndoSession).undo.blobs.length = (nodes j).table.blobs.length := by
      intro j
      by_cases here : i = j
      · subst here
        rw [own]
        exact length
      · have idle : body.project j = .done := Body.project_other here _ _
        rw [idle]
        rw [(Table.undo_heap rfl).1]
        change ((nodes j).table.blobs.take (nodes j).table.blobs.length).length = _
        rw [List.take_length]
    have same := kept Bytes (fun bytes => bytes) body
    have pieces := flatMap_inj (fun j _ => by
      rw [runs body j, List.length_append, List.length_append,
        Table.hashState_length (rows body j).1 (rows body j).2 (lengths j)]) same i (S.mem_ordered i)
    have hashed := List.append_cancel_left pieces
    rw [runs body i] at hashed
    have blobs := Table.hashState_blobs (rows body i).1 (rows body i).2 (lengths i) hashed
    rw [own] at blobs
    exact changed blobs
  · intro full D digest body
    apply congrArg digest
    apply List.flatMap_congr
    intro i _
    rw [runs body i]
    obtain ⟨counted, slab⟩ := rows body i
    rw [Table.hashState_congr counted slab (Table.undo_run_blobs (full i) (body.project i))]

/-- A table whose only blob is in use. -/
theorem stateRoot_undo_iff_key_value : ∃ n : Node ContractKeyValueRow,
    Node.new.follow [.call (.allocBlob [1, 2, 3]),
      .call (.emplace fun row => { row with value := ⟨0, 3⟩ })] = some n ∧
    ∀ body : Body (DbOp keyValues),
      Db.stateRoot (Db.machine.run body (keyValueDb n).startUndoSession).undo =
        (keyValueDb n).stateRoot := by
  have shape : ((Node.new : Node ContractKeyValueRow).follow [.call (.allocBlob [1, 2, 3]),
      .call (.emplace fun row => { row with value := ⟨0, 3⟩ })]).map (·.table.free) = some [] := by
    decide +kernel
  obtain ⟨n, followed, free⟩ := Option.map_eq_some_iff.mp shape
  refine ⟨n, followed, ?_⟩
  intro body
  have reachable : ∀ i : keyValues.Pos, (Schema.one n i).Reachable :=
    Schema.forall_only (Node.Reachable.new.follow followed)
  exact (stateRoot_undo_iff reachable).mpr (Schema.forall_only free) _ _ body

/-- A blob is freed, then a session reuses its span and is undone. -/
theorem stateRoot_undo_differs : ∃ n : Node ContractKeyValueRow,
    Node.new.follow [.call (.allocBlob [65]), .call (.freeBlob ⟨0, 1⟩)] = some n ∧
    Disciplined (S := keyValues) (Schema.one n) (.call (Schema.call (.allocBlob [66])) .done) ∧
    Db.stateRoot (Db.machine.run (.call (Schema.call (.allocBlob [66])) .done)
      (keyValueDb n).startUndoSession).undo ≠ (keyValueDb n).stateRoot := by
  have shape : ((Node.new : Node ContractKeyValueRow).follow [.call (.allocBlob [65]),
      .call (.freeBlob ⟨0, 1⟩)]).map (fun n =>
        decide (Disciplined (S := keyValues) (Schema.one n)
            (.call (Schema.call (.allocBlob [66])) .done) ∧
          Db.stateRoot (Db.machine.run (.call (Schema.call (.allocBlob [66])) .done)
            (keyValueDb n).startUndoSession).undo ≠ (keyValueDb n).stateRoot)) = some true := by
    decide +kernel
  obtain ⟨n, followed, both⟩ := Option.map_eq_some_iff.mp shape
  exact ⟨n, followed, of_decide_eq_true both⟩

end Root

end PulseVM.Arena
