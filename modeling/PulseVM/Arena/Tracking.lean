import PulseVM.Arena.Account
import PulseVM.Arena.Delta

/-!
What a table remembers of its changes since the last flush. Every call and every
session operation marks the rows it changes, undo included, and records the writes
into the flushed part of the arena; no span is ever cut or joined. A delta written
while no session is open therefore says all there is to say.
-/

namespace PulseVM.Arena
open Lib.Encoding Lib.Spans Lib.Leases Lib.Sessions Lib.Undo
open ArenaObject hiding id
open List DirtyIds

variable {T : Type}

theorem DirtyIds.mem_mark (d : DirtyIds) (id n : Nat) :
    n ∈ (d.mark id).order ↔ n = id ∨ n ∈ d.order := by
  rw [order_mark]
  split
  · next listed =>
    constructor
    · exact .inr
    · intro either
      exact either.elim (fun same => same ▸ listed) fun member => member
  · rw [mem_append, mem_singleton, or_comm]

theorem DirtyIds.mem_foldl_mark (ids : List Nat) (d : DirtyIds) (n : Nat) :
    n ∈ (ids.foldl mark d).order ↔ n ∈ ids ∨ n ∈ d.order := by
  induction ids generalizing d with
  | nil => simp
  | cons id rest ih =>
    rw [foldl_cons, ih, mem_mark, mem_cons]
    tauto

theorem PagedPrimary.get_insert_ne (p : PagedPrimary T) {slot n : Nat} (obj : T)
    (other : n ≠ slot) : (p.insert slot obj).1.get n = p.get n := by
  by_cases inside : slot < p.len
  · rw [PagedPrimary.get_insert p inside, if_neg other]
  · unfold PagedPrimary.insert
    rw [dif_neg inside]

namespace Table

/-- Rows that `u` has otherwise than `t` are dirty in `u`, and ids that became dirty
are below the bound. -/
structure Marks (bound : Nat) (t u : Table T) : Prop where
  kept : ∀ n ∈ t.dirty.order, n ∈ u.dirty.order
  changed : ∀ n, n ∉ u.dirty.order → u.primary.get n = t.primary.get n
  fresh : ∀ n ∈ u.dirty.order, n ∈ t.dirty.order ∨ n < bound

namespace Marks

variable {bound : Nat} {t u v : Table T}

theorem refl (bound : Nat) (t : Table T) : Marks bound t t where
  kept _ member := member
  changed _ _ := rfl
  fresh _ member := .inl member

theorem trans (first : Marks bound t u) (second : Marks bound u v) : Marks bound t v where
  kept n member := second.kept n (first.kept n member)
  changed n missing :=
    (second.changed n missing).trans
      (first.changed n fun member => missing (second.kept n member))
  fresh n member := (second.fresh n member).elim (first.fresh n) .inr

theorem of_same (bound : Nat) (primary : u.primary = t.primary) (dirty : u.dirty = t.dirty) :
    Marks bound t u where
  kept n member := by rw [dirty]; exact member
  changed n _ := by rw [primary]
  fresh n member := .inl (by rw [← dirty]; exact member)

theorem of_slot {slot : Nat} (small : slot < bound) (dirty : u.dirty = t.dirty.mark slot)
    (others : ∀ n, n ≠ slot → u.primary.get n = t.primary.get n) : Marks bound t u where
  kept n member := by
    rw [dirty, mem_mark]
    exact .inr member
  changed n missing := by
    rw [dirty, mem_mark] at missing
    exact others n fun same => missing (.inl same)
  fresh n member := by
    rw [dirty, mem_mark] at member
    exact member.elim (fun same => .inr (same ▸ small)) .inl

theorem foldl {α : Type} {f : Table T → α → Table T} {l : List α}
    (step : ∀ t, ∀ a ∈ l, Marks bound t (f t a)) (t : Table T) : Marks bound t (l.foldl f t) := by
  induction l generalizing t with
  | nil => exact Marks.refl bound t
  | cons a rest ih =>
    have first := step t a (mem_cons_self ..)
    exact first.trans (ih (fun t b member => step t b (mem_cons_of_mem a member)) (f t a))

end Marks

variable [ArenaObject T] {t : Table T}

theorem emplace_marks (t : Table T) (f : T → T) :
    Marks (t.emplace f).2.nextId t (t.emplace f).2 := by
  have pushed := t.primary.slab_push (constructed t.nextId f)
  dsimp only [emplace]
  split
  · exact Marks.of_same _ rfl rfl
  · have small : t.nextId < (t.primary.push (constructed t.nextId f)).slab.len := by
      rw [pushed]
      exact Nat.lt_succ_self _
    apply Marks.of_slot small rfl
    intro n other
    have slot := congrFun (congrArg Slab.get pushed) n
    exact slot.trans (if_neg other)

theorem modify_marks (t : Table T) (raw : Int) (m : T → T) :
    Marks t.nextId t (t.modify raw m).2 := by
  unfold modify
  split
  · next slot current found =>
    have inside : slot < t.primary.slab.len := Slab.lt_of_get (s := t.primary.slab) found
    dsimp only
    split
    · exact Marks.refl _ t
    · split
      · exact Marks.of_same _ rfl rfl
      · apply Marks.of_slot inside rfl
        intro n other
        exact t.primary.get_insert_ne _ other
  · exact Marks.refl _ t

theorem remove_marks (t : Table T) (raw : Int) : Marks t.nextId t (t.remove raw).2 := by
  unfold remove
  split
  · next slot obj found =>
    have inside : slot < t.primary.slab.len := Slab.lt_of_get (s := t.primary.slab) found
    apply Marks.of_slot inside rfl
    intro n other
    have taken := congrFun (congrArg Slab.get (t.primary.slab_take slot)) n
    exact taken.trans (if_neg other)
  · exact Marks.refl _ t

theorem apply_marks (t : Table T) (op : TableOp T) {bound : Nat} (old : t.nextId ≤ bound)
    (new : (t.apply op).nextId ≤ bound) : Marks bound t (t.apply op) := by
  have widen : ∀ {b : Nat} {u : Table T}, b ≤ bound → Marks b t u → Marks bound t u :=
    fun le marks => ⟨marks.kept, marks.changed, fun n member =>
      (marks.fresh n member).imp_right fun small => Nat.lt_of_lt_of_le small le⟩
  have of_rows : ∀ {u : Table T}, SameRows t u → Marks bound t u :=
    fun same => Marks.of_same bound same.primary same.dirty
  cases op with
  | emplace f => exact widen new (t.emplace_marks f)
  | modify id m => exact widen old (t.modify_marks id m)
  | remove id => exact widen old (t.remove_marks id)
  | allocBlob bytes => exact of_rows (t.allocBlob_sameRows bytes)
  | freeBlob r => exact of_rows (t.freeBlob_sameRows r)
  | reallocBlob old bytes => exact of_rows (t.reallocBlob_sameRows old bytes)

theorem revertRows_marks (t : Table T) (state : UndoState T)
    (named : ∀ obj ∈ (modifiedRestore state).map Prod.snd ++ removedRestore state,
      ∃ n : Nat, n < t.primary.len ∧ ArenaObject.id obj = n) :
    Marks t.primary.len t (t.revertRows state) := by
  unfold revertRows
  dsimp only
  rw [foldl_dropCreated, foldl_eraseCurrent]
  have created : ∀ n, n ∈ List.range' state.oldNextId (t.primary.len - state.oldNextId) ↔
      state.oldNextId ≤ n ∧ n < t.primary.len := by
    intro n
    rw [mem_range'_1]
    omega
  refine Marks.trans ?_ (Marks.foldl (f := restoreRow) ?_ _)
  · refine ⟨fun n member => ?_, fun n missing => ?_, fun n member => ?_⟩
    · exact (mem_foldl_mark _ _ _).mpr (.inr member)
    · have absent := (not_or.mp fun either => missing
        ((mem_foldl_mark _ _ _).mpr either)).1
      rw [created] at absent
      rw [PagedPrimary.get_setLen]
      split
      · rfl
      · exact (t.primary.slab.get_past n (by rw [PagedPrimary.slab_len]; omega)).symm
    · rcases (mem_foldl_mark _ _ _).mp member with listed | known
      · exact .inr ((created n).mp listed).2
      · exact .inl known
  · intro u obj member
    obtain ⟨slot, small, own⟩ := named obj member
    rw [restoreRow_eq own]
    apply Marks.of_slot small rfl
    intro n other
    exact u.primary.get_insert_ne obj other

theorem undo_marks (sound : t.Sound) : Marks t.nextId t t.undo := by
  cases stack : t.undoStack with
  | nil =>
    rw [undo_nil stack]
    exact Marks.refl _ t
  | cons state below =>
    have chain := sound.chain
    rw [stack, map_cons] at chain
    obtain ⟨_, tracks, deeper⟩ := chain
    have marks := revertRows_marks (t.revertHeap state below) state (by
      intro obj member
      rw [removedRestore_eq, ← map_append] at member
      obtain ⟨pair, listed, same⟩ := mem_map.mp member
      subst same
      have goal := restored_goal tracks listed
      have inside : pair.1 < (state.patch.restore t.primary.slab).len := Slab.lt_of_get goal
      exact ⟨pair.1, Nat.lt_of_lt_of_le inside tracks.base_le,
        deeper.valid_top.named pair.1 pair.2 goal⟩)
    have result : t.undo = { (t.revertHeap state below).revertRows state with
        revision := ((t.revertHeap state below).revertRows state).revision - 1 } := by
      unfold undo
      rw [stack]
    rw [result]
    exact ⟨marks.kept, marks.changed, marks.fresh⟩

end Table

namespace RowStore

/-- Neither the rows nor any snapshot has fewer slots. -/
def AtLeast (n : Nat) (s : RowStore T) : Prop :=
  n ≤ s.rows.len ∧ ∀ snapshot ∈ s.saved, n ≤ snapshot.len

variable {n : Nat} {s : RowStore T}

theorem AtLeast.start (least : s.AtLeast n) : s.startUndoSession.AtLeast n := by
  refine ⟨least.1, fun snapshot member => ?_⟩
  rcases mem_cons.mp member with here | older
  · rw [here]
    exact least.1
  · exact least.2 snapshot older

theorem AtLeast.undo (least : s.AtLeast n) : s.undo.AtLeast n := by
  unfold RowStore.undo
  cases sessions : s.saved with
  | nil => exact least
  | cons snapshot below =>
    have all := least.2
    rw [sessions] at all
    exact ⟨all snapshot (mem_cons_self ..), fun older member =>
      all older (mem_cons_of_mem _ member)⟩

theorem AtLeast.squash (least : s.AtLeast n) : s.squash.AtLeast n := by
  unfold RowStore.squash
  cases sessions : s.saved with
  | nil => exact least
  | cons snapshot below =>
    have all := least.2
    rw [sessions] at all
    exact ⟨least.1, fun older member => all older (mem_cons_of_mem _ member)⟩

theorem squash_saved (s : RowStore T) : s.squash.saved = s.saved.tail := by
  unfold RowStore.squash
  cases sessions : s.saved with
  | nil => exact sessions
  | cons snapshot below => rfl

theorem AtLeast.keep (least : s.AtLeast n) (kept : Nat) : (s.keep kept).AtLeast n :=
  ⟨least.1, fun snapshot member => least.2 snapshot (mem_of_mem_take member)⟩

variable [ArenaObject T]

theorem AtLeast.apply (least : s.AtLeast n) (op : TableOp T) : (s.apply op).AtLeast n := by
  refine ⟨Nat.le_trans least.1 (apply_keeps s op).2.2, ?_⟩
  rw [(apply_keeps s op).1]
  exact least.2

end RowStore

/-- What the last flush stored: the rows, the arena and the spans it consisted of. -/
structure Flushed (T : Type) where
  rows : Slab T
  arena : Bytes
  spans : List Span

namespace Account

/-- A session that started no earlier than the bound and moved only such spans. -/
def Moved (least : Nat) (p : Span → Prop) (f : Frame) : Prop :=
  least ≤ f.mark ∧ ∀ s, s ∈ f.freed ∨ s ∈ f.reused → p s

/-- Every span the accounts know of is such a span, and no session started earlier. -/
structure Everywhere (least : Nat) (p : Span → Prop) (c : Account T) : Prop where
  held : ∀ s ∈ c.held, p s
  free : ∀ s ∈ c.table.freeSpans, p s
  saved : ∀ held ∈ c.saved, ∀ s ∈ held, p s
  frames : ∀ f ∈ c.table.frames, Moved least p f

variable {c d : Account T} {flushed : Flushed T} {least : Nat} {p : Span → Prop}

theorem Moved.free {f : Frame} (moved : Moved least p f) {s : Span} (given : p s) :
    Moved least p { f with freed := f.freed ++ [s] } := by
  refine ⟨moved.1, fun other either => ?_⟩
  rcases either with freed | reused
  · rcases mem_append.mp freed with before | last
    · exact moved.2 other (.inl before)
    · exact mem_singleton.mp last ▸ given
  · exact moved.2 other (.inr reused)

theorem Moved.reuse {f : Frame} (moved : Moved least p f) {s : Span} (taken : p s) :
    Moved least p { f with reused := f.reused ++ [s] } := by
  refine ⟨moved.1, fun other either => ?_⟩
  rcases either with freed | reused
  · exact moved.2 other (.inl freed)
  · rcases mem_append.mp reused with before | last
    · exact moved.2 other (.inr before)
    · exact mem_singleton.mp last ▸ taken

theorem Moved.absorb {f g : Frame} (older : Moved least p f) (newer : Moved least p g) :
    Moved least p ⟨f.mark, f.freed ++ g.freed, f.reused ++ g.reused⟩ := by
  refine ⟨older.1, fun s either => ?_⟩
  rcases either with freed | reused
  · exact (mem_append.mp freed).elim (fun old => older.2 s (.inl old))
      fun new => newer.2 s (.inl new)
  · exact (mem_append.mp reused).elim (fun old => older.2 s (.inr old))
      fun new => newer.2 s (.inr new)

namespace Everywhere

theorem of_closed (frames : c.table.frames = []) (saved : c.saved = []) (held : ∀ s ∈ c.held, p s)
    (free : ∀ s ∈ c.table.freeSpans, p s) : c.Everywhere least p :=
  ⟨held, free, by simp [saved], by simp [frames]⟩

theorem start (all : c.Everywhere least p) (extended : least ≤ c.table.blobs.length) :
    c.startUndoSession.Everywhere least p where
  held := all.held
  free := all.free
  saved held session := by
    rcases mem_cons.mp session with rfl | older
    · exact all.held
    · exact all.saved held older
  frames f open' := by
    rcases mem_cons.mp open' with rfl | older
    · exact ⟨extended, fun s either => either.elim (fun freed => by cases freed)
        fun reused => by cases reused⟩
    · exact all.frames f older

theorem squash (all : c.Everywhere least p) :
    (Account.mk c.table.squash c.held c.saved.tail).Everywhere least p where
  held := all.held
  free s member := by
    unfold Table.freeSpans Table.squash at member
    split at member
    · exact all.free s member
    · next top stack =>
      rw [map_append, map_reverse] at member
      rcases mem_append.mp member with released | already
      · have listed : top.frame ∈ c.table.frames := by
          unfold Table.frames
          rw [stack]
          exact mem_cons_self ..
        exact (all.frames _ listed).2 s (.inl (mem_reverse.mp released))
      · exact all.free s already
    · exact all.free s member
  saved held session := all.saved held (mem_of_mem_tail session)
  frames f member := by
    have listed := all.frames
    unfold Table.frames Table.squash at member
    unfold Table.frames at listed
    split at member
    · exact listed f member
    · cases member
    · next top previous below stack =>
      rw [stack] at listed
      rw [map_cons, UndoState.frame_absorb] at member
      rcases mem_cons.mp member with rfl | deeper
      · exact (listed _ (mem_cons_of_mem _ (mem_cons_self ..))).absorb
          (listed _ (mem_cons_self ..))
      · exact listed f (mem_cons_of_mem _ (mem_cons_of_mem _ deeper))

theorem commit (all : c.Everywhere least p) (revision : Int) :
    (c.commit revision).Everywhere least p where
  held := all.held
  free s member := by
    change s ∈ (c.table.commit revision).freeSpans at member
    dsimp only [Table.freeSpans, Table.commit] at member
    rw [(Table.commit_free_perm _ _).mem_iff] at member
    rcases mem_append.mp member with already | released
    · exact all.free s already
    · obtain ⟨f, dropped, freed⟩ := mem_flatMap.mp released
      obtain ⟨state, listed, rfl⟩ := mem_map.mp dropped
      have open' := mem_of_mem_drop (mem_reverse.mp listed)
      exact (all.frames _ (mem_map_of_mem open')).2 s (.inl freed)
  saved held session := all.saved held (mem_of_mem_take session)
  frames f member := by
    apply all.frames f
    change f ∈ (c.table.commit revision).frames at member
    unfold Table.frames at member ⊢
    dsimp only [Table.commit] at member
    rw [map_take] at member
    exact mem_of_mem_take member

theorem freeBlob (all : c.Everywhere least p) {r : BlobRef} (owned : r.span ∈ c.held) :
    (Account.mk (c.table.freeBlob r) (Table.giveBack r c.held) c.saved).Everywhere least p where
  held s listed := by
    dsimp only [Table.giveBack] at listed
    split at listed
    · exact all.held s listed
    · exact all.held s (mem_of_mem_erase listed)
  free s member := by
    have free := all.free
    unfold Table.freeSpans Table.freeBlob at *
    split at member
    · exact free s member
    · split at member
      · exact free s member
      · rcases mem_cons.mp member with rfl | already
        · exact all.held _ owned
        · exact free s already
  saved := all.saved
  frames f member := by
    have frames := all.frames
    unfold Table.frames Table.freeBlob at *
    split at member
    · exact frames f member
    · split at member
      · next state below stack =>
        rw [stack] at frames
        rcases mem_cons.mp member with rfl | older
        · have moved := (frames _ (mem_cons_self ..)).free (all.held _ owned)
          simpa [UndoState.frame] using moved
        · exact frames f (mem_cons_of_mem _ older)
      · exact frames f member

end Everywhere

/-- The arena since the last flush: known spans are those of the flush or lie behind
it, and flushed bytes differ only where a patch was recorded. -/
structure ArenaSince (c : Account T) (flushed : Flushed T) : Prop where
  layout : Layout flushed.spans flushed.arena.length
  watermark : c.table.flushedBlobLen = flushed.arena.length
  extended : flushed.arena.length ≤ c.table.blobs.length
  known : c.Everywhere flushed.arena.length fun s =>
    s ∈ flushed.spans ∨ flushed.arena.length ≤ s.off
  patches : ∀ r ∈ c.table.blobPatches, r.span ∈ flushed.spans
  bytes : ∀ i, i < flushed.arena.length →
    (∃ r ∈ c.table.blobPatches, r.Covers i) ∨ c.table.blobs[i]? = flushed.arena[i]?

section

variable (since : c.ArenaSince flushed)

include since

/-- Session operations and frees move spans around and leave the flushed bytes. -/
theorem ArenaSince.move
    (watermark : d.table.flushedBlobLen = c.table.flushedBlobLen)
    (patches : d.table.blobPatches = c.table.blobPatches)
    (extended : flushed.arena.length ≤ d.table.blobs.length)
    (known : d.Everywhere flushed.arena.length fun s =>
      s ∈ flushed.spans ∨ flushed.arena.length ≤ s.off)
    (bytes : ∀ i, i < flushed.arena.length → d.table.blobs[i]? = c.table.blobs[i]?) :
    d.ArenaSince flushed where
  layout := since.layout
  watermark := watermark.trans since.watermark
  extended := extended
  known := known
  patches r member := since.patches r (by rw [← patches]; exact member)
  bytes i inside := by
    rw [patches, bytes i inside]
    exact since.bytes i inside

theorem ArenaSince.squash :
    (Account.mk c.table.squash c.held c.saved.tail).ArenaSince flushed := by
  have same : c.table.squash.flushedBlobLen = c.table.flushedBlobLen ∧
      c.table.squash.blobPatches = c.table.blobPatches := by
    unfold Table.squash
    split <;> exact ⟨rfl, rfl⟩
  have blobs := c.table.squash_blobs
  apply since.move same.1 same.2 _ since.known.squash
  · intro i _
    rw [blobs]
  · rw [blobs]
    exact since.extended

theorem ArenaSince.commit (revision : Int) :
    (c.commit revision).ArenaSince flushed :=
  since.move rfl rfl since.extended (since.known.commit revision) fun _ _ => rfl

theorem ArenaSince.start :
    c.startUndoSession.ArenaSince flushed :=
  since.move rfl rfl since.extended (since.known.start since.extended) fun _ _ => rfl

theorem ArenaSince.same {u : Table T} (same : c.table.SameHeap u) :
    (Account.mk u c.held c.saved).ArenaSince flushed := by
  apply since.move same.flushedBlobLen same.blobPatches
  · rw [same.blobs]
    exact since.extended
  · refine ⟨since.known.held, ?_, since.known.saved, ?_⟩
    · unfold Table.freeSpans
      rw [same.free]
      exact since.known.free
    · rw [same.frames]
      exact since.known.frames
  · intro i _
    rw [same.blobs]

theorem ArenaSince.free (r : BlobRef)
    (owned : r.len = 0 ∨ r.span ∈ c.held) :
    (Account.mk (c.table.freeBlob r) (Table.giveBack r c.held) c.saved).ArenaSince flushed := by
  rcases owned with empty | owned
  · have table : c.table.freeBlob r = c.table := if_pos empty
    have held : Table.giveBack r c.held = c.held := if_pos empty
    rw [table, held]
    exact since
  · have frame : (c.table.freeBlob r).flushedBlobLen = c.table.flushedBlobLen ∧
        (c.table.freeBlob r).blobPatches = c.table.blobPatches := by
      unfold Table.freeBlob
      split
      · exact ⟨rfl, rfl⟩
      · split <;> exact ⟨rfl, rfl⟩
    have blobs := c.table.freeBlob_blobs r
    apply since.move frame.1 frame.2 _ (since.known.freeBlob owned)
    · intro i _
      rw [blobs]
    · rw [blobs]
      exact since.extended

/-- Bytes written into a free span are recorded when the span was flushed. -/
theorem ArenaSince.reuse
    (accounted : c.table.Accounted c.held c.saved) {bytes : Bytes} {r : BlobRef}
    {rest : List BlobRef}
    (taken : takeFree (UInt32.ofNat bytes.length) c.table.free = some (r, rest))
    (small : (splice c.table.blobs r.off.toNat bytes).length < 2 ^ 32) :
    (Account.mk { c.table with
      free := rest
      blobs := splice c.table.blobs r.off.toNat bytes
      blobPatches := if r.off.toNat < c.table.flushedBlobLen then c.table.blobPatches ++ [r]
        else c.table.blobPatches
      undoStack := onTop (fun state => { state with reused := state.reused ++ [r] })
        c.table.undoStack } (r.span :: c.held) c.saved).ArenaSince flushed := by
  obtain ⟨length, room, _, free⟩ := accounted.reuse_room taken small
  have size : (splice c.table.blobs r.off.toNat bytes).length = c.table.blobs.length :=
    length_splice room
  have perm := (takeFree_perm taken).1
  have known := since.known.free r.span free
  have frames := since.known.frames
  refine ⟨since.layout, since.watermark, ?_, ⟨forall_mem_cons.mpr ⟨known, since.known.held⟩,
    ?_, since.known.saved, ?_⟩, ?_, ?_⟩
  · rw [size]
    exact since.extended
  · intro s listed
    obtain ⟨other, member, rfl⟩ := mem_map.mp listed
    have before : other ∈ c.table.free := perm.mem_iff.mpr (mem_cons_of_mem _ member)
    exact since.known.free _ (mem_map_of_mem before)
  · intro f open'
    unfold Table.frames at frames open'
    cases stack : c.table.undoStack with
    | nil =>
      rw [stack] at open'
      cases open'
    | cons state below =>
      rw [stack] at frames open'
      rcases mem_cons.mp open' with rfl | older
      · have moved := (frames _ (mem_cons_self ..)).reuse known
        simpa [UndoState.frame] using moved
      · exact frames f (mem_cons_of_mem _ older)
  · intro other member
    split at member
    · next below =>
      rcases mem_append.mp member with before | last
      · exact since.patches other before
      · rw [mem_singleton.mp last]
        apply known.resolve_right
        rw [since.watermark] at below
        change ¬flushed.arena.length ≤ r.off.toNat
        omega
    · exact since.patches other member
  · intro i inside
    have written : (splice c.table.blobs r.off.toNat bytes)[i]? =
        if r.off.toNat ≤ i ∧ i < r.off.toNat + bytes.length then bytes[i - r.off.toNat]?
        else c.table.blobs[i]? := getElem?_splice room i
    by_cases here : r.off.toNat ≤ i ∧ i < r.off.toNat + bytes.length
    · left
      have below : r.off.toNat < c.table.flushedBlobLen := by
        rw [since.watermark]
        omega
      rw [if_pos below]
      refine ⟨r, mem_append_right _ (mem_singleton_self r), here.1, ?_⟩
      change i < r.off.toNat + r.span.len
      rw [length]
      exact here.2
    · rw [written, if_neg here]
      refine (since.bytes i inside).imp_left ?_
      rintro ⟨other, member, covers⟩
      refine ⟨other, ?_, covers⟩
      split
      · exact mem_append_left _ member
      · exact member

theorem ArenaSince.alloc
    (accounted : c.table.Accounted c.held c.saved) (bytes : Bytes)
    (small : (c.table.allocBlob bytes).2.blobs.length < 2 ^ 32) :
    (Account.mk (c.table.allocBlob bytes).2
      (Table.lend (c.table.allocBlob bytes).1 c.held) c.saved).ArenaSince flushed := by
  by_cases empty : bytes = []
  · rw [empty, Table.allocBlob_nil]
    exact since
  · cases taken : takeFree (UInt32.ofNat bytes.length) c.table.free with
    | some found =>
      obtain ⟨r, rest⟩ := found
      rw [Table.allocBlob_reuse empty taken] at small ⊢
      obtain ⟨length, _, positive, _⟩ := accounted.reuse_room taken small
      have filled : r.len ≠ 0 := by
        intro zero
        change r.len.toNat = bytes.length at length
        rw [zero] at length
        change 0 = bytes.length at length
        omega
      have held : Table.lend r c.held = r.span :: c.held := if_neg filled
      rw [held]
      exact since.reuse accounted taken small
    | none =>
      rw [Table.allocBlob_append empty taken] at small ⊢
      rw [length_append] at small
      have off := Table.toNat_ofNat_small (n := c.table.blobs.length) (by omega)
      have extended := since.extended
      refine ⟨since.layout, since.watermark, ?_, ⟨?_, since.known.free, since.known.saved,
        since.known.frames⟩, since.patches, ?_⟩
      · rw [length_append]
        omega
      · intro s held
        unfold Table.lend at held
        split at held
        · exact since.known.held s held
        · rcases mem_cons.mp held with rfl | already
          · right
            change flushed.arena.length ≤ (UInt32.ofNat c.table.blobs.length).toNat
            rw [off]
            exact extended
          · exact since.known.held s already
      · intro i inside
        dsimp only
        rw [getElem?_append_left (by omega)]
        exact since.bytes i inside

end

/-- Everything that happened since the last flush can still be told from the table. -/
structure Since (c : Account T) (flushed : Flushed T) : Prop where
  rows : ∀ n, n ∉ c.table.dirty.order → c.table.primary.get n = flushed.rows.get n
  touched : ∀ id ∈ c.table.dirty.order, id < 2 ^ 63
  grown : c.table.view.AtLeast flushed.rows.len
  arena : c.ArenaSince flushed

theorem Since.of_marks (since : c.Since flushed) (marks : Table.Marks (2 ^ 63) c.table d.table)
    (grown : d.table.view.AtLeast flushed.rows.len) (arena : d.ArenaSince flushed) :
    d.Since flushed where
  rows n missing :=
    (marks.changed n missing).trans
      (since.rows n fun member => missing (marks.kept n member))
  touched id member := (marks.fresh id member).elim (since.touched id) fun small => small
  grown := grown
  arena := arena

variable [ArenaObject T]

theorem ArenaSince.apply (since : c.ArenaSince flushed) (kept : c.Kept) {op : TableOp T}
    (allows : c.Allows op) : (c.apply op).ArenaSince flushed := by
  obtain ⟨frees, small⟩ := allows
  cases op with
  | emplace f => exact since.same (c.table.emplace_sameHeap f)
  | modify id m => exact since.same (c.table.modify_sameHeap id m)
  | remove id => exact since.same (c.table.remove_sameHeap id)
  | allocBlob bytes => exact since.alloc kept.accounted bytes small
  | freeBlob r => exact since.free r frees
  | reallocBlob old bytes =>
    exact (since.free old frees).alloc (kept.accounted.free old frees) bytes small

theorem mem_releaseReused {mark : Nat} {reused free : List BlobRef} {r : BlobRef}
    (member : r ∈ Table.releaseReused mark reused free) : r ∈ free ∨ r ∈ reused := by
  induction reused generalizing free with
  | nil => exact .inl member
  | cons first rest ih =>
    unfold Table.releaseReused at member ih
    rw [foldl_cons] at member
    rcases ih member with listed | later
    · split at listed
      · rcases mem_cons.mp listed with here | already
        · exact .inr (here ▸ mem_cons_self ..)
        · exact .inl already
      · exact .inl listed
    · exact .inr (mem_cons_of_mem _ later)

theorem Everywhere.undo (all : c.Everywhere least p) : c.undo.Everywhere least p where
  held s member := by
    change s ∈ c.saved.headD c.held at member
    have saved := all.saved
    cases sessions : c.saved with
    | nil =>
      rw [sessions] at member
      exact all.held s member
    | cons before older =>
      rw [sessions] at member saved
      exact saved before (mem_cons_self ..) s member
  free s member := by
    change s ∈ c.table.undo.freeSpans at member
    have frames := all.frames
    unfold Table.frames at frames
    cases stack : c.table.undoStack with
    | nil =>
      rw [Table.undo_nil stack] at member
      exact all.free s member
    | cons state below =>
      unfold Table.freeSpans at member
      rw [(Table.undo_heap stack).2.1] at member
      rw [stack] at frames
      obtain ⟨r, released, rfl⟩ := mem_map.mp member
      rcases mem_releaseReused released with already | reused
      · exact all.free _ (mem_map_of_mem already)
      · exact (frames _ (mem_cons_self ..)).2 _ (.inr (mem_map_of_mem reused))
  saved held session := all.saved held (mem_of_mem_tail session)
  frames f member := by
    apply all.frames f
    change f ∈ c.table.undo.frames at member
    unfold Table.frames at member ⊢
    rw [Table.undo_below, map_tail] at member
    exact mem_of_mem_tail member

theorem ArenaSince.undo (since : c.ArenaSince flushed) : c.undo.ArenaSince flushed := by
  cases stack : c.table.undoStack with
  | nil =>
    have same : c.undo.table = c.table := Table.undo_nil stack
    apply since.move _ _ _ since.known.undo
    · exact fun i _ => by rw [same]
    · rw [same]
    · rw [same]
    · rw [same]
      exact since.extended
  | cons state below =>
    obtain ⟨blobs, _, _, _, patches, watermark⟩ := Table.undo_heap stack
    have extended := since.extended
    have mark : flushed.arena.length ≤ state.oldBlobLen := by
      have frames := since.known.frames
      unfold Table.frames at frames
      rw [stack] at frames
      exact (frames _ (mem_cons_self ..)).1
    have cut : c.undo.table.blobs = c.table.blobs.take state.oldBlobLen := blobs
    apply since.move watermark patches _ since.known.undo
    · intro i inside
      rw [cut, getElem?_take, if_pos (by omega)]
    · rw [cut, length_take]
      omega

theorem Since.apply (since : c.Since flushed) (kept : c.Kept) {op : TableOp T}
    (allows : c.Allows op) (before : c.table.nextId ≤ 2 ^ 63)
    (after : (c.apply op).table.nextId ≤ 2 ^ 63) : (c.apply op).Since flushed := by
  apply since.of_marks (c.table.apply_marks op before after)
  · have view := (Table.apply_refines kept.sound op).view
    change (c.table.apply op).view.AtLeast _
    rw [view]
    exact since.grown.apply op
  · exact since.arena.apply kept allows

theorem Since.start (since : c.Since flushed) (kept : c.Kept) :
    c.startUndoSession.Since flushed := by
  have marks : Table.Marks (2 ^ 63) c.table c.startUndoSession.table :=
    Table.Marks.of_same _ rfl rfl
  apply since.of_marks marks
  · have view := (Table.startUndoSession_refines kept.sound).view
    change c.table.startUndoSession.view.AtLeast _
    rw [view]
    exact since.grown.start
  · exact since.arena.start

theorem Since.undo (since : c.Since flushed) (kept : c.Kept)
    (small : c.table.nextId ≤ 2 ^ 63) : c.undo.Since flushed := by
  have marks := c.table.undo_marks kept.sound
  apply since.of_marks ⟨marks.kept, marks.changed, fun n member =>
    (marks.fresh n member).imp_right fun below => Nat.lt_of_lt_of_le below small⟩
  · have view := (Table.undo_refines kept.sound).view
    change c.table.undo.view.AtLeast _
    rw [view]
    exact since.grown.undo
  · exact since.arena.undo

theorem Since.squash (since : c.Since flushed) (kept : c.Kept) : c.squash.Since flushed := by
  have same : c.table.squash.primary = c.table.primary ∧ c.table.squash.dirty = c.table.dirty := by
    unfold Table.squash
    split <;> exact ⟨rfl, rfl⟩
  apply since.of_marks (Table.Marks.of_same _ same.1 same.2)
  · have view := (Table.squash_refines kept.sound).view
    change c.table.squash.view.AtLeast _
    rw [view]
    exact since.grown.squash
  · exact since.arena.squash

theorem Since.commit (since : c.Since flushed) (kept : c.Kept) (revision : Int) :
    (c.commit revision).Since flushed := by
  have marks : Table.Marks (2 ^ 63) c.table (c.commit revision).table :=
    Table.Marks.of_same _ rfl rfl
  apply since.of_marks marks
  · have view := (Table.commit_refines kept.sound revision).view
    change (c.table.commit revision).view.AtLeast _
    rw [view]
    exact since.grown.keep _
  · exact since.arena.commit revision

theorem Since.ahead (since : c.Since flushed) (kept : c.Kept) (fits : c.table.Fits) :
    c.table.Ahead flushed.rows flushed.arena where
  valid := kept.sound.valid
  ids := fits.ids
  touched := since.touched
  grown := since.grown.1
  rows := since.rows
  watermark := since.arena.watermark
  extended := since.arena.extended
  small := fits.arena
  inside r member := since.arena.layout.inside r.span (since.arena.patches r member)
  same_off r member s other off :=
    BlobRef.span_injective (since.arena.layout.eq_of_off (since.arena.patches r member)
      (since.arena.patches s other) (congrArg UInt32.toNat off))
  bytes := since.arena.bytes

end Account

end PulseVM.Arena
