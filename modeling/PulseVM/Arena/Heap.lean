import PulseVM.Arena.Undo
import PulseVM.Lib.Leases
import PulseVM.Lib.Sessions

/-!
The blob arena. An account follows a table together with the spans its client
holds: those handed out by an allocation and not freed since. As long as the client
frees only spans it holds and the arena stays below 2^32 bytes, every operation
keeps the accounts of the lease library.
-/

namespace PulseVM.Arena
open Lib.Encoding Lib.Spans Lib.Leases Lib.Sessions
open Lib.Undo (onTop)

variable {T : Type}

/-- What a session knows about the arena. -/
def UndoState.frame (state : UndoState T) : Frame :=
  ⟨state.oldBlobLen, state.freed.map BlobRef.span, state.reused.map BlobRef.span⟩

namespace UndoState

theorem frame_keepOld (state : UndoState T) (id : Nat) (old : T) :
    (state.keepOld id old).frame = state.frame := by
  unfold keepOld
  split <;> rfl

theorem frame_keepRemoved (state : UndoState T) (id : Nat) (removed : T) :
    (state.keepRemoved id removed).frame = state.frame := by
  unfold keepRemoved
  split <;> rfl

theorem frame_foldl {f : UndoState T → Nat → UndoState T}
    (keeps : ∀ state id, (f state id).frame = state.frame) (ids : List Nat)
    (state : UndoState T) : (ids.foldl f state).frame = state.frame := by
  induction ids generalizing state with
  | nil => rfl
  | cons id rest ih => rw [List.foldl_cons, ih, keeps]

theorem frame_absorb (previous top : UndoState T) :
    (previous.absorb top).frame = ⟨previous.frame.mark, previous.frame.freed ++ top.frame.freed,
      previous.frame.reused ++ top.frame.reused⟩ := by
  dsimp only [absorb]
  rw [frame_foldl, frame_foldl]
  · simp only [frame, List.map_append]
  · intro state id
    cases top.oldValues[id]? with
    | none => rfl
    | some old => exact frame_keepOld state id old
  · intro state id
    cases top.removedValues[id]? with
    | none => rfl
    | some removed => exact frame_keepRemoved state id removed

end UndoState

theorem takeFree_perm {len : UInt32} {free rest : List BlobRef} {r : BlobRef}
    (taken : takeFree len free = some (r, rest)) : free.Perm (r :: rest) ∧ r.len = len := by
  induction free generalizing rest with
  | nil => cases taken
  | cons first others ih =>
    simp only [takeFree] at taken
    split at taken
    · next found =>
      cases taken
      exact ⟨List.Perm.refl _, found⟩
    · obtain ⟨later, found, same⟩ := Option.map_eq_some_iff.mp taken
      cases same
      obtain ⟨perm, size⟩ := ih found
      exact ⟨(perm.cons first).trans (List.Perm.swap later.1 first later.2), size⟩

theorem releaseReused_perm {mark : Nat} {reused free : List BlobRef}
    (inside : ∀ r ∈ reused, r.off.toNat < mark) :
    (Table.releaseReused mark reused free).Perm (free ++ reused) := by
  induction reused generalizing free with
  | nil =>
    rw [List.append_nil]
    exact List.Perm.refl _
  | cons r rest ih =>
    have first := inside r (List.mem_cons_self ..)
    have later := @ih (r :: free) fun s member => inside s (List.mem_cons_of_mem r member)
    unfold Table.releaseReused at later ⊢
    rw [List.foldl_cons, if_pos first]
    exact later.trans List.perm_middle.symm

namespace Table

variable {t : Table T}

def frames (t : Table T) : List Frame := t.undoStack.map UndoState.frame

def freeSpans (t : Table T) : List Span := t.free.map BlobRef.span

/-- The accounts of a table whose client holds the given spans. -/
def Accounted (t : Table T) (held : List Span) (saved : List (List Span)) : Prop :=
  Lib.Leases.Accounted t.blobs.length t.freeSpans t.frames held saved

/-- Neither the arena nor an older session changed. -/
structure SameHeap (t u : Table T) : Prop where
  blobs : u.blobs = t.blobs
  free : u.free = t.free
  frames : u.frames = t.frames
  blobPatches : u.blobPatches = t.blobPatches
  flushedBlobLen : u.flushedBlobLen = t.flushedBlobLen
  below : u.undoStack.tail = t.undoStack.tail

/-- Neither the rows nor an older session changed. -/
structure SameRows (t u : Table T) : Prop where
  primary : u.primary = t.primary
  dirty : u.dirty = t.dirty
  secondaries : u.secondaries = t.secondaries
  below : u.undoStack.tail = t.undoStack.tail

theorem SameRows.trans {u v : Table T} (first : SameRows t u) (second : SameRows u v) :
    SameRows t v where
  primary := second.primary.trans first.primary
  dirty := second.dirty.trans first.dirty
  secondaries := second.secondaries.trans first.secondaries
  below := second.below.trans first.below

theorem tail_onTop {α : Type} (f : α → α) (stack : List α) : (onTop f stack).tail = stack.tail := by
  cases stack <;> rfl

theorem allocBlob_sameRows (t : Table T) (bytes : Bytes) : SameRows t (t.allocBlob bytes).2 := by
  dsimp only [allocBlob]
  split
  · exact ⟨rfl, rfl, rfl, rfl⟩
  · split
    · exact ⟨rfl, rfl, rfl, tail_onTop _ _⟩
    · exact ⟨rfl, rfl, rfl, rfl⟩

theorem freeBlob_sameRows (t : Table T) (r : BlobRef) : SameRows t (t.freeBlob r) := by
  unfold freeBlob
  split
  · exact ⟨rfl, rfl, rfl, rfl⟩
  · split
    · next state below stack => exact ⟨rfl, rfl, rfl, by rw [stack]; rfl⟩
    · exact ⟨rfl, rfl, rfl, rfl⟩

theorem reallocBlob_sameRows (t : Table T) (old : BlobRef) (bytes : Bytes) :
    SameRows t (t.reallocBlob old bytes).2 :=
  (t.freeBlob_sameRows old).trans ((t.freeBlob old).allocBlob_sameRows bytes)

theorem SameHeap.accounted {u : Table T} (same : SameHeap t u) {held : List Span}
    {saved : List (List Span)} (accounted : t.Accounted held saved) : u.Accounted held saved := by
  unfold Accounted freeSpans at accounted ⊢
  rw [same.blobs, same.free, same.frames]
  exact accounted

theorem frames_onTop {f : UndoState T → UndoState T}
    (keeps : ∀ state, (f state).frame = state.frame) (stack : List (UndoState T)) :
    (onTop f stack).map UndoState.frame = stack.map UndoState.frame := by
  cases stack with
  | nil => rfl
  | cons top below => simp only [onTop, List.map_cons, keeps]

section Rows

variable [ArenaObject T]

theorem emplace_sameHeap (t : Table T) (f : T → T) : SameHeap t (t.emplace f).2 := by
  dsimp only [emplace]
  split
  · exact ⟨rfl, rfl, rfl, rfl, rfl, rfl⟩
  · exact ⟨rfl, rfl, rfl, rfl, rfl, rfl⟩

theorem modify_sameHeap (t : Table T) (raw : Int) (m : T → T) : SameHeap t (t.modify raw m).2 := by
  unfold modify
  split
  · next slot current _ =>
    dsimp only
    split
    · exact ⟨rfl, rfl, rfl, rfl, rfl, rfl⟩
    · split
      · exact ⟨rfl, rfl, rfl, rfl, rfl, rfl⟩
      · exact ⟨rfl, rfl, frames_onTop (fun state => state.frame_keepOld slot current) _, rfl, rfl,
          tail_onTop _ _⟩
  · exact ⟨rfl, rfl, rfl, rfl, rfl, rfl⟩

theorem remove_sameHeap (t : Table T) (raw : Int) : SameHeap t (t.remove raw).2 := by
  unfold remove
  split
  · next slot obj _ =>
    exact ⟨rfl, rfl, frames_onTop (fun state => state.frame_keepRemoved slot obj) _, rfl, rfl,
      tail_onTop _ _⟩
  · exact ⟨rfl, rfl, rfl, rfl, rfl, rfl⟩

end Rows

/-- The spans held after an allocation returned `r`; empty refs hold nothing. -/
def lend (r : BlobRef) (held : List Span) : List Span :=
  if r.len = 0 then held else r.span :: held

def giveBack (r : BlobRef) (held : List Span) : List Span :=
  if r.len = 0 then held else held.erase r.span

theorem allocBlob_nil (t : Table T) : t.allocBlob [] = (BlobRef.empty, t) := if_pos rfl

theorem allocBlob_reuse {bytes : Bytes} (nonempty : bytes ≠ []) {r : BlobRef}
    {rest : List BlobRef} (taken : takeFree (UInt32.ofNat bytes.length) t.free = some (r, rest)) :
    t.allocBlob bytes = (r, { t with
      free := rest
      blobs := splice t.blobs r.off.toNat bytes
      blobPatches := if r.off.toNat < t.flushedBlobLen then t.blobPatches ++ [r]
        else t.blobPatches
      undoStack := onTop (fun state => { state with reused := state.reused ++ [r] })
        t.undoStack }) := by
  dsimp only [allocBlob]
  rw [if_neg nonempty, taken]

theorem allocBlob_append {bytes : Bytes} (nonempty : bytes ≠ [])
    (full : takeFree (UInt32.ofNat bytes.length) t.free = none) :
    t.allocBlob bytes = (⟨UInt32.ofNat t.blobs.length, UInt32.ofNat bytes.length⟩,
      { t with blobs := t.blobs ++ bytes }) := by
  dsimp only [allocBlob]
  rw [if_neg nonempty, full]

theorem len_allocBlob (t : Table T) (bytes : Bytes) :
    (t.allocBlob bytes).1.len = UInt32.ofNat bytes.length := by
  by_cases empty : bytes = []
  · rw [empty, allocBlob_nil]
    rfl
  · cases taken : takeFree (UInt32.ofNat bytes.length) t.free with
    | some found =>
      rw [allocBlob_reuse empty taken]
      exact (takeFree_perm taken).2
    | none => rw [allocBlob_append empty taken]

theorem toNat_ofNat_small {n : Nat} (small : n < 2 ^ 32) : (UInt32.ofNat n).toNat = n :=
  UInt32.toNat_ofNat_of_lt' small

theorem length_le_splice (arena : Bytes) (off : Nat) (bytes : Bytes) :
    bytes.length ≤ (splice arena off bytes).length := by
  unfold splice
  rw [List.length_append, List.length_append]
  omega

section Accounts

variable {held : List Span} {saved : List (List Span)}

theorem Accounted.reuse_room (accounted : t.Accounted held saved) {bytes : Bytes} {r : BlobRef}
    {rest : List BlobRef} (taken : takeFree (UInt32.ofNat bytes.length) t.free = some (r, rest))
    (small : (splice t.blobs r.off.toNat bytes).length < 2 ^ 32) :
    r.span.len = bytes.length ∧ r.span.off + bytes.length ≤ t.blobs.length ∧ 0 < bytes.length ∧
      r.span ∈ t.freeSpans := by
  obtain ⟨perm, size⟩ := takeFree_perm taken
  have listed : r ∈ t.free := perm.mem_iff.mpr (List.mem_cons_self ..)
  have member : r.span ∈ t.freeSpans := List.mem_map_of_mem listed
  have inLayout := List.mem_append_right (held ++ pending t.frames) member
  have positive := accounted.layout.nonempty r.span inLayout
  have inside := accounted.layout.inside r.span inLayout
  have bound := length_le_splice t.blobs r.off.toNat bytes
  have length : r.span.len = bytes.length := by
    change r.len.toNat = bytes.length
    rw [size, toNat_ofNat_small (by omega)]
  rw [length] at positive inside
  exact ⟨length, inside, positive, member⟩

theorem Accounted.alloc (accounted : t.Accounted held saved) (bytes : Bytes)
    (small : (t.allocBlob bytes).2.blobs.length < 2 ^ 32) :
    (t.allocBlob bytes).2.Accounted (lend (t.allocBlob bytes).1 held) saved := by
  by_cases empty : bytes = []
  · subst empty
    exact accounted
  · cases taken : takeFree (UInt32.ofNat bytes.length) t.free with
    | some found =>
      obtain ⟨r, rest⟩ := found
      rw [allocBlob_reuse empty taken] at small ⊢
      obtain ⟨length, inside, positive, _⟩ := accounted.reuse_room taken small
      have filled : r.len ≠ 0 := by
        intro zero
        have length : r.span.len = 0 := by
          change r.len.toNat = 0
          rw [zero]
          rfl
        omega
      have size : (splice t.blobs r.off.toNat bytes).length = t.blobs.length :=
        length_splice inside
      have perm := (takeFree_perm taken).1.map BlobRef.span
      have stack : (onTop (fun state => { state with reused := state.reused ++ [r] })
          t.undoStack).map UndoState.frame =
          onTop (fun f => { f with reused := f.reused ++ [r.span] }) t.frames := by
        apply map_onTop
        intro state
        simp only [UndoState.frame, List.map_append, List.map_singleton]
      unfold Accounted lend freeSpans frames
      rw [if_neg filled, size, stack]
      exact Lib.Leases.Accounted.reuse accounted perm
    | none =>
      rw [allocBlob_append empty taken] at small ⊢
      rw [List.length_append] at small
      have positive : 0 < bytes.length := List.length_pos_iff.mpr empty
      have off : (UInt32.ofNat t.blobs.length).toNat = t.blobs.length :=
        toNat_ofNat_small (by omega)
      have len : (UInt32.ofNat bytes.length).toNat = bytes.length :=
        toNat_ofNat_small (by omega)
      have filled : UInt32.ofNat bytes.length ≠ 0 := by
        intro zero
        rw [zero] at len
        change 0 = bytes.length at len
        omega
      unfold Accounted lend
      rw [if_neg filled]
      simp only [BlobRef.span, off, len, List.length_append]
      exact Lib.Leases.Accounted.append accounted positive

/-- An allocation writes only into a free span or past the end of the arena. -/
theorem Accounted.alloc_slice (accounted : t.Accounted held saved) (bytes : Bytes)
    (small : (t.allocBlob bytes).2.blobs.length < 2 ^ 32) {s : Span}
    (apart : ∀ f ∈ t.freeSpans, s.Apart f) (inside : s.off + s.len ≤ t.blobs.length) :
    slice (t.allocBlob bytes).2.blobs s.off s.len = slice t.blobs s.off s.len := by
  by_cases empty : bytes = []
  · rw [empty, allocBlob_nil]
  · cases taken : takeFree (UInt32.ofNat bytes.length) t.free with
    | some found =>
      obtain ⟨r, rest⟩ := found
      rw [allocBlob_reuse empty taken] at small ⊢
      obtain ⟨length, room, _, member⟩ := accounted.reuse_room taken small
      have away := apart r.span member
      unfold Span.Apart at away
      rw [length] at away
      exact slice_splice_apart room away
    | none =>
      rw [allocBlob_append empty taken]
      exact slice_append bytes inside

theorem Accounted.free (accounted : t.Accounted held saved) (r : BlobRef)
    (owned : r.len = 0 ∨ r.span ∈ held) : (t.freeBlob r).Accounted (giveBack r held) saved := by
  unfold freeBlob giveBack
  by_cases empty : r.len = 0
  · rw [if_pos empty, if_pos empty]
    exact accounted
  · have member := owned.resolve_left empty
    rw [if_neg empty, if_neg empty]
    unfold Accounted frames at accounted ⊢
    cases stack : t.undoStack with
    | nil =>
      rw [stack] at accounted
      exact Lib.Leases.Accounted.release accounted member
    | cons state below =>
      rw [stack] at accounted
      have kept := Lib.Leases.Accounted.keepBack accounted member
      have grown : (state.frame.freed ++ [r.span]) = (state.freed ++ [r]).map BlobRef.span := by
        simp only [UndoState.frame, List.map_append, List.map_singleton]
      rw [grown] at kept
      exact kept

theorem freeBlob_blobs (t : Table T) (r : BlobRef) : (t.freeBlob r).blobs = t.blobs := by
  unfold freeBlob
  split
  · rfl
  · split <;> rfl

theorem Accounted.start [ArenaObject T] (accounted : t.Accounted held saved) :
    t.startUndoSession.Accounted held (held :: saved) :=
  Lib.Leases.Accounted.start accounted

section Sessions

theorem Accounted.squash (accounted : t.Accounted held saved) :
    t.squash.Accounted held saved.tail := by
  unfold Accounted frames at accounted ⊢
  unfold Table.squash
  cases stack : t.undoStack with
  | nil =>
    rw [stack] at accounted
    cases saved with
    | nil =>
      rw [stack]
      exact accounted
    | cons first rest => exact accounted.backed.elim
  | cons top rest =>
    rw [stack] at accounted
    cases rest with
    | nil =>
      have released : (top.freed.reverse ++ t.free).map BlobRef.span |>.Perm
          (t.freeSpans ++ pending ([top.frame].drop 0)) := by
        rw [List.map_append, List.map_reverse]
        have kept : pending ([top.frame].drop 0) = top.freed.map BlobRef.span := by
          simp [pending, UndoState.frame]
        rw [kept]
        exact ((List.reverse_perm _).append_right _).trans List.perm_append_comm
      cases saved with
      | nil => exact accounted.backed.elim
      | cons first older =>
        cases older with
        | nil => exact Lib.Leases.Accounted.commit (k := 0) accounted released
        | cons second deeper => exact accounted.backed.2.2.elim
    | cons previous below =>
      cases saved with
      | nil => exact accounted.backed.elim
      | cons second older =>
        cases older with
        | nil => exact accounted.backed.2.2.elim
        | cons first deeper =>
          have merged := Lib.Leases.Accounted.squash accounted
          simp only [List.map_cons, UndoState.frame_absorb]
          exact merged

theorem commit_free_perm (dropped : List (UndoState T)) (free : List BlobRef) :
    ((dropped.foldl (fun free state => state.freed.reverse ++ free) free).map BlobRef.span).Perm
      (free.map BlobRef.span ++ pending (dropped.map UndoState.frame)) := by
  induction dropped generalizing free with
  | nil => simp [pending]
  | cons state rest ih =>
    refine (ih _).trans (perm_of_counts fun s => ?_)
    simp only [pending, List.map_cons, List.flatMap_cons, List.count_append, List.map_append,
      List.map_reverse, List.count_reverse, UndoState.frame]
    omega

theorem Accounted.commit (accounted : t.Accounted held saved) (revision : Int) :
    (t.commit revision).Accounted held
      (saved.take (t.undoStack.length - t.commitCount revision)) := by
  have dropped := commit_free_perm
    (t.undoStack.drop (t.undoStack.length - t.commitCount revision)).reverse t.free
  unfold Accounted frames at accounted ⊢
  dsimp only [Table.commit]
  rw [List.map_take]
  refine Lib.Leases.Accounted.commit accounted (dropped.trans (perm_of_counts fun s => ?_))
  have order := ((List.reverse_perm
    (t.undoStack.drop (t.undoStack.length - t.commitCount revision))).map
      UndoState.frame).flatMap_right Frame.freed
  have counts := List.perm_iff_count.mp order s
  rw [List.count_append, List.count_append, ← List.map_drop]
  unfold pending
  rw [counts]
  rfl

theorem squash_blobs (t : Table T) : t.squash.blobs = t.blobs := by
  unfold squash
  split <;> rfl

theorem squash_below {t : Table T} {stack : List (UndoState T)}
    (below : t.undoStack.tail = stack) : t.squash.undoStack.tail = stack.tail := by
  subst below
  unfold squash
  split
  · next empty =>
    rw [empty]
    rfl
  · next top only =>
    rw [only]
    rfl
  · next top previous rest more =>
    rw [more]
    rfl

variable [ArenaObject T]

theorem undo_nil (empty : t.undoStack = []) : t.undo = t := by
  unfold undo
  rw [empty]

/-- The arena after an undo: cut back to the mark, with the reused spans free again. -/
theorem undo_heap {state : UndoState T} {below : List (UndoState T)}
    (stack : t.undoStack = state :: below) :
    t.undo.blobs = t.blobs.take state.oldBlobLen ∧
      t.undo.free = releaseReused state.oldBlobLen state.reused t.free ∧
      t.undo.undoStack = below ∧ t.undo.revision = t.revision - 1 ∧
      t.undo.blobPatches = t.blobPatches ∧ t.undo.flushedBlobLen = t.flushedBlobLen := by
  have frame := revertRows_frame (t.revertHeap state below) state
  have result : t.undo = { (t.revertHeap state below).revertRows state with
      revision := ((t.revertHeap state below).revertRows state).revision - 1 } := by
    unfold undo
    rw [stack]
  rw [result]
  exact ⟨frame.blobs, frame.free, frame.undoStack, congrArg (· - 1) frame.revision,
    frame.blobPatches, frame.flushedBlobLen⟩

theorem undo_below (t : Table T) : t.undo.undoStack = t.undoStack.tail := by
  cases stack : t.undoStack with
  | nil =>
    rw [undo_nil stack, stack]
    rfl
  | cons state below => exact (undo_heap stack).2.2.1

/-- Undo cuts the arena and writes nowhere. -/
theorem undo_slice (t : Table T) {s : Span} (inside : s.off + s.len ≤ t.undo.blobs.length) :
    slice t.undo.blobs s.off s.len = slice t.blobs s.off s.len := by
  cases stack : t.undoStack with
  | nil => rw [undo_nil stack]
  | cons state below =>
    have cut := (undo_heap stack).1
    rw [cut] at inside ⊢
    apply slice_take
    rw [List.length_take] at inside
    omega

theorem Accounted.undo {before : List Span} {older : List (List Span)}
    (accounted : t.Accounted held (before :: older)) : t.undo.Accounted before older := by
  unfold Accounted frames at accounted ⊢
  cases stack : t.undoStack with
  | nil =>
    rw [stack] at accounted
    exact accounted.backed.elim
  | cons state below =>
    obtain ⟨blobs, free, sessions, _⟩ := undo_heap stack
    rw [stack, List.map_cons] at accounted
    have backed := accounted.backed
    obtain ⟨mark, layout, _⟩ := backed
    have inside : ∀ r ∈ state.reused, r.off.toNat < state.oldBlobLen := by
      intro r member
      have listed : r.span ∈ before ++ pending (below.map UndoState.frame) ++
          (t.freeSpans ++ state.frame.reused) :=
        List.mem_append_right _ (List.mem_append_right _ (List.mem_map_of_mem member))
      have positive := layout.nonempty r.span listed
      have bound := layout.inside r.span listed
      change r.span.off + r.span.len ≤ state.oldBlobLen at bound
      change r.span.off < state.oldBlobLen
      omega
    have released := (@releaseReused_perm _ _ t.free inside).map BlobRef.span
    rw [List.map_append] at released
    have size : (t.blobs.take state.oldBlobLen).length = state.oldBlobLen :=
      List.length_take_of_le mark
    unfold freeSpans
    rw [blobs, size, free, sessions]
    exact Lib.Leases.Accounted.undo accounted released

end Sessions

end Accounts

end Table

end PulseVM.Arena
