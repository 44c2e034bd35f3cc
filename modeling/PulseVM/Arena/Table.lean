import PulseVM.Arena.Dirty
import PulseVM.Arena.Object

/-!
The in-memory table: paged rows, a blob arena, secondary indices and a stack of
undo states. Every operation is the state transformer the source writes with
`&mut self`; fallible ones return their verdict beside the table they leave
behind, also when they fail.
-/

namespace PulseVM.Arena
open Lib.Encoding Lib.Undo
open ArenaObject hiding id

/-- One entry of the undo stack. The orders list the keys of the two maps by first
touch. -/
structure UndoState (T : Type) where
  oldValues : Std.ExtTreeMap Nat T
  removedValues : Std.ExtTreeMap Nat T
  oldOrder : List Nat
  removedOrder : List Nat
  oldNextId : Nat
  oldBlobLen : Nat
  freed : List BlobRef
  reused : List BlobRef
  old_order : ∀ id, id ∈ oldOrder ↔ id ∈ oldValues
  removed_order : ∀ id, id ∈ removedOrder ↔ id ∈ removedValues

namespace UndoState

variable {T : Type}

def new (nextId blobLen : Nat) : UndoState T where
  oldValues := ∅
  removedValues := ∅
  oldOrder := []
  removedOrder := []
  oldNextId := nextId
  oldBlobLen := blobLen
  freed := []
  reused := []
  old_order id := by simp
  removed_order id := by simp

/-- Keep the first value seen of a row that existed when the session started. -/
def keepOld (state : UndoState T) (id : Nat) (old : T) : UndoState T :=
  if id < state.oldNextId ∧ id ∉ state.oldValues then
    { state with
      oldOrder := state.oldOrder ++ [id]
      oldValues := state.oldValues.insert id old
      old_order := fun j => by
        simp only [List.mem_append, List.mem_singleton, Std.ExtTreeMap.mem_insert,
          compare_eq_iff_eq, state.old_order j]
        tauto }
  else state

/-- Keep a removed row that existed when the session started. -/
def keepRemoved (state : UndoState T) (id : Nat) (removed : T) : UndoState T :=
  if id < state.oldNextId then
    { state with
      removedOrder := if id ∈ state.removedValues then state.removedOrder
        else state.removedOrder ++ [id]
      removedValues := state.removedValues.insert id removed
      removed_order := fun j => by
        have known := state.removed_order
        by_cases present : id ∈ state.removedValues
        · simp only [if_pos present, Std.ExtTreeMap.mem_insert, compare_eq_iff_eq, known j]
          constructor
          · exact .inr
          · rintro (rfl | member)
            · exact present
            · exact member
        · simp only [if_neg present, List.mem_append, List.mem_singleton,
            Std.ExtTreeMap.mem_insert, compare_eq_iff_eq, known j]
          tauto }
  else state

/-- Fold a later session into an earlier one, in operation order. -/
def absorb (previous top : UndoState T) : UndoState T :=
  let withSpans := { previous with
    freed := previous.freed ++ top.freed
    reused := previous.reused ++ top.reused }
  let withOld := top.oldOrder.foldl
    (fun state id => top.oldValues[id]?.elim state (state.keepOld id)) withSpans
  top.removedOrder.foldl
    (fun state id => top.removedValues[id]?.elim state (state.keepRemoved id)) withOld

end UndoState

/-- A table of `T`. The newest undo state is the head of the stack. The free list is
kept as one list of spans, the span freed last first; the source keeps one stack
of offsets for each length. -/
structure Table (T : Type) where
  primary : PagedPrimary T
  blobs : Bytes
  secondaries : List (KeyIndex T)
  undoStack : List (UndoState T)
  rowCount : Nat
  revision : Int
  dirty : DirtyIds
  free : List BlobRef
  blobPatches : List BlobRef
  flushedBlobLen : Nat

/-- Take the span of exactly this length that was freed last. -/
def takeFree (len : UInt32) : List BlobRef → Option (BlobRef × List BlobRef)
  | [] => none
  | r :: rest =>
    if r.len = len then some (r, rest)
    else (takeFree len rest).map fun found => (found.1, r :: found.2)

/-- Insert an object into every index, rolling back the earlier ones on a conflict;
the name of the conflicting index is returned. -/
def tryInsertAll {T : Type} [ArenaObject T] (obj : T) :
    List (KeyIndex T) → List (KeyIndex T) → List (KeyIndex T) × Option String
  | prior, [] => (prior, none)
  | prior, ix :: rest =>
    match ix.tryInsert obj with
    | some inserted => tryInsertAll obj (prior ++ [inserted]) rest
    | none => (prior.map (·.erase obj) ++ ix :: rest, some ix.decl.name)

/-- Move the entries of `current` to the keys of `updated`, index by index, moving
the earlier ones back on a conflict. -/
def replaceAll {T : Type} [ArenaObject T] (current updated : T) :
    List (KeyIndex T) → List (KeyIndex T) → List (KeyIndex T) × Option String
  | prior, [] => (prior, none)
  | prior, ix :: rest =>
    match ix.replace current updated with
    | some moved => replaceAll current updated (prior ++ [moved]) rest
    | none =>
      (prior.map (fun p => (p.replace updated current).getD p) ++ ix :: rest, some ix.decl.name)

namespace Table

variable {T : Type} [ArenaObject T]

def new : Table T where
  primary := PagedPrimary.new
  blobs := []
  secondaries := (secondaryIndices (T := T)).map KeyIndex.new
  undoStack := []
  rowCount := 0
  revision := 0
  dirty := DirtyIds.new
  free := []
  blobPatches := []
  flushedBlobLen := 0

/-- Store bytes in the arena and return a ref to them: an abandoned span of exactly
this size is overwritten, otherwise the arena grows. Lengths and offsets are
truncated to 32 bits. Overwriting past the end of the arena panics in the source;
here it extends the arena. -/
def allocBlob (t : Table T) (bytes : Bytes) : BlobRef × Table T :=
  if bytes = [] then (BlobRef.empty, t)
  else
    let len := UInt32.ofNat bytes.length
    match takeFree len t.free with
    | some (r, free) =>
      (r, { t with
        free := free
        blobs := splice t.blobs r.off.toNat bytes
        blobPatches := if r.off.toNat < t.flushedBlobLen then t.blobPatches ++ [r] else t.blobPatches
        undoStack := onTop (fun state => { state with reused := state.reused ++ [r] })
          t.undoStack })
    | none => (⟨UInt32.ofNat t.blobs.length, len⟩, { t with blobs := t.blobs ++ bytes })

/-- Mark a span as abandoned: reusable at once without a session, held by the
innermost session otherwise. -/
def freeBlob (t : Table T) (r : BlobRef) : Table T :=
  if r.len = 0 then t
  else
    match t.undoStack with
    | state :: below =>
      { t with undoStack := { state with freed := state.freed ++ [r] } :: below }
    | [] => { t with free := r :: t.free }

def reallocBlob (t : Table T) (old : BlobRef) (bytes : Bytes) : BlobRef × Table T :=
  (t.freeBlob old).allocBlob bytes

def blob (t : Table T) (r : BlobRef) : Bytes := slice t.blobs r.off.toNat r.len.toNat

def nextId (t : Table T) : Nat := t.primary.len

/-- The row an `emplace` constructs: the constructor must not pick the id. -/
def constructed (nextId : Nat) (f : T → T) : T := setId (f (setId default nextId)) nextId

def emplace (t : Table T) (f : T → T) : Except TableError T × Table T :=
  let obj := constructed t.nextId f
  match tryInsertAll obj [] t.secondaries with
  | (secondaries, some indexName) =>
    (.error (.uniquenessViolation (typeName T) indexName), { t with secondaries := secondaries })
  | (secondaries, none) =>
    (.ok obj, { t with
      secondaries := secondaries
      primary := t.primary.push obj
      rowCount := t.rowCount + 1
      dirty := t.dirty.mark t.nextId })

/-- The row at a client id. A negative id casts to a slot past every row. -/
def find (t : Table T) : Int → Option T
  | .ofNat id => t.primary.get id
  | .negSucc _ => none

def modify (t : Table T) (raw : Int) (m : T → T) : Except TableError Unit × Table T :=
  match raw, t.find raw with
  | .ofNat slot, some current =>
    let updated := m current
    if ArenaObject.id updated ≠ slot then (.error (.idChanged (typeName T)), t)
    else
      match replaceAll current updated [] t.secondaries with
      | (secondaries, some indexName) =>
        (.error (.uniquenessViolation (typeName T) indexName),
          { t with secondaries := secondaries })
      | (secondaries, none) =>
        (.ok (), { t with
          secondaries := secondaries
          primary := (t.primary.insert slot updated).1
          undoStack := onTop (·.keepOld slot current) t.undoStack
          dirty := t.dirty.mark slot })
  | _, _ => (.error (.notFound (typeName T) raw), t)

def remove (t : Table T) (raw : Int) : Except TableError Unit × Table T :=
  match raw, t.find raw with
  | .ofNat slot, some obj =>
    (.ok (), { t with
      primary := (t.primary.take slot).2
      rowCount := t.rowCount - 1
      dirty := t.dirty.mark slot
      secondaries := t.secondaries.map (·.erase obj)
      undoStack := onTop (·.keepRemoved slot obj) t.undoStack })
  | _, _ => (.error (.notFound (typeName T) raw), t)

def startUndoSession (t : Table T) : Table T :=
  { t with
    undoStack := UndoState.new t.nextId t.blobs.length :: t.undoStack
    revision := t.revision + 1 }

def setRevision (t : Table T) (revision : Int) : Except TableError Unit × Table T :=
  if t.undoStack ≠ [] then
    (.error (.revision "cannot set revision while there is an existing undo stack"), t)
  else if revision < t.revision then (.error (.revision "revision cannot decrease"), t)
  else (.ok (), { t with revision := revision })

/-- Spans a session took from the free list and that lie in the arena it started
with go back to the free list. -/
def releaseReused (oldBlobLen : Nat) (reused free : List BlobRef) : List BlobRef :=
  reused.foldl (fun free r => if r.off.toNat < oldBlobLen then r :: free else free) free

/-- Forget a row created during the session; its slot is dropped afterwards. -/
def dropCreated (t : Table T) (id : Nat) : Table T :=
  match t.primary.get id with
  | some obj =>
    { t with
      dirty := t.dirty.mark id
      secondaries := t.secondaries.map (·.erase obj)
      rowCount := t.rowCount - 1 }
  | none => { t with dirty := t.dirty.mark id }

def eraseCurrent (t : Table T) (id : Nat) : Table T :=
  match t.primary.get id with
  | some current => { t with secondaries := t.secondaries.map (·.erase current) }
  | none => t

/-- Put an old row back under its own id. A row whose id is not a slot below the next
one panics in the source and is skipped here. -/
def restoreRow (t : Table T) (obj : T) : Table T :=
  match ArenaObject.id obj with
  | .ofNat slot =>
    { t with
      secondaries := t.secondaries.map fun ix => (ix.tryInsert obj).getD ix
      primary := (t.primary.insert slot obj).1
      rowCount := if (t.primary.insert slot obj).2 then t.rowCount + 1 else t.rowCount
      dirty := t.dirty.mark slot }
  | .negSucc _ => t

/-- Rows an undo puts back after a removal; the older value wins. -/
def removedRestore (state : UndoState T) : List T :=
  state.removedValues.toList.map fun (id, removed) => state.oldValues[id]?.getD removed

/-- Rows an undo puts back after a change, with their ids. -/
def modifiedRestore (state : UndoState T) : List (Nat × T) :=
  state.oldValues.toList.filter fun (id, _) => !state.removedValues.contains id

/-- Drop every blob appended during the session; the spans it reused are free again,
and those it abandoned stay with the rows that are put back. -/
def revertHeap (t : Table T) (state : UndoState T) (below : List (UndoState T)) : Table T :=
  { t with
    undoStack := below
    blobs := t.blobs.take state.oldBlobLen
    free := releaseReused state.oldBlobLen state.reused t.free }

/-- Drop the rows created during the session, erase the keys the changed rows have
now, then put the old rows back. The source walks hash maps in an unspecified
order; here rows are put back by ascending id. -/
def revertRows (t : Table T) (state : UndoState T) : Table T :=
  let created := List.range' state.oldNextId (t.primary.len - state.oldNextId)
  let dropped := created.foldl dropCreated t
  let shrunk := { dropped with primary := dropped.primary.setLen state.oldNextId }
  let vacated := ((modifiedRestore state).map Prod.fst).foldl eraseCurrent shrunk
  ((modifiedRestore state).map Prod.snd ++ removedRestore state).foldl restoreRow vacated

/-- Revert to the state at the top of the undo stack. -/
def undo (t : Table T) : Table T :=
  match t.undoStack with
  | [] => t
  | state :: below =>
    let reverted := (t.revertHeap state below).revertRows state
    { reverted with revision := reverted.revision - 1 }

/-- Combine the top two undo states. Squashing the only session makes its changes
permanent, so its freed spans become reusable. -/
def squash (t : Table T) : Table T :=
  match t.undoStack with
  | [] => t
  | [top] =>
    { t with undoStack := [], revision := t.revision - 1, free := top.freed.reverse ++ t.free }
  | top :: previous :: below =>
    { t with undoStack := previous.absorb top :: below, revision := t.revision - 1 }

/-- How many of the oldest sessions a commit up to `revision` makes permanent. -/
def commitCount (t : Table T) (revision : Int) : Nat :=
  let revision := min revision t.revision
  if revision = t.revision then t.undoStack.length
  else if t.revision - revision < t.undoStack.length then
    t.undoStack.length - (t.revision - revision).toNat
  else 0

/-- Discard all undo history at or before `revision`, oldest session first. -/
def commit (t : Table T) (revision : Int) : Table T :=
  let kept := t.undoStack.length - t.commitCount revision
  let dropped := (t.undoStack.drop kept).reverse
  { t with
    undoStack := t.undoStack.take kept
    free := dropped.foldl (fun free state => state.freed.reverse ++ free) t.free }

def undoAll (t : Table T) : Table T := (fun t => t.undo)^[t.undoStack.length] t

end Table

end PulseVM.Arena
