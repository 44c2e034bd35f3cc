import PulseVM.Arena.Isolation
import PulseVM.History.DeltaLaw

/-!
The tables behind the views. After any body of calls on a table, with sessions of its own
nested in it, the newest undo state leads back to the rows the session started from, and the
blobs of these rows are still in place.
-/

namespace PulseVM.History
open Arena Lib.Undo Lib.Sessions Lib.Encoding

variable {T : Type} [ArenaObject T]

theorem run_sound {c : Account T} (kept : c.Kept) (body : Body (TableOp T)) :
    (Table.machine.run body c.table.startUndoSession).Sound :=
  (Table.run_refines (Table.startUndoSession_refines kept.sound).sound body).sound

theorem run_before {c : Account T} (kept : c.Kept) (body : Body (TableOp T)) :
    (ofTable _ (run_sound kept body)).before = c.table.primary.slab := by
  have opened := Table.startUndoSession_refines kept.sound
  have ran := Table.run_refines opened.sound body
  have saved : (Table.machine.run body c.table.startUndoSession).view.saved =
      c.table.primary.slab :: c.table.view.saved := by
    rw [ran.view, opened.view, (RowStore.run_keeps body _).1]
    rfl
  cases stack : (Table.machine.run body c.table.startUndoSession).undoStack with
  | nil => simp [Table.view, stack, Lib.Undo.saved] at saved
  | cons top below =>
    simp only [Table.view, stack, List.map_cons, Lib.Undo.saved, List.cons.injEq] at saved
    have session : (ofTable _ (run_sound kept body)).session = some top := by
      simp only [ofTable, stack, List.head?_cons]
    rw [View.before_eq session]
    exact saved.1

/-- Under the client discipline of the arena a session can be read back: its rows as they were
at the start, with every blob they refer to. -/
theorem run_recalls {c : Account T} (kept : c.Kept) (hold : Node.RowsHold c)
    {body : Body (TableOp T)}
    (admits : Account.machine.Admits Account.Allows body c.startUndoSession) :
    (ofTable _ (run_sound kept body)).before = c.table.primary.slab ∧
    ∀ id row, c.table.primary.slab.get id = some row → ∀ r ∈ ArenaObject.blobRefs row,
      (ofTable _ (run_sound kept body)).blob r = (ofTable _ kept.sound).blob r := by
  refine ⟨run_before kept body, fun id row live r member => ?_⟩
  obtain ⟨_, within⟩ := kept.start.run admits
  have table : (Account.machine.run body c.startUndoSession).table =
      Table.machine.run body c.table.startUndoSession := Account.table_run body c.startUndoSession
  by_cases empty : r.len = 0
  · simp [View.blob, slice, empty]
  · have held : r.span ∈ c.held := hold.subset (mem_refSpans live member empty)
    have bytes := within.bytes c.held (List.mem_cons_self ..) r.span held
    rw [table] at bytes
    exact bytes

def stored : Account ContractKeyValueRow :=
  Account.machine.run (.call (.allocBlob [1, 2, 3])
    (.call (.emplace fun row => { row with primaryKey := 7, value := ⟨0, 3⟩ }) .done)) Account.new

theorem kept_stored : stored.Kept := (Account.new_kept.run (by decide +kernel)).1

/-- Replace the blob and the payer of the row, and remove it in a session that is undone. -/
def rewriting : Body (TableOp ContractKeyValueRow) :=
  .call (.reallocBlob ⟨0, 3⟩ [4, 5])
    (.call (.modify 0 fun row => { row with payer := 9, value := ⟨3, 2⟩ })
      (.session (.call (.remove 0) .done) .undo .done))

theorem run_recalls_rewriting :
    (Table.machine.run rewriting stored.table.startUndoSession).primary.get 0 =
      some ⟨0, 0, 7, 9, ⟨3, 2⟩⟩ ∧
    (ofTable _ (run_sound kept_stored rewriting)).before.get 0 = some ⟨0, 0, 7, 0, ⟨0, 3⟩⟩ ∧
    (ofTable _ (run_sound kept_stored rewriting)).blob ⟨0, 3⟩ = [1, 2, 3] := by
  have admits : Account.machine.Admits Account.Allows rewriting stored.startUndoSession := by
    decide +kernel
  obtain ⟨rows, blobs⟩ := run_recalls kept_stored (by unfold Node.RowsHold; decide +kernel) admits
  have live : stored.table.primary.slab.get 0 = some ⟨0, 0, 7, 0, ⟨0, 3⟩⟩ := by decide +kernel
  refine ⟨by decide +kernel, by rw [rows, live], ?_⟩
  rw [blobs 0 _ live ⟨0, 3⟩ (List.mem_singleton_self _)]
  decide +kernel

end PulseVM.History
