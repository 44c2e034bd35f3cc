import PulseVM.Arena.ChainRows
import PulseVM.Arena.Lifecycle

/-! What a restart finds on disk. -/

namespace PulseVM.Arena.Node

variable {T : Type} [ArenaObject T] {n : Node T} {t : Table T}

def restarted (n : Node T) : Except TableError (Table T) := Table.recover n.disk

theorem restarted_ok (up : n.restarted = .ok t) : ∃ first u : Table T,
    Table.loadCheckpoint n.disk.revision n.disk.snapshot = .ok first ∧
      first.replay n.disk.log = .ok u ∧ first.replayLog n.disk.log = .ok t ∧
      u.revision ≤ t.revision := by
  unfold restarted Table.recover at up
  split at up
  · cases up
  · rename_i first loaded
    have whole := up
    unfold Table.replayLog at up
    split at up
    · cases up
    · rename_i u replayed
      refine ⟨first, u, loaded, replayed, whole, ?_⟩
      split at up
      · cases up
        exact le_rfl
      · obtain ⟨-, later, rfl⟩ := Table.revise_ok up
        exact later

/-- With no record in the log that is older than the checkpoint, a restart finds the table of
the last flush. After one more flush it finds the live table if no changed row takes a key from
a row that is changed after it, and otherwise it fails. -/
theorem restarted_exact (reachable : n.Reachable) (current : n.older = 0)
    (up : n.restarted = .ok t) (later : t.revision ≤ n.table.revision) :
    t.Loaded n.flushed.rows n.flushed.arena ∧
    (HandoverFree n.flushed.rows.get n.table.primary.get n.table.dirty.order →
      ∃ v, n.flush.restarted = .ok v ∧ v.Loaded n.table.primary.slab n.table.blobs ∧
        v.revision = n.table.revision) ∧
    (¬HandoverFree n.flushed.rows.get n.table.primary.get n.table.dirty.order →
      n.flush.restarted = .error (.corrupted "delta secondary key conflict")) := by
  have good := reachable.good
  obtain ⟨first, u, loaded, replayed, whole, early⟩ := restarted_ok up
  have replays := good.replays first
  rw [current, List.drop_zero] at replays
  obtain ⟨free, blocked⟩ := Table.replay_packDelta replayed
    (good.since.ahead good.kept good.fits) (replays u loaded replayed)
  refine ⟨Table.replayLog_loaded (fun u => replays u loaded) whole, ?_⟩
  unfold restarted Table.recover Table.replayLog flush
  rw [loaded]
  refine ⟨fun handover => ?_, fun handover => by dsimp only; rw [blocked handover]⟩
  obtain ⟨v, outcome, done, same⟩ := free handover
  have closed : v.markFlushed.undoStack = [] := done.markFlushed.undoStack
  have notEarlier : ¬n.table.revision < v.markFlushed.revision := by
    change ¬n.table.revision < v.revision
    omega
  have revised : v.markFlushed.revise n.table.revision =
      .ok { v.markFlushed with revision := n.table.revision } := by
    simp [Table.revise, Table.setRevision, closed, notEarlier]
  dsimp only
  rw [outcome, List.getLast?_concat]
  exact ⟨_, revised, done.markFlushed.revise revised, rfl⟩

/-- Behind a checkpoint with a new log, a new row takes the key of a row that is removed after
the new one was made. -/
def takenKey : List (Event ContractKeyValueRow) :=
  [.call (.emplace fun row => { row with primaryKey := 1 }), .flush, .checkpoint, .newLog,
    .call (.emplace id), .call (.remove 0),
    .call (.modify 1 fun row => { row with primaryKey := 1 })]

theorem restarted_exact_takenKey : ∃ n, new.follow takenKey = some n ∧
    n.flush.restarted = .error (.corrupted "delta secondary key conflict") := by
  have shape : (new.follow takenKey).any fun n => n.older = 0 ∧ n.restarted.toOption.any fun t =>
      t.revision ≤ n.table.revision ∧ n.flush.restarted.toOption.isNone := by
    decide +kernel
  obtain ⟨n, followed, rest⟩ := (Option.any_eq_true _ _).mp shape
  refine ⟨n, followed, ?_⟩
  obtain ⟨current, rest⟩ := of_decide_eq_true rest
  cases up : n.restarted with
  | error e =>
    rw [up] at rest
    cases rest
  | ok t =>
    rw [up] at rest
    obtain ⟨later, stuck⟩ := of_decide_eq_true rest
    obtain ⟨-, free, blocked⟩ := restarted_exact (Reachable.new.follow followed) current
      up later
    apply blocked
    intro handover
    obtain ⟨v, fine, -⟩ := free handover
    rw [fine] at stuck
    cases stuck

-- a log that is kept beyond a checkpoint puts an old row back
example : (new.follow [.call (.emplace fun row => { row with primaryKey := 1 }), .flush,
    .call (.modify 0 fun row : ContractKeyValueRow => { row with primaryKey := 2 }),
    .checkpoint]).any fun n => n.restarted.toOption.any fun t =>
      (t.primary.get 0).map (·.primaryKey) = some 1 := by
  decide +kernel

end PulseVM.Arena.Node
