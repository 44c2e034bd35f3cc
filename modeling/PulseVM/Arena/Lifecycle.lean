import PulseVM.Arena.Tracking

/-!
The life of one table: calls, sessions, commits, checkpoints, flushes and restarts in
any order. A restart loads the last checkpoint into a fresh table and replays every record
of the log. A checkpoint leaves the log alone, so the client starts a new one after it, before
it relies on the two together. It keeps one discipline throughout: it frees a ref once, while
it holds it, and its rows refer to spans it holds. Inside a session a row may keep a ref that
was just freed until the row drops it.
-/

namespace PulseVM.Arena
open Lib.Encoding Lib.Spans Lib.Leases Lib.Sessions Lib.Undo
open ArenaObject hiding id

variable {T : Type}

namespace Table

def revise (t : Table T) (revision : Int) : Except TableError (Table T) :=
  match t.setRevision revision with
  | (.error e, _) => .error e
  | (.ok _, t) => .ok t

theorem setRevision_eq (t : Table T) (revision : Int) :
    ∃ later, (t.setRevision revision).2 = { t with revision := later } := by
  unfold setRevision
  split
  · exact ⟨t.revision, rfl⟩
  · split
    · exact ⟨t.revision, rfl⟩
    · exact ⟨revision, rfl⟩

theorem revise_ok {t u : Table T} {revision : Int} (revised : t.revise revision = .ok u) :
    t.undoStack = [] ∧ t.revision ≤ revision ∧ u = { t with revision := revision } := by
  unfold revise setRevision at revised
  by_cases closed : t.undoStack = []
  · by_cases earlier : revision < t.revision
    · rw [if_neg (not_not.mpr closed), if_pos earlier] at revised
      cases revised
    · rw [if_neg (not_not.mpr closed), if_neg earlier] at revised
      cases revised
      exact ⟨closed, by omega, rfl⟩
  · rw [if_pos closed] at revised
    cases revised

end Table

variable [ArenaObject T]

/-- The nonempty spans that live rows refer to, in id order. -/
def refSpans (rows : Slab T) : List Span :=
  (List.range rows.len).flatMap fun n => (rows.get n).elim [] fun row =>
    ((blobRefs row).filter fun r => r.len ≠ 0).map BlobRef.span

/-- What a table has on disk: the last checkpoint and the records of the log, oldest first,
each with the revision it was written at. -/
structure Disk where
  revision : Int
  snapshot : Bytes
  log : List (Int × Bytes)

namespace Table

def replay (t : Table T) : List (Int × Bytes) → Except TableError (Table T)
  | [] => .ok t
  | (_, delta) :: rest =>
    match t.applyDelta delta with
    | (.error e, _) => .error e
    | (.ok _, t) => t.replay rest

/-- Load the checkpoint and restore its revision. -/
def loadCheckpoint (revision : Int) (snapshot : Bytes) : Except TableError (Table T) :=
  match (new : Table T).loadFrom snapshot with
  | (.error e, _) => .error e
  | (.ok _, t) => t.revise revision

/-- Replay the log and restore the revision of its last record. -/
def replayLog (t : Table T) (log : List (Int × Bytes)) : Except TableError (Table T) :=
  match t.replay log with
  | .error e => .error e
  | .ok t =>
    match log.getLast? with
    | none => .ok t
    | some (revision, _) => t.markFlushed.revise revision

def recover (disk : Disk) : Except TableError (Table T) :=
  match loadCheckpoint disk.revision disk.snapshot with
  | .error e => .error e
  | .ok t => t.replayLog disk.log

end Table

section Recovery

variable {t u : Table T} {rows : Slab T} {arena : Bytes}

namespace Table

theorem replay_append (t : Table T) (log : List (Int × Bytes)) (revision : Int) (delta : Bytes) :
    t.replay (log ++ [(revision, delta)]) = match t.replay log with
      | .error e => .error e
      | .ok u => match u.applyDelta delta with
        | (.error e, _) => .error e
        | (.ok _, v) => .ok v := by
  induction log generalizing t with
  | nil => rfl
  | cons first rest ih =>
    rw [List.cons_append, replay, replay]
    split
    · rfl
    · exact ih _

theorem Loaded.revise {revision : Int} (loaded : t.Loaded rows arena)
    (revised : t.revise revision = .ok u) : u.Loaded rows arena := by
  obtain ⟨_, _, same⟩ := revise_ok revised
  rw [same]
  exact ⟨loaded.slab, loaded.blobs, loaded.indexed, loaded.counted, loaded.undoStack, loaded.free,
    loaded.dirty, loaded.blobPatches, loaded.flushedBlobLen⟩

theorem Loaded.markFlushed (loaded : t.Loaded rows arena) : t.markFlushed.Loaded rows arena where
  slab := loaded.slab
  blobs := loaded.blobs
  indexed := loaded.indexed
  counted := loaded.counted
  undoStack := loaded.undoStack
  free := loaded.free
  dirty := by
    unfold Table.markFlushed
    rw [loaded.dirty]
    rfl
  blobPatches := rfl
  flushedBlobLen := rfl

/-- One more record: it either brings the replayed table up to date or stops. -/
theorem replay_packDelta {log : List (Int × Bytes)} {live : Table T} {revision : Int}
    (replayed : t.replay log = .ok u) (ahead : live.Ahead rows arena) (loaded : u.Loaded rows arena) :
    (HandoverFree rows.get live.primary.get live.dirty.order →
      ∃ v, t.replay (log ++ [(revision, live.packDelta)]) = .ok v ∧
        v.Loaded live.primary.slab live.blobs ∧ v.revision = u.revision) ∧
    (¬HandoverFree rows.get live.primary.get live.dirty.order →
      t.replay (log ++ [(revision, live.packDelta)]) =
        .error (.corrupted "delta secondary key conflict")) := by
  obtain ⟨free, blocked⟩ := applyDelta_packDelta ahead loaded
  rw [replay_append, replayed]
  dsimp only
  constructor
  · intro handover
    obtain ⟨v, applied, done⟩ := free handover
    rw [applied]
    exact ⟨v, rfl, done⟩
  · intro handover
    have stopped := blocked handover
    rcases outcome : u.applyDelta live.packDelta with ⟨verdict, v⟩
    rw [outcome] at stopped
    dsimp only at stopped
    rw [stopped]

theorem replayLog_loaded {log : List (Int × Bytes)} {v : Table T}
    (loaded : ∀ u, t.replay log = .ok u → u.Loaded rows arena)
    (recovered : t.replayLog log = .ok v) : v.Loaded rows arena := by
  unfold replayLog at recovered
  cases outcome : t.replay log with
  | error e =>
    rw [outcome] at recovered
    cases recovered
  | ok u =>
    rw [outcome] at recovered
    have done := loaded u outcome
    cases last : log.getLast? with
    | none =>
      rw [last] at recovered
      cases recovered
      exact done
    | some record =>
      rw [last] at recovered
      exact done.markFlushed.revise recovered

end Table

end Recovery

/-- A table with its ledger and its disk. How many records of the log are older than the
checkpoint and what the disk stands for without them is kept beside it. -/
structure Node (T : Type) where
  account : Account T
  disk : Disk
  older : Nat
  flushed : Flushed T

inductive Event (T : Type) where
  | call (op : TableOp T)
  | startUndoSession
  | undo
  | squash
  | commit (revision : Int)
  | setRevision (revision : Int)
  | checkpoint
  | newLog
  | flush
  | restart

namespace Node

abbrev table (n : Node T) : Table T := n.account.table

/-- What a flush or a checkpoint puts on disk is the table as it is. -/
def stored (n : Node T) : Flushed T :=
  ⟨n.table.primary.slab, n.table.blobs, n.account.held ++ n.table.freeSpans⟩

def checkpoint (n : Node T) : Node T where
  account := { n.account with table := n.table.markFlushed }
  disk := ⟨n.table.revision, n.table.packInto, n.disk.log⟩
  older := n.disk.log.length
  flushed := n.stored

def flush (n : Node T) : Node T where
  account := { n.account with table := n.table.markFlushed }
  disk := { n.disk with log := n.disk.log ++ [(n.table.revision, n.table.packDelta)] }
  older := n.older
  flushed := n.stored

def new : Node T := checkpoint ⟨Account.new, ⟨0, [], []⟩, 0, ⟨Slab.empty, [], []⟩⟩

/-- The client of a recovered table holds what the rows refer to. -/
def recovered (n : Node T) (t : Table T) : Node T :=
  { n with account := ⟨t, refSpans t.primary.slab, []⟩ }

/-- One event; only a restart can fail. -/
def next (n : Node T) : Event T → Except TableError (Node T)
  | .call op => .ok { n with account := n.account.apply op }
  | .startUndoSession => .ok { n with account := n.account.startUndoSession }
  | .undo => .ok { n with account := n.account.undo }
  | .squash => .ok { n with account := n.account.squash }
  | .commit revision => .ok { n with account := n.account.commit revision }
  | .setRevision revision =>
    .ok { n with account := { n.account with table := (n.table.setRevision revision).2 } }
  | .checkpoint => .ok n.checkpoint
  | .newLog => .ok { n with disk := { n.disk with log := [] }, older := 0 }
  | .flush => .ok n.flush
  | .restart => (Table.recover n.disk).map n.recovered

/-- Live rows refer to spans the client holds. -/
def RowsHold (c : Account T) : Prop := (refSpans c.table.primary.slab).Subperm c.held

/-- Inside a session a row may still refer to a span that the session saw freed. -/
def RowsKnow (c : Account T) : Prop :=
  (refSpans c.table.primary.slab).Subperm (c.held ++ pending c.table.frames)

/-- The client discipline, event by event. A log is given up when a checkpoint has all of it,
and a restart replays none that has older records. -/
def Permits (n : Node T) : Event T → Prop
  | .call op => n.account.Allows op ∧ (n.account.apply op).table.nextId ≤ 2 ^ 63 ∧
      RowsKnow (n.account.apply op)
  | .startUndoSession => RowsHold n.account
  | .squash => RowsKnow n.account.squash
  | .commit revision => RowsKnow (n.account.commit revision)
  | .checkpoint => n.table.undoStack = []
  | .newLog => n.older = n.disk.log.length
  | .flush => n.table.undoStack = []
  | .restart => n.older = 0
  | _ => True

instance (c : Account T) (op : TableOp T) : Decidable (c.Allows op) :=
  have : Decidable (Account.FreesHeld c.held op) := by
    cases op <;> unfold Account.FreesHeld <;> infer_instance
  decidable_of_iff (Account.FreesHeld c.held op ∧ (c.table.apply op).blobs.length < 2 ^ 32)
    ⟨fun both => ⟨both.1, both.2⟩, fun allows => ⟨allows.frees, allows.small⟩⟩

instance (n : Node T) (event : Event T) : Decidable (n.Permits event) := by
  cases event <;> unfold Permits RowsHold RowsKnow <;> infer_instance

inductive Reachable : Node T → Prop
  | new : Reachable new
  | step {n m : Node T} (event : Event T) : Reachable n → n.Permits event →
      n.next event = .ok m → Reachable m

/-- Follow a list of events as long as they are permitted. -/
def follow (n : Node T) : List (Event T) → Option (Node T)
  | [] => some n
  | event :: rest =>
    if n.Permits event then (n.next event).toOption.bind (·.follow rest) else none

theorem Reachable.follow {n m : Node T} {events : List (Event T)} (reachable : n.Reachable)
    (followed : n.follow events = some m) : m.Reachable := by
  induction events generalizing n with
  | nil =>
    cases followed
    exact reachable
  | cons event rest ih =>
    unfold Node.follow at followed
    split at followed
    · next permits =>
      cases stepped : n.next event with
      | error e =>
        rw [stepped] at followed
        cases followed
      | ok next =>
        rw [stepped] at followed
        exact ih (reachable.step event permits stepped) followed
    · cases followed

structure Good (n : Node T) : Prop where
  kept : n.account.Kept
  ids : n.table.nextId ≤ 2 ^ 63
  small : n.table.blobs.length < 2 ^ 32
  since : n.account.Since n.flushed
  rows : RowsKnow n.account
  snapshots : List.Forall₂ (fun rows held => (refSpans rows).Subperm held)
    n.table.view.saved n.account.saved
  valid : Valid n.flushed.rows
  refs : (refSpans n.flushed.rows).Subperm n.flushed.spans
  older_le : n.older ≤ n.disk.log.length
  replays : ∀ t u, Table.loadCheckpoint n.disk.revision n.disk.snapshot = .ok t →
    t.replay (n.disk.log.drop n.older) = .ok u → u.Loaded n.flushed.rows n.flushed.arena

section Steps

variable {n : Node T}

theorem Good.call (good : n.Good) {op : TableOp T} (permits : n.Permits (.call op)) :
    Good { n with account := n.account.apply op } := by
  obtain ⟨allows, ids, rows⟩ := permits
  refine ⟨good.kept.apply allows, ids, allows.small, good.since.apply good.kept allows good.ids ids,
    rows, ?_, good.valid, good.refs, good.older_le, good.replays⟩
  have view := (Table.apply_refines good.kept.sound op).view
  change List.Forall₂ _ (n.account.table.apply op).view.saved _
  rw [view, (RowStore.apply_keeps _ op).1]
  exact good.snapshots

theorem Good.start (good : n.Good) (hold : RowsHold n.account) :
    Good { n with account := n.account.startUndoSession } := by
  refine ⟨good.kept.start, good.ids, good.small, good.since.start good.kept, good.rows, ?_,
    good.valid, good.refs, good.older_le, good.replays⟩
  have view := (Table.startUndoSession_refines good.kept.sound).view
  change List.Forall₂ _ n.account.table.startUndoSession.view.saved _
  rw [view]
  exact List.Forall₂.cons hold good.snapshots

theorem undo_nextId (sound : n.table.Sound) : n.table.undo.nextId ≤ n.table.nextId := by
  have view := congrArg RowStore.rows (Table.undo_refines sound).view
  have len : n.table.undo.nextId = n.table.view.undo.rows.len := congrArg Slab.len view
  have chain := sound.chain
  rw [len]
  unfold RowStore.undo Table.view
  cases stack : n.table.undoStack with
  | nil => exact Nat.le_refl _
  | cons state below =>
    rw [stack] at chain
    exact chain.2.1.base_le

theorem undo_closed {c : Account T} (kept : c.Kept) (closed : c.saved = []) : c.undo = c := by
  have stack : c.table.undoStack = [] := by
    apply List.length_eq_zero_iff.mp
    rw [kept.depth, closed, List.length_nil]
  unfold Account.undo
  rw [Table.undo_nil stack, closed]
  obtain ⟨table, held, saved⟩ := c
  cases closed
  rfl

theorem Good.undo (good : n.Good) : Good { n with account := n.account.undo } := by
  cases sessions : n.account.saved with
  | nil =>
    rw [undo_closed good.kept sessions]
    exact good
  | cons before older =>
    have refines := Table.undo_refines good.kept.sound
    have snapshots := good.snapshots
    rw [sessions] at snapshots
    obtain ⟨snapshot, below, hold, deeper, saved⟩ := List.forall₂_cons_right_iff.mp snapshots
    have view : n.account.table.undo.view =
        ⟨snapshot, below, n.account.table.view.revision - 1⟩ := by
      rw [refines.view]
      unfold RowStore.undo
      rw [show n.account.table.view.saved = snapshot :: below from saved]
    have shorter : n.table.undo.blobs.length ≤ n.table.blobs.length := by
      cases stack : n.table.undoStack with
      | nil => rw [Table.undo_nil stack]
      | cons state rest =>
        rw [(Table.undo_heap stack).1]
        exact List.length_take_le' _ _
    refine ⟨good.kept.undo, Nat.le_trans (undo_nextId good.kept.sound) good.ids,
      Nat.lt_of_le_of_lt shorter good.small, good.since.undo good.kept good.ids, ?_, ?_, good.valid,
      good.refs, good.older_le, good.replays⟩
    · have rows : n.account.table.undo.primary.slab = snapshot := congrArg RowStore.rows view
      change (refSpans n.account.table.undo.primary.slab).Subperm
        (n.account.saved.headD n.account.held ++ _)
      rw [rows, sessions]
      exact hold.trans (List.sublist_append_left _ _).subperm
    · change List.Forall₂ _ n.account.table.undo.view.saved n.account.saved.tail
      rw [view, sessions]
      exact deeper

theorem Good.squash (good : n.Good) (rows : RowsKnow n.account.squash) :
    Good { n with account := n.account.squash } := by
  have view := (Table.squash_refines good.kept.sound).view
  have same : n.account.table.squash.primary = n.account.table.primary := by
    unfold Table.squash
    split <;> rfl
  refine ⟨good.kept.squash, ?_, ?_, good.since.squash good.kept, rows, ?_, good.valid, good.refs,
    good.older_le, good.replays⟩
  · change n.account.table.squash.primary.len ≤ 2 ^ 63
    rw [same]
    exact good.ids
  · change n.account.table.squash.blobs.length < 2 ^ 32
    rw [Table.squash_blobs]
    exact good.small
  · change List.Forall₂ _ n.account.table.squash.view.saved n.account.saved.tail
    rw [view, RowStore.squash_saved, ← List.drop_one, ← List.drop_one]
    exact List.forall₂_drop 1 good.snapshots

theorem Good.commit (good : n.Good) {revision : Int} (rows : RowsKnow (n.account.commit revision)) :
    Good { n with account := n.account.commit revision } := by
  have view := (Table.commit_refines good.kept.sound revision).view
  refine ⟨good.kept.commit revision, good.ids, good.small, good.since.commit good.kept revision,
    rows, ?_, good.valid, good.refs, good.older_le, good.replays⟩
  change List.Forall₂ _ (n.account.table.commit revision).view.saved (n.account.saved.take _)
  rw [view]
  exact List.forall₂_take _ good.snapshots

theorem Good.setRevision (good : n.Good) (revision : Int) :
    Good { n with account := { n.account with table := (n.table.setRevision revision).2 } } := by
  obtain ⟨later, same⟩ := Table.setRevision_eq n.table revision
  rw [same]
  have since := good.since
  have arena := since.arena
  exact
    { kept := ⟨⟨good.kept.sound.chain, good.kept.sound.indexed, good.kept.sound.counted⟩,
        good.kept.accounted⟩
      ids := good.ids
      small := good.small
      since := ⟨since.rows, since.touched, since.grown, ⟨arena.layout, arena.watermark,
        arena.extended, ⟨arena.known.held, arena.known.free, arena.known.saved, arena.known.frames⟩,
        arena.patches, arena.bytes⟩⟩
      rows := good.rows
      snapshots := good.snapshots
      valid := good.valid
      refs := good.refs
      older_le := good.older_le
      replays := good.replays }

theorem Good.flushed (good : n.Good) (closed : n.table.undoStack = []) (disk : Disk) (older : Nat)
    (older_le : older ≤ disk.log.length)
    (replays : ∀ t u, Table.loadCheckpoint disk.revision disk.snapshot = .ok t →
      t.replay (disk.log.drop older) = .ok u → u.Loaded n.table.primary.slab n.table.blobs) :
    Good ⟨{ n.account with table := n.table.markFlushed }, disk, older, n.stored⟩ := by
  have accounted := good.kept.accounted
  have frames : n.account.table.frames = [] := by
    unfold Table.frames
    rw [show n.account.table.undoStack = [] from closed]
    rfl
  have sessions : n.account.saved = [] := by
    apply List.length_eq_zero_iff.mp
    rw [← good.kept.depth, show n.account.table.undoStack = [] from closed, List.length_nil]
  have layout : Layout (n.account.held ++ n.table.freeSpans) n.table.blobs.length := by
    have all := accounted.layout
    rw [frames] at all
    rw [show n.account.held ++ pending [] = n.account.held from List.append_nil _] at all
    exact all
  have view : n.table.view.saved = [] := by
    unfold Table.view
    rw [closed]
    rfl
  exact
    { kept := ⟨⟨good.kept.sound.chain, good.kept.sound.indexed, good.kept.sound.counted⟩,
        accounted⟩
      ids := good.ids
      small := good.small
      since :=
        { rows := fun _ _ => rfl
          touched := fun id member => absurd member List.not_mem_nil
          grown := ⟨Nat.le_refl _, fun snapshot member => by
            change snapshot ∈ n.table.view.saved at member
            rw [view] at member
            cases member⟩
          arena :=
            { layout := layout
              watermark := rfl
              extended := Nat.le_refl _
              known := .of_closed frames sessions (fun s held => .inl (List.mem_append_left _ held))
                fun s free => .inl (List.mem_append_right _ free)
              patches := fun r member => absurd member List.not_mem_nil
              bytes := fun _ _ => .inr rfl } }
      rows := good.rows
      snapshots := good.snapshots
      valid := good.kept.sound.valid
      refs := by
        have rows := good.rows
        unfold RowsKnow at rows
        rw [frames, show n.account.held ++ pending [] = n.account.held from List.append_nil _] at rows
        exact rows.trans (List.sublist_append_left _ _).subperm
      older_le := older_le
      replays := replays }

theorem Good.fits (good : n.Good) : n.table.Fits :=
  ⟨good.ids, Nat.lt_trans good.small (by decide)⟩

theorem Good.checkpoint (good : n.Good) (closed : n.table.undoStack = []) :
    n.checkpoint.Good := by
  apply good.flushed closed _ _ le_rfl
  intro t u loaded replayed
  rw [List.drop_length] at replayed
  obtain ⟨fresh, read, image, _⟩ := Table.loadFrom_packInto good.kept.sound good.fits
  have revised : Table.loadCheckpoint n.table.revision n.table.packInto =
      fresh.revise n.table.revision := by
    rw [Table.loadCheckpoint, read]
  cases replayed
  exact image.revise (revised.symm.trans loaded)

theorem Good.newLog (good : n.Good) (covered : n.older = n.disk.log.length) :
    Good { n with disk := { n.disk with log := [] }, older := 0 } := by
  refine ⟨good.kept, good.ids, good.small, good.since, good.rows, good.snapshots, good.valid,
    good.refs, Nat.zero_le _, fun t u loaded replayed => good.replays t u loaded ?_⟩
  rw [covered, List.drop_length]
  exact replayed

theorem Good.flush (good : n.Good) (closed : n.table.undoStack = []) : n.flush.Good := by
  apply good.flushed closed _ _ (by simpa using good.older_le.trans (Nat.le_succ _))
  intro t v loaded replayed
  rw [List.drop_append_of_le_length good.older_le] at replayed
  have ahead := good.since.ahead good.kept good.fits
  cases before : t.replay (n.disk.log.drop n.older) with
  | error e =>
    rw [Table.replay_append, before] at replayed
    cases replayed
  | ok u =>
    obtain ⟨free, blocked⟩ :=
      Table.replay_packDelta before ahead (good.replays t u loaded before)
    by_cases handover : HandoverFree n.flushed.rows.get n.account.table.primary.get
        n.account.table.dirty.order
    · obtain ⟨w, outcome, done, _⟩ := free handover
      rw [outcome] at replayed
      cases replayed
      exact done
    · rw [blocked handover] at replayed
      cases replayed

theorem Good.recovered (good : n.Good) {t : Table T}
    (loaded : t.Loaded n.flushed.rows n.flushed.arena) : (n.recovered t).Good := by
  have arena := good.since.arena
  have slab := loaded.slab
  have frames : t.frames = [] := by
    unfold Table.frames
    rw [loaded.undoStack]
    rfl
  have held : (refSpans t.primary.slab).Subperm n.flushed.spans := by
    rw [slab]
    exact good.refs
  have layout : Layout (refSpans t.primary.slab) t.blobs.length := by
    rw [loaded.blobs]
    exact arena.layout.subperm held
  have accounted : t.Accounted (refSpans t.primary.slab) [] := by
    unfold Table.Accounted Table.freeSpans
    rw [frames, loaded.free]
    refine ⟨?_, trivial⟩
    simpa [pending] using layout
  have sound : t.Sound := by
    refine ⟨?_, loaded.indexed, loaded.counted⟩
    rw [loaded.undoStack, slab]
    exact good.valid
  exact
    { kept := ⟨sound, accounted⟩
      ids := by
        have len : t.primary.len = n.flushed.rows.len := congrArg Slab.len slab
        change t.primary.len ≤ 2 ^ 63
        rw [len]
        exact Nat.le_trans good.since.grown.1 good.ids
      small := by
        change t.blobs.length < 2 ^ 32
        rw [loaded.blobs]
        exact Nat.lt_of_le_of_lt arena.extended good.small
      since :=
        { rows := fun k _ => congrFun (congrArg Slab.get slab) k
          touched := fun id member => by
            change id ∈ t.dirty.order at member
            rw [loaded.dirty] at member
            cases member
          grown := by
            change t.view.AtLeast _
            unfold Table.view RowStore.AtLeast
            rw [loaded.undoStack, slab]
            exact ⟨Nat.le_refl _, fun snapshot member => absurd member List.not_mem_nil⟩
          arena :=
            { layout := arena.layout
              watermark := loaded.flushedBlobLen.trans (congrArg List.length loaded.blobs)
              extended := Nat.le_of_eq (congrArg List.length loaded.blobs.symm)
              known := .of_closed frames rfl (fun s inside => .inl (held.subset inside))
                fun s free => by
                  change s ∈ t.freeSpans at free
                  unfold Table.freeSpans at free
                  rw [loaded.free] at free
                  cases free
              patches := fun r member => by
                change r ∈ t.blobPatches at member
                rw [loaded.blobPatches] at member
                cases member
              bytes := fun i _ => .inr (by
                change t.blobs[i]? = n.flushed.arena[i]?
                rw [loaded.blobs]) } }
      rows := (List.sublist_append_left _ _).subperm
      snapshots := by
        change List.Forall₂ _ t.view.saved []
        unfold Table.view
        rw [loaded.undoStack]
        exact List.Forall₂.nil
      valid := good.valid
      refs := good.refs
      older_le := good.older_le
      replays := good.replays }

theorem Good.restart (good : n.Good) (current : n.older = 0) {m : Node T}
    (up : n.next .restart = .ok m) : m.Good := by
  change (Table.recover n.disk).map n.recovered = .ok m at up
  cases outcome : Table.recover (T := T) n.disk with
  | error e =>
    rw [outcome] at up
    cases up
  | ok t =>
    rw [outcome] at up
    cases up
    apply good.recovered
    unfold Table.recover at outcome
    cases loaded : Table.loadCheckpoint (T := T) n.disk.revision n.disk.snapshot with
    | error e =>
      rw [loaded] at outcome
      cases outcome
    | ok first =>
      rw [loaded] at outcome
      refine Table.replayLog_loaded (fun u replayed => good.replays first u loaded ?_) outcome
      rw [current]
      exact replayed

theorem new_good : (new : Node T).Good := by
  apply Good.checkpoint _ rfl
  have slab : (Table.new : Table T).primary.slab = Slab.empty := PagedPrimary.slab_new
  exact
    { kept := Account.new_kept
      ids := Nat.zero_le _
      small := Nat.two_pow_pos 32
      since :=
        { rows := fun k _ => congrFun (congrArg Slab.get slab) k
          touched := fun id member => absurd member List.not_mem_nil
          grown := ⟨Nat.zero_le _, fun snapshot member => absurd member List.not_mem_nil⟩
          arena :=
            { layout := Layout.nil 0
              watermark := rfl
              extended := Nat.le_refl _
              known := .of_closed rfl rfl (fun s held => absurd held List.not_mem_nil)
                fun s free => absurd free List.not_mem_nil
              patches := fun r member => absurd member List.not_mem_nil
              bytes := fun i inside => absurd inside (Nat.not_lt_zero i) } }
      rows := by
        unfold RowsKnow
        exact List.nil_subperm
      snapshots := List.Forall₂.nil
      valid := by
        constructor
        · intro k row live
          cases live
        · intro k row live
          cases live
      refs := List.nil_subperm
      older_le := le_rfl
      replays := fun t u loaded _ => by cases loaded }

theorem Reachable.good (reachable : n.Reachable) : n.Good := by
  induction reachable with
  | new => exact new_good
  | step event before permits stepped good =>
    cases event with
    | call op =>
      cases stepped
      exact good.call permits
    | startUndoSession =>
      cases stepped
      exact good.start permits
    | undo =>
      cases stepped
      exact good.undo
    | squash =>
      cases stepped
      exact good.squash permits
    | commit revision =>
      cases stepped
      exact good.commit permits
    | setRevision revision =>
      cases stepped
      exact good.setRevision revision
    | checkpoint =>
      cases stepped
      exact good.checkpoint permits
    | newLog =>
      cases stepped
      exact good.newLog permits
    | flush =>
      cases stepped
      exact good.flush permits
    | restart => exact good.restart permits stepped

end Steps

end Node

end PulseVM.Arena
