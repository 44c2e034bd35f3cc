import PulseVM.Arena.Heap

/-!
A table and the ledger of its client. The table runs the client's calls; the ledger
lists the spans handed out and not freed since, now and at the start of every open
session. On the rows a run of the table is a run of the snapshot store. On the arena
a run never writes into a span that some open session found held.
-/

namespace PulseVM.Arena
open Lib.Encoding Lib.Spans Lib.Leases Lib.Sessions
open Lib.Undo (onTop Slab)
open ArenaObject hiding id
open Table

/-- The calls a client makes between session operations. -/
inductive TableOp (T : Type) where
  | emplace (f : T → T)
  | modify (id : Int) (m : T → T)
  | remove (id : Int)
  | allocBlob (bytes : Bytes)
  | freeBlob (r : BlobRef)
  | reallocBlob (old : BlobRef) (bytes : Bytes)

variable {T : Type}

/-- A table with the spans its client holds, now and at the start of every open
session, newest first. -/
structure Account (T : Type) where
  table : Table T
  held : List Span
  saved : List (List Span)

namespace Account

variable {c d : Account T}

/-- What calls leave alone: the sessions below the newest one and the bytes of every
span that some open session found held. -/
structure Within (c d : Account T) : Prop where
  saved : d.saved = c.saved
  below : d.table.undoStack.tail = c.table.undoStack.tail
  bytes : ∀ held ∈ c.saved, ∀ s ∈ held,
    slice d.table.blobs s.off s.len = slice c.table.blobs s.off s.len

theorem Within.refl (c : Account T) : c.Within c := ⟨rfl, rfl, fun _ _ _ _ => rfl⟩

theorem Within.trans {e : Account T} (first : c.Within d) (second : d.Within e) : c.Within e where
  saved := second.saved.trans first.saved
  below := second.below.trans first.below
  bytes held session s member :=
    (second.bytes held (by rw [first.saved]; exact session) s member).trans
      (first.bytes held session s member)

end Account

variable [ArenaObject T]

/-- The table a call leaves behind, whatever its verdict. -/
def Table.apply (t : Table T) : TableOp T → Table T
  | .emplace f => (t.emplace f).2
  | .modify id m => (t.modify id m).2
  | .remove id => (t.remove id).2
  | .allocBlob bytes => (t.allocBlob bytes).2
  | .freeBlob r => t.freeBlob r
  | .reallocBlob old bytes => (t.reallocBlob old bytes).2

def Table.machine : Machine (Table T) (TableOp T) where
  step := apply
  start := startUndoSession
  undo := undo
  squash := squash

namespace RowStore

/-- Blob calls do not concern the rows. -/
noncomputable def apply (s : RowStore T) : TableOp T → RowStore T
  | .emplace f => s.emplace f
  | .modify id m => s.modify id m
  | .remove id => s.remove id
  | .allocBlob _ => s
  | .freeBlob _ => s
  | .reallocBlob _ _ => s

noncomputable def machine : Machine (RowStore T) (TableOp T) where
  step := apply
  start := startUndoSession
  undo := undo
  squash := squash

theorem apply_keeps (s : RowStore T) (op : TableOp T) :
    (s.apply op).saved = s.saved ∧ (s.apply op).revision = s.revision ∧
      s.rows.len ≤ (s.apply op).rows.len := by
  cases op with
  | emplace f =>
    dsimp only [apply, emplace]
    split
    · exact ⟨rfl, rfl, Nat.le_succ _⟩
    · exact ⟨rfl, rfl, le_rfl⟩
  | modify id m =>
    dsimp only [apply]
    unfold modify
    split
    · exact ⟨rfl, rfl, le_rfl⟩
    · split
      · exact ⟨rfl, rfl, le_rfl⟩
      · split <;> exact ⟨rfl, rfl, le_rfl⟩
  | remove id =>
    dsimp only [apply]
    unfold remove
    split <;> exact ⟨rfl, rfl, le_rfl⟩
  | allocBlob | freeBlob | reallocBlob => exact ⟨rfl, rfl, le_rfl⟩

/-- Closing a session that kept the snapshots leaves those from before its start. -/
theorem close_keeps {s d : RowStore T} (ending : Close)
    (saved : d.saved = s.startUndoSession.saved)
    (revision : d.revision = s.startUndoSession.revision) :
    (machine.close ending d).saved = s.saved ∧ (machine.close ending d).revision = s.revision := by
  have shape : d.saved = s.rows :: s.saved := saved
  have count : d.revision - 1 = s.revision := by
    rw [revision]
    exact Int.add_sub_cancel _ _
  cases ending with
  | undo =>
    change (RowStore.undo d).saved = _ ∧ (RowStore.undo d).revision = _
    unfold RowStore.undo
    rw [shape]
    exact ⟨rfl, count⟩
  | squash =>
    change (RowStore.squash d).saved = _ ∧ (RowStore.squash d).revision = _
    unfold RowStore.squash
    rw [shape]
    exact ⟨rfl, count⟩

theorem run_keeps (body : Body (TableOp T)) (s : RowStore T) :
    (machine.run body s).saved = s.saved ∧ (machine.run body s).revision = s.revision := by
  have frame := Machine.run_frame (m := machine (T := T)) (fun _ _ => True) (fun _ => True)
    (fun a b => b.saved = a.saved ∧ b.revision = a.revision)
    (fun _ _ => ⟨rfl, rfl⟩)
    (fun first second => ⟨second.1.trans first.1, second.2.trans first.2⟩)
    (fun s op _ _ => ⟨trivial, (apply_keeps s op).1, (apply_keeps s op).2.1⟩)
    (fun _ _ => trivial)
    (fun _ _ ending _ _ kept => ⟨trivial, close_keeps ending kept.1 kept.2⟩)
    body s (Machine.admits_true body s) trivial
  exact frame.2

/-- What undo is for: everything since the session started is forgotten. -/
theorem undo_run (body : Body (TableOp T)) (s : RowStore T) :
    (machine.run body s.startUndoSession).undo = s := by
  obtain ⟨saved, revision⟩ := run_keeps body s.startUndoSession
  unfold undo
  rw [saved]
  rw [revision]
  change RowStore.mk s.rows s.saved (s.revision + 1 - 1) = s
  rw [Int.add_sub_cancel]

end RowStore

namespace Table

variable {t : Table T}

theorem allocBlob_refines (sound : t.Sound) (bytes : Bytes) :
    (t.allocBlob bytes).2.Refines t.view := by
  by_cases empty : bytes = []
  · rw [empty, allocBlob_nil]
    exact ⟨sound, rfl⟩
  · cases taken : takeFree (UInt32.ofNat bytes.length) t.free with
    | none =>
      rw [allocBlob_append empty taken]
      exact sound.refines_of_rows rfl sound.indexed rfl rfl rfl
    | some found =>
      have patches : (onTop (fun state => { state with reused := state.reused ++ [found.1] })
          t.undoStack).map UndoState.patch = t.undoStack.map UndoState.patch := by
        cases t.undoStack <;> rfl
      rw [allocBlob_reuse empty taken]
      exact sound.refines_of_rows rfl sound.indexed rfl patches rfl

theorem freeBlob_refines (sound : t.Sound) (r : BlobRef) : (t.freeBlob r).Refines t.view := by
  unfold freeBlob
  split
  · exact ⟨sound, rfl⟩
  · split
    · next state below stack =>
      have patches : ({ state with freed := state.freed ++ [r] } :: below).map UndoState.patch =
          t.undoStack.map UndoState.patch := by
        rw [stack]
        rfl
      exact sound.refines_of_rows rfl sound.indexed rfl patches rfl
    · exact sound.refines_of_rows rfl sound.indexed rfl rfl rfl

/-- One spec for every call: the rows of the table do what the snapshot store does. -/
theorem apply_refines (sound : t.Sound) (op : TableOp T) :
    (t.apply op).Refines (t.view.apply op) := by
  cases op with
  | emplace f => exact emplace_refines sound f
  | modify id m => exact modify_refines sound id m
  | remove id => exact remove_refines sound id
  | allocBlob bytes => exact allocBlob_refines sound bytes
  | freeBlob r => exact freeBlob_refines sound r
  | reallocBlob old bytes =>
    have freed := freeBlob_refines sound old
    have result := allocBlob_refines freed.sound bytes
    rw [freed.view] at result
    exact result

/-- A run of the table is a run of the snapshot store. -/
theorem run_refines (sound : t.Sound) (body : Body (TableOp T)) :
    (machine.run body t).Refines (RowStore.machine.run body t.view) := by
  apply Machine.run_simulate Table.Refines _ _ _ _ body t t.view ⟨sound, rfl⟩
  · intro u s op refines
    have result := apply_refines refines.sound op
    rw [refines.view] at result
    exact result
  · intro u s refines
    have result := startUndoSession_refines refines.sound
    rw [refines.view] at result
    exact result
  · intro u s refines
    have result := undo_refines refines.sound
    rw [refines.view] at result
    exact result
  · intro u s refines
    have result := squash_refines refines.sound
    rw [refines.view] at result
    exact result

/-- Undoing a session puts the table back where the snapshot store was. -/
theorem undo_run_refines (sound : t.Sound) (body : Body (TableOp T)) :
    (machine.run body t.startUndoSession).undo.Refines t.view := by
  have opened := startUndoSession_refines sound
  have ran := run_refines opened.sound body
  have closed := undo_refines ran.sound
  rw [ran.view, opened.view, RowStore.undo_run] at closed
  exact closed

end Table

namespace Account

def new : Account T := ⟨Table.new, [], []⟩

def heldAfter (c : Account T) : TableOp T → List Span
  | .allocBlob bytes => lend (c.table.allocBlob bytes).1 c.held
  | .freeBlob r => giveBack r c.held
  | .reallocBlob old bytes =>
    lend (c.table.reallocBlob old bytes).1 (giveBack old c.held)
  | _ => c.held

def apply (c : Account T) (op : TableOp T) : Account T :=
  ⟨c.table.apply op, c.heldAfter op, c.saved⟩

def startUndoSession (c : Account T) : Account T :=
  ⟨c.table.startUndoSession, c.held, c.held :: c.saved⟩

def undo (c : Account T) : Account T :=
  ⟨c.table.undo, c.saved.headD c.held, c.saved.tail⟩

def squash (c : Account T) : Account T := ⟨c.table.squash, c.held, c.saved.tail⟩

def commit (c : Account T) (revision : Int) : Account T :=
  ⟨c.table.commit revision, c.held,
    c.saved.take (c.table.undoStack.length - c.table.commitCount revision)⟩

def machine : Machine (Account T) (TableOp T) where
  step := apply
  start := startUndoSession
  undo := undo
  squash := squash

/-- A ref is freed at most once after it was returned: the client still holds it. -/
def FreesHeld (held : List Span) : TableOp T → Prop
  | .freeBlob r => r.len = 0 ∨ r.span ∈ held
  | .reallocBlob old _ => old.len = 0 ∨ old.span ∈ held
  | _ => True

/-- The client frees what it holds, and offsets still fit into 32 bits afterwards. -/
structure Allows (c : Account T) (op : TableOp T) : Prop where
  frees : FreesHeld c.held op
  small : (c.table.apply op).blobs.length < 2 ^ 32

/-- The rows are those of a snapshot store and the ledger accounts for the arena. -/
structure Kept (c : Account T) : Prop where
  sound : c.table.Sound
  accounted : c.table.Accounted c.held c.saved

variable {c d : Account T}

theorem new_kept : (new : Account T).Kept where
  sound := Table.new_refines.sound
  accounted := Lib.Leases.Accounted.empty

theorem Kept.apply (kept : c.Kept) {op : TableOp T} (allows : c.Allows op) :
    (c.apply op).Kept := by
  obtain ⟨frees, small⟩ := allows
  refine ⟨(apply_refines kept.sound op).sound, ?_⟩
  cases op with
  | emplace f => exact (c.table.emplace_sameHeap f).accounted kept.accounted
  | modify id m => exact (c.table.modify_sameHeap id m).accounted kept.accounted
  | remove id => exact (c.table.remove_sameHeap id).accounted kept.accounted
  | allocBlob bytes => exact kept.accounted.alloc bytes small
  | freeBlob r => exact kept.accounted.free r frees
  | reallocBlob old bytes => exact (kept.accounted.free old frees).alloc bytes small

theorem Kept.start (kept : c.Kept) : c.startUndoSession.Kept where
  sound := (startUndoSession_refines kept.sound).sound
  accounted := kept.accounted.start

theorem Kept.depth (kept : c.Kept) : c.table.undoStack.length = c.saved.length := by
  have lengths := kept.accounted.backed.length_eq
  rw [frames, List.length_map] at lengths
  exact lengths

theorem Kept.undo (kept : c.Kept) : c.undo.Kept := by
  refine ⟨(undo_refines kept.sound).sound, ?_⟩
  have accounted := kept.accounted
  unfold Account.undo
  cases sessions : c.saved with
  | nil =>
    rw [sessions] at accounted
    have closed : c.table.undoStack = [] := by
      apply List.length_eq_zero_iff.mp
      rw [kept.depth, sessions, List.length_nil]
    rw [undo_nil closed]
    exact accounted
  | cons before older =>
    rw [sessions] at accounted
    exact accounted.undo

theorem Kept.squash (kept : c.Kept) : c.squash.Kept where
  sound := (squash_refines kept.sound).sound
  accounted := kept.accounted.squash

theorem Kept.commit (kept : c.Kept) (revision : Int) : (c.commit revision).Kept where
  sound := (commit_refines kept.sound revision).sound
  accounted := kept.accounted.commit revision

theorem apply_below (t : Table T) (op : TableOp T) :
    (t.apply op).undoStack.tail = t.undoStack.tail := by
  cases op with
  | emplace f => exact (t.emplace_sameHeap f).below
  | modify id m => exact (t.modify_sameHeap id m).below
  | remove id => exact (t.remove_sameHeap id).below
  | allocBlob bytes => exact (t.allocBlob_sameRows bytes).below
  | freeBlob r => exact (t.freeBlob_sameRows r).below
  | reallocBlob old bytes => exact (t.reallocBlob_sameRows old bytes).below

theorem Kept.apply_within (kept : c.Kept) {op : TableOp T} (allows : c.Allows op) :
    c.Within (c.apply op) := by
  obtain ⟨frees, small⟩ := allows
  refine ⟨rfl, apply_below c.table op, fun held session s member => ?_⟩
  -- an account whose saved ledgers are those of `c` protects the span from one allocation
  have alloc : ∀ (u : Table T) (now : List Span) (bytes : Bytes), u.Accounted now c.saved →
      (u.allocBlob bytes).2.blobs.length < 2 ^ 32 →
      slice (u.allocBlob bytes).2.blobs s.off s.len = slice u.blobs s.off s.len := by
    intro u now bytes accounted fits
    apply accounted.alloc_slice bytes fits
    · intro f free
      exact accounted.backed.apart session member free
    · exact accounted.backed.inside session member
  cases op with
  | emplace f => exact congrArg (slice · s.off s.len) (c.table.emplace_sameHeap f).blobs
  | modify id m => exact congrArg (slice · s.off s.len) (c.table.modify_sameHeap id m).blobs
  | remove id => exact congrArg (slice · s.off s.len) (c.table.remove_sameHeap id).blobs
  | allocBlob bytes => exact alloc c.table c.held bytes kept.accounted small
  | freeBlob r => exact congrArg (slice · s.off s.len) (c.table.freeBlob_blobs r)
  | reallocBlob old bytes =>
    calc slice (c.table.reallocBlob old bytes).2.blobs s.off s.len
        = slice (c.table.freeBlob old).blobs s.off s.len :=
          alloc _ _ bytes (kept.accounted.free old frees) small
      _ = slice c.table.blobs s.off s.len :=
          congrArg (slice · s.off s.len) (c.table.freeBlob_blobs old)

/-- Closing a session that was kept within leaves the older ones and their spans. -/
theorem Kept.close_within (keptD : d.Kept)
    (within : c.startUndoSession.Within d) (ending : Close) :
    (machine.close ending d).Kept ∧ c.Within (machine.close ending d) := by
  have opened : d.saved = c.held :: c.saved := within.saved
  have older : d.saved.tail = c.saved := by rw [opened]; rfl
  have stack : d.table.undoStack.tail = c.table.undoStack := within.below
  cases ending with
  | undo =>
    have closed := keptD.undo
    refine ⟨closed, older, ?_, fun held session s member => ?_⟩
    · change d.table.undo.undoStack.tail = c.table.undoStack.tail
      rw [undo_below, stack]
    · have inside : s.off + s.len ≤ d.table.undo.blobs.length := by
        have listed : held ∈ d.saved.tail := by
          rw [older]
          exact session
        exact closed.accounted.backed.inside listed member
      calc slice d.table.undo.blobs s.off s.len
          = slice d.table.blobs s.off s.len := undo_slice d.table inside
        _ = slice c.table.blobs s.off s.len :=
            within.bytes held (List.mem_cons_of_mem _ session) s member
  | squash =>
    refine ⟨keptD.squash, older, squash_below stack, fun held session s member => ?_⟩
    calc slice d.table.squash.blobs s.off s.len
        = slice d.table.blobs s.off s.len :=
          congrArg (slice · s.off s.len) (squash_blobs d.table)
      _ = slice c.table.blobs s.off s.len :=
          within.bytes held (List.mem_cons_of_mem _ session) s member

/-- The ledger is kept through every body, and the older sessions are left alone. -/
theorem Kept.run (kept : c.Kept) {body : Body (TableOp T)}
    (admits : machine.Admits Allows body c) :
    (machine.run body c).Kept ∧ c.Within (machine.run body c) := by
  apply Machine.run_frame Allows Kept Within (fun c _ => Within.refl c) Within.trans _ _ _ body c
    admits kept
  · intro c op kept allows
    exact ⟨kept.apply allows, kept.apply_within allows⟩
  · intro c kept
    exact kept.start
  · intro c d ending _ keptD within
    exact keptD.close_within within ending

theorem table_run (body : Body (TableOp T)) (c : Account T) :
    (machine.run body c).table = Table.machine.run body c.table := by
  apply Machine.run_simulate (fun (c : Account T) t => c.table = t) _ _ _ _ body c c.table rfl
  · intro c t op same
    subst same
    rfl
  · intro c t same
    subst same
    rfl
  · intro c t same
    subst same
    rfl
  · intro c t same
    subst same
    rfl

end Account

end PulseVM.Arena
