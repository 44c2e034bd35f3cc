import PulseVM.Arena.Exactness

/-!
A nested session that is squashed leaves no trace. What a call adds to the newest undo state
is itself an undo state, and folding undo states is associative: a child session that takes
the notes and is folded into its parent leaves what the parent has when it takes them itself.
-/

namespace PulseVM.Arena
open Lib.Encoding Lib.Undo Lib.Sessions
open ArenaObject hiding id

namespace UndoState

variable {T : Type}

/-! Orders of first touch. -/

/-- Touch ids after others, each once and only below the watermark. -/
def touch (base : Nat) (order ids : List Nat) : List Nat :=
  ids.foldl (fun order id => if id < base ∧ id ∉ order then order ++ [id] else order) order

theorem touch_append (base : Nat) (order first second : List Nat) :
    touch base order (first ++ second) = touch base (touch base order first) second :=
  List.foldl_append

theorem touch_single (base : Nat) (order : List Nat) (id : Nat) :
    touch base order [id] = if id < base ∧ id ∉ order then order ++ [id] else order := rfl

variable {order : List Nat} {a b : UndoState T}

theorem mem_touch {base i : Nat} {ids : List Nat} :
    i ∈ touch base order ids ↔ i ∈ order ∨ i ∈ ids ∧ i < base := by
  induction ids generalizing order with
  | nil => simp [touch]
  | cons id rest ih =>
    have step : touch base order (id :: rest) = touch base (touch base order [id]) rest :=
      touch_append base order [id] rest
    rw [step, ih, touch_single]
    split_ifs with fresh
    · rw [List.mem_append, List.mem_singleton, List.mem_cons]
      constructor
      · rintro ((known | rfl) | later)
        · exact .inl known
        · exact .inr ⟨.inl rfl, fresh.1⟩
        · exact .inr ⟨.inr later.1, later.2⟩
      · rintro (known | ⟨rfl | later, below⟩)
        · exact .inl (.inl known)
        · exact .inl (.inr rfl)
        · exact .inr ⟨later, below⟩
    · rw [List.mem_cons]
      constructor
      · rintro (known | later)
        · exact .inl known
        · exact .inr ⟨.inr later.1, later.2⟩
      · rintro (known | ⟨rfl | later, below⟩)
        · exact .inl known
        · exact .inl (not_not.mp fun absent => fresh ⟨below, absent⟩)
        · exact .inr ⟨later, below⟩

/-- Ids can be touched in two stages if the first has the higher watermark. -/
theorem touch_touch {base above : Nat} (lower : base ≤ above) (order middle ids : List Nat) :
    touch base order (touch above middle ids) = touch base (touch base order middle) ids := by
  induction ids using List.reverseRecOn with
  | nil => rfl
  | append_singleton ids id ih =>
    rw [touch_append above, touch_append base (touch base order middle), ← ih, touch_single above]
    split_ifs with fresh
    · rw [touch_append]
    · rw [touch_single, if_neg]
      intro ⟨below, absent⟩
      apply fresh
      refine ⟨by omega, fun known => absent (mem_touch.mpr (.inr ⟨known, below⟩))⟩

/-! Undo states by their fields. -/

theorem eq_of_fields (patch : a.patch = b.patch) (oldOrder : a.oldOrder = b.oldOrder)
    (removedOrder : a.removedOrder = b.removedOrder) (oldBlobLen : a.oldBlobLen = b.oldBlobLen)
    (freed : a.freed = b.freed) (reused : a.reused = b.reused) : a = b := by
  have oldValues : a.oldValues = b.oldValues :=
    Std.ExtTreeMap.ext_getElem? fun i => congrFun (congrArg Patch.old patch) i
  have removedValues : a.removedValues = b.removedValues :=
    Std.ExtTreeMap.ext_getElem? fun i => congrFun (congrArg Patch.removed patch) i
  have oldNextId : a.oldNextId = b.oldNextId := congrArg Patch.base patch
  cases a
  cases b
  simp_all

/-- The fields that are not values; only the two orders ever change. -/
structure Books where
  oldOrder : List Nat
  removedOrder : List Nat
  oldNextId : Nat
  oldBlobLen : Nat
  freed : List BlobRef
  reused : List BlobRef

def books (state : UndoState T) : Books :=
  ⟨state.oldOrder, state.removedOrder, state.oldNextId, state.oldBlobLen, state.freed, state.reused⟩

namespace Books

def touchOld (b : Books) (ids : List Nat) : Books :=
  { b with oldOrder := touch b.oldNextId b.oldOrder ids }

def touchRemoved (b : Books) (ids : List Nat) : Books :=
  { b with removedOrder := touch b.oldNextId b.removedOrder ids }

end Books

theorem books_keepOld (state : UndoState T) (id : Nat) (old : T) :
    (state.keepOld id old).books = state.books.touchOld [id] := by
  have listed := state.old_order id
  rw [Books.touchOld, touch_single]
  unfold keepOld
  by_cases below : id < state.oldNextId
  · by_cases known : id ∈ state.oldValues
    · simp [books, below, known, listed]
    · simp [books, below, known, listed]
  · simp [books, below]

theorem books_keepRemoved (state : UndoState T) (id : Nat) (removed : T) :
    (state.keepRemoved id removed).books = state.books.touchRemoved [id] := by
  have listed := state.removed_order id
  rw [Books.touchRemoved, touch_single]
  unfold keepRemoved
  by_cases below : id < state.oldNextId
  · by_cases known : id ∈ state.removedValues
    · simp [books, below, known, listed]
    · simp [books, below, known, listed]
  · simp [books, below]

/-- Values are kept one by one and touched all at once. -/
theorem books_fold {keep : UndoState T → Nat → T → UndoState T} {touched : Books → List Nat → Books}
    (single : ∀ state id value, (keep state id value).books = touched state.books [id])
    (empty : ∀ b, touched b [] = b)
    (stages : ∀ b id rest, touched b (id :: rest) = touched (touched b [id]) rest)
    {values : Nat → Option T} (listed : ∀ id ∈ order, values id ≠ none) (state : UndoState T) :
    (order.foldl (fun state id => (values id).elim state (keep state id)) state).books =
      touched state.books order := by
  induction order generalizing state with
  | nil => exact (empty _).symm
  | cons id rest ih =>
    obtain ⟨value, there⟩ := Option.ne_none_iff_exists'.mp (listed id List.mem_cons_self)
    rw [List.foldl_cons, there, Option.elim_some,
      ih fun other member => listed other (List.mem_cons_of_mem _ member), single, ← stages]

theorem books_absorb (previous top : UndoState T) : (previous.absorb top).books =
    { oldOrder := touch previous.oldNextId previous.oldOrder top.oldOrder
      removedOrder := touch previous.oldNextId previous.removedOrder top.removedOrder
      oldNextId := previous.oldNextId
      oldBlobLen := previous.oldBlobLen
      freed := previous.freed ++ top.freed
      reused := previous.reused ++ top.reused } := by
  have old : ∀ id ∈ top.oldOrder, top.oldValues[id]? ≠ none := by
    intro id member
    simpa using (top.old_order id).mp member
  have removed : ∀ id ∈ top.removedOrder, top.removedValues[id]? ≠ none := by
    intro id member
    simpa using (top.removed_order id).mp member
  unfold absorb
  rw [books_fold books_keepRemoved (fun _ => rfl) (fun _ _ _ => rfl) removed,
    books_fold books_keepOld (fun _ => rfl) (fun _ _ _ => rfl) old]
  rfl

theorem eq_of_books (patch : a.patch = b.patch) (books : a.books = b.books) : a = b :=
  eq_of_fields patch (congrArg Books.oldOrder books) (congrArg Books.removedOrder books)
    (congrArg Books.oldBlobLen books) (congrArg Books.freed books) (congrArg Books.reused books)

/-! Folding. -/

theorem merge_assoc {a b c : Patch T} (lower : a.base ≤ b.base) :
    a.merge (b.merge c) = (a.merge b).merge c := by
  refine Patch.ext rfl (funext fun i => ?_) (funext fun i => ?_)
  · by_cases below : i < a.base
    · simp [Patch.merge, below, Nat.lt_of_lt_of_le below lower, Option.or_assoc]
    · simp [Patch.merge, below]
  · by_cases below : i < a.base
    · simp [Patch.merge, below, Nat.lt_of_lt_of_le below lower, Option.or_assoc]
    · simp [Patch.merge, below]

theorem absorb_assoc {c : UndoState T} (lower : a.oldNextId ≤ b.oldNextId) :
    a.absorb (b.absorb c) = (a.absorb b).absorb c := by
  have inner := books_absorb b c
  have outer := books_absorb a b
  apply eq_of_books
  · simp only [patch_absorb]
    exact merge_assoc lower
  · rw [books_absorb, books_absorb]
    simp only [books, Books.mk.injEq] at inner outer
    simp only [inner, outer, touch_touch lower, List.append_assoc]

theorem absorb_new (state : UndoState T) (nextId blobLen : Nat) :
    state.absorb (new nextId blobLen) = state := by
  simp [absorb, new]

theorem oldNextId_absorb (a b : UndoState T) : (a.absorb b).oldNextId = a.oldNextId :=
  congrArg Books.oldNextId (books_absorb a b)

/-! What a call notes down. -/

theorem mem_insert_empty (id j : Nat) (value : T) :
    j ∈ [id] ↔ j ∈ (∅ : Std.ExtTreeMap Nat T).insert id value := by
  rw [List.mem_singleton, Std.ExtTreeMap.mem_insert]
  simp [@eq_comm _ j]

def noteOld (id : Nat) (old : T) : UndoState T :=
  { new 0 0 with
    oldValues := (∅ : Std.ExtTreeMap Nat T).insert id old
    oldOrder := [id]
    old_order := fun j => mem_insert_empty id j old }

def noteRemoved (id : Nat) (removed : T) : UndoState T :=
  { new 0 0 with
    removedValues := (∅ : Std.ExtTreeMap Nat T).insert id removed
    removedOrder := [id]
    removed_order := fun j => mem_insert_empty id j removed }

def noteFreed (r : BlobRef) : UndoState T := { new 0 0 with freed := [r] }

def noteReused (r : BlobRef) : UndoState T := { new 0 0 with reused := [r] }

theorem absorb_noteOld (state : UndoState T) (id : Nat) (old : T) :
    state.absorb (noteOld id old) = state.keepOld id old := by
  simp [absorb, noteOld, new]

theorem absorb_noteRemoved (state : UndoState T) (id : Nat) (removed : T) :
    state.absorb (noteRemoved id removed) = state.keepRemoved id removed := by
  simp [absorb, noteRemoved, new]

theorem absorb_noteFreed (state : UndoState T) (r : BlobRef) :
    state.absorb (noteFreed r) = { state with freed := state.freed ++ [r] } := by
  simp [absorb, noteFreed, new]

theorem absorb_noteReused (state : UndoState T) (r : BlobRef) :
    state.absorb (noteReused r) = { state with reused := state.reused ++ [r] } := by
  simp [absorb, noteReused, new]

/-- Changes of an undo state that can be made before or after it is folded into an
earlier one. -/
structure Notes (note : UndoState T → UndoState T) : Prop where
  base : ∀ state, (note state).oldNextId = state.oldNextId
  folds : ∀ a b : UndoState T, a.oldNextId ≤ b.oldNextId → a.absorb (note b) = note (a.absorb b)

theorem notes_of_absorb {note : UndoState T → UndoState T} (added : UndoState T)
    (same : ∀ state, state.absorb added = note state) : Notes note where
  base state := by rw [← same, oldNextId_absorb]
  folds a b lower := by rw [← same, ← same, absorb_assoc lower]

theorem notes_id : Notes (fun state : UndoState T => state) :=
  notes_of_absorb (new 0 0) fun state => absorb_new state 0 0

theorem Notes.comp {first second : UndoState T → UndoState T} (one : Notes first)
    (two : Notes second) : Notes (fun state => second (first state)) where
  base state := by rw [two.base, one.base]
  folds a b lower := by
    have kept : a.oldNextId ≤ (first b).oldNextId := by
      rw [one.base]
      exact lower
    rw [two.folds a _ kept, one.folds a b lower]

end UndoState

/-- A stack with a child session over its parent, and the stack where the parent has
taken the child's notes itself; both have the given number of sessions on top. -/
inductive Merged {T : Type} : Nat → List (UndoState T) → List (UndoState T) → Prop
  | here {top previous : UndoState T} (below : List (UndoState T)) :
      previous.oldNextId ≤ top.oldNextId →
      Merged 0 (top :: previous :: below) (previous.absorb top :: below)
  | above {depth : Nat} {nested direct : List (UndoState T)} (state : UndoState T) :
      Merged depth nested direct → Merged (depth + 1) (state :: nested) (state :: direct)

namespace Merged

variable {T : Type} {depth : Nat} {nested direct : List (UndoState T)}

theorem open_ (merged : Merged depth nested direct) : nested ≠ [] ∧ direct ≠ [] := by
  cases merged <;> simp

theorem note {note : UndoState T → UndoState T} (notes : UndoState.Notes note)
    (merged : Merged depth nested direct) : Merged depth (onTop note nested) (onTop note direct) := by
  cases merged with
  | @here top previous below lower =>
    simp only [onTop]
    rw [← notes.folds previous top lower]
    exact here below (by rw [notes.base]; exact lower)
  | above state rest => exact above (note state) rest

end Merged

namespace Table

variable {T : Type}

/-- The same rows, indices and arena under another stack of sessions. -/
def under (t : Table T) (stack : List (UndoState T)) (revision : Int) : Table T :=
  { t with undoStack := stack, revision := revision }

/-- What a call gives its client. -/
inductive Answer (T : Type) where
  | row (verdict : Except TableError T)
  | verdict (verdict : Except TableError Unit)
  | span (r : BlobRef)
  | nothing

/-- Inside a session the call reads the stack only to note something in the newest one. -/
def Noting {α : Type} (call : Table T → α × Table T) (t : Table T) : Prop :=
  ∃ note, UndoState.Notes note ∧ ∀ stack revision, stack ≠ [] →
    call (t.under stack revision) =
      ((call t).1, (call t).2.under (onTop note stack) revision)

variable {α : Type} {t : Table T}

theorem onTop_same (stack : List α) : onTop (fun a => a) stack = stack := by
  cases stack <;> rfl

theorem Noting.of_same {call : Table T → α × Table T}
    (same : ∀ stack revision, call (t.under stack revision) =
      ((call t).1, (call t).2.under stack revision)) : Noting call t := by
  refine ⟨_, UndoState.notes_id, fun stack revision _ => ?_⟩
  rw [onTop_same]
  exact same stack revision

theorem Noting.map {β : Type} {call : Table T → α × Table T} (noting : Noting call t)
    (f : α → β) : Noting (fun t => (f (call t).1, (call t).2)) t := by
  obtain ⟨note, notes, same⟩ := noting
  refine ⟨note, notes, fun stack revision some => ?_⟩
  simp only [same stack revision some]

theorem allocBlob_noting (t : Table T) (bytes : Bytes) : Noting (·.allocBlob bytes) t := by
  by_cases empty : bytes = []
  · exact .of_same fun stack revision => by simp only [allocBlob, if_pos empty]
  · cases taken : takeFree (UInt32.ofNat bytes.length) t.free with
    | none =>
      exact .of_same fun stack revision => by simp only [allocBlob, under, if_neg empty, taken]
    | some found =>
      refine ⟨_, UndoState.notes_of_absorb _ fun state =>
        state.absorb_noteReused found.1, fun stack revision _ => ?_⟩
      simp only [allocBlob, under, if_neg empty, taken]
      rfl

theorem freeBlob_noting (inside : t.undoStack ≠ []) (r : BlobRef) :
    Noting (fun t => (Answer.nothing (T := T), t.freeBlob r)) t := by
  by_cases empty : r.len = 0
  · exact .of_same fun stack revision => by simp only [freeBlob, if_pos empty]
  · refine ⟨_, UndoState.notes_of_absorb _ fun state => state.absorb_noteFreed r,
      fun stack revision some => ?_⟩
    obtain ⟨state, below, shape⟩ := List.exists_cons_of_ne_nil inside
    obtain ⟨top, rest, rfl⟩ := List.exists_cons_of_ne_nil some
    simp only [freeBlob, under, if_neg empty, shape, onTop]

theorem reallocBlob_noting (inside : t.undoStack ≠ []) (old : BlobRef) (bytes : Bytes) :
    Noting (·.reallocBlob old bytes) t := by
  obtain ⟨first, one, freed⟩ := freeBlob_noting inside old
  obtain ⟨second, two, stored⟩ := allocBlob_noting (t.freeBlob old) bytes
  refine ⟨_, one.comp two, fun stack revision some => ?_⟩
  have more : onTop first stack ≠ [] := by
    cases stack with
    | nil => exact absurd rfl some
    | cons top below => exact List.cons_ne_nil _ _
  have step := congrArg Prod.snd (freed stack revision some)
  have twice : onTop second (onTop first stack) = onTop (fun state => second (first state)) stack := by
    cases stack <;> rfl
  have last := stored _ revision more
  simp only [reallocBlob, twice] at step last ⊢
  rw [step, last]

section Calls

variable [ArenaObject T]

def answer (t : Table T) : TableOp T → Answer T
  | .emplace f => .row (t.emplace f).1
  | .modify id m => .verdict (t.modify id m).1
  | .remove id => .verdict (t.remove id).1
  | .allocBlob bytes => .span (t.allocBlob bytes).1
  | .freeBlob _ => .nothing
  | .reallocBlob old bytes => .span (t.reallocBlob old bytes).1

theorem emplace_noting (t : Table T) (f : T → T) : Noting (·.emplace f) t := by
  refine .of_same fun stack revision => ?_
  simp only [emplace, under, nextId]
  split <;> rfl

theorem modify_noting (t : Table T) (raw : Int) (m : T → T) : Noting (·.modify raw m) t := by
  cases raw with
  | negSucc n => exact .of_same fun _ _ => rfl
  | ofNat slot =>
    cases held : t.primary.get slot with
    | none =>
      exact .of_same fun stack revision => by simp only [modify, find, under, held]
    | some current =>
      by_cases changed : ArenaObject.id (m current) ≠ slot
      · refine .of_same fun stack revision => ?_
        simp only [modify, find, under, held, if_pos changed]
      · cases moved : replaceAll current (m current) [] t.secondaries with
        | mk secondaries conflict =>
          cases conflict with
          | some name =>
            refine .of_same fun stack revision => ?_
            simp only [modify, find, under, held, if_neg changed, moved]
          | none =>
            refine ⟨_, UndoState.notes_of_absorb _ fun state =>
              state.absorb_noteOld slot current, fun stack revision _ => ?_⟩
            simp only [modify, find, under, held, if_neg changed, moved]

theorem remove_noting (t : Table T) (raw : Int) : Noting (·.remove raw) t := by
  cases raw with
  | negSucc n => exact .of_same fun _ _ => rfl
  | ofNat slot =>
    cases held : t.primary.get slot with
    | none =>
      exact .of_same fun stack revision => by simp only [remove, find, under, held]
    | some obj =>
      refine ⟨_, UndoState.notes_of_absorb _ fun state =>
        state.absorb_noteRemoved slot obj, fun stack revision _ => ?_⟩
      simp only [remove, find, under, held]

theorem call_noting {t : Table T} (inside : t.undoStack ≠ []) (op : TableOp T) :
    Noting (fun t => (t.answer op, t.apply op)) t := by
  cases op with
  | emplace f => exact (emplace_noting t f).map Answer.row
  | modify raw m => exact (modify_noting t raw m).map Answer.verdict
  | remove raw => exact (remove_noting t raw).map Answer.verdict
  | allocBlob bytes => exact (allocBlob_noting t bytes).map Answer.span
  | freeBlob r => exact freeBlob_noting inside r
  | reallocBlob old bytes => exact (reallocBlob_noting inside old bytes).map Answer.span

end Calls

/-! The two runs. -/

/-- One table runs inside a child session, the other in the parent itself, each with
the given number of sessions on top. -/
structure Nested (depth : Nat) (nested direct : Table T) : Prop where
  same : nested = direct.under nested.undoStack (direct.revision + 1)
  merged : Merged depth nested.undoStack direct.undoStack

namespace Nested

variable {depth : Nat} {nested direct : Table T}

theorem call [ArenaObject T] (related : Nested depth nested direct) (op : TableOp T) :
    nested.answer op = direct.answer op ∧ Nested depth (nested.apply op) (direct.apply op) := by
  obtain ⟨deep, inside⟩ := related.merged.open_
  obtain ⟨note, notes, under⟩ := call_noting inside op
  have here := under nested.undoStack (direct.revision + 1) deep
  rw [← related.same] at here
  have there : direct.apply op =
      (direct.apply op).under (onTop note direct.undoStack) direct.revision :=
    congrArg Prod.snd (under direct.undoStack direct.revision inside)
  simp only [Prod.mk.injEq] at here
  have stack : (nested.apply op).undoStack = onTop note nested.undoStack :=
    congrArg Table.undoStack here.2
  have below : (direct.apply op).undoStack = onTop note direct.undoStack :=
    congrArg Table.undoStack there
  have count : (direct.apply op).revision = direct.revision := by
    rw [there]
    rfl
  refine ⟨here.1, ?_, ?_⟩
  · rw [stack, count]
    exact here.2
  · rw [stack, below]
    exact related.merged.note notes

theorem start (related : Nested depth nested direct) :
    Nested (depth + 1) nested.startUndoSession direct.startUndoSession := by
  have same := related.same
  have opened : nested.startUndoSession = direct.startUndoSession.under
      (UndoState.new direct.nextId direct.blobs.length :: nested.undoStack)
      (direct.revision + 1 + 1) := by
    rw [same]
    rfl
  constructor
  · rw [opened]
    rfl
  · rw [opened]
    exact Merged.above _ related.merged

theorem foldl_restoreRow_under [ArenaObject T] (rows : List T) (t : Table T) (stack : List (UndoState T))
    (revision : Int) : rows.foldl restoreRow (t.under stack revision) =
      (rows.foldl restoreRow t).under stack revision := by
  apply List.foldl_hom fun t : Table T => t.under stack revision
  intro t obj
  unfold restoreRow under
  cases ArenaObject.id obj <;> rfl

theorem revertRows_under [ArenaObject T] (t : Table T) (state : UndoState T) (stack : List (UndoState T))
    (revision : Int) : (t.under stack revision).revertRows state =
      (t.revertRows state).under stack revision := by
  unfold revertRows
  dsimp only
  rw [foldl_dropCreated, foldl_dropCreated, foldl_eraseCurrent, foldl_eraseCurrent,
    ← foldl_restoreRow_under]
  rfl

theorem top (related : Nested (depth + 1) nested direct) :
    ∃ state below below', nested.undoStack = state :: below ∧ direct.undoStack = state :: below' ∧
      Merged depth below below' := by
  have merged := related.merged
  generalize nested.undoStack = stack, direct.undoStack = stack' at merged
  cases merged with
  | above state inner => exact ⟨state, _, _, rfl, rfl, inner⟩

theorem undo [ArenaObject T] (related : Nested (depth + 1) nested direct) :
    Nested depth nested.undo direct.undo := by
  have same := related.same
  obtain ⟨state, below, below', shape, flat, inner⟩ := related.top
  have heap : nested.revertHeap state below =
      (direct.revertHeap state below').under below (direct.revision + 1) := by
    rw [same]
    rfl
  have frame := revertRows_frame (direct.revertHeap state below') state
  have stack : ((direct.revertHeap state below').revertRows state).undoStack = below' :=
    frame.undoStack
  have count : ((direct.revertHeap state below').revertRows state).revision =
      direct.revision := frame.revision
  unfold Table.undo
  rw [shape, flat]
  dsimp only
  rw [heap, revertRows_under]
  constructor
  · simp only [under, count]
    congr 1
    omega
  · simp only [under, stack]
    exact inner

theorem squash (related : Nested (depth + 1) nested direct) :
    Nested depth nested.squash direct.squash := by
  have same := related.same
  obtain ⟨state, below, below', shape, flat, inner⟩ := related.top
  -- both drop their newest session, and fold it into different ones only at depth zero
  have closed : ∀ stack stack', Merged depth stack stack' →
      Nested depth { nested with undoStack := stack, revision := nested.revision - 1 }
        { direct with undoStack := stack', revision := direct.revision - 1 } := by
    intro stack stack' merged
    refine ⟨?_, merged⟩
    rw [same]
    simp only [under]
    congr 1
    omega
  unfold Table.squash
  rw [shape, flat]
  cases inner with
  | @here top previous rest lower =>
    apply closed
    rw [← UndoState.absorb_assoc lower]
    exact .here rest (by rw [UndoState.oldNextId_absorb]; exact lower)
  | above state'' inner => exact closed _ _ (.above _ inner)

/-- With no session left on top, closing the child gives the table of the other run. -/
theorem squash_eq (related : Nested 0 nested direct) : nested.squash = direct := by
  have same := related.same
  cases shape : nested.undoStack with
  | nil => exact absurd shape related.merged.open_.1
  | cons top below =>
    have merged := related.merged
    rw [shape] at merged
    generalize flat : direct.undoStack = stack at merged
    cases merged with
    | here rest lower =>
      unfold Table.squash
      rw [shape]
      dsimp only
      rw [same, ← flat]
      simp only [under, Int.add_sub_cancel]

end Nested

variable [ArenaObject T]

theorem nested_start {t : Table T} (sound : t.Sound) (inside : t.undoStack ≠ []) :
    Nested 0 t.startUndoSession t := by
  constructor
  · rfl
  · obtain ⟨previous, below, shape⟩ := List.exists_cons_of_ne_nil inside
    have chain := sound.chain
    rw [shape] at chain
    have lower : previous.oldNextId ≤ t.nextId := chain.2.1.base_le
    have merged : Merged 0 (UndoState.new t.nextId t.blobs.length :: previous :: below)
        (previous.absorb (UndoState.new t.nextId t.blobs.length) :: below) := .here below lower
    rw [UndoState.absorb_new, ← shape] at merged
    exact merged

/-- What a client has seen: after each call its answer, the rows, the indices and the
arena. -/
def watched : Machine (Table T × List (Answer T × Table T)) (TableOp T) where
  step c op := (c.1.apply op, c.2 ++ [(c.1.answer op, (c.1.apply op).under [] 0)])
  start c := (c.1.startUndoSession, c.2)
  undo c := (c.1.undo, c.2)
  squash c := (c.1.squash, c.2)

theorem watched_run (body : Body (TableOp T)) (t : Table T) (seen : List (Answer T × Table T)) :
    (watched.run body (t, seen)).1 = machine.run body t :=
  Machine.run_simulate (m := watched) (n := machine) (fun c t => c.1 = t)
    (fun _ _ _ same => by subst same; rfl) (fun _ _ same => by subst same; rfl)
    (fun _ _ same => by subst same; rfl) (fun _ _ same => by subst same; rfl) body (t, seen) t rfl

theorem run_nested {nested direct : Table T} (related : Nested 0 nested direct)
    (body : Body (TableOp T)) :
    Nested 0 (watched.run body (nested, [])).1 (watched.run body (direct, [])).1 ∧
      (watched.run body (nested, [])).2 = (watched.run body (direct, [])).2 := by
  apply Machine.run_simulate_depth (m := watched) (n := watched)
    (fun depth c d => Nested depth c.1 d.1 ∧ c.2 = d.2) _ _ _ body (nested, []) (direct, [])
    ⟨related, rfl⟩
  · intro depth c d op ⟨related, seen⟩
    obtain ⟨answers, later⟩ := related.call op
    refine ⟨later, ?_⟩
    change c.2 ++ [(c.1.answer op, (c.1.apply op).under [] 0)] = _
    rw [answers, seen, later.same]
    rfl
  · intro depth c d ⟨related, seen⟩
    exact ⟨related.start, seen⟩
  · intro depth c d ending ⟨related, seen⟩
    cases ending with
    | undo => exact ⟨related.undo, seen⟩
    | squash => exact ⟨related.squash, seen⟩

/-- A body run in a nested session that is squashed leaves the table that the body leaves
when it runs in the parent itself: rows, indices, arena, every undo state with its
change sets, and the revision. So every later undo, commit and report agrees. What the
client sees on the way agrees too. -/
theorem squash_transparent {t : Table T} (built : t.Built) (inside : t.undoStack ≠ [])
    (body : Body (TableOp T)) :
    (machine.run body t.startUndoSession).squash = machine.run body t ∧
      (watched.run body (t.startUndoSession, [])).2 = (watched.run body (t, [])).2 := by
  obtain ⟨related, seen⟩ := run_nested (nested_start built.sound inside) body
  rw [watched_run, watched_run] at related
  exact ⟨related.squash_eq, seen⟩

/-- The child creates a row and its own child changes and removes one that the parent
found; then the other is removed. -/
theorem squash_transparent_deferred :
    let body : Body (TableOp DeferredTransactionRow) :=
      .call (.emplace fun row => { row with sender := 7, trxId := Vector.replicate 32 7 })
        (.session (.call (.modify 0 fun row => { row with payer := 5 }) (.call (.remove 0) .done))
          .squash (.call (.remove 1) .done))
    let parent : Table DeferredTransactionRow :=
      (Table.new.apply (.emplace fun row => { row with sender := 3 })).startUndoSession
    (machine.run body parent.startUndoSession).squash = machine.run body parent ∧
      (watched.run body (parent.startUndoSession, [])).2 = (watched.run body (parent, [])).2 :=
  squash_transparent (.startUndoSession (.call _ .new)) (List.cons_ne_nil _ _) _

end Table

end PulseVM.Arena
