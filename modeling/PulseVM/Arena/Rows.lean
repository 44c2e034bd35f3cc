import PulseVM.Arena.Index

/-!
What the rows of a table are for: a store with unique keys whose sessions are full
snapshots. Undo puts the last snapshot back, squash drops it, commit drops the
oldest ones. The table keeps inverse patches instead of snapshots and indices
instead of searching the rows; it is shown to refine the snapshot store.
-/

namespace PulseVM.Arena
open Lib.Undo
open ArenaObject hiding id

namespace UndoState

variable {T : Type}

/-- The row changes of a session as an inverse patch. -/
def patch (state : UndoState T) : Patch T :=
  ⟨state.oldNextId, fun i => state.oldValues[i]?, fun i => state.removedValues[i]?⟩

theorem patch_new (nextId blobLen : Nat) : (new nextId blobLen : UndoState T).patch =
    Patch.fresh nextId := by
  simp [patch, new, Patch.fresh]

theorem patch_keepOld (state : UndoState T) (slot : Nat) (old : T) :
    (state.keepOld slot old).patch = state.patch.recordOld slot old := by
  have absent : slot ∉ state.oldValues ↔ state.oldValues[slot]? = none := by
    rw [Std.ExtTreeMap.mem_iff_isSome_getElem?]
    simp only [Bool.not_eq_true, Option.isSome_eq_false_iff, Option.isNone_iff_eq_none]
  unfold keepOld
  split_ifs with fresh
  · refine Patch.ext rfl (funext fun i => ?_) rfl
    change (state.oldValues.insert slot old)[i]? =
      if i = slot ∧ slot < state.oldNextId ∧ state.oldValues[slot]? = none then some old
      else state.oldValues[i]?
    rw [Std.ExtTreeMap.getElem?_insert]
    by_cases here : i = slot
    · rw [if_pos (by rw [here]; exact Std.ReflCmp.compare_self),
        if_pos ⟨here, fresh.1, absent.mp fresh.2⟩]
    · rw [if_neg (fun same => here (compare_eq_iff_eq.mp same).symm),
        if_neg (fun both => here both.1)]
  · refine Patch.ext rfl (funext fun i => ?_) rfl
    change state.oldValues[i]? =
      if i = slot ∧ slot < state.oldNextId ∧ state.oldValues[slot]? = none then some old
      else state.oldValues[i]?
    rw [if_neg (fun both => fresh ⟨both.2.1, absent.mpr both.2.2⟩)]

theorem patch_keepRemoved (state : UndoState T) (slot : Nat) (removed : T) :
    (state.keepRemoved slot removed).patch = state.patch.recordRemoved slot removed := by
  unfold keepRemoved
  by_cases small : slot < state.oldNextId
  · rw [if_pos small]
    refine Patch.ext rfl rfl (funext fun i => ?_)
    change (state.removedValues.insert slot removed)[i]? =
      if i = slot ∧ slot < state.oldNextId then some removed else state.removedValues[i]?
    rw [Std.ExtTreeMap.getElem?_insert]
    by_cases here : i = slot
    · rw [if_pos (by rw [here]; exact Std.ReflCmp.compare_self), if_pos ⟨here, small⟩]
    · rw [if_neg (fun same => here (compare_eq_iff_eq.mp same).symm),
        if_neg (fun both => here both.1)]
  · rw [if_neg small]
    refine Patch.ext rfl rfl (funext fun i => ?_)
    change state.removedValues[i]? =
      if i = slot ∧ slot < state.oldNextId then some removed else state.removedValues[i]?
    rw [if_neg (fun both => small both.2)]

section Absorb

theorem fold_keepOld (values : Nat → Option T) (order : List Nat) (state : UndoState T) :
    (order.foldl (fun state id => (values id).elim state (state.keepOld id)) state).patch =
      ⟨state.patch.base, fun i => (state.patch.old i).or
        (if i < state.patch.base ∧ i ∈ order then values i else none), state.patch.removed⟩ := by
  induction order generalizing state with
  | nil => simp [patch]
  | cons id rest ih =>
    rw [List.foldl_cons, ih]
    cases value : values id with
    | none =>
      rw [Option.elim_none]
      refine Patch.ext rfl (funext fun i => ?_) rfl
      by_cases here : i = id
      · simp [here, value]
      · simp [here]
    | some old =>
      refine Patch.ext ?_ (funext fun i => ?_) ?_
      · simp only [Option.elim_some, patch_keepOld, Patch.recordOld]
      · simp only [Option.elim_some, patch_keepOld, Patch.recordOld]
        by_cases here : i = id
        · subst here
          by_cases small : i < state.patch.base
          · cases known : state.patch.old i with
            | none => simp [small, value]
            | some first => simp
          · simp [small]
        · simp [here]
      · simp only [Option.elim_some, patch_keepOld, Patch.recordOld]

theorem fold_keepRemoved (values : Nat → Option T) (order : List Nat) (state : UndoState T) :
    (order.foldl (fun state id => (values id).elim state (state.keepRemoved id)) state).patch =
      ⟨state.patch.base, state.patch.old, fun i =>
        (if i < state.patch.base ∧ i ∈ order then values i else none).or
          (state.patch.removed i)⟩ := by
  induction order generalizing state with
  | nil => simp [patch]
  | cons id rest ih =>
    rw [List.foldl_cons, ih]
    cases value : values id with
    | none =>
      rw [Option.elim_none]
      refine Patch.ext rfl rfl (funext fun i => ?_)
      by_cases here : i = id
      · simp [here, value]
      · simp [here]
    | some removed =>
      refine Patch.ext ?_ ?_ (funext fun i => ?_)
      · simp only [Option.elim_some, patch_keepRemoved, Patch.recordRemoved]
      · simp only [Option.elim_some, patch_keepRemoved, Patch.recordRemoved]
      · simp only [Option.elim_some, patch_keepRemoved, Patch.recordRemoved]
        by_cases here : i = id
        · subst here
          by_cases small : i < state.patch.base
          · by_cases again : i ∈ rest
            · simp [small, again, value]
            · simp [small, again, value]
          · simp [small]
        · simp [here]

theorem listed_iff {order : List Nat} {map : Std.ExtTreeMap Nat T}
    (agree : ∀ id, id ∈ order ↔ id ∈ map) (i : Nat) (bound : Prop) [Decidable bound] :
    (if bound ∧ i ∈ order then map[i]? else none) = if bound then map[i]? else none := by
  by_cases inside : bound
  · by_cases listed : i ∈ order
    · simp [inside, listed]
    · have absent : map[i]? = none :=
        Std.ExtTreeMap.getElem?_eq_none (fun member => listed ((agree i).mpr member))
      simp [inside, listed, absent]
  · simp [inside]

theorem patch_absorb (previous top : UndoState T) :
    (previous.absorb top).patch = previous.patch.merge top.patch := by
  dsimp only [absorb]
  rw [fold_keepRemoved (fun id => top.removedValues[id]?),
    fold_keepOld (fun id => top.oldValues[id]?)]
  simp only [listed_iff top.old_order, listed_iff top.removed_order]
  rfl

end Absorb

end UndoState

/-- Rows with unique keys and a stack of full snapshots, newest first. -/
structure RowStore (T : Type) where
  rows : Slab T
  saved : List (Slab T)
  revision : Int

variable {T : Type} [ArenaObject T]

namespace RowStore

def empty : RowStore T := ⟨Slab.empty, [], 0⟩

noncomputable def emplace (s : RowStore T) (f : T → T) : RowStore T :=
  let obj := Table.constructed s.rows.len f
  match clash s.rows.get s.rows.len obj with
  | none => { s with rows := s.rows.push obj }
  | some _ => s

theorem emplace_free {s : RowStore T} {f : T → T}
    (free : clash s.rows.get s.rows.len (Table.constructed s.rows.len f) = none) :
    s.emplace f = { s with rows := s.rows.push (Table.constructed s.rows.len f) } := by
  dsimp only [emplace]
  rw [free]

theorem emplace_clash {s : RowStore T} {f : T → T} {name : String}
    (clashes : clash s.rows.get s.rows.len (Table.constructed s.rows.len f) = some name) :
    s.emplace f = s := by
  dsimp only [emplace]
  rw [clashes]

noncomputable def modify (s : RowStore T) (raw : Int) (m : T → T) : RowStore T :=
  match raw with
  | .negSucc _ => s
  | .ofNat slot =>
    match held : s.rows.get slot with
    | none => s
    | some current =>
      if ArenaObject.id (m current) = slot ∧ clash s.rows.get slot (m current) = none then
        { s with rows := s.rows.set slot (m current) (Slab.lt_of_get held) }
      else s

theorem modify_accept {s : RowStore T} {slot : Nat} {m : T → T} {current : T}
    (held : s.rows.get slot = some current) (named : ArenaObject.id (m current) = slot)
    (free : clash s.rows.get slot (m current) = none) :
    s.modify slot m = { s with rows := s.rows.set slot (m current) (Slab.lt_of_get held) } := by
  dsimp only [modify]
  split
  · next absent =>
    rw [held] at absent
    cases absent
  · next found present =>
    have same : found = current := Option.some.inj (present.symm.trans held)
    subst same
    rw [if_pos ⟨named, free⟩]

theorem modify_refuse {s : RowStore T} {slot : Nat} {m : T → T}
    (refused : ∀ current, s.rows.get slot = some current →
      ¬(ArenaObject.id (m current) = slot ∧ clash s.rows.get slot (m current) = none)) :
    s.modify slot m = s := by
  dsimp only [modify]
  split
  · rfl
  · next found present => rw [if_neg (refused found present)]

def remove (s : RowStore T) (raw : Int) : RowStore T :=
  match raw with
  | .negSucc _ => s
  | .ofNat slot => { s with rows := s.rows.erase slot }

def startUndoSession (s : RowStore T) : RowStore T :=
  ⟨s.rows, s.rows :: s.saved, s.revision + 1⟩

def undo (s : RowStore T) : RowStore T :=
  match s.saved with
  | [] => s
  | snapshot :: below => ⟨snapshot, below, s.revision - 1⟩

def squash (s : RowStore T) : RowStore T :=
  match s.saved with
  | [] => s
  | _ :: below => ⟨s.rows, below, s.revision - 1⟩

def keep (s : RowStore T) (kept : Nat) : RowStore T := { s with saved := s.saved.take kept }

end RowStore

/-- Every row carries its own slot as its id, and no two rows share a key. -/
structure Valid (s : Slab T) : Prop where
  named : ∀ n row, s.get n = some row → ArenaObject.id row = n
  distinct : ∀ n row, s.get n = some row → clash s.get n row = none

theorem Follow.distinct {good : KeyIndex T → (Nat → Option T) → Prop} [Followed good]
    {ixs : List (KeyIndex T)} {rows : Nat → Option T} (indexed : Follow good ixs rows) {n : Nat}
    {row : T} (live : rows n = some row) :
    clash rows n row = none := by
  rw [clash_eq_none_iff, ← indexed.decls]
  intro decl member
  obtain ⟨ix, listed, rfl⟩ := List.mem_map.mp member
  intro ⟨m, other, here, liveOther, same⟩
  exact here (IndexedBy.Exact.unique (indexed.exact ix listed) liveOther live same)

theorem Follow.valid {ixs : List (KeyIndex T)} {s : Slab T} (indexed : Indexed ixs s.get)
    (named : ∀ n row, s.get n = some row → ArenaObject.id row = n) : Valid s where
  named := named
  distinct _ _ live := indexed.distinct live

namespace Table

variable {t : Table T}

def view (t : Table T) : RowStore T where
  rows := t.primary.slab
  saved := Lib.Undo.saved (t.undoStack.map UndoState.patch) t.primary.slab
  revision := t.revision

/-- What every reachable table satisfies: the patches lead back through valid rows,
the indices are exact for the live rows and the row count is their number. -/
structure Sound (t : Table T) : Prop where
  chain : Chain Valid (t.undoStack.map UndoState.patch) t.primary.slab
  indexed : Indexed t.secondaries t.primary.get
  counted : t.rowCount = t.primary.slab.live

/-- The table is sound and stands for the given store. -/
structure Refines (t : Table T) (s : RowStore T) : Prop where
  sound : t.Sound
  view : t.view = s

theorem Sound.valid (sound : t.Sound) : Valid t.primary.slab := sound.chain.valid_top

theorem Sound.named (sound : t.Sound) {n : Nat} {row : T} (live : t.primary.get n = some row) :
    ArenaObject.id row = n :=
  sound.valid.named n row live

/-- Rows, indices and row changes of the sessions are all that soundness reads. -/
theorem Sound.refines_of_rows {u : Table T} (sound : t.Sound) (primary : u.primary = t.primary)
    (indexed : Indexed u.secondaries t.primary.get) (rowCount : u.rowCount = t.rowCount)
    (patches : u.undoStack.map UndoState.patch = t.undoStack.map UndoState.patch)
    (revision : u.revision = t.revision) : u.Refines t.view where
  sound :=
    { chain := by rw [patches, primary]; exact sound.chain
      indexed := by rw [primary]; exact indexed
      counted := by rw [rowCount, primary]; exact sound.counted }
  view := by
    unfold Table.view
    rw [primary, patches, revision]

theorem new_refines : (new : Table T).Refines RowStore.empty where
  sound :=
    { chain := by
        constructor
        · intro n row live
          cases live
        · intro n row live
          rw [new, PagedPrimary.slab_new] at live
          cases live
      indexed := indexed_new
      counted := rfl }
  view := by
    rfl

/-- An insertion is refused and leaves everything as it was, or the row is in every index. -/
theorem emplace_cases (sound : t.Sound) (f : T → T) :
    (∃ name, clash t.primary.get t.nextId (constructed t.nextId f) = some name ∧
      t.emplace f = (.error (.uniquenessViolation (typeName T) name), t)) ∨
    clash t.primary.get t.nextId (constructed t.nextId f) = none ∧
      Indexed (t.secondaries.map (·.add (constructed t.nextId f)))
        (Function.update t.primary.get t.nextId (some (constructed t.nextId f))) ∧
      t.emplace f = (.ok (constructed t.nextId f), { t with
        secondaries := t.secondaries.map (·.add (constructed t.nextId f))
        primary := t.primary.push (constructed t.nextId f)
        rowCount := t.rowCount + 1
        dirty := t.dirty.mark t.nextId }) := by
  have empty : t.primary.get t.nextId = none := t.primary.slab.get_past _ (Nat.le_refl _)
  have named : ArenaObject.id (constructed (T := T) t.nextId f) = t.nextId := id_setId _ _
  cases verdict : clash t.primary.get t.nextId (constructed t.nextId f) with
  | some name =>
    have loop := tryInsertAll_clash sound.indexed empty verdict
    exact .inl ⟨name, rfl, by simp only [emplace, loop]⟩
  | none =>
    obtain ⟨loop, indexed⟩ := tryInsertAll_free sound.indexed empty named verdict
    exact .inr ⟨rfl, indexed, by simp only [emplace, loop]⟩

theorem emplace_refines (sound : t.Sound) (f : T → T) :
    (t.emplace f).2.Refines (t.view.emplace f) := by
  obtain ⟨name, verdict, result⟩ | ⟨verdict, indexed, result⟩ := emplace_cases sound f
  · rw [RowStore.emplace_clash verdict, result]
    exact ⟨sound, rfl⟩
  · have rows : ∀ i, Function.update t.primary.get t.nextId
        (some (constructed t.nextId f)) i = (t.primary.slab.push (constructed t.nextId f)).get i := by
      intro i
      rw [Function.update_apply]
      rfl
    have pushed := t.primary.slab_push (constructed t.nextId f)
    have valid : Valid (t.primary.slab.push (constructed t.nextId f)) := by
      apply (indexed.congr rows).valid
      intro n row live
      rw [← rows, Function.update_apply] at live
      split at live
      · next here =>
        cases live
        rw [here]
        exact id_setId _ _
      · exact sound.named live
    obtain ⟨chain, saved⟩ := sound.chain.push valid
    rw [RowStore.emplace_free verdict, result]
    refine ⟨⟨?_, ?_, ?_⟩, ?_⟩
    · rw [pushed]
      exact chain
    · apply indexed.congr
      intro i
      rw [rows, ← pushed]
      rfl
    · rw [pushed, Slab.live_push, sound.counted]
    · simp only [Table.view, pushed, saved]
      rfl

/-- What a modification can do: it finds no row, the row would change its id, a key of the
new row is taken and the indices are rolled back, or the row is replaced. -/
inductive Modified (good : KeyIndex T → (Nat → Option T) → Prop) (t : Table T) (m : T → T) :
    Int → Except TableError Unit × Table T → Prop
  | missing {raw : Int} (absent : t.find raw = none) :
      Modified good t m raw (.error (.notFound (typeName T) raw), t)
  | renamed {slot : Nat} {current : T} (held : t.primary.get slot = some current)
      (named : ArenaObject.id (m current) ≠ slot) :
      Modified good t m slot (.error (.idChanged (typeName T)), t)
  | clashed {slot : Nat} {current : T} {name : String} {rolled : List (KeyIndex T)}
      (held : t.primary.get slot = some current) (named : ArenaObject.id (m current) = slot)
      (clashes : clash t.primary.get slot (m current) = some name)
      (indexed : Follow good rolled t.primary.get) :
      Modified good t m slot
        (.error (.uniquenessViolation (typeName T) name), { t with secondaries := rolled })
  | replaced {slot : Nat} {current : T} (held : t.primary.get slot = some current)
      (named : ArenaObject.id (m current) = slot)
      (free : clash t.primary.get slot (m current) = none)
      (indexed : Follow good (t.secondaries.map (·.replaced current (m current)))
        (Function.update t.primary.get slot (some (m current)))) :
      Modified good t m slot (.ok (), { t with
        secondaries := t.secondaries.map (·.replaced current (m current))
        primary := (t.primary.insert slot (m current)).1
        undoStack := onTop (·.keepOld slot current) t.undoStack
        dirty := t.dirty.mark slot })

theorem modify_cases {good : KeyIndex T → (Nat → Option T) → Prop} [Followed good]
    (indexed : Follow good t.secondaries t.primary.get)
    (ids : ∀ {n row}, t.primary.get n = some row → ArenaObject.id row = n) (raw : Int) (m : T → T)
    (allowed : ∀ current, t.find raw = some current → ∀ ix ∈ t.secondaries,
      Followed.allows good ix.decl current (m current)) :
    Modified good t m raw (t.modify raw m) := by
  cases raw with
  | negSucc n => exact .missing rfl
  | ofNat slot =>
    unfold modify
    cases held : t.find (Int.ofNat slot) with
    | none => exact .missing held
    | some current =>
      dsimp only
      by_cases named : ArenaObject.id (m current) = slot
      · rw [if_neg (not_not.mpr named)]
        cases verdict : clash t.primary.get slot (m current) with
        | none =>
          obtain ⟨loop, moved⟩ :=
            replaceAll_free indexed held (ids held) verdict (allowed current held)
          rw [loop]
          exact .replaced held named verdict moved
        | some name =>
          obtain ⟨rolled, loop, kept⟩ :=
            replaceAll_clash indexed held (ids held) named verdict (allowed current held)
          rw [loop]
          exact .clashed held named verdict kept
      · rw [if_pos named]
        exact .renamed held named

theorem Sound.modify_cases (sound : t.Sound) (raw : Int) (m : T → T) :
    Modified KeyIndex.Exact t m raw (t.modify raw m) :=
  Table.modify_cases sound.indexed sound.named raw m fun _ _ _ _ => trivial

theorem map_onTop {α β : Type} {f : α → α} {g : β → β} {h : α → β}
    (commute : ∀ a, h (f a) = g (h a)) (l : List α) :
    (onTop f l).map h = onTop g (l.map h) := by
  cases l with
  | nil => rfl
  | cons top below => simp only [onTop, List.map_cons, commute]

/-- Replacing a live row by one that keeps its slot and clashes with no other row. -/
theorem replace_refines (sound : t.Sound) {slot : Nat} {current new : T}
    (held : t.primary.get slot = some current) (named : ArenaObject.id new = slot)
    (indexed : Indexed (t.secondaries.map (·.replaced current new))
      (Function.update t.primary.get slot (some new))) :
    Table.Refines { t with
      secondaries := t.secondaries.map (·.replaced current new)
      primary := (t.primary.insert slot new).1
      undoStack := onTop (·.keepOld slot current) t.undoStack
      dirty := t.dirty.mark slot }
      { t.view with rows := t.primary.slab.set slot new (Slab.lt_of_get held) } := by
  have inside : slot < t.primary.slab.len := Slab.lt_of_get held
  have rows : ∀ i, Function.update t.primary.get slot (some new) i =
      (t.primary.slab.set slot new inside).get i := by
    intro i
    rw [Function.update_apply]
    rfl
  have written := t.primary.slab_insert inside new
  have valid : Valid (t.primary.slab.set slot new inside) := by
    apply (indexed.congr rows).valid
    intro n row live
    rw [← rows, Function.update_apply] at live
    split at live
    · next here =>
      cases live
      rw [named, here]
    · exact sound.named live
  obtain ⟨chain, saved⟩ := sound.chain.change held valid
  have stack : (onTop (·.keepOld slot current) t.undoStack).map UndoState.patch =
      onTop (·.recordOld slot current) (t.undoStack.map UndoState.patch) :=
    map_onTop (fun state => state.patch_keepOld slot current) t.undoStack
  refine ⟨⟨?_, ?_, ?_⟩, ?_⟩
  · rw [stack, written]
    exact chain
  · apply indexed.congr
    intro i
    rw [rows, ← written]
    rfl
  · rw [written, Slab.live_set, PagedPrimary.slab_get, held]
    exact sound.counted
  · simp only [Table.view, written, stack, saved]

theorem modify_refines (sound : t.Sound) (raw : Int) (m : T → T) :
    (t.modify raw m).2.Refines (t.view.modify raw m) := by
  have modified := sound.modify_cases raw m
  generalize t.modify raw m = result at modified
  cases modified with
  | missing absent =>
    cases raw with
    | negSucc n => exact ⟨sound, rfl⟩
    | ofNat slot =>
      rw [show t.view.modify (Int.ofNat slot) m = t.view from RowStore.modify_refuse
        fun current present => by cases absent.symm.trans present]
      exact ⟨sound, rfl⟩
  | @renamed slot current held named =>
    rw [RowStore.modify_refuse]
    · exact ⟨sound, rfl⟩
    · intro found present both
      cases held.symm.trans present
      exact named both.1
  | @clashed slot current name rolled held named clashes indexed =>
    rw [RowStore.modify_refuse]
    · exact sound.refines_of_rows rfl indexed rfl rfl rfl
    · intro found present both
      cases held.symm.trans present
      cases clashes.symm.trans both.2
  | replaced held named free indexed =>
    rw [RowStore.modify_accept held named free]
    exact replace_refines sound held named indexed

theorem remove_refines (sound : t.Sound) (raw : Int) :
    (t.remove raw).2.Refines (t.view.remove raw) := by
  cases raw with
  | negSucc n => exact ⟨sound, rfl⟩
  | ofNat slot =>
    cases held : t.primary.get slot with
    | none =>
      have missing : t.find (Int.ofNat slot) = none := held
      have same : (t.remove (Int.ofNat slot)).2 = t := by
        unfold remove
        rw [missing]
      have spec : t.view.remove (Int.ofNat slot) = t.view := by
        have rows : t.primary.slab.erase slot = t.primary.slab := Slab.erase_absent held
        simp only [RowStore.remove, Table.view, rows]
      rw [same, spec]
      exact ⟨sound, rfl⟩
    | some obj =>
      have found : t.find (Int.ofNat slot) = some obj := held
      have result : (t.remove (Int.ofNat slot)).2 = { t with
          primary := (t.primary.take slot).2
          rowCount := t.rowCount - 1
          dirty := t.dirty.mark slot
          secondaries := t.secondaries.map (·.erase obj)
          undoStack := onTop (·.keepRemoved slot obj) t.undoStack } := by
        unfold remove
        rw [found]
      have indexed := sound.indexed.erase held
      have rows : ∀ i, Function.update t.primary.get slot none i =
          (t.primary.slab.erase slot).get i := by
        intro i
        rw [Function.update_apply]
        rfl
      have taken := t.primary.slab_take slot
      have valid : Valid (t.primary.slab.erase slot) := by
        apply (indexed.congr rows).valid
        intro n row live
        rw [← rows, Function.update_apply] at live
        split at live
        · cases live
        · exact sound.named live
      obtain ⟨chain, saved⟩ := sound.chain.remove held valid
      have stack : (onTop (·.keepRemoved slot obj) t.undoStack).map UndoState.patch =
          onTop (·.recordRemoved slot obj) (t.undoStack.map UndoState.patch) :=
        map_onTop (fun state => state.patch_keepRemoved slot obj) t.undoStack
      rw [result]
      refine ⟨⟨?_, ?_, ?_⟩, ?_⟩
      · rw [stack, taken]
        exact chain
      · apply indexed.congr
        intro i
        rw [rows, ← taken]
        rfl
      · rw [taken, Slab.live_erase (s := t.primary.slab) held, sound.counted]
      · simp only [Table.view, taken, stack, saved]
        rfl

theorem startUndoSession_refines (sound : t.Sound) :
    t.startUndoSession.Refines t.view.startUndoSession := by
  have opened : (UndoState.new t.nextId t.blobs.length : UndoState T).patch =
      Patch.fresh t.primary.slab.len := UndoState.patch_new _ _
  refine ⟨⟨?_, sound.indexed, sound.counted⟩, ?_⟩
  · exact sound.chain.start
  · simp only [Table.view, startUndoSession, List.map_cons, opened, Lib.Undo.saved,
      Patch.restore_fresh]
    rfl

theorem squash_refines (sound : t.Sound) : t.squash.Refines t.view.squash := by
  have chain := sound.chain
  unfold squash
  cases stack : t.undoStack with
  | nil =>
    have spec : t.view.squash = t.view := by
      simp only [RowStore.squash, Table.view, stack, List.map_nil, Lib.Undo.saved]
    rw [spec]
    exact ⟨sound, rfl⟩
  | cons top rest =>
    rw [stack] at chain
    cases rest with
    | nil =>
      refine ⟨⟨chain.valid_top, sound.indexed, sound.counted⟩, ?_⟩
      simp only [Table.view, stack, List.map_cons, List.map_nil, Lib.Undo.saved, RowStore.squash]
    | cons previous below =>
      have merged : (previous.absorb top).patch = previous.patch.merge top.patch :=
        UndoState.patch_absorb previous top
      refine ⟨⟨?_, sound.indexed, sound.counted⟩, ?_⟩
      · simp only [List.map_cons, merged]
        exact chain.squash
      · have saved := saved_squash chain
        simp only [Table.view, stack, List.map_cons, merged, RowStore.squash] at saved ⊢
        rw [saved]
        rfl

theorem commit_refines (sound : t.Sound) (revision : Int) :
    (t.commit revision).Refines
      (t.view.keep (t.undoStack.length - t.commitCount revision)) := by
  refine ⟨⟨?_, sound.indexed, sound.counted⟩, ?_⟩
  · simp only [commit, List.map_take]
    exact sound.chain.take _
  · simp only [Table.view, commit, List.map_take, saved_take, RowStore.keep]

end Table

end PulseVM.Arena
