import PulseVM.Arena.ChainRows
import PulseVM.Arena.Lifecycle

/-!
What a client may rely on. Undoing a session gives back everything the client could
see when the session started, and no event of a reachable table writes into a blob
of a row that the event leaves alone.
-/

namespace PulseVM.Arena
open Lib.Encoding Lib.Spans Lib.Leases Lib.Sessions Lib.Undo
open ArenaObject hiding id

variable {T : Type}

/-- Two indices with one declaration that answer every lookup alike. Their entries
may store different bits of a key that the order of the index takes for the same. -/
inductive KeyIndex.Agree : KeyIndex T → KeyIndex T → Prop
  | entries (decl : IndexedBy T) (a b : decl.Entries) (same : ∀ k : decl.Key, a[k]? = b[k]?) :
      Agree ⟨decl, a⟩ ⟨decl, b⟩

namespace KeyIndex

theorem Agree.eq {a b : KeyIndex T} (agree : a.Agree b) (lawful : Std.LawfulEqCmp a.decl.cmp) :
    a = b := by
  cases agree with
  | entries decl a b same =>
    have lawful : Std.LawfulEqCmp decl.cmp := lawful
    rw [Std.ExtTreeMap.ext_getElem? (fun k => same k)]

theorem Exact.lookup_eq {decl : IndexedBy T} {a b : decl.Entries} {rows : Nat → Option T}
    (exactA : IndexedBy.Exact a rows) (exactB : IndexedBy.Exact b rows) (k : decl.Key) :
    a[k]? = b[k]? := by
  apply Option.ext
  intro id
  rw [exactA k id, exactB k id]

theorem agree_of_exact {rows : Nat → Option T} {as bs : List (KeyIndex T)}
    (decls : as.map KeyIndex.decl = bs.map KeyIndex.decl) (exactA : ∀ ix ∈ as, ix.Exact rows)
    (exactB : ∀ ix ∈ bs, ix.Exact rows) : List.Forall₂ Agree as bs := by
  induction as generalizing bs with
  | nil =>
    cases bs with
    | nil => exact List.Forall₂.nil
    | cons b rest => cases decls
  | cons a others ih =>
    cases bs with
    | nil => cases decls
    | cons b rest =>
      obtain ⟨first, later⟩ := List.cons.inj decls
      obtain ⟨declA, mapA⟩ := a
      obtain ⟨declB, mapB⟩ := b
      cases first
      have exactHead : KeyIndex.Exact ⟨declA, mapB⟩ rows := exactB _ (List.mem_cons_self ..)
      have heads := Exact.lookup_eq (exactA _ (List.mem_cons_self ..)) exactHead
      apply List.Forall₂.cons (Agree.entries declA mapA mapB heads)
      apply ih later
      · intro ix member
        exact exactA ix (List.mem_cons_of_mem _ member)
      · intro ix member
        exact exactB ix (List.mem_cons_of_mem _ member)

end KeyIndex

namespace Table

theorem blob_empty (t : Table T) {r : BlobRef} (empty : r.len = 0) : t.blob r = [] := by
  unfold blob
  rw [empty]
  exact List.take_zero

theorem find_of_slab {t u : Table T} (same : u.primary.slab = t.primary.slab) (id : Int) :
    u.find id = t.find id := by
  cases id with
  | ofNat slot => exact congrFun (congrArg Slab.get same) slot
  | negSucc n => rfl

theorem Accounted.alloc_known {t : Table T} {held : List Span} {saved : List (List Span)}
    (accounted : t.Accounted held saved) {bytes : Bytes}
    (small : (t.allocBlob bytes).2.blobs.length < 2 ^ 32) {r : BlobRef}
    (known : r.span ∈ held ++ pending t.frames) : (t.allocBlob bytes).2.blob r = t.blob r := by
  have layout := accounted.layout
  change slice _ r.span.off r.span.len = slice t.blobs r.span.off r.span.len
  apply accounted.alloc_slice bytes small
  · intro f free
    exact (List.pairwise_append.mp layout.apart).2.2 r.span known f free
  · exact layout.inside r.span (List.mem_append_left _ known)

theorem free_known {t : Table T} {held : List Span} {r old : BlobRef} (other : old ≠ r)
    (known : r.span ∈ held ++ pending t.frames) :
    r.span ∈ giveBack old held ++ pending (t.freeBlob old).frames := by
  have apart : r.span ≠ old.span := fun same => other (BlobRef.span_injective same.symm)
  rcases List.mem_append.mp known with now | later
  · apply List.mem_append_left
    unfold giveBack
    split
    · exact now
    · exact (List.mem_erase_of_ne apart).mpr now
  · apply List.mem_append_right
    unfold freeBlob
    split
    · exact later
    · split
      · next state below stack =>
        unfold frames at later ⊢
        rw [stack] at later
        simp only [pending, List.map_cons, List.flatMap_cons, UndoState.frame, List.map_append,
          List.mem_append] at later ⊢
        tauto
      · next stack =>
        unfold frames at later
        rw [stack] at later
        cases later

end Table

variable [ArenaObject T]

theorem Indexed.agree {as bs : List (KeyIndex T)} {rows : Nat → Option T}
    (first : Indexed as rows) (second : Indexed bs rows) : List.Forall₂ KeyIndex.Agree as bs :=
  KeyIndex.agree_of_exact (first.decls.trans second.decls.symm) first.exact second.exact

theorem Indexed.eq_of_lawful {as bs : List (KeyIndex T)} {rows : Nat → Option T}
    (first : Indexed as rows) (second : Indexed bs rows)
    (lawful : ∀ decl ∈ secondaryIndices (T := T), Std.LawfulEqCmp decl.cmp) : as = bs := by
  have agree := first.agree second
  have inside : ∀ ix ∈ as, Std.LawfulEqCmp ix.decl.cmp := fun ix member =>
    lawful ix.decl (first.decl_mem member)
  clear first second
  induction agree with
  | nil => rfl
  | cons heads _ ih =>
    rw [heads.eq (inside _ (List.mem_cons_self ..)),
      ih fun ix member => inside ix (List.mem_cons_of_mem _ member)]

theorem mem_refSpans {rows : Slab T} {id : Nat} {row : T} (live : rows.get id = some row)
    {r : BlobRef} (member : r ∈ blobRefs row) (filled : r.len ≠ 0) : r.span ∈ refSpans rows := by
  unfold refSpans
  rw [List.mem_flatMap]
  refine ⟨id, List.mem_range.mpr (Slab.lt_of_get live), ?_⟩
  rw [live]
  apply List.mem_map_of_mem
  rw [List.mem_filter]
  exact ⟨member, decide_eq_true filled⟩

namespace Table

/-- Everything a client sees of `before` is there again in `after`. -/
structure Restored (before after : Table T) : Prop where
  rows : ∀ id, after.find id = before.find id
  nextId : after.nextId = before.nextId
  rowCount : after.rowCount = before.rowCount
  secondaries : List.Forall₂ KeyIndex.Agree after.secondaries before.secondaries
  entries : (∀ decl ∈ secondaryIndices (T := T), Std.LawfulEqCmp decl.cmp) →
    after.secondaries = before.secondaries
  undoStack : after.undoStack = before.undoStack
  revision : after.revision = before.revision
  blobs : ∀ id row, before.find id = some row → ∀ r ∈ blobRefs row, after.blob r = before.blob r

end Table

theorem Account.Kept.undo_restores {c : Account T} (kept : c.Kept) (hold : Node.RowsHold c)
    {body : Body (TableOp T)}
    (admits : Account.machine.Admits Account.Allows body c.startUndoSession) :
    c.table.Restored (Table.machine.run body c.table.startUndoSession).undo := by
  obtain ⟨ran, within⟩ := kept.start.run admits
  have table : (Account.machine.run body c.startUndoSession).table =
      Table.machine.run body c.table.startUndoSession := Account.table_run body c.startUndoSession
  have refines := Table.undo_run_refines kept.sound body
  have slab : (Table.machine.run body c.table.startUndoSession).undo.primary.slab =
      c.table.primary.slab := congrArg RowStore.rows refines.view
  have indexed := refines.sound.indexed
  have get : (Table.machine.run body c.table.startUndoSession).undo.primary.get =
      c.table.primary.get := congrArg Slab.get slab
  rw [get] at indexed
  exact
    { rows := Table.find_of_slab slab
      nextId := congrArg Slab.len slab
      rowCount := by rw [refines.sound.counted, kept.sound.counted, slab]
      secondaries := indexed.agree kept.sound.indexed
      entries := indexed.eq_of_lawful kept.sound.indexed
      undoStack := by
        rw [Table.undo_below, ← table]
        exact within.below
      revision := congrArg RowStore.revision refines.view
      blobs := by
        intro id row found r member
        cases id with
        | negSucc n => cases found
        | ofNat slot =>
          by_cases empty : r.len = 0
          · rw [Table.blob_empty _ empty, Table.blob_empty _ empty]
          · -- the span was held when the session started, so the session could not write to it
            have held : r.span ∈ c.held :=
              hold.subset (mem_refSpans (show c.table.primary.slab.get slot = _ from found) member empty)
            have closed := ran.undo.accounted.layout
            have still : r.span ∈ (Account.machine.run body c.startUndoSession).undo.held := by
              change r.span ∈ (Account.machine.run body c.startUndoSession).saved.headD _
              rw [within.saved]
              exact held
            have inside := closed.inside r.span
              (List.mem_append_left _ (List.mem_append_left _ still))
            have written := within.bytes c.held (List.mem_cons_self ..) r.span held
            rw [← table]
            calc (Account.machine.run body c.startUndoSession).undo.table.blob r
                = (Account.machine.run body c.startUndoSession).table.blob r :=
                  Table.undo_slice _ inside
              _ = c.table.blob r := written }

namespace Node

/-- An event that leaves the blobs of a row to others. Reallocating one of its own refs
is how a client overwrites a blob. -/
def Spares (row : T) : Event T → Prop
  | .call (.reallocBlob old _) => old ∉ blobRefs row
  | .restart => False
  | _ => True

/-- Permitted events that spare a row which is there before and after each of them. -/
inductive Spared (id : Nat) (row : T) (n : Node T) : Node T → Prop
  | none : n.table.primary.get id = some row → Spared id row n n
  | step {m k : Node T} (event : Event T) : Spared id row n m → m.Permits event →
      Spares row event → m.next event = .ok k → k.table.primary.get id = some row →
      Spared id row n k

variable {n m : Node T} {id : Nat} {row : T}

theorem Spared.live (spared : n.Spared id row m) : m.table.primary.get id = some row := by
  cases spared with
  | none live => exact live
  | step event _ _ _ _ live => exact live

/-- Spans of live rows, those kept back by sessions for no live row, and free ones. -/
def owned (t : Table T) : List Span :=
  refSpans t.primary.slab ++ (pending t.frames).filter (· ∉ refSpans t.primary.slab) ++
    t.freeSpans

theorem layout_owned {t : Table T} {held : List Span} {saved : List (List Span)}
    (accounted : t.Accounted held saved)
    (rows : (refSpans t.primary.slab).Subperm (held ++ pending t.frames)) :
    Layout (owned t) t.blobs.length := by
  apply accounted.layout.subperm
  apply List.subperm_ext_iff.mpr
  intro s _
  have refs := rows.count_le s
  unfold owned
  rw [List.count_append] at refs
  rw [List.count_append, List.count_append, List.count_append, List.count_append]
  by_cases referred : s ∈ refSpans t.primary.slab
  · have dropped : ((pending t.frames).filter (· ∉ refSpans t.primary.slab)).count s = 0 := by
      apply List.count_eq_zero.mpr
      intro member
      exact absurd referred (of_decide_eq_true (List.mem_filter.mp member).2)
    omega
  · have absent := List.count_eq_zero.mpr referred
    have kept := (List.filter_sublist (p := (· ∉ refSpans t.primary.slab))
      (l := pending t.frames)).count_le s
    omega

/-- The blob of a live row is known to the ledger, so it is inside the arena and apart
from every free span. -/
theorem Good.known (good : n.Good) (live : n.table.primary.get id = some row) {r : BlobRef}
    (member : r ∈ blobRefs row) (filled : r.len ≠ 0) :
    r.span ∈ n.account.held ++ pending n.table.frames :=
  good.rows.subset (mem_refSpans (show n.table.primary.slab.get id = _ from live) member filled)

theorem Good.call_blob (good : n.Good) (live : n.table.primary.get id = some row)
    {op : TableOp T} (permits : n.Permits (.call op)) (spares : Spares row (.call op))
    {r : BlobRef} (member : r ∈ blobRefs row) (filled : r.len ≠ 0) :
    (n.table.apply op).blob r = n.table.blob r := by
  have known := good.known live member filled
  have accounted := good.kept.accounted
  obtain ⟨⟨frees, small⟩, _, _⟩ := permits
  cases op with
  | emplace f => exact congrArg (slice · _ _) (n.table.emplace_sameHeap f).blobs
  | modify raw m => exact congrArg (slice · _ _) (n.table.modify_sameHeap raw m).blobs
  | remove raw => exact congrArg (slice · _ _) (n.table.remove_sameHeap raw).blobs
  | allocBlob bytes => exact accounted.alloc_known small known
  | freeBlob old => exact congrArg (slice · _ _) (n.table.freeBlob_blobs old)
  | reallocBlob old bytes =>
    have other : old ≠ r := fun same => spares (same ▸ member)
    calc slice (n.table.reallocBlob old bytes).2.blobs r.off.toNat r.len.toNat
        = slice (n.table.freeBlob old).blobs r.off.toNat r.len.toNat :=
          (accounted.free old frees).alloc_known small (Table.free_known other known)
      _ = slice n.table.blobs r.off.toNat r.len.toNat :=
          congrArg (slice · _ _) (n.table.freeBlob_blobs old)

theorem Good.next_blob (good : n.Good) {event : Event T} (permits : n.Permits event)
    (spares : Spares row event) (stepped : n.next event = .ok m)
    (before : n.table.primary.get id = some row) (after : m.table.primary.get id = some row)
    (goodAfter : m.Good) {r : BlobRef} (member : r ∈ blobRefs row) :
    m.table.blob r = n.table.blob r := by
  by_cases filled : r.len = 0
  · rw [Table.blob_empty _ filled, Table.blob_empty _ filled]
  · cases event with
    | call op =>
      cases stepped
      exact good.call_blob before permits spares member filled
    | startUndoSession =>
      cases stepped
      rfl
    | undo =>
      cases stepped
      have known := goodAfter.known after member filled
      have inside := goodAfter.kept.accounted.layout.inside r.span (List.mem_append_left _ known)
      exact Table.undo_slice n.account.table inside
    | squash =>
      cases stepped
      exact congrArg (slice · _ _) n.account.table.squash_blobs
    | commit revision =>
      cases stepped
      rfl
    | setRevision revision =>
      cases stepped
      obtain ⟨later, same⟩ := Table.setRevision_eq n.table revision
      rw [same]
      rfl
    | checkpoint =>
      cases stepped
      rfl
    | newLog =>
      cases stepped
      rfl
    | flush =>
      cases stepped
      rfl
    | restart => exact spares.elim

/-- Spans with different owners never overlap, so a row keeps reading the same bytes
through events that spare it. -/
theorem row_blobs_apart (reachable : n.Reachable) :
    Layout (owned n.table) n.table.blobs.length ∧
      ∀ id row m, n.Spared id row m → ∀ r ∈ blobRefs row, m.table.blob r = n.table.blob r := by
  have good := reachable.good
  refine ⟨layout_owned good.kept.accounted good.rows, ?_⟩
  intro id row m spared r member
  -- along the run the node stays reachable, so each event may use the invariant
  suffices both : m.Reachable ∧ m.table.blob r = n.table.blob r from both.2
  induction spared with
  | none live => exact ⟨reachable, rfl⟩
  | step event earlier permits spares stepped live ih =>
    obtain ⟨middle, same⟩ := ih
    have later := middle.step event permits stepped
    have kept := middle.good.next_blob permits spares stepped earlier.live live later.good member
    exact ⟨later, kept.trans same⟩

/-- A row with a blob next to a span that was freed. -/
theorem row_blobs_apart_key_value : ∃ n : Node ContractKeyValueRow,
    Node.new.follow [.call (.allocBlob [1, 2, 3]), .call (.allocBlob [4, 5]),
      .call (.emplace fun row => { row with value := ⟨0, 3⟩ }),
      .call (.freeBlob ⟨3, 2⟩)] = some n ∧
    owned n.table = [⟨0, 3⟩, ⟨3, 2⟩] ∧
    Layout (owned n.table) n.table.blobs.length ∧
      ∀ id row m, n.Spared id row m → ∀ r ∈ blobRefs row, m.table.blob r = n.table.blob r := by
  have shape : ((Node.new : Node ContractKeyValueRow).follow
      [.call (.allocBlob [1, 2, 3]), .call (.allocBlob [4, 5]),
        .call (.emplace fun row => { row with value := ⟨0, 3⟩ }),
        .call (.freeBlob ⟨3, 2⟩)]).map (owned ·.table) = some [⟨0, 3⟩, ⟨3, 2⟩] := by
    decide +kernel
  obtain ⟨n, followed, owns⟩ := Option.map_eq_some_iff.mp shape
  exact ⟨n, followed, owns, row_blobs_apart (Reachable.new.follow followed)⟩

end Node

end PulseVM.Arena
