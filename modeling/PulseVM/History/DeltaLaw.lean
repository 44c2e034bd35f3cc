import PulseVM.History.Completeness

/-!
The delta law: the rows a session reports, applied to the snapshot of the state before
it, give the snapshot of the state after it. A row is identified by the leading fields of
its payload that the state-history ABI names as its key. The key of a contract row
stands in another table, so the law rests on table ids that are never reused while their
rows live, and a removed row is announced under the key its table had.
-/

namespace PulseVM.History
open Arena ChainDb Lib.Encoding Lib.Leb128 Lib.Undo Lib.RowSets
open List View

/-- How many bytes of a payload are its version and its key. -/
def TableName.keyLen : TableName → Nat
  | account => 9
  | accountMetadata => 9
  | code => 35
  | contractTable => 25
  | contractRow => 33
  | contractIndex64 => 33
  | contractIndex128 => 33
  | contractIndex256 => 33
  | contractIndexDouble => 33
  | contractIndexLongDouble => 33
  | globalProperty => 0
  | generatedTransaction => 25
  | protocolState => 0
  | permission => 17
  | permissionLink => 25
  | resourceLimits => 9
  | resourceUsage => 9
  | resourceLimitsState => 0
  | resourceLimitsConfig => 0

def TableName.keyOf (name : TableName) (payload : Bytes) : Bytes := payload.take name.keyLen

section Keys

theorem words_inj {ws xs : List UInt64} (size : ws.length = xs.length)
    (same : ws.flatMap u64 = xs.flatMap u64) : ws = xs := by
  induction ws generalizing xs with
  | nil => exact (length_eq_zero_iff.mp size.symm).symm
  | cons w ws ih =>
    cases xs with
    | nil => simp at size
    | cons x xs =>
      obtain ⟨first, rest⟩ := append_inj same (by rw [length_u64, length_u64])
      have word : w = x := UInt64.toNat_inj.mp (leBytes_inj w.toNat_lt x.toNat_lt first)
      rw [word, ih (by simpa using size) rest]

theorem length_words (ws : List UInt64) : (ws.flatMap u64).length = 8 * ws.length := by
  induction ws with
  | nil => rfl
  | cons w ws ih =>
    rw [flatMap_cons, length_append, length_u64, ih, length_cons]
    omega

/-- The version byte and the key words of a payload that starts with them. -/
def keyWords (ws : List UInt64) : Bytes := 0 :: ws.flatMap u64

theorem keyWords_inj {ws xs : List UInt64} (size : ws.length = xs.length)
    (same : keyWords ws = keyWords xs) : ws = xs :=
  words_inj size (List.cons.inj same).2

theorem take_keyWords {n : Nat} (ws : List UInt64) (rest : Bytes) (size : n = 1 + 8 * ws.length) :
    (keyWords ws ++ rest).take n = keyWords ws := by
  apply take_left'
  rw [keyWords, length_cons, length_words]
  omega

end Keys

def rowsOf (frames : List Frame) (name : TableName) : Rows := (frames.lookup name).getD []

namespace View

variable {T κ : Type}

/-- No two live rows share the key. -/
def Unique (v : View T) (key : T → κ) : Prop :=
  ∀ i j a b, v.rows.get i = some a → v.rows.get j = some b → key a = key b → i = j

/-- The session of `u` started from the rows of `v`, left their blobs alone, and kept of each
row what `same` compares. -/
structure Evolves (v u : View T) (refs : T → List BlobRef) (same : T → T → Prop) : Prop where
  rows : u.before = v.rows
  blobs : ∀ id row, v.rows.get id = some row → ∀ r ∈ refs row, u.blob r = v.blob r
  keeps : u.Keeps same

theorem Evolves.imp {v u : View T} {refs : T → List BlobRef} {same same' : T → T → Prop}
    (evolves : v.Evolves u refs same) (weaker : ∀ o c, same o c → same' o c) :
    v.Evolves u refs same' where
  rows := evolves.rows
  blobs := evolves.blobs
  keeps id old row live now := weaker old row (evolves.keeps id old row live now)

end View

/-- What the law needs of one table: `old` writes the rows of the snapshot before the session,
`new` those of the snapshot after it, `delta` those of the delta. -/
structure Carries {T : Type} (v u : View T) (name : TableName) (includeDelta : T → T → Bool)
    (old new delta : T → Bytes) : Prop where
  rows : u.before = v.rows
  live : ∀ i row, u.rows.get i = some row → delta row = new row
  same : ∀ i row, v.rows.get i = some row → u.rows.get i = some row → old row = new row
  keys : ∀ i a b, v.rows.get i = some a → u.rows.get i = some b ∨ u.removedRow i = some b →
    name.keyOf (old a) = name.keyOf (delta b)
  filter : ∀ i a b, v.rows.get i = some a → u.rows.get i = some b → includeDelta a b = false →
    old a = new b
  oldKeys : v.Unique fun row => name.keyOf (old row)
  newKeys : u.Unique fun row => name.keyOf (new row)

def written {T : Type} (v : View T) (full : Bool) (includeDelta : T → T → Bool) (ser : T → Bytes) :
    Rows :=
  (v.touched full includeDelta).map fun entry => (entry.1, ser entry.2)

section Table

variable {T : Type} {v u : View T} {name : TableName} {includeDelta : T → T → Bool}
  {old new delta : T → Bytes}

theorem lists_written (v : View T) (includeDelta : T → T → Bool) (ser : T → Bytes) :
    Lists (written v true includeDelta ser) fun i => (v.rows.get i).map ser where
  present row member := by
    simp only [written, View.touched, ↓reduceIte, map_map, mem_map, Prod.exists] at member
    obtain ⟨i, value, live, rfl⟩ := member
    exact ⟨rfl, i, by rw [mem_iter.mp live]; rfl⟩
  listed i p here := by
    obtain ⟨row, live, rfl⟩ := Option.map_eq_some_iff.mp here
    simp only [written, View.touched, ↓reduceIte, map_map, mem_map, Prod.exists]
    exact ⟨i, row, mem_iter.mpr live, rfl⟩

theorem distinct_of_unique {ser : T → Bytes} (unique : v.Unique fun row => name.keyOf (ser row)) :
    Distinct name.keyOf fun i => (v.rows.get i).map ser := by
  intro i j a b here there same
  obtain ⟨row, live, rfl⟩ := Option.map_eq_some_iff.mp here
  obtain ⟨other, held, rfl⟩ := Option.map_eq_some_iff.mp there
  exact unique i j row other live held same

theorem Carries.closed (carries : Carries v u name includeDelta old new delta)
    (closed : u.session = none) :
    applyRows name.keyOf (ofRows name.keyOf (written v true includeDelta old))
        (written u false includeDelta delta) =
      ofRows name.keyOf (written u true includeDelta new) := by
  have nothing : written u false includeDelta delta = [] := by
    simp [written, View.touched, View.lastUndoSessionChanges, closed]
  have rows : u.rows = v.rows := by
    rw [← carries.rows, before, closed, Option.elim_none]
  have listing : written v true includeDelta old = written u true includeDelta new := by
    have each : ∀ entry ∈ v.iter, old entry.2 = new entry.2 := by
      intro entry member
      have live := mem_iter.mp member
      exact carries.same entry.1 entry.2 live (by rw [rows]; exact live)
    have iter : u.iter = v.iter := by rw [View.iter, View.iter, rows]
    simp only [written, View.touched, ↓reduceIte, map_map, iter]
    apply map_congr_left
    intro entry member
    simp [each entry member]
  rw [nothing, listing]
  rfl

section Opened

variable {state : UndoState T} (carries : Carries v u name includeDelta old new delta)
  (opened : u.session = some state)

include carries opened

theorem Carries.before_get (id : Nat) : v.rows.get id = (state.patch.restore u.rows).get id := by
  rw [← carries.rows, before_eq opened]

theorem Carries.groups : Delta name.keyOf (fun i => (v.rows.get i).map old)
    (fun i => (u.rows.get i).map new) ((u.modifiedRows state includeDelta).map delta)
    ((View.removedRows state).map delta) ((u.createdRows state).map delta) where
  stable i a b here there := by
    obtain ⟨row, live, rfl⟩ := Option.map_eq_some_iff.mp here
    obtain ⟨other, now, rfl⟩ := Option.map_eq_some_iff.mp there
    rw [carries.keys i row other live (.inl now), carries.live i other now]
  modified_from p member := by
    obtain ⟨row, listed, rfl⟩ := mem_map.mp member
    obtain ⟨id, first, recorded, now, _⟩ := mem_modifiedRows.mp listed
    have tracks := u.tracked state opened
    have below := tracks.old_below id (by rw [show state.patch.old id = some first from recorded]; simp)
    have live : v.rows.get id = some first := by
      rw [carries.before_get opened, Patch.restore_get_lt _ _ below,
        show state.patch.old id = some first from recorded, Option.some_or]
    exact ⟨id, old first, by rw [live]; rfl, by rw [now, carries.live id row now]; rfl⟩
  removed_from p member := by
    obtain ⟨row, listed, rfl⟩ := mem_map.mp member
    obtain ⟨id, recorded⟩ := mem_removedRows.mp listed
    have tracks := u.tracked state opened
    have noted : state.patch.removed id ≠ none := by
      rw [show state.patch.removed id = some row from recorded]
      simp
    have gone := tracks.removed_absent id noted
    have present : v.rows.get id ≠ none := by
      rw [carries.before_get opened, Patch.restore_get_lt _ _ (tracks.removed_below id noted),
        show state.patch.removed id = some row from recorded]
      simp
    obtain ⟨first, live⟩ := Option.ne_none_iff_exists'.mp present
    refine ⟨id, old first, by rw [live]; rfl, by rw [gone]; rfl, ?_⟩
    exact carries.keys id first row live (.inr (by rw [removedRow_eq opened, recorded]))
  created_from p member := by
    obtain ⟨row, listed, rfl⟩ := mem_map.mp member
    obtain ⟨id, past, now⟩ := mem_createdRows.mp listed
    have absent : v.rows.get id = none := by
      rw [carries.before_get opened, Patch.restore_get_ge _ _ (Nat.not_lt.mpr past)]
    exact ⟨id, by rw [absent]; rfl, by rw [now, carries.live id row now]; rfl⟩
  modified_all i a b here there differ := by
    obtain ⟨row, live, rfl⟩ := Option.map_eq_some_iff.mp here
    obtain ⟨other, now, rfl⟩ := Option.map_eq_some_iff.mp there
    have changed : row ≠ other := by
      rintro rfl
      exact differ (carries.same i row live now)
    have passes : includeDelta row other = true := by
      by_contra stopped
      exact differ (carries.filter i row other live now (Bool.eq_false_iff.mpr stopped))
    have recorded := old_of_changed opened (by rw [carries.rows]; exact live) now changed
    rw [← carries.live i other now]
    exact mem_map_of_mem (mem_modifiedRows.mpr ⟨i, row, recorded, now, passes⟩)
  removed_all i a here there := by
    obtain ⟨row, live, rfl⟩ := Option.map_eq_some_iff.mp here
    have gone := Option.map_eq_none_iff.mp there
    obtain ⟨last, recorded⟩ := removed_of_gone opened (by rw [carries.rows]; exact live) gone
    have keyed := carries.keys i row last live (.inr recorded)
    rw [removedRow_eq opened] at recorded
    exact ⟨_, mem_map_of_mem (mem_removedRows.mpr ⟨i, recorded⟩), keyed.symm⟩
  created_all i b here there := by
    have absent := Option.map_eq_none_iff.mp here
    obtain ⟨row, now, rfl⟩ := Option.map_eq_some_iff.mp there
    have past := base_le_of_created opened (by rw [carries.rows]; exact absent) now
    rw [← carries.live i row now]
    exact mem_map_of_mem (mem_createdRows.mpr ⟨i, past, now⟩)

end Opened

theorem Carries.law (carries : Carries v u name includeDelta old new delta) :
    applyRows name.keyOf (ofRows name.keyOf (written v true includeDelta old))
        (written u false includeDelta delta) =
      ofRows name.keyOf (written u true includeDelta new) := by
  cases opened : u.session with
  | none => exact carries.closed opened
  | some state =>
    have groups : written u false includeDelta delta =
        stream ((u.modifiedRows state includeDelta).map delta)
          ((View.removedRows state).map delta) ((u.createdRows state).map delta) := by
      simp only [written, touched_eq opened, stream, map_append, map_map]
      rfl
    rw [groups]
    exact (carries.groups opened).apply (lists_written v includeDelta old)
      (lists_written u includeDelta new) (distinct_of_unique carries.oldKeys)
      (distinct_of_unique carries.newKeys)

/-- A removed row is announced under the key it had in the snapshot. -/
theorem Carries.removed_announced (carries : Carries v u name includeDelta old new delta)
    {payload : Bytes} (gone : (false, payload) ∈ written u false includeDelta delta) :
    ∃ row ∈ written v true includeDelta old, name.keyOf row.2 = name.keyOf payload := by
  obtain ⟨entry, touched, same⟩ := mem_map.mp gone
  obtain ⟨present, row⟩ := entry
  obtain ⟨rfl, rfl⟩ := Prod.mk.inj same
  cases opened : u.session with
  | none => simp [View.touched, View.lastUndoSessionChanges, opened] at touched
  | some state =>
    have removed : row ∈ View.removedRows state := by
      simpa using (mem_touched opened).mp touched
    obtain ⟨i, a, here, _, keyed⟩ :=
      (carries.groups opened).removed_from _ (mem_map_of_mem removed)
    exact ⟨(true, a), (lists_written v includeDelta old).listed i a here, keyed⟩

theorem Carries.ofKey {κ : Type} {key : T → κ} {enc : κ → Bytes} {refs : T → List BlobRef}
    (evolves : v.Evolves u refs fun o c => key o = key c) (inj : Function.Injective enc)
    (oldKey : ∀ row, name.keyOf (old row) = enc (key row))
    (newKey : ∀ row, name.keyOf (new row) = enc (key row))
    (deltaKey : ∀ row, name.keyOf (delta row) = enc (key row))
    (live : ∀ i row, u.rows.get i = some row → delta row = new row)
    (same : ∀ i row, v.rows.get i = some row → u.rows.get i = some row → old row = new row)
    (filter : ∀ i a b, v.rows.get i = some a → u.rows.get i = some b → includeDelta a b = false →
      old a = new b)
    (oldUnique : v.Unique key) (newUnique : u.Unique key) :
    Carries v u name includeDelta old new delta where
  rows := evolves.rows
  live := live
  same := same
  filter := filter
  keys i a b here there := by
    rw [oldKey, deltaKey, evolves.keeps i a b (by rw [evolves.rows]; exact here) there]
  oldKeys i j a b here there equal := by
    have equal : enc (key a) = enc (key b) := by
      rw [← oldKey, ← oldKey]
      exact equal
    exact oldUnique i j a b here there (inj equal)
  newKeys i j a b here there equal := by
    have equal : enc (key a) = enc (key b) := by
      rw [← newKey, ← newKey]
      exact equal
    exact newUnique i j a b here there (inj equal)

theorem Carries.ofRow {κ : Type} {key : T → κ} {enc : κ → Bytes} {refs : T → List BlobRef}
    {ser : T → Bytes} (evolves : v.Evolves u refs fun o c => key o = key c)
    (inj : Function.Injective enc) (serKey : ∀ row, name.keyOf (ser row) = enc (key row))
    (oldUnique : v.Unique key) (newUnique : u.Unique key)
    (filter : ∀ a b, key a = key b → includeDelta a b = false → ser a = ser b) :
    Carries v u name includeDelta ser ser ser := by
  apply Carries.ofKey evolves inj serKey serKey serKey (fun _ _ _ => rfl) (fun _ _ _ _ => rfl) _
    oldUnique newUnique
  intro i a b start now stopped
  exact filter a b (evolves.keeps i a b (by rw [evolves.rows]; exact start) (.inl now)) stopped

end Table

end PulseVM.History
