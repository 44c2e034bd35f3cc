import Mathlib.Data.List.Count
import Mathlib.Data.Option.Basic
import Mathlib.Logic.Basic
import Mathlib.Order.Basic

/-!
Rows addressed by slot, and inverse patches that take such a slab back to an
earlier one. A patch keeps the first value seen for every row that existed when
it was opened, and nothing for rows created since: those are dropped by the
watermark `base`. A chain of patches over a slab determines every slab below it,
and each operation on the newest slab leaves the ones below unchanged.
-/

namespace PulseVM.Lib.Undo

/-- Sparse rows: nothing is stored at or past the next slot to assign. -/
structure Slab (T : Type*) where
  len : Nat
  get : Nat → Option T
  get_past : ∀ i, len ≤ i → get i = none

variable {T : Type*}

namespace Slab

variable {s t : Slab T} {slot i : Nat} {row : T}

theorem eq_of_get (len : s.len = t.len) (get : ∀ i, s.get i = t.get i) : s = t := by
  obtain ⟨n, f, _⟩ := s
  obtain ⟨m, g, _⟩ := t
  cases len
  cases funext get
  rfl

def empty : Slab T := ⟨0, fun _ => none, fun _ _ => rfl⟩

theorem lt_of_get (found : s.get i = some row) : i < s.len := by
  by_contra outside
  rw [s.get_past i (by omega)] at found
  cases found

def push (s : Slab T) (row : T) : Slab T where
  len := s.len + 1
  get i := if i = s.len then some row else s.get i
  get_past i past := by
    rw [if_neg (by omega)]
    exact s.get_past i (by omega)

def set (s : Slab T) (slot : Nat) (row : T) (inside : slot < s.len) : Slab T where
  len := s.len
  get i := if i = slot then some row else s.get i
  get_past i past := by
    rw [if_neg (by omega)]
    exact s.get_past i past

def erase (s : Slab T) (slot : Nat) : Slab T where
  len := s.len
  get i := if i = slot then none else s.get i
  get_past i past := by
    split
    · rfl
    · exact s.get_past i past

theorem isSome_set (row : T) (inside : slot < s.len)
    (present : (s.get i).isSome) : ((s.set slot row inside).get i).isSome := by
  simp only [set]
  split
  · rfl
  · exact present

theorem erase_set (s : Slab T) (row : T) (inside : slot < s.len) :
    (s.set slot row inside).erase slot = s.erase slot := by
  refine eq_of_get rfl fun i => ?_
  by_cases here : i = slot <;> simp [erase, set, here]

theorem set_push (s : Slab T) (first row : T) :
    (s.push first).set s.len row (Nat.lt_succ_self _) = s.push row := by
  refine eq_of_get rfl fun i => ?_
  by_cases here : i = s.len <;> simp [push, set, here]

theorem erase_absent (absent : s.get slot = none) : s.erase slot = s := by
  refine eq_of_get rfl fun i => ?_
  simp only [erase]
  split
  · next here => rw [here, absent]
  · rfl

def live (s : Slab T) : Nat := (List.range s.len).countP fun i => (s.get i).isSome

/-- Counting below a bound when two predicates differ in one place at most. -/
theorem countP_range_update {p q : Nat → Bool} {n : Nat} (inside : slot < n)
    (same : ∀ i, i ≠ slot → p i = q i) :
    (List.range n).countP q + (p slot).toNat = (List.range n).countP p + (q slot).toNat := by
  have agree : ∀ m, m ≤ slot → (List.range m).countP q = (List.range m).countP p := by
    intro m small
    apply List.countP_congr
    intro i member
    rw [same i (by rw [List.mem_range] at member; omega)]
  induction n with
  | zero => omega
  | succ n ih =>
    rw [List.range_succ, List.countP_append, List.countP_append]
    by_cases last : slot = n
    · subst last
      have before := agree slot (Nat.le_refl slot)
      have single : ∀ r : Nat → Bool, [slot].countP r = (r slot).toNat := by
        intro r
        cases value : r slot <;> simp [value]
      rw [single, single]
      omega
    · have before := ih (by omega)
      have tail : [n].countP q = [n].countP p := by
        simp only [List.countP_singleton, same n (fun eq => last eq.symm)]
      omega

theorem live_of_differ (len : s.len = t.len) (inside : slot < s.len)
    (same : ∀ i, i ≠ slot → s.get i = t.get i) :
    t.live + (s.get slot).isSome.toNat = s.live + (t.get slot).isSome.toNat := by
  unfold live
  rw [← len]
  apply countP_range_update inside
  intro i other
  rw [same i other]

theorem live_grow (larger : s.len ≤ t.len) (same : t.get = s.get) : t.live = s.live := by
  obtain ⟨extra, size⟩ := Nat.exists_eq_add_of_le larger
  unfold live
  rw [size, List.range_add, List.countP_append, same]
  have zero : ((List.range extra).map (s.len + ·)).countP (fun i => (s.get i).isSome) = 0 := by
    rw [List.countP_eq_zero]
    intro i member
    obtain ⟨k, _, place⟩ := List.mem_map.mp member
    rw [s.get_past i (by omega)]
    exact Bool.false_ne_true
  rw [zero, Nat.add_zero]

theorem live_push (s : Slab T) (row : T) : (s.push row).live = s.live + 1 := by
  have before : (List.range s.len).countP (fun i => ((s.push row).get i).isSome) =
      (List.range s.len).countP fun i => (s.get i).isSome := by
    apply List.countP_congr
    intro i member
    have small := List.mem_range.mp member
    simp only [push, if_neg (Nat.ne_of_lt small)]
  have last : ((s.push row).get s.len).isSome = true := by simp [push]
  change (List.range (s.len + 1)).countP _ = _
  rw [List.range_succ, List.countP_append, before]
  simp only [List.countP_singleton, last, ↓reduceIte, live]

theorem live_set (s : Slab T) (inside : slot < s.len) (row : T) :
    (s.set slot row inside).live = if (s.get slot).isSome then s.live else s.live + 1 := by
  have counts := live_of_differ (s := s) (t := s.set slot row inside) rfl inside
    (fun i other => by simp only [set, if_neg other])
  have here : ((s.set slot row inside).get slot).isSome = true := by simp [set]
  rw [here] at counts
  cases present : (s.get slot).isSome with
  | true => simp [present] at counts ⊢; omega
  | false => simp [present] at counts ⊢; omega

theorem live_erase (held : s.get slot = some row) :
    (s.erase slot).live = s.live - 1 := by
  have counts := live_of_differ (s := s) (t := s.erase slot) rfl (lt_of_get held)
    (fun i other => by simp only [erase, if_neg other])
  have gone : (s.erase slot).get slot = none := by simp [erase]
  rw [held, gone] at counts
  simp at counts
  omega

end Slab

@[ext] structure Patch (T : Type*) where
  base : Nat
  old : Nat → Option T
  removed : Nat → Option T

namespace Patch

/-- The slab as it was when the patch was opened. -/
def restore (p : Patch T) (s : Slab T) : Slab T where
  len := p.base
  get i := if i < p.base then (p.old i).or ((p.removed i).or (s.get i)) else none
  get_past i past := if_neg (by omega)

theorem restore_get_lt (p : Patch T) (s : Slab T) {i : Nat} (inside : i < p.base) :
    (p.restore s).get i = (p.old i).or ((p.removed i).or (s.get i)) := if_pos inside

theorem restore_get_ge (p : Patch T) (s : Slab T) {i : Nat} (outside : ¬i < p.base) :
    (p.restore s).get i = none := if_neg outside

theorem restore_eq {p q : Patch T} {s t : Slab T} (base : p.base = q.base)
    (get : ∀ i, i < p.base → (p.old i).or ((p.removed i).or (s.get i)) =
      (q.old i).or ((q.removed i).or (t.get i))) : p.restore s = q.restore t := by
  refine Slab.eq_of_get base fun i => ?_
  by_cases inside : i < p.base
  · rw [restore_get_lt p s inside, restore_get_lt q t (base ▸ inside), get i inside]
  · rw [restore_get_ge p s inside, restore_get_ge q t (base ▸ inside)]

def fresh (base : Nat) : Patch T := ⟨base, fun _ => none, fun _ => none⟩

/-- The patch describes a history that ends in `s`. -/
structure Tracks (p : Patch T) (s : Slab T) : Prop where
  base_le : p.base ≤ s.len
  old_below : ∀ i, p.old i ≠ none → i < p.base
  removed_below : ∀ i, p.removed i ≠ none → i < p.base
  removed_absent : ∀ i, p.removed i ≠ none → s.get i = none
  modified_present : ∀ i, p.old i ≠ none → p.removed i = none → s.get i ≠ none

/-- Remember the value a row had before its first change. -/
def recordOld (p : Patch T) (slot : Nat) (before : T) : Patch T :=
  { p with old := fun i =>
      if i = slot ∧ slot < p.base ∧ p.old slot = none then some before else p.old i }

def recordRemoved (p : Patch T) (slot : Nat) (before : T) : Patch T :=
  { p with removed := fun i => if i = slot ∧ slot < p.base then some before else p.removed i }

/-- One patch for two consecutive ones: the earlier value wins for changes, the
later one for removals, and rows created after the earlier patch leave no trace. -/
def merge (earlier later : Patch T) : Patch T where
  base := earlier.base
  old i := (earlier.old i).or (if i < earlier.base then later.old i else none)
  removed i := (if i < earlier.base then later.removed i else none).or (earlier.removed i)

theorem restore_fresh (s : Slab T) : (fresh s.len : Patch T).restore s = s := by
  refine Slab.eq_of_get rfl fun i => ?_
  by_cases inside : i < s.len
  · exact restore_get_lt _ s inside
  · rw [restore_get_ge _ s inside, s.get_past i (by omega)]

theorem tracks_fresh (s : Slab T) : (fresh s.len : Patch T).Tracks s where
  base_le := Nat.le_refl _
  old_below _ changed := absurd rfl changed
  removed_below _ gone := absurd rfl gone
  removed_absent _ gone := absurd rfl gone
  modified_present _ changed := absurd rfl changed

section Tracks

variable {p : Patch T} {s : Slab T} {slot i : Nat} {before : T} (tracks : p.Tracks s)

include tracks

theorem old_none (outside : ¬i < p.base) : p.old i = none :=
  not_not.mp fun changed => outside (tracks.old_below i changed)

theorem removed_none (outside : ¬i < p.base) : p.removed i = none :=
  not_not.mp fun gone => outside (tracks.removed_below i gone)

theorem restore_push (row : T) :
    p.restore (s.push row) = p.restore s := by
  refine restore_eq rfl fun i inside => ?_
  have bound := tracks.base_le
  simp only [Slab.push, if_neg (show i ≠ s.len by omega)]

theorem tracks_push (row : T) : p.Tracks (s.push row) where
  base_le := by
    have bound := tracks.base_le
    simp only [Slab.push]
    omega
  old_below := tracks.old_below
  removed_below := tracks.removed_below
  removed_absent i gone := by
    have bound := tracks.base_le
    have below := tracks.removed_below i gone
    simp only [Slab.push]
    rw [if_neg (by omega)]
    exact tracks.removed_absent i gone
  modified_present i changed kept := by
    simp only [Slab.push]
    split
    · exact Option.some_ne_none row
    · exact tracks.modified_present i changed kept

theorem removed_none_of_live (live : s.get slot = some before) : p.removed slot = none := by
  by_contra gone
  rw [tracks.removed_absent slot gone] at live
  cases live

theorem restore_recordOld (after : T) (live : s.get slot = some before) :
    (p.recordOld slot before).restore (s.set slot after (Slab.lt_of_get live)) = p.restore s := by
  have kept := removed_none_of_live tracks live
  refine restore_eq rfl fun i inside => ?_
  by_cases same : i = slot
  · subst i
    have inside : slot < p.base := inside
    cases changed : p.old slot with
    | some value => simp [recordOld, changed]
    | none => simp [recordOld, changed, inside, kept, live]
  · simp [recordOld, Slab.set, same]

theorem tracks_recordOld (after : T) (live : s.get slot = some before) :
    (p.recordOld slot before).Tracks (s.set slot after (Slab.lt_of_get live)) where
  base_le := tracks.base_le
  old_below i changed := by
    simp only [recordOld] at changed
    split at changed
    · next here => obtain ⟨rfl, inside, _⟩ := here; exact inside
    · exact tracks.old_below i changed
  removed_below := tracks.removed_below
  removed_absent i gone := by
    have kept := removed_none_of_live tracks live
    have other : i ≠ slot := by
      rintro rfl
      exact gone kept
    simp only [Slab.set, if_neg other]
    exact tracks.removed_absent i gone
  modified_present i changed kept := by
    simp only [Slab.set]
    split
    · exact Option.some_ne_none after
    · next other =>
      simp only [recordOld, other, false_and, ↓reduceIte] at changed
      exact tracks.modified_present i changed kept

theorem restore_recordRemoved (live : s.get slot = some before) :
    (p.recordRemoved slot before).restore (s.erase slot) = p.restore s := by
  have kept := removed_none_of_live tracks live
  refine restore_eq rfl fun i inside => ?_
  by_cases same : i = slot
  · subst i
    have inside : slot < p.base := inside
    simp [recordRemoved, inside, kept, live]
  · simp [recordRemoved, Slab.erase, same]

theorem tracks_recordRemoved (slot : Nat) (before : T) :
    (p.recordRemoved slot before).Tracks (s.erase slot) where
  base_le := tracks.base_le
  old_below := tracks.old_below
  removed_below i gone := by
    simp only [recordRemoved] at gone
    split at gone
    · next here => obtain ⟨rfl, inside⟩ := here; exact inside
    · exact tracks.removed_below i gone
  removed_absent i gone := by
    simp only [Slab.erase]
    by_cases same : i = slot
    · rw [if_pos same]
    · rw [if_neg same]
      simp only [recordRemoved, same, false_and, ↓reduceIte] at gone
      exact tracks.removed_absent i gone
  modified_present i changed kept := by
    have below := tracks.old_below i changed
    have other : i ≠ slot := by
      rintro rfl
      simp [recordRemoved, below] at kept
    simp only [Slab.erase, if_neg other]
    simp only [recordRemoved, other, false_and, ↓reduceIte] at kept
    exact tracks.modified_present i changed kept

end Tracks

section Merge

variable {earlier later : Patch T} {s : Slab T} (below : earlier.Tracks (later.restore s))

include below

theorem later_blind {i : Nat} (gone : earlier.removed i ≠ none) :
    later.old i = none ∧ later.removed i = none ∧ s.get i = none := by
  have absent := below.removed_absent i gone
  have inside : i < later.base := Nat.lt_of_lt_of_le (below.removed_below i gone) below.base_le
  rw [restore_get_lt later s inside] at absent
  simpa only [Option.or_eq_none_iff] using absent

theorem restore_merge :
    (earlier.merge later).restore s = earlier.restore (later.restore s) := by
  have bound : earlier.base ≤ later.base := below.base_le
  refine restore_eq rfl fun i inside => ?_
  have inside : i < earlier.base := inside
  rw [restore_get_lt later s (by omega)]
  simp only [merge, inside, ↓reduceIte]
  cases gone : earlier.removed i with
  | none => simp [Option.or_assoc]
  | some value =>
    obtain ⟨noOld, noRemoved, -⟩ := later_blind below (by rw [gone]; simp)
    simp [noOld, noRemoved]

theorem tracks_merge (tracks : later.Tracks s) : (earlier.merge later).Tracks s where
  base_le := Nat.le_trans below.base_le tracks.base_le
  old_below i changed := by
    by_contra outside
    have first := old_none below outside
    simp only [merge] at changed outside
    simp [first, outside] at changed
  removed_below i gone := by
    by_contra outside
    have first := removed_none below outside
    simp only [merge] at gone outside
    simp [first, outside] at gone
  removed_absent i gone := by
    by_cases second : later.removed i = none
    · have first : earlier.removed i ≠ none := by
        intro absent
        simp [merge, second, absent] at gone
      exact (later_blind below first).2.2
    · exact tracks.removed_absent i second
  modified_present i changed kept := by
    have inside : i < earlier.base := by
      by_contra outside
      simp [merge, old_none below outside, outside] at changed
    have inner : i < later.base := Nat.lt_of_lt_of_le inside below.base_le
    simp only [merge, inside, ↓reduceIte, Option.or_eq_none_iff] at kept
    by_cases second : later.old i = none
    · have first : earlier.old i ≠ none := by
        intro absent
        simp [merge, inside, second, absent] at changed
      have present := below.modified_present i first kept.2
      rw [restore_get_lt later s inner] at present
      simpa [second, kept.1] using present
    · exact tracks.modified_present i second kept.1

end Merge

end Patch

/-- Every slab along the chain satisfies `valid`, and each patch describes the
history that leads from the slab below it to the one above. Newest patch first. -/
def Chain (valid : Slab T → Prop) : List (Patch T) → Slab T → Prop
  | [], s => valid s
  | p :: below, s => valid s ∧ p.Tracks s ∧ Chain valid below (p.restore s)

/-- The slabs that successive undos bring back, newest first. -/
def saved : List (Patch T) → Slab T → List (Slab T)
  | [], _ => []
  | p :: below, s => p.restore s :: saved below (p.restore s)

theorem length_saved (patches : List (Patch T)) (s : Slab T) :
    (saved patches s).length = patches.length := by
  induction patches generalizing s with
  | nil => rfl
  | cons p below ih => simp [saved, ih]

/-- Apply `f` to the newest entry of a stack, if there is one. -/
def onTop {α : Type*} (f : α → α) : List α → List α
  | [] => []
  | top :: below => f top :: below

section Chain

variable {valid : Slab T → Prop} {below patches : List (Patch T)} {s t : Slab T}

theorem Chain.valid_top (chain : Chain valid below s) : valid s := by
  cases below with
  | nil => exact chain
  | cons p rest => exact chain.1

theorem Chain.start (chain : Chain valid below s) : Chain valid (Patch.fresh s.len :: below) s := by
  refine ⟨chain.valid_top, Patch.tracks_fresh s, ?_⟩
  rw [Patch.restore_fresh]
  exact chain

/-- The newest slab may be replaced whenever the newest patch still restores the
same slab: everything below is untouched. -/
theorem Chain.replace {f : Patch T → Patch T} (chain : Chain valid patches s) (validNew : valid t)
    (tracks : ∀ p, p.Tracks s → (f p).Tracks t)
    (same : ∀ p, p.Tracks s → (f p).restore t = p.restore s) :
    Chain valid (onTop f patches) t ∧ saved (onTop f patches) t = saved patches s := by
  cases patches with
  | nil => exact ⟨validNew, rfl⟩
  | cons p rest =>
    obtain ⟨_, tracked, deeper⟩ := chain
    simp only [onTop, Chain, saved, same p tracked]
    exact ⟨⟨validNew, tracks p tracked, deeper⟩, trivial⟩

theorem onTop_id {α : Type*} (stack : List α) : onTop id stack = stack := by
  cases stack <;> rfl

theorem Chain.push (chain : Chain valid patches s) {row : T} (validNew : valid (s.push row)) :
    Chain valid patches (s.push row) ∧ saved patches (s.push row) = saved patches s := by
  have replaced := chain.replace (f := id) validNew (fun p tracks => Patch.tracks_push tracks row)
    fun p tracks => Patch.restore_push tracks row
  rwa [onTop_id] at replaced

theorem Chain.change (chain : Chain valid patches s) {slot : Nat} {before after : T}
    (held : s.get slot = some before)
    (validNew : valid (s.set slot after (Slab.lt_of_get held))) :
    Chain valid (onTop (·.recordOld slot before) patches)
        (s.set slot after (Slab.lt_of_get held)) ∧
      saved (onTop (·.recordOld slot before) patches) (s.set slot after (Slab.lt_of_get held)) =
        saved patches s :=
  chain.replace validNew (fun _ tracks => Patch.tracks_recordOld tracks after held)
    fun _ tracks => Patch.restore_recordOld tracks after held

theorem Chain.remove (chain : Chain valid patches s) {slot : Nat} {before : T}
    (held : s.get slot = some before) (validNew : valid (s.erase slot)) :
    Chain valid (onTop (·.recordRemoved slot before) patches) (s.erase slot) ∧
      saved (onTop (·.recordRemoved slot before) patches) (s.erase slot) = saved patches s :=
  chain.replace validNew (fun _ tracks => Patch.tracks_recordRemoved tracks slot before)
    fun _ tracks => Patch.restore_recordRemoved tracks held

theorem Chain.squash {p q : Patch T} (chain : Chain valid (q :: p :: below) s) :
    Chain valid (p.merge q :: below) s := by
  obtain ⟨top, tracks, _, earlier, rest⟩ := chain
  refine ⟨top, Patch.tracks_merge earlier tracks, ?_⟩
  rw [Patch.restore_merge earlier]
  exact rest

theorem Chain.take (chain : Chain valid patches s) (n : Nat) :
    Chain valid (patches.take n) s := by
  induction n generalizing patches s with
  | zero => exact chain.valid_top
  | succ n ih =>
    cases patches with
    | nil => exact chain
    | cons p rest => exact ⟨chain.1, chain.2.1, ih chain.2.2⟩

theorem saved_take (patches : List (Patch T)) (s : Slab T) (n : Nat) :
    saved (patches.take n) s = (saved patches s).take n := by
  induction n generalizing patches s with
  | zero => rfl
  | succ n ih =>
    cases patches with
    | nil => rfl
    | cons p rest => simp only [List.take_succ_cons, saved, ih]

theorem saved_squash {p q : Patch T} (chain : Chain valid (q :: p :: below) s) :
    saved (p.merge q :: below) s = (saved (q :: p :: below) s).tail := by
  obtain ⟨_, _, _, earlier, _⟩ := chain
  simp only [saved, List.tail_cons, Patch.restore_merge earlier]

end Chain

end PulseVM.Lib.Undo
