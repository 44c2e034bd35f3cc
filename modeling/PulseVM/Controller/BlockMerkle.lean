import PulseVM.Lib.Frontier
import PulseVM.Controller.Features

/-!
Merkle roots. `merkle` folds a whole list in place. The root over the ids of all blocks is
kept together with the subtrees that later blocks need, and never computed from the start.
-/

namespace PulseVM.Controller
open Lib.Encoding Lib.Frontier
open List

variable (hash : Bytes → Digest)

def makeCanonicalLeft (val : Digest) : Digest := val.set 0 (val[0] &&& 0x7F)

def makeCanonicalRight (val : Digest) : Digest := val.set 0 (val[0] ||| 0x80)

def makeCanonicalPair (a b : Digest) : Digest :=
  hash ((makeCanonicalLeft a).toList ++ (makeCanonicalRight b).toList)

def noDigest : Digest := Vector.replicate 32 0

/-- Node `i` of the next level is written over what was at `i`, which is not read again. -/
def mergeStep (ids : List Digest) (i : Nat) : List Digest :=
  ids.set i (makeCanonicalPair hash (ids.getD (2 * i) noDigest) (ids.getD (2 * i + 1) noDigest))

def mergeLevel (ids : List Digest) : List Digest :=
  ((List.range (ids.length / 2)).foldl (mergeStep hash) ids).take (ids.length / 2)

variable {hash}

theorem getElem?_pairs {ids : List Digest} {i : Nat} (inside : 2 * i + 1 < ids.length) :
    (pairs (makeCanonicalPair hash) ids)[i]? = some (makeCanonicalPair hash
      (ids.getD (2 * i) noDigest) (ids.getD (2 * i + 1) noDigest)) := by
  fun_induction pairs (makeCanonicalPair hash) ids generalizing i with
  | case1 a b rest ih =>
    cases i with
    | zero => rfl
    | succ i => exact ih (by simp only [length_cons] at inside; omega)
  | case2 => simp at inside
  | case3 => simp at inside

theorem getElem?_mergeSteps {ids : List Digest} {count : Nat} (inside : count ≤ ids.length / 2)
    (j : Nat) : ((List.range count).foldl (mergeStep hash) ids)[j]? =
      if j < count then (pairs (makeCanonicalPair hash) ids)[j]? else ids[j]? := by
  induction count generalizing j with
  | zero => simp
  | succ count ih =>
    have known := ih (by omega)
    have size : ((List.range count).foldl (mergeStep hash) ids).length = ids.length :=
      List.foldlRecOn (List.range count) (mergeStep hash) (motive := fun s => s.length = ids.length)
        rfl fun s same i _ => by rw [mergeStep, length_set, same]
    -- both nodes that are read stand behind those written so far
    have left := known (2 * count)
    have right := known (2 * count + 1)
    rw [if_neg (by omega)] at left right
    rw [range_succ, foldl_append, foldl_cons, foldl_nil, mergeStep,
      getElem?_set, size, getD_eq_getElem?_getD, getD_eq_getElem?_getD, left, right,
      ← getD_eq_getElem?_getD, ← getD_eq_getElem?_getD, ← getElem?_pairs (by omega), known j]
    by_cases here : count = j
    · rw [if_pos here, if_pos (by omega), if_pos (by omega), here]
    · rw [if_neg here]
      split_ifs <;> first | rfl | omega

theorem mergeLevel_eq (ids : List Digest) :
    mergeLevel hash ids = pairs (makeCanonicalPair hash) ids := by
  apply ext_getElem?
  intro j
  rw [mergeLevel, getElem?_take, getElem?_mergeSteps le_rfl]
  split_ifs with inside
  · rfl
  · rw [getElem?_eq_none (by rw [length_pairs]; omega)]

variable (hash)

def merkle (ids : List Digest) : Digest :=
  if ids.length ≤ 1 then ids.headD noDigest else merkle (mergeLevel hash (completed ids))
termination_by ids.length
decreasing_by
  rw [mergeLevel_eq, length_pairs, length_completed]
  omega

variable {hash}

theorem merkle_eq (ids : List Digest) :
    merkle hash ids = root (makeCanonicalPair hash) noDigest ids := by
  fun_induction merkle hash ids with
  | case1 ids short =>
    match ids, short with
    | [], _ => rw [root]; rfl
    | [_], _ => rw [root]; rfl
  | case2 ids long ih => rw [ih, mergeLevel_eq, ← root_two (by omega)]

/-- The subtrees that are complete, the smallest first, and the root. -/
structure IncrementalBlockMerkle where
  activeNodes : List Digest
  nodeCount : Nat

namespace IncrementalBlockMerkle

def empty : IncrementalBlockMerkle := ⟨[], 0⟩

def root (m : IncrementalBlockMerkle) : Digest := m.activeNodes.getLastD noDigest

variable (hash)

/-- The way from the new leaf to the root. A node is partial once it stands for leaves that
are not there yet; what is on the left of such a node stays active. -/
def climb : Nat → Nat → Digest → List Digest → List Digest → Bool →
    Except ChainError (List Digest)
  | 0, _, top, _, updated, _ => .ok (updated ++ [top])
  | depth + 1, index, top, active, updated, isPartial =>
    if index % 2 = 0 then
      climb depth (index / 2) (makeCanonicalPair hash top top) active
        (if isPartial then updated else updated ++ [top]) true
    else
      match active with
      | [] => .error (.blockError "invalid blockroot merkle frontier")
      | left :: active =>
        climb depth (index / 2) (makeCanonicalPair hash left top) active
          (if isPartial then updated ++ [left] else updated) isPartial

/-- The next power of two fits 64 bits for every count up to `2 ^ 63`. -/
def append (m : IncrementalBlockMerkle) (digest : Digest) :
    Except ChainError IncrementalBlockMerkle :=
  if m.nodeCount + 1 = 2 ^ 64 then .error (.blockError "blockroot merkle overflow")
  else do
    let impliedCount := 2 ^ Nat.clog 2 (m.nodeCount + 1)
    let maxDepth := Nat.log2 impliedCount + 1
    let updated ← climb hash (maxDepth - 1) m.nodeCount digest m.activeNodes [] false
    return ⟨updated, m.nodeCount + 1⟩

/-- The active nodes are the frontier of the ids, and after them at most the root. -/
structure Represents (m : IncrementalBlockMerkle) (ids : List Digest) : Prop where
  count : m.nodeCount = ids.length
  active : ∃ more, m.activeNodes = subtrees (makeCanonicalPair hash) ids ++ more
  root : m.root = merkle hash ids

variable {hash} {depth index : Nat} {nodes active updated more : List Digest} {top left : Digest}
  {isPartial : Bool}

theorem climb_even (even : index % 2 = 0) :
    climb hash (depth + 1) index top active updated isPartial =
      climb hash depth (index / 2) (makeCanonicalPair hash top top) active
        (if isPartial then updated else updated ++ [top]) true := by
  rw [climb.eq_def]
  exact if_pos even

theorem climb_odd (odd : index % 2 ≠ 0) :
    climb hash (depth + 1) index top (left :: active) updated isPartial =
      climb hash depth (index / 2) (makeCanonicalPair hash left top) active
        (if isPartial then updated ++ [left] else updated) isPartial := by
  rw [climb.eq_def]
  exact if_neg odd

theorem merkle_concat (nonempty : 1 ≤ nodes.length) (even : nodes.length % 2 = 0) :
    merkle hash (nodes ++ [top]) = merkle hash (pairs (makeCanonicalPair hash) nodes ++
      [makeCanonicalPair hash top top]) := by
  rw [merkle_eq, merkle_eq, root_concat nonempty even]

/-- Above a partial node all complete subtrees are kept, and the root comes last. -/
theorem climb_partial (deep : Nat.clog 2 (nodes.length + 1) = depth) :
    climb hash depth nodes.length top (subtrees (makeCanonicalPair hash) nodes ++ more) updated true =
      .ok (updated ++ (subtrees (makeCanonicalPair hash) nodes ++ [merkle hash (nodes ++ [top])])) := by
  induction depth generalizing nodes top updated with
  | zero =>
    rw [eq_nil_of_clog deep, merkle_eq]
    simp [climb, subtrees, Lib.Frontier.root]
  | succ depth ih =>
    obtain ⟨nonempty, half⟩ := clog_half deep
    rw [← length_pairs (makeCanonicalPair hash)] at half
    by_cases even : nodes.length % 2 = 0
    · rw [climb_even even, subtrees_even even, merkle_concat nonempty even,
        ← length_pairs (makeCanonicalPair hash), ih half]
      rfl
    · obtain ⟨left, waits, next⟩ := @exists_waiting _ (makeCanonicalPair hash) nodes even
      rw [waits, cons_append, climb_odd even, merkle_eq, (next _ _).1,
        ← length_pairs (makeCanonicalPair hash), ih half, merkle_eq]
      simp

theorem climb_new (deep : Nat.clog 2 (nodes.length + 1) = depth) :
    ∃ next, climb hash depth nodes.length top (subtrees (makeCanonicalPair hash) nodes ++ more)
        updated false = .ok (updated ++ next) ∧
      (∃ rest, next = subtrees (makeCanonicalPair hash) (nodes ++ [top]) ++ rest) ∧
      next.getLast? = some (merkle hash (nodes ++ [top])) := by
  induction depth generalizing nodes top updated with
  | zero =>
    rw [eq_nil_of_clog deep, merkle_eq]
    exact ⟨[top], by simp [climb], ⟨[], by simp [subtrees, pairs]⟩, by simp [Lib.Frontier.root]⟩
  | succ depth ih =>
    obtain ⟨nonempty, half⟩ := clog_half deep
    rw [← length_pairs (makeCanonicalPair hash)] at half
    by_cases even : nodes.length % 2 = 0
    · rw [climb_even even, subtrees_even even, merkle_concat nonempty even,
        ← length_pairs (makeCanonicalPair hash), climb_partial half, subtrees_concat even]
      rw [if_neg (by simp), append_assoc]
      exact ⟨_, rfl, ⟨_, rfl⟩, by rw [← append_assoc, getLast?_concat]⟩
    · obtain ⟨left, waits, next⟩ := @exists_waiting _ (makeCanonicalPair hash) nodes even
      rw [waits, cons_append, climb_odd even, merkle_eq, (next _ _).1, (next _ noDigest).2,
        ← length_pairs (makeCanonicalPair hash), ← merkle_eq]
      exact ih half

theorem represents_append {m : IncrementalBlockMerkle} {ids : List Digest} {digest : Digest}
    (known : Represents hash m ids) (small : ids.length + 1 < 2 ^ 64) :
    ∃ after, m.append hash digest = .ok after ∧ Represents hash after (ids ++ [digest]) := by
  obtain ⟨count, ⟨more, active⟩, -⟩ := known
  obtain ⟨next, climbed, kept, last⟩ := @climb_new hash _ ids [] more digest rfl
  refine ⟨⟨next, ids.length + 1⟩, ?_, by simp, kept, ?_⟩
  · rw [append, count, if_neg (by omega), active]
    simp only [Nat.log2_two_pow, Nat.add_sub_cancel, climbed]
    rfl
  · rw [IncrementalBlockMerkle.root, getLastD_eq_getLast?, last]
    rfl

theorem represents_foldlM {m : IncrementalBlockMerkle} {before ids : List Digest}
    (known : Represents hash m before) (small : before.length + ids.length < 2 ^ 64) :
    ∃ after, ids.foldlM (append hash) m = .ok after ∧ Represents hash after (before ++ ids) := by
  induction ids generalizing m before with
  | nil => exact ⟨m, rfl, by simpa using known⟩
  | cons digest rest ih =>
    rw [length_cons] at small
    obtain ⟨next, added, known⟩ := @represents_append hash m before digest known (by omega)
    obtain ⟨after, done, known⟩ := ih known (by rw [length_append, length_singleton]; omega)
    refine ⟨after, ?_, by simpa using known⟩
    rw [foldlM_cons, added]
    exact done

end IncrementalBlockMerkle

/-- The root that is kept is the root over all ids appended. They stand in a `VecDeque`, and what
is allocated has less than `2 ^ 63` bytes. -/
theorem root_foldlM {ids : List Digest} (fits : 32 * ids.length < 2 ^ 63) :
    ∃ m, ids.foldlM (IncrementalBlockMerkle.append hash) .empty = .ok m ∧
      m.root = merkle hash ids := by
  have start : IncrementalBlockMerkle.Represents hash .empty [] :=
    ⟨rfl, ⟨[], by rw [subtrees]; rfl⟩, by rw [merkle]; rfl⟩
  obtain ⟨m, done, known⟩ := IncrementalBlockMerkle.represents_foldlM start
    (by rw [length_nil]; omega : ([] : List Digest).length + ids.length < 2 ^ 64)
  exact ⟨m, done, known.root⟩

/-- Three ids, with a hash that counts the bytes. -/
theorem root_foldlM_three :
    let hash (bytes : Bytes) : Digest := .replicate 32 (.ofNat bytes.length)
    let ids : List Digest := [.replicate 32 1, .replicate 32 2, .replicate 32 3]
    ∃ m, ids.foldlM (IncrementalBlockMerkle.append hash) .empty = .ok m ∧
      m.root = merkle hash ids :=
  root_foldlM (by decide)

end PulseVM.Controller
