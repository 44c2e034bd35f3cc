import Mathlib
import PulseVM.Lib.Encoding
import PulseVM.Lib.Spans

/-!
Row types, their secondary indices and the errors of a table. An index is an
ordered map from a key of the row to its id; two keys are the same key when their
own order says so, which may be coarser than equality of their bits.
-/

namespace PulseVM.Arena
open Lib.Encoding Lib.Spans

/-- Reference into the blob arena; the default one is empty. -/
structure BlobRef where
  off : UInt32
  len : UInt32
  deriving DecidableEq, Repr

namespace BlobRef

def empty : BlobRef := ⟨0, 0⟩

def span (r : BlobRef) : Span := ⟨r.off.toNat, r.len.toNat⟩

theorem span_injective : Function.Injective span := by
  intro a b same
  obtain ⟨off, len⟩ := a
  obtain ⟨off', len'⟩ := b
  simp only [span, Span.mk.injEq] at same
  rw [UInt32.toNat_inj.mp same.1, UInt32.toNat_inj.mp same.2]

end BlobRef

inductive TableError where
  | notFound (typeName : String) (id : Int)
  | unknownKey (typeName : String)
  | uniquenessViolation (typeName indexName : String)
  | idChanged (typeName : String)
  | revision (message : String)
  | corrupted (message : String)
  deriving DecidableEq, Repr

/-- An ordered-unique secondary index declaration: a key and its order. -/
structure IndexedBy (T : Type) where
  name : String
  Key : Type
  key : T → Key
  cmp : Key → Key → Ordering
  trans : Std.TransCmp cmp := by infer_instance

attribute [instance] IndexedBy.trans

/-- The key of `a` is the key `k` under the index order. -/
def IndexedBy.Matches {T : Type} (decl : IndexedBy T) (a : T) (k : decl.Key) : Prop :=
  decl.cmp (decl.key a) k = .eq

instance {T : Type} (decl : IndexedBy T) (a : T) (k : decl.Key) : Decidable (decl.Matches a k) :=
  inferInstanceAs (Decidable (_ = _))

/-- A type stored in a table. Rows are plain old data: their bytes have a fixed
size and decode back to the row as long as its id is one a table assigns. `blobRefs`
lists the fields that are blob refs. -/
class ArenaObject (T : Type) where
  typeId : Nat
  typeName : String
  default : T
  id : T → Int
  setId : T → Int → T
  secondaryIndices : List (IndexedBy T)
  size : Nat
  asBytes : T → Bytes
  readFromBytes : Bytes → Option T
  blobRefs : T → List BlobRef
  id_setId : ∀ obj n, id (setId obj n) = n := by intros; rfl
  length_asBytes : ∀ obj, (asBytes obj).length = size
  readFromBytes_asBytes : ∀ obj, 0 ≤ id obj → id obj < 2 ^ 63 →
    readFromBytes (asBytes obj) = some obj

open ArenaObject hiding id

/-- One secondary index with its current entries. Ordered and hashed indices keep
the same entries and differ only in the queries they answer. -/
structure KeyIndex (T : Type) where
  decl : IndexedBy T
  map : Std.ExtTreeMap decl.Key Int decl.cmp

namespace KeyIndex

variable {T : Type}

instance (ix : KeyIndex T) : Std.TransCmp ix.decl.cmp := ix.decl.trans

def new (decl : IndexedBy T) : KeyIndex T := ⟨decl, ∅⟩

def lookup (ix : KeyIndex T) (k : ix.decl.Key) : Option Int := ix.map[k]?

variable [ArenaObject T]

def taken (ix : KeyIndex T) (obj : T) : Bool := (ix.lookup (ix.decl.key obj)).isSome

def add (ix : KeyIndex T) (obj : T) : KeyIndex T :=
  { ix with map := ix.map.insert (ix.decl.key obj) (ArenaObject.id obj) }

def tryInsert (ix : KeyIndex T) (obj : T) : Option (KeyIndex T) :=
  if ix.taken obj then none else some (ix.add obj)

def erase (ix : KeyIndex T) (obj : T) : KeyIndex T :=
  { ix with map := ix.map.erase (ix.decl.key obj) }

def moved (ix : KeyIndex T) (old new : T) : KeyIndex T :=
  { ix with
    map := (ix.map.insert (ix.decl.key new) (ArenaObject.id old)).erase (ix.decl.key old) }

/-- Move the entry of `old` to the key of `new`; nothing moves when both rows have
the same key, and `none` reports that the new key is taken. -/
def replace (ix : KeyIndex T) (old new : T) : Option (KeyIndex T) :=
  if ix.decl.Matches old (ix.decl.key new) then some ix
  else if ix.taken new then none
  else some (ix.moved old new)

/-- Rebuild from the live rows; the flag tells whether all keys were distinct. -/
def bulkBuild (ix : KeyIndex T) (rows : List (Nat × T)) : KeyIndex T × Bool :=
  let map := rows.foldl (fun m row => m.insert (ix.decl.key row.2) (row.1 : Int)) ∅
  (⟨ix.decl, map⟩, map.size = rows.length)

end KeyIndex

end PulseVM.Arena
