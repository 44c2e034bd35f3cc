import PulseVM.Abi.Decoder

/-!
How deep the decoder nests its calls. The depth that is counted bounds every way from a type
to another one but the way from a struct to its base, so that as many calls are nested as the
longest chain of bases asks for.
-/

namespace PulseVM.Abi
open Lib Lib.Nested Lib.Encoding

/-! Elements and fields answer if what they are made of does. -/

section
variable {item item' : Decoder Value} {field field' : String → Decoder Value}

theorem returns_decodeItems (inner : String) (returns : Returns item) (count : Nat) :
    Returns (decodeItems inner item count) := by
  induction count with
  | zero => exact returns_pure []
  | succ count ih =>
    apply (returns_flat remaining).bind
    intro before
    apply returns.bind
    intro value
    apply (returns_flat remaining).bind
    intro after
    split
    · exact returns_fail _
    · exact ih.bind fun rest => returns_pure _

theorem returns_decodeFields (returns : ∀ ty, Returns (field ty)) (fields : List (String × String)) :
    ∀ out, Returns (decodeFields field fields out) := by
  induction fields with
  | nil => exact fun out => returns_pure out
  | cons entry rest ih =>
    intro out
    apply (returns_flat remaining).bind
    intro left
    split
    · exact returns_pure out
    · exact (returns entry.2).bind fun value => ih _

theorem extends_decodeItems (inner : String) (grows : Extends item item') (count : Nat) :
    Extends (decodeItems inner item count) (decodeItems inner item' count) := by
  induction count with
  | zero => exact .refl _
  | succ count ih =>
    apply (Extends.refl _).bind
    intro before
    apply grows.bind
    intro value
    apply (Extends.refl _).bind
    intro after
    split
    · exact .refl _
    · exact ih.bind fun rest => .refl _

theorem extends_decodeFields (grows : ∀ ty, Extends (field ty) (field' ty))
    (fields : List (String × String)) :
    ∀ out, Extends (decodeFields field fields out) (decodeFields field' fields out) := by
  induction fields with
  | nil => exact fun out => .refl _
  | cons entry rest ih =>
    intro out
    apply (Extends.refl _).bind
    intro left
    split
    · exact .refl _
    · exact (grows entry.2).bind fun value => ih _

end

variable {abi : Abi} {other : String → Reader Value}

theorem decode_extends (fuel : Nat) :
    (∀ typeName depth,
      Extends (decode abi other fuel typeName depth) (decode abi other (fuel + 1) typeName depth)) ∧
    ∀ name depth out, Extends (decodeStruct abi other fuel name depth out)
      (decodeStruct abi other (fuel + 1) name depth out) := by
  induction fuel with
  | zero => exact ⟨fun _ _ => extends_exhausted _, fun _ _ _ => extends_exhausted _⟩
  | succ fuel ih =>
    obtain ⟨types, structs⟩ := ih
    constructor
    · intro typeName depth
      rw [decode, decode]
      split
      · exact .refl _
      split
      · apply (Extends.refl _).bind
        intro count
        apply (Extends.refl _).bind
        intro left
        split
        · exact .refl _
        · exact (extends_decodeItems _ (types _ _) count).bind fun out => .refl _
      split
      · apply (Extends.refl _).bind
        intro present
        split
        · exact .refl _
        · exact types _ _
      split
      · apply (Extends.refl _).bind
        intro left
        split
        · exact .refl _
        · exact types _ _
      split
      · exact types _ _
      split
      · apply (Extends.refl _).bind
        intro tag
        split
        · exact .refl _
        · exact (types _ _).bind fun value => .refl _
      split
      · exact (structs _ _ _).bind fun map => .refl _
      · exact .refl _
    · intro name depth out
      rw [decodeStruct, decodeStruct]
      split
      · exact .refl _
      · apply Extends.bind
        · split
          · exact structs _ _ _
          · exact .refl _
        · exact extends_decodeFields (fun ty => types ty _) _

/-! Chains of bases. -/

/-- The bases of a struct end after so many. -/
inductive BaseChain (abi : Abi) : String → Nat → Prop
  | missing {name : String} (absent : abi.findStruct name = none) : BaseChain abi name 0
  | root {name : String} {struct : StructDef} (found : abi.findStruct name = some struct)
    (first : struct.base = "") : BaseChain abi name 0
  | derived {name : String} {struct : StructDef} {length : Nat}
    (found : abi.findStruct name = some struct) (next : struct.base ≠ "")
    (rest : BaseChain abi struct.base length) : BaseChain abi name (length + 1)

/-- Names that stand for a struct and nothing that is looked up before. -/
structure NamesStruct (abi : Abi) (name : String) : Prop where
  array : stripSuffix ['[', ']'] name = none
  optional : stripSuffix ['?'] name = none
  extension : stripSuffix ['$'] name = none
  typedef : abi.typedefTarget name = none
  variant : abi.findVariant name = none
  struct : (abi.findStruct name).isSome

/-- A struct is not decoded with fewer calls than it has bases. -/
theorem decodeStruct_exhausted (fuel : Nat) {name : String}
    (longer : ∀ length < fuel, ¬ BaseChain abi name length) (depth : Nat)
    (out : List (String × Value)) (data : Bytes) :
    decodeStruct abi other fuel name depth out data = none := by
  induction fuel generalizing name depth with
  | zero => simp only [decodeStruct, exhausted]
  | succ fuel ih =>
    cases found : abi.findStruct name with
    | none => exact absurd (.missing found) (longer 0 fuel.succ_pos)
    | some struct =>
      have derived : struct.base ≠ "" := fun first => longer 0 fuel.succ_pos (.root found first)
      have rest : ∀ length < fuel, ¬ BaseChain abi struct.base length := fun length short chain =>
        longer (length + 1) (Nat.succ_lt_succ short) (.derived found derived chain)
      simp only [decodeStruct, found, if_pos derived]
      exact bind_exhausted (ih rest (depth + 1)) _

theorem decode_exhausted (fuel : Nat) {name : String} (names : abi.NamesStruct name)
    (longer : ∀ length < fuel, ¬ BaseChain abi name length) (data : Bytes) :
    binToJson abi other fuel name data = none := by
  cases fuel with
  | zero => simp only [binToJson, decode, exhausted]
  | succ fuel =>
    simp only [binToJson, decode, names.array, names.optional, names.extension, names.typedef,
      names.variant, names.struct, Nat.not_lt_zero, if_false, if_true]
    have rest : ∀ length < fuel, ¬ BaseChain abi name length := fun length short =>
      longer length (Nat.lt_succ_of_lt short)
    exact bind_exhausted (decodeStruct_exhausted fuel rest 0 [] data) _

/-! Room for the calls. -/

/-- Calls nested in a type at a depth, if no chain of bases is longer than `longest`. -/
def room (longest depth : Nat) : Nat := (65 - depth) * (longest + 2) + 1

theorem room_succ (longest : Nat) {depth : Nat} (shallow : depth ≤ 64) :
    room longest depth = room longest (depth + 1) + (longest + 2) := by
  have step : 65 - depth = 65 - (depth + 1) + 1 := by omega
  rw [room, room, step, Nat.add_mul]
  omega

theorem room_anti (longest depth : Nat) : room longest (depth + 1) ≤ room longest depth := by
  have fewer : 65 - (depth + 1) ≤ 65 - depth := by omega
  have := Nat.mul_le_mul_right (longest + 2) fewer
  unfold room
  omega

/-- The chains of bases that are followed have at most `longest` steps. -/
def BasesWithin (abi : Abi) (longest : Nat) : Prop :=
  ∀ name, abi.NamesStruct name → ∃ length ≤ longest, BaseChain abi name length

/-- With room for the calls there is an answer; a struct needs room for its bases too. -/
theorem decode_returns {longest : Nat} (ends : abi.BasesWithin longest) (fuel : Nat) :
    (∀ typeName depth, room longest depth ≤ fuel →
      Returns (decode abi other fuel typeName depth)) ∧
    ∀ name depth length out, BaseChain abi name length →
      room longest (depth + 1) + length + 1 ≤ fuel →
      Returns (decodeStruct abi other fuel name depth out) := by
  induction fuel with
  | zero =>
    constructor
    · intro typeName depth enough
      unfold room at enough
      omega
    · intro name depth length out chain enough
      omega
  | succ fuel ih =>
    obtain ⟨types, structs⟩ := ih
    constructor
    · intro typeName depth enough
      rw [decode]
      split
      · exact returns_fail _
      have apart := room_succ longest (Nat.le_of_not_lt ‹_›)
      have nested (ty : String) : Returns (decode abi other fuel ty (depth + 1)) :=
        types ty (depth + 1) (by omega)
      split
      · apply (returns_flat _).bind
        intro count
        apply (returns_flat _).bind
        intro left
        split
        · exact returns_fail _
        · exact (returns_decodeItems _ (nested _) count).bind fun out => returns_pure _
      split
      · apply (returns_flat _).bind
        intro present
        split
        · exact returns_pure _
        · exact nested _
      split
      · apply (returns_flat _).bind
        intro left
        split
        · exact returns_pure _
        · exact nested _
      split
      · exact nested _
      split
      · apply (returns_flat _).bind
        intro tag
        split
        · exact returns_fail _
        · exact (nested _).bind fun value => returns_pure _
      split
      · have names : abi.NamesStruct typeName := ⟨‹_›, ‹_›, ‹_›, ‹_›, ‹_›, ‹_›⟩
        obtain ⟨length, within, chain⟩ := ends typeName names
        exact (structs _ _ _ _ chain (by omega)).bind fun map => returns_pure _
      · exact returns_flat _
    · intro name depth length out chain enough
      have nested (ty : String) : Returns (decode abi other fuel ty (depth + 1)) :=
        types ty (depth + 1) (by omega)
      rw [decodeStruct]
      cases chain with
      | missing absent =>
        rw [absent]
        exact returns_fail _
      | root found first =>
        simp only [found, first, ne_eq, not_true_eq_false, if_false]
        exact (returns_pure out).bind (returns_decodeFields nested _)
      | derived found next rest =>
        have deeper := room_anti longest (depth + 1)
        simp only [found, if_pos next]
        exact (structs _ _ _ _ rest (by omega)).bind (returns_decodeFields nested _)

/-- For some ABIs one number of nested calls is enough for every type name and every byte
string exactly if one length bounds the chains of bases of all of them. -/
theorem binToJson_answers_iff (abis : Set Abi) (other : String → Reader Value) :
    (∃ enough, ∀ abi ∈ abis, ∀ typeName data, ∃ answer, ∀ fuel ≥ enough,
      binToJson abi other fuel typeName data = some answer) ↔
    ∃ longest, ∀ abi ∈ abis, abi.BasesWithin longest := by
  constructor
  · rintro ⟨enough, answered⟩
    refine ⟨enough, fun abi member name names => ?_⟩
    obtain ⟨answer, found⟩ := answered abi member name []
    by_contra longer
    push Not at longer
    have stuck : binToJson abi other enough name [] = none :=
      decode_exhausted enough names (fun length short => longer length short.le) []
    exact absurd (stuck.symm.trans (found enough le_rfl)) (by simp)
  · rintro ⟨longest, within⟩
    refine ⟨room longest 0, fun abi member typeName data => ?_⟩
    exact answers_of_extends (fun n => (decode_extends n).1 typeName 0)
      ((decode_returns (within abi member) (room longest 0)).1 typeName 0 le_rfl) data

/-- Version "", no type definitions, and one struct that is its own base. -/
def selfBased : Bytes := [0, 0, 1, 1, 97, 1, 97, 0, 0, 0, 0, 0, 0]

def selfBasedAbi : Abi := ⟨[], [⟨"a", "a", []⟩], [], []⟩

theorem selfBased_endless {name : String} {length : Nat}
    (chain : selfBasedAbi.BaseChain name length) : name ≠ "a" := by
  have base : selfBasedAbi.findStruct "a" = some ⟨"a", "a", []⟩ := by decide +kernel
  induction chain with
  | missing absent =>
    rintro rfl
    simp [base] at absent
  | root found first =>
    rintro rfl
    rw [base, Option.some.injEq] at found
    subst found
    exact absurd first (by decide)
  | derived found next rest ih =>
    rintro rfl
    rw [base, Option.some.injEq] at found
    subst found
    exact ih rfl

/-- A struct that is its own base is accepted and never decoded. -/
theorem binToJson_selfBased :
    fromBytes selfBased = .ok selfBasedAbi ∧
      ∀ other fuel data, binToJson selfBasedAbi other fuel "a" data = none := by
  refine ⟨by decide +kernel, fun other fuel data => ?_⟩
  apply decode_exhausted fuel
  · constructor <;> decide +kernel
  · exact fun length _ chain => selfBased_endless chain rfl

end PulseVM.Abi
