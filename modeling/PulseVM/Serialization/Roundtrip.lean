import PulseVM.Serialization.Primitives

/-!
What is packed is read back, at whatever place and before whatever follows, and no bytes
make a read leave its buffer. Each type constructor keeps this of its parts.
-/

namespace PulseVM.Serialization
open Lib.Encoding Lib.Codec Reader Writer
open List

variable {α β γ δ κ ν : Type}

/-- Size, writing and reading agree on one encoding of the values that fit. -/
structure Lawful (wire : Wire α) (fits : α → Prop) (encode : α → Bytes) : Prop where
  size : ∀ v, fits v → (encode v).length = wire.numBytes v
  writes : ∀ v, fits v → (wire.write v).Writes (encode v)
  reads : ∀ v, fits v → wire.read.Reads (encode v) v
  safe : wire.read.Safe

theorem Lawful.pack {wire : Wire α} {fits : α → Prop} {encode : α → Bytes}
    (lawful : Lawful wire fits encode) {v : α} (ok : fits v) :
    wire.pack v = some (.ok (encode v)) := by
  have size := lawful.size v ok
  have wrote := lawful.writes v ok [] (List.replicate (wire.numBytes v) 0) [] (by simp [size])
  rw [nil_append, append_nil, nil_append, append_nil] at wrote
  simp only [Wire.pack]
  rw [show (0 : Nat) = ([] : Bytes).length from rfl, wrote]
  rfl

/-! Bytes at the position. -/

theorem writes_store (b : UInt8) : (store b).Writes [b] := by
  intro front old tail size
  obtain ⟨a, rfl⟩ := length_eq_one_iff.mp size
  simp [store]

theorem writes_storeAll (out : Bytes) : (storeAll out).Writes out := by
  induction out with
  | nil => exact writes_skip
  | cons b rest ih => exact (writes_store b).andThen ih

theorem writes_copyFromSlice (out : Bytes) : (copyFromSlice out).Writes out := by
  intro front old tail size
  unfold copyFromSlice
  rw [if_neg (by simp only [length_append]; omega)]
  have behind : (front ++ (old ++ tail)).drop (front.length + out.length) = tail := by
    rw [← size, ← drop_drop, drop_left, drop_left]
  rw [take_left, behind]

theorem Writes.reserve {need : Nat} {write : Writer WriteError} {encoding : Bytes}
    (writes : write.Writes encoding) (enough : encoding.length = need) :
    (reserve need write).Writes encoding := by
  intro front old tail size
  unfold Serialization.reserve
  rw [if_neg (by simp only [length_append]; omega)]
  exact writes front old tail size

theorem reads_takeAt {width : Nat} {encoding : Bytes} (size : encoding.length = width) :
    (takeAt width).Reads encoding encoding := by
  intro front tail
  unfold takeAt
  rw [if_neg (by simp), drop_left, if_neg (by simp; omega), ← size, take_left]

theorem reads_sliceAt (encoding : Bytes) : (sliceAt encoding.length).Reads encoding encoding := by
  intro front tail
  unfold sliceAt
  rw [if_neg (by simp), drop_left, take_left]

theorem safe_takeAt (width : Nat) : (takeAt width).Safe := by
  intro bytes pos inside
  unfold takeAt
  rw [if_neg (by omega), length_drop]
  split_ifs
  · exact ⟨_, _, rfl, by omega, inside⟩
  · exact ⟨_, _, rfl, by omega, by omega⟩

theorem safe_sliceAt (len : Nat) : (sliceAt len).Safe := by
  intro bytes pos inside
  unfold sliceAt
  split_ifs
  · exact ⟨_, _, rfl, by omega, inside⟩
  · exact ⟨_, _, rfl, by omega, by omega⟩

/-! Numbers. -/

theorem lawful_uint (width : Nat) : Lawful (uint width) (· < 256 ^ width) (leBytes width) where
  size n _ := length_leBytes width n
  writes n _ := writes_copyFromSlice (leBytes width n)
  reads n small := (reads_takeAt (length_leBytes width n)).map (by rw [ofLe_leBytes width n small])
  safe := (safe_takeAt width).bind fun _ => safe_pure _

/-- The range of signed integers of a width. -/
def SignedRange (width : Nat) (n : Int) : Prop := -256 ^ width ≤ 2 * n ∧ 2 * n < 256 ^ width

theorem residue_lt (width : Nat) (n : Int) : (n % 256 ^ width).toNat < 256 ^ width := by
  have positive : (0 : Int) < 256 ^ width := by positivity
  zify
  rw [Int.toNat_of_nonneg (Int.emod_nonneg n positive.ne')]
  exact Int.emod_lt_of_pos n positive

theorem signed_residue {width : Nat} {n : Int} (range : SignedRange width n) :
    (if 2 * (n % 256 ^ width).toNat < 256 ^ width then ((n % 256 ^ width).toNat : Int)
      else (n % 256 ^ width).toNat - 256 ^ width) = n := by
  have positive : (0 : Int) < 256 ^ width := by positivity
  have value : ((n % 256 ^ width).toNat : Int) = n % 256 ^ width :=
    Int.toNat_of_nonneg (Int.emod_nonneg n positive.ne')
  have split : 2 * (n % 256 ^ width).toNat < 256 ^ width ↔ 2 * (n % 256 ^ width) < 256 ^ width := by
    zify
    rw [value]
  obtain ⟨least, most⟩ := range
  simp only [split, value]
  by_cases sign : 0 ≤ n
  · have same : n % 256 ^ width = n := Int.emod_eq_of_lt sign (by omega)
    rw [same, if_pos most]
  · have same : n % 256 ^ width = n + 256 ^ width := by
      rw [← Int.add_emod_right, Int.emod_eq_of_lt (by omega) (by omega)]
    rw [same, if_neg (by omega)]
    omega

theorem lawful_sint (width : Nat) : Lawful (sint width) (SignedRange width)
    (fun n => leBytes width (n % 256 ^ width).toNat) where
  size n _ := length_leBytes width _
  writes n _ := writes_copyFromSlice _
  reads n range := by
    apply ((lawful_uint width).reads _ (residue_lt width n)).map
    rw [signed_residue range]
  safe := (lawful_uint width).safe.bind fun _ => safe_pure _

theorem lawful_bool : Lawful bool (fun _ => True) (fun b => leBytes 1 (if b then 1 else 0)) where
  size b _ := length_leBytes 1 _
  writes b _ := writes_copyFromSlice _
  reads b _ := by
    cases b with
    | false => exact ((lawful_uint 1).reads 0 (by decide)).map rfl
    | true => exact ((lawful_uint 1).reads 1 (by decide)).map rfl
  safe := (lawful_uint 1).safe.bind fun _ => safe_pure _

/-- The groups of seven bits that are written. -/
def groups : Nat → Nat → Bytes
  | 0, _ => []
  | fuel + 1, v =>
    if v / 128 ≠ 0 then UInt8.ofNat (v % 128 + 128) :: groups fuel (v / 128)
    else [UInt8.ofNat (v % 128)]

theorem writes_emit {fuel v : Nat} (small : v < 128 ^ fuel) :
    (emit fuel v).Writes (groups fuel v) ∨ fuel = 0 := by
  induction fuel generalizing v with
  | zero => exact .inr rfl
  | succ fuel ih =>
    left
    unfold emit groups
    split_ifs with more
    · rw [pow_succ] at small
      have fewer : v / 128 < 128 ^ fuel := by omega
      rcases ih fewer with writes | none
      · exact (writes_store _).andThen writes
      · subst none
        omega
    · exact writes_store _

theorem length_groups {v : Nat} (small : v < 2 ^ 32) :
    (groups 5 v).length = varUint32.numBytes v := by
  have one : v.size ≤ 7 ↔ v < 2 ^ 7 := Nat.size_le
  have two : v.size ≤ 14 ↔ v < 2 ^ 14 := Nat.size_le
  have three : v.size ≤ 21 ↔ v < 2 ^ 21 := Nat.size_le
  have four : v.size ≤ 28 ↔ v < 2 ^ 28 := Nat.size_le
  have five : v.size ≤ 32 ↔ v < 2 ^ 32 := Nat.size_le
  have zero : v.size = 0 ↔ v = 0 := Nat.size_eq_zero
  simp only [groups, varUint32]
  split_ifs <;> simp only [length_cons, length_nil] <;> omega

theorem first_group (v shift : Nat) :
    v % 128 * 2 ^ shift + v / 128 * 2 ^ (shift + 7) = v * 2 ^ shift := by
  calc v % 128 * 2 ^ shift + v / 128 * 2 ^ (shift + 7)
      = (128 * (v / 128) + v % 128) * 2 ^ shift := by rw [pow_add]; ring
    _ = v * 2 ^ shift := by rw [Nat.div_add_mod]

theorem reads_collect {left result shift v : Nat} (place : shift + 7 * left = 35)
    (small : v * 2 ^ shift < 2 ^ 32) (more : 0 < left) :
    (collect left result shift).Reads (groups left v) (result + v * 2 ^ shift) := by
  induction left generalizing result shift v with
  | zero => omega
  | succ left ih =>
    intro front tail
    have whole := first_group v shift
    -- the fifth group has room for four bits only
    have last : left = 0 → v < 16 := by
      intro zero
      have fifth : shift = 28 := by omega
      rw [fifth] at small
      omega
    unfold groups
    split_ifs with rest
    · have byte : (UInt8.ofNat (v % 128 + 128)).toNat = v % 128 + 128 := by
        rw [UInt8.toNat_ofNat']
        omega
      have next : v / 128 * 2 ^ (shift + 7) < 2 ^ 32 := by omega
      have later := @ih (result + v % 128 * 2 ^ shift) (shift + 7) (v / 128) (by omega) next
        (by omega) (front ++ [UInt8.ofNat (v % 128 + 128)]) tail
      rw [append_assoc, length_append, length_singleton, Nat.add_assoc result,
        whole] at later
      have behind : front.length + (UInt8.ofNat (v % 128 + 128) :: groups left (v / 128)).length =
          front.length + 1 + (groups left (v / 128)).length := by
        rw [length_cons]
        omega
      rw [cons_append, behind, ← later]
      simp only [collect, getElem?_append_right (le_refl _), Nat.sub_self,
        getElem?_cons_zero, byte, singleton_append]
      rw [if_neg (by omega), if_neg (by omega), if_neg (by omega), Nat.add_mod_right, Nat.mod_mod]
    · have byte : (UInt8.ofNat (v % 128)).toNat = v % 128 := by
        rw [UInt8.toNat_ofNat']
        omega
      have all : v / 128 = 0 := by omega
      rw [all, Nat.zero_mul, Nat.add_zero] at whole
      simp only [collect, cons_append, nil_append, getElem?_append_right (le_refl _),
        Nat.sub_self, getElem?_cons_zero, byte, length_singleton]
      rw [if_neg (by omega), if_neg (by omega), if_pos (by omega), Nat.mod_mod, whole]

theorem safe_collect (left result shift : Nat) : (collect left result shift).Safe := by
  induction left generalizing result shift with
  | zero => exact safe_fail _
  | succ left ih =>
    intro bytes pos inside
    unfold collect
    split
    · exact ⟨_, _, rfl, Nat.le_refl _, inside⟩
    · next byte there =>
      have next : pos + 1 ≤ bytes.length := (List.getElem?_eq_some_iff.mp there).1
      dsimp only
      split_ifs
      · exact ⟨_, _, rfl, by omega, next⟩
      · exact ⟨_, _, rfl, by omega, next⟩
      · exact ⟨_, _, rfl, by omega, next⟩
      · obtain ⟨read, there, same, forward, within⟩ := ih _ _ bytes (pos + 1) next
        exact ⟨read, there, same, by omega, within⟩

theorem lawful_varUint32 : Lawful varUint32 (· < 2 ^ 32) (groups 5) where
  size v small := length_groups small
  writes v small := by
    have enough : v < 128 ^ 5 := by omega
    have emitted : (emit 5 v).Writes (groups 5 v) :=
      (writes_emit enough).resolve_right (by decide)
    exact Writes.reserve emitted (length_groups small)
  reads v small := by
    have read := @reads_collect 5 0 0 v (by decide) (by omega) (by decide)
    rwa [Nat.zero_add, pow_zero, Nat.mul_one] at read
  safe := safe_collect 5 0 0

theorem lawful_usize : Lawful usize (· < 2 ^ 32) (groups 5) where
  size n small := by
    simp only [usize, Nat.mod_eq_of_lt small]
    exact length_groups small
  writes n small := by
    simp only [usize, Nat.mod_eq_of_lt small]
    exact lawful_varUint32.writes n small
  reads n small := lawful_varUint32.reads n small
  safe := safe_collect 5 0 0

/-! Texts and byte strings. -/

theorem lawful_bytes : Lawful bytes (·.length < 2 ^ 32) (fun b => groups 5 b.length ++ b) where
  size b short := by
    rw [length_append, lawful_usize.size _ short]
    rfl
  writes b short := (lawful_usize.writes _ short).andThen (writes_copyFromSlice b)
  reads b short := (lawful_usize.reads _ short).bind (reads_sliceAt b)
  safe := lawful_usize.safe.bind safe_sliceAt

theorem lawful_digest : Lawful digest (fun _ => True) Vector.toList where
  size d _ := d.length_toList
  writes d _ := writes_copyFromSlice d.toList
  reads d _ := by
    have slice := reads_sliceAt d.toList
    rw [d.length_toList] at slice
    have whole : (Vector.ofFn fun i : Fin 32 => d.toList.getD i.val 0) = d := by
      ext i inside
      simp
    exact slice.map (congrArg pure whole)
  safe := (safe_sliceAt 32).bind fun _ => safe_pure _

theorem lawful_string :
    Lawful string (fun s => (utf8 s).length < 2 ^ 32) (fun s => groups 5 (utf8 s).length ++ utf8 s) where
  size s short := by
    rw [length_append, lawful_usize.size _ short]
    rfl
  writes s short :=
    (lawful_usize.writes _ short).andThen (Writes.reserve (writes_storeAll (utf8 s)) rfl)
  reads s short := by
    have decoded : String.fromUTF8? ⟨(utf8 s).toArray⟩ = some s := by
      simp [utf8, String.fromUTF8?, s.isValidUTF8, String.fromUTF8]
    apply (lawful_usize.reads _ short).bind
    exact (reads_sliceAt (utf8 s)).map (by rw [decoded])
  safe := by
    apply lawful_usize.safe.bind
    intro len
    apply (safe_sliceAt len).bind
    intro found
    split
    · exact safe_pure _
    · exact safe_fail _

/-! Options, tuples and lists. -/

section
variable {item : Wire α} {fits : α → Prop} {encode : α → Bytes}

theorem lawful_option (lawful : Lawful item fits encode) :
    Lawful (option item) (fun v => ∀ a ∈ v, fits a)
      (fun v => leBytes 1 (if v.isSome then 1 else 0) ++ (v.map encode).getD []) where
  size v ok := by
    cases v with
    | none => rfl
    | some a =>
      rw [length_append, length_leBytes]
      exact congrArg (1 + ·) (lawful.size a (ok a rfl))
  writes v ok := by
    apply (lawful_bool.writes v.isSome trivial).andThen
    cases v with
    | none => exact writes_skip
    | some a => exact lawful.writes a (ok a rfl)
  reads v ok := by
    apply (lawful_bool.reads v.isSome trivial).bind
    cases v with
    | none => exact reads_pure none
    | some a => exact (lawful.reads a (ok a rfl)).map rfl
  safe := by
    apply lawful_bool.safe.bind
    intro isSome
    split
    · exact lawful.safe.bind fun _ => safe_pure _
    · exact safe_pure _

theorem writes_items (lawful : Lawful item fits encode) {values : List α}
    (ok : ∀ v ∈ values, fits v) : (writeItems item values).Writes (values.flatMap encode) := by
  induction values with
  | nil => exact writes_skip
  | cons v rest ih =>
    exact (lawful.writes v (ok v mem_cons_self)).andThen
      (ih fun v member => ok v (mem_cons_of_mem _ member))

theorem length_items (lawful : Lawful item fits encode) {values : List α}
    (ok : ∀ v ∈ values, fits v) : (values.flatMap encode).length = (values.map item.numBytes).sum := by
  rw [length_flatMap]
  exact congrArg List.sum (map_congr_left fun v member => lawful.size v (ok v member))

theorem reads_items (lawful : Lawful item fits encode) {values : List α}
    (ok : ∀ v ∈ values, fits v) :
    (readItems item values.length).Reads (values.flatMap encode) values := by
  induction values with
  | nil => exact reads_pure []
  | cons v rest ih =>
    apply (lawful.reads v (ok v mem_cons_self)).bind
    exact (ih fun v member => ok v (mem_cons_of_mem _ member)).map rfl

theorem safe_items (safe : item.read.Safe) (count : Nat) : (readItems item count).Safe := by
  induction count with
  | zero => exact safe_pure []
  | succ count ih => exact safe.bind fun _ => ih.bind fun _ => safe_pure _

theorem lawful_vec (lawful : Lawful item fits encode) :
    Lawful (vec item) (fun values => values.length < 2 ^ 32 ∧ ∀ v ∈ values, fits v)
      (fun values => groups 5 values.length ++ values.flatMap encode) where
  size values ok := by
    rw [length_append, lawful_usize.size _ ok.1, length_items lawful ok.2]
    rfl
  writes values ok := (lawful_usize.writes _ ok.1).andThen (writes_items lawful ok.2)
  reads values ok := (lawful_usize.reads _ ok.1).bind (reads_items lawful ok.2)
  safe := lawful_usize.safe.bind (safe_items lawful.safe)

end

section
variable {first : Wire α} {second : Wire β} {third : Wire γ} {fourth : Wire δ}
variable {fitsA : α → Prop} {fitsB : β → Prop} {fitsC : γ → Prop} {fitsD : δ → Prop}
variable {encodeA : α → Bytes} {encodeB : β → Bytes} {encodeC : γ → Bytes} {encodeD : δ → Bytes}

theorem lawful_pair (a : Lawful first fitsA encodeA) (b : Lawful second fitsB encodeB) :
    Lawful (pair first second) (fun v => fitsA v.1 ∧ fitsB v.2)
      (fun v => encodeA v.1 ++ encodeB v.2) where
  size v ok := by
    rw [length_append, a.size _ ok.1, b.size _ ok.2]
    rfl
  writes v ok := (a.writes _ ok.1).andThen (b.writes _ ok.2)
  reads v ok := (a.reads _ ok.1).bind ((b.reads _ ok.2).map rfl)
  safe := a.safe.bind fun _ => b.safe.bind fun _ => safe_pure _

theorem lawful_triple (a : Lawful first fitsA encodeA) (b : Lawful second fitsB encodeB)
    (c : Lawful third fitsC encodeC) :
    Lawful (triple first second third) (fun v => fitsA v.1 ∧ fitsB v.2.1 ∧ fitsC v.2.2)
      (fun v => encodeA v.1 ++ (encodeB v.2.1 ++ encodeC v.2.2)) where
  size v ok := by
    simp only [length_append, a.size _ ok.1, b.size _ ok.2.1, c.size _ ok.2.2, triple]
    omega
  writes v ok := (a.writes _ ok.1).andThen ((b.writes _ ok.2.1).andThen (c.writes _ ok.2.2))
  reads v ok := (a.reads _ ok.1).bind ((b.reads _ ok.2.1).bind ((c.reads _ ok.2.2).map rfl))
  safe := a.safe.bind fun _ => b.safe.bind fun _ => c.safe.bind fun _ => safe_pure _

theorem lawful_quadruple (a : Lawful first fitsA encodeA) (b : Lawful second fitsB encodeB)
    (c : Lawful third fitsC encodeC) (d : Lawful fourth fitsD encodeD) :
    Lawful (quadruple first second third fourth)
      (fun v => fitsA v.1 ∧ fitsB v.2.1 ∧ fitsC v.2.2.1 ∧ fitsD v.2.2.2)
      (fun v => encodeA v.1 ++ (encodeB v.2.1 ++ (encodeC v.2.2.1 ++ encodeD v.2.2.2))) where
  size v ok := by
    simp only [length_append, a.size _ ok.1, b.size _ ok.2.1, c.size _ ok.2.2.1,
      d.size _ ok.2.2.2, quadruple]
    omega
  writes v ok := (a.writes _ ok.1).andThen ((b.writes _ ok.2.1).andThen
    ((c.writes _ ok.2.2.1).andThen (d.writes _ ok.2.2.2)))
  reads v ok := (a.reads _ ok.1).bind ((b.reads _ ok.2.1).bind
    ((c.reads _ ok.2.2.1).bind ((d.reads _ ok.2.2.2).map rfl)))
  safe := a.safe.bind fun _ => b.safe.bind fun _ => c.safe.bind fun _ =>
    d.safe.bind fun _ => safe_pure _

end

/-! Ordered collections. -/

section
variable [LinearOrder κ] {key : α → κ} {item : Wire α} {fits : α → Prop} {encode : α → Bytes}

theorem insertEntry_greatest {entries : List α} {entry : α}
    (below : ∀ a ∈ entries, key a < key entry) : insertEntry key entry entries = entries ++ [entry] := by
  induction entries with
  | nil => rfl
  | cons other rest ih =>
    have after := below other mem_cons_self
    rw [insertEntry, if_neg after.not_gt, if_neg after.ne',
      ih fun a member => below a (mem_cons_of_mem _ member), cons_append]

theorem Canonical.ext {a b : Canonical key} (same : a.entries = b.entries) : a = b := by
  cases a
  cases b
  cases same
  rfl

theorem reads_entries (lawful : Lawful item fits encode) {values : List α}
    (ok : ∀ v ∈ values, fits v) (start whole : Canonical key)
    (grown : whole.entries = start.entries ++ values) :
    (readEntries item values.length start).Reads (values.flatMap encode) whole := by
  induction values generalizing start with
  | nil =>
    rw [append_nil] at grown
    rw [Canonical.ext grown]
    exact reads_pure start
  | cons v rest ih =>
    apply (lawful.reads v (ok v mem_cons_self)).bind
    apply ih fun v member => ok v (mem_cons_of_mem _ member)
    have sorted := whole.sorted
    rw [grown, pairwise_append] at sorted
    have below : ∀ a ∈ start.entries, key a < key v :=
      fun a member => sorted.2.2 a member v mem_cons_self
    have inserted : (start.insert v).entries = start.entries ++ [v] := insertEntry_greatest below
    rw [grown, inserted, append_assoc, singleton_append]

theorem safe_entries (safe : item.read.Safe) (count : Nat) (start : Canonical key) :
    (readEntries item count start).Safe := by
  induction count generalizing start with
  | zero => exact safe_pure start
  | succ count ih => exact safe.bind fun _ => ih _

theorem lawful_canonical (lawful : Lawful item fits encode) :
    Lawful (canonical key item) (fun c => c.entries.length < 2 ^ 32 ∧ ∀ v ∈ c.entries, fits v)
      (fun c => groups 5 c.entries.length ++ c.entries.flatMap encode) where
  size c ok := by
    rw [length_append, lawful_usize.size _ ok.1, length_items lawful ok.2]
    rfl
  writes c ok := (lawful_usize.writes _ ok.1).andThen (writes_items lawful ok.2)
  reads c ok := (lawful_usize.reads _ ok.1).bind (reads_entries lawful ok.2 _ c rfl)
  safe := lawful_usize.safe.bind fun count => safe_entries lawful.safe count _

end

/-- The types of the wire format with the values that their lengths and ranges allow. -/
inductive Built : {α : Type} → Wire α → (α → Prop) → Prop
  | uint (width : Nat) : Built (uint width) (· < 256 ^ width)
  | sint (width : Nat) : Built (sint width) (SignedRange width)
  | bool : Built bool fun _ => True
  | varUint32 : Built varUint32 (· < 2 ^ 32)
  | string : Built string fun s => (utf8 s).length < 2 ^ 32
  | bytes : Built bytes fun b => b.length < 2 ^ 32
  | option {α : Type} {item : Wire α} {fits : α → Prop} (part : Built item fits) :
    Built (option item) fun v => ∀ a ∈ v, fits a
  | vec {α : Type} {item : Wire α} {fits : α → Prop} (part : Built item fits) :
    Built (vec item) fun values => values.length < 2 ^ 32 ∧ ∀ v ∈ values, fits v
  | vecDeque {α : Type} {item : Wire α} {fits : α → Prop} (part : Built item fits) :
    Built (vecDeque item) fun values => values.length < 2 ^ 32 ∧ ∀ v ∈ values, fits v
  | pair {α β : Type} {first : Wire α} {second : Wire β} {fitsA : α → Prop} {fitsB : β → Prop}
    (a : Built first fitsA) (b : Built second fitsB) :
    Built (pair first second) fun v => fitsA v.1 ∧ fitsB v.2
  | triple {α β γ : Type} {first : Wire α} {second : Wire β} {third : Wire γ} {fitsA : α → Prop}
    {fitsB : β → Prop} {fitsC : γ → Prop} (a : Built first fitsA) (b : Built second fitsB)
    (c : Built third fitsC) :
    Built (triple first second third) fun v => fitsA v.1 ∧ fitsB v.2.1 ∧ fitsC v.2.2
  | quadruple {α β γ δ : Type} {first : Wire α} {second : Wire β} {third : Wire γ}
    {fourth : Wire δ} {fitsA : α → Prop} {fitsB : β → Prop} {fitsC : γ → Prop} {fitsD : δ → Prop}
    (a : Built first fitsA) (b : Built second fitsB) (c : Built third fitsC)
    (d : Built fourth fitsD) :
    Built (quadruple first second third fourth) fun v =>
      fitsA v.1 ∧ fitsB v.2.1 ∧ fitsC v.2.2.1 ∧ fitsD v.2.2.2
  | canonicalMap {κ ν : Type} [LinearOrder κ] {key : Wire κ} {value : Wire ν} {fitsK : κ → Prop}
    {fitsV : ν → Prop} (k : Built key fitsK) (v : Built value fitsV) :
    Built (canonicalMap key value) fun c =>
      c.entries.length < 2 ^ 32 ∧ ∀ e ∈ c.entries, fitsK e.1 ∧ fitsV e.2
  | canonicalSet {κ : Type} [LinearOrder κ] {item : Wire κ} {fits : κ → Prop}
    (part : Built item fits) :
    Built (canonicalSet item) fun c => c.entries.length < 2 ^ 32 ∧ ∀ e ∈ c.entries, fits e

theorem Built.lawful {wire : Wire α} {fits : α → Prop} (built : Built wire fits) :
    ∃ encode, Lawful wire fits encode := by
  induction built with
  | uint width => exact ⟨_, lawful_uint width⟩
  | sint width => exact ⟨_, lawful_sint width⟩
  | bool => exact ⟨_, lawful_bool⟩
  | varUint32 => exact ⟨_, lawful_varUint32⟩
  | string => exact ⟨_, lawful_string⟩
  | bytes => exact ⟨_, lawful_bytes⟩
  | option _ part => exact part.imp' _ fun _ law => lawful_option law
  | vec _ part => exact part.imp' _ fun _ law => lawful_vec law
  | vecDeque _ part => exact part.imp' _ fun _ law => lawful_vec law
  | pair _ _ a b =>
    obtain ⟨⟨_, a⟩, ⟨_, b⟩⟩ := And.intro a b
    exact ⟨_, lawful_pair a b⟩
  | triple _ _ _ a b c =>
    obtain ⟨⟨_, a⟩, ⟨_, b⟩, ⟨_, c⟩⟩ := And.intro a (And.intro b c)
    exact ⟨_, lawful_triple a b c⟩
  | quadruple _ _ _ _ a b c d =>
    obtain ⟨⟨_, a⟩, ⟨_, b⟩, ⟨_, c⟩, ⟨_, d⟩⟩ := And.intro a (And.intro b (And.intro c d))
    exact ⟨_, lawful_quadruple a b c d⟩
  | canonicalMap _ _ k v =>
    obtain ⟨⟨_, k⟩, ⟨_, v⟩⟩ := And.intro k v
    exact ⟨_, lawful_canonical (lawful_pair k v)⟩
  | canonicalSet _ part => exact part.imp' _ fun _ law => lawful_canonical law

/-- For every type of the format: a value that fits is packed into exactly the bytes it
announces and read back from them wherever they stand, and whatever the bytes, reading from
a position inside of them does not panic and ends inside of them. -/
theorem wire_roundtrip {wire : Wire α} {fits : α → Prop} (built : Built wire fits) :
    (∀ v, fits v → ∃ packed, wire.pack v = some (.ok packed) ∧ packed.length = wire.numBytes v ∧
      ∀ front tail, wire.read (front ++ (packed ++ tail)) front.length =
        some (.ok v, front.length + wire.numBytes v)) ∧
    ∀ bytes pos, pos ≤ bytes.length → ∃ result next,
      wire.read bytes pos = some (result, next) ∧ next ≤ bytes.length := by
  obtain ⟨encode, lawful⟩ := built.lawful
  constructor
  · intro v ok
    refine ⟨encode v, lawful.pack ok, lawful.size v ok, fun front tail => ?_⟩
    rw [← lawful.size v ok]
    exact lawful.reads v ok front tail
  · intro bytes pos inside
    obtain ⟨result, next, read, -, within⟩ := lawful.safe bytes pos inside
    exact ⟨result, next, read, within⟩

/-- A map from texts to lists of optional signed numbers, read back behind two bytes. -/
theorem wire_roundtrip_sample :
    ∃ packed, (canonicalMap string (vec (option (sint 2)))).pack
        ⟨[("a", [some (-5), none]), ("b", [])], by decide⟩ = some (.ok packed) ∧ packed.length = 11 ∧
      (canonicalMap string (vec (option (sint 2)))).read ([7, 7] ++ (packed ++ [9])) 2 =
        some (.ok ⟨[("a", [some (-5), none]), ("b", [])], by decide⟩, 13) := by
  have built := Built.canonicalMap Built.string (.vec (.option (.sint 2)))
  obtain ⟨packed, packs, size, reads⟩ := (wire_roundtrip built).1
    ⟨[("a", [some (-5), none]), ("b", [])], by decide⟩ (by simp +decide [SignedRange])
  exact ⟨packed, packs, size, reads [7, 7] [9]⟩

end PulseVM.Serialization
