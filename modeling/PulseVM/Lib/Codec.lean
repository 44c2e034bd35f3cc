import PulseVM.Lib.Encoding

/-!
Reading and writing at a position of a byte string. A read moves the position even when it
fails; a call that indexes out of bounds gives nothing at all. Readers and writers are
composed step by step, and so are the three things known of them: that a read stays inside
the bytes, that it finds a value in its encoding wherever that stands, and that a write puts
the encoding in its place.
-/

namespace PulseVM.Lib.Codec
open Encoding

variable {ε α β : Type}

theorem bind_eq_ok {x : Except ε α} {next : α → Except ε β} {b : β} :
    (x >>= next) = .ok b ↔ ∃ a, x = .ok a ∧ next a = .ok b := by
  cases x <;> simp [bind, Except.bind]

theorem mapError_eq_ok {x : Except ε α} {f : ε → β} {a : α} : x.mapError f = .ok a ↔ x = .ok a := by
  cases x <;> simp [Except.mapError]

def Reader (ε α : Type) := Bytes → Nat → Option (Except ε α × Nat)

namespace Reader

instance : Monad (Reader ε) where
  pure a := fun _ pos => some (.ok a, pos)
  bind r next := fun bytes pos =>
    match r bytes pos with
    | some (.ok a, pos) => next a bytes pos
    | some (.error e, pos) => some (.error e, pos)
    | none => none

def fail (e : ε) : Reader ε α := fun _ pos => some (.error e, pos)

/-- From a position inside the bytes, a read gets to a position inside them. -/
def Safe (r : Reader ε α) : Prop :=
  ∀ bytes pos, pos ≤ bytes.length →
    ∃ result next, r bytes pos = some (result, next) ∧ pos ≤ next ∧ next ≤ bytes.length

/-- Wherever the encoding stands, the value is read and the position is right behind it. -/
def Reads (r : Reader ε α) (encoding : Bytes) (a : α) : Prop :=
  ∀ front tail, r (front ++ (encoding ++ tail)) front.length =
    some (.ok a, front.length + encoding.length)

theorem safe_pure (a : α) : Safe (pure a : Reader ε α) :=
  fun _ pos inside => ⟨.ok a, pos, rfl, Nat.le_refl pos, inside⟩

theorem safe_fail (e : ε) : Safe (fail e : Reader ε α) :=
  fun _ pos inside => ⟨.error e, pos, rfl, Nat.le_refl pos, inside⟩

variable {r : Reader ε α} {next : α → Reader ε β} {a : α}

theorem bind_ok {bytes : Bytes} {pos there : Nat} (first : r bytes pos = some (.ok a, there)) :
    (r >>= next) bytes pos = next a bytes there := by
  simp only [bind, first]

theorem bind_error {bytes : Bytes} {pos there : Nat} {e : ε}
    (first : r bytes pos = some (.error e, there)) :
    (r >>= next) bytes pos = some (.error e, there) := by
  simp only [bind, first]

theorem Safe.bind (first : Safe r) (later : ∀ a, Safe (next a)) : Safe (r >>= next) := by
  intro bytes pos inside
  obtain ⟨result, there, read, forward, within⟩ := first bytes pos inside
  cases result with
  | error e => exact ⟨.error e, there, bind_error read, forward, within⟩
  | ok a =>
    obtain ⟨result, last, read', forward', within'⟩ := later a bytes there within
    exact ⟨result, last, (bind_ok read).trans read', forward.trans forward', within'⟩

theorem reads_pure (a : α) : Reads (pure a : Reader ε α) [] a := fun _ _ => rfl

theorem Reads.bind {first second : Bytes} {b : β} (here : Reads r first a)
    (later : Reads (next a) second b) : Reads (r >>= next) (first ++ second) b := by
  intro front tail
  have read := here front (second ++ tail)
  have read' := later (front ++ first) tail
  rw [List.append_assoc, List.length_append] at read'
  rw [List.append_assoc, bind_ok read, read', List.length_append, Nat.add_assoc]

theorem Reads.map {encoding : Bytes} {b : β} (here : Reads r encoding a) (last : next a = pure b) :
    Reads (r >>= next) encoding b := by
  have both := here.bind (last ▸ reads_pure b)
  rwa [List.append_nil] at both

/-- What is read took at least the bytes of its canonical encoding, and exactly these if it
took no more. -/
def Tight (r : Reader ε α) (canonical : α → Bytes → Prop) : Prop :=
  ∀ bytes pos a next, r bytes pos = some (.ok a, next) →
    ∃ used encoding, canonical a encoding ∧ bytes.drop pos = used ++ bytes.drop next ∧
      next = pos + used.length ∧ encoding.length ≤ used.length ∧
      (used.length = encoding.length → used = encoding)

theorem tight_pure (a : α) : Tight (pure a : Reader ε α) fun b e => b = a ∧ e = [] := by
  intro bytes pos b next read
  cases read
  exact ⟨[], [], ⟨rfl, rfl⟩, rfl, rfl, Nat.le_refl _, fun _ => rfl⟩

theorem tight_fail (e : ε) (canonical : α → Bytes → Prop) :
    Tight (fail e : Reader ε α) canonical := by
  intro bytes pos b next read
  cases read

theorem Tight.mono {left right : α → Bytes → Prop} (tight : Tight r left)
    (weaker : ∀ a e, left a e → right a e) : Tight r right := by
  intro bytes pos a next read
  obtain ⟨used, encoding, canonical, rest⟩ := tight bytes pos a next read
  exact ⟨used, encoding, weaker a encoding canonical, rest⟩

theorem Tight.bind {here : α → Bytes → Prop} {later : α → β → Bytes → Prop} (first : Tight r here)
    (second : ∀ a, Tight (next a) (later a)) :
    Tight (r >>= next) fun b e => ∃ a left right, here a left ∧ later a b right ∧ e = left ++ right := by
  intro bytes pos b last read
  cases step : r bytes pos with
  | none => simp [Bind.bind, step] at read
  | some parts =>
    obtain ⟨result, there⟩ := parts
    cases result with
    | error e => simp [bind_error step] at read
    | ok a =>
      rw [bind_ok step] at read
      obtain ⟨used, left, canonical, split, moved, enough, exact_⟩ := first bytes pos a there step
      obtain ⟨used', right, canonical', split', moved', enough', exact'⟩ :=
        second a bytes there b last read
      refine ⟨used ++ used', left ++ right, ⟨a, left, right, canonical, canonical', rfl⟩, ?_, ?_, ?_, ?_⟩
      · rw [split, split', List.append_assoc]
      · rw [List.length_append]
        omega
      · simp only [List.length_append]
        omega
      · intro same
        simp only [List.length_append] at same
        rw [exact_ (by omega), exact' (by omega)]

end Reader

/-- What a write leaves behind, and the position after it. -/
def Writer (ε : Type) := Bytes → Nat → Option (Except ε (Bytes × Nat))

namespace Writer

def skip : Writer ε := fun bytes pos => some (.ok (bytes, pos))

def andThen (first second : Writer ε) : Writer ε := fun bytes pos =>
  match first bytes pos with
  | some (.ok (bytes, pos)) => second bytes pos
  | some (.error e) => some (.error e)
  | none => none

/-- The encoding takes the place of as many bytes, and nothing else is touched. -/
def Writes (w : Writer ε) (encoding : Bytes) : Prop :=
  ∀ front old tail, old.length = encoding.length →
    w (front ++ (old ++ tail)) front.length =
      some (.ok (front ++ (encoding ++ tail), front.length + encoding.length))

theorem writes_skip : Writes (skip : Writer ε) [] := by
  intro front old tail size
  rw [List.length_eq_zero_iff.mp size]
  rfl

theorem Writes.andThen {first second : Writer ε} {left right : Bytes} (here : Writes first left)
    (later : Writes second right) : Writes (first.andThen second) (left ++ right) := by
  intro front old tail size
  rw [List.length_append] at size
  obtain ⟨start, rest, rfl, short⟩ : ∃ start rest, old = start ++ rest ∧ start.length = left.length :=
    ⟨old.take left.length, old.drop left.length, (List.take_append_drop _ _).symm, by
      rw [List.length_take]
      omega⟩
  rw [List.length_append] at size
  have wrote := here front start (rest ++ tail) short
  have wrote' := later (front ++ left) rest tail (by omega)
  simp only [List.append_assoc, List.length_append] at wrote wrote' ⊢
  simp only [Writer.andThen, wrote, wrote', Nat.add_assoc]

end Writer

end PulseVM.Lib.Codec
