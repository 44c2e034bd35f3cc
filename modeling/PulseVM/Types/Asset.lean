import PulseVM.Serialization.Roundtrip
import PulseVM.Types.Name

/-!
Symbols and assets: a symbol is up to seven capital letters above a byte of precision, an
asset a signed amount of units of that precision. Both have a text and a packed form.
-/

namespace PulseVM.Types
open Lib.Decimal Lib.Encoding Lib.Codec
open List

/-! Texts as the standard library takes them apart. -/

/-- The white space of Unicode. -/
def isWhitespace (c : Char) : Bool :=
  let n := c.toNat
  (9 ≤ n && n ≤ 13) || n = 0x20 || n = 0x85 || n = 0xA0 || n = 0x1680 || (0x2000 ≤ n && n ≤ 0x200A) ||
    n = 0x2028 || n = 0x2029 || n = 0x202F || n = 0x205F || n = 0x3000

def trim (s : Text) : Text := (s.dropWhile isWhitespace).rdropWhile isWhitespace

/-- The text before and after the first occurrence of a character. -/
def splitOnce (c : Char) (s : Text) : Option (Text × Text) :=
  if c ∈ s then some (s.takeWhile (· ≠ c), (s.dropWhile (· ≠ c)).drop 1) else none

def stripPrefix (c : Char) : Text → Option Text
  | d :: rest => if d = c then some rest else none
  | [] => none

def padded (width n : Nat) : Text :=
  List.replicate (width - (numeral n).length) '0' ++ numeral n

def signed (n : Int) : Text := if n < 0 then '-' :: numeral n.natAbs else numeral n.natAbs

/-! Symbol codes. -/

inductive ParseSymbolCodeError where
  | tooLong
  | empty
  | badChar (c : UInt8)
  deriving DecidableEq, Repr

def symbolCodeMaxLen : Nat := 7

def isUppercase (b : Nat) : Bool := 65 ≤ b && b ≤ 90

namespace SymbolCode

/-- Letters are taken off the low end until there are no more, or seven. -/
def validFrom : Nat → Nat → Nat → Bool
  | 0, i, sym => 0 < i && sym = 0
  | left + 1, i, sym =>
    if isUppercase (sym % 256) then validFrom left (i + 1) (sym / 256) else 0 < i && sym = 0

def isValid (code : Nat) : Bool := validFrom symbolCodeMaxLen 0 code

def spell : Nat → Nat → Text
  | 0, _ => []
  | left + 1, sym => if sym % 256 = 0 then [] else Char.ofNat (sym % 256) :: spell left (sym / 256)

def display (code : Nat) : Text := spell symbolCodeMaxLen code

/-- Each letter goes above those before it. -/
def gather : Nat → Nat → List UInt8 → Except ParseSymbolCodeError Nat
  | _, value, [] => .ok value
  | shift, value, c :: rest =>
    if isUppercase c.toNat then gather (shift + 8) (value + c.toNat * 2 ^ shift) rest
    else .error (.badChar c)

def symbolCodeFromBytes (bytes : List UInt8) : Except ParseSymbolCodeError Nat :=
  if bytes.length = 0 then .error .empty
  else if symbolCodeMaxLen < bytes.length then .error .tooLong
  else gather 0 0 bytes

def fromStr (s : Text) : Except ParseSymbolCodeError Nat :=
  symbolCodeFromBytes (s.flatMap String.utf8EncodeChar)

end SymbolCode

/-! Symbols. -/

inductive SymbolError where
  | invalidPrecision
  | missingSeparator
  | parseError
  deriving DecidableEq, Repr

def maxPrecision : Nat := 18

namespace Symbol

def precision (symbol : Nat) : Nat := symbol % 256

def code (symbol : Nat) : Nat := symbol / 256

def newWithCode (precision code : Nat) : Nat := code * 256 % 2 ^ 64 + precision

def tryNewWithCode (precision code : Nat) : Except SymbolError Nat :=
  if maxPrecision < precision then .error .invalidPrecision
  else if SymbolCode.isValid code then .ok (newWithCode precision code)
  else .error .parseError

def isValid (symbol : Nat) : Bool :=
  precision symbol ≤ maxPrecision && SymbolCode.isValid (code symbol)

def display (symbol : Nat) : Text :=
  numeral (precision symbol) ++ ',' :: SymbolCode.display (code symbol)

def fromStr (s : Text) : Except SymbolError Nat := do
  let (precisionStr, codeStr) ← (splitOnce ',' s).elim (.error .missingSeparator) .ok
  -- the split would go on at a second comma
  if ',' ∈ codeStr then .error .parseError
  else
    let precision ← (parseUnsigned 256 precisionStr).elim (.error .invalidPrecision) .ok
    let code ← (SymbolCode.fromStr codeStr).mapError fun _ => .parseError
    tryNewWithCode precision code

end Symbol

/-! Assets. -/

structure Asset where
  amount : Int
  symbol : Nat
  deriving DecidableEq, Repr

inductive ParseAssetError where
  | format
  | symbolCode (e : ParseSymbolCodeError)
  | missingAmount
  | invalidAmount
  | precision
  | magnitude
  | symbol (e : SymbolError)
  deriving DecidableEq, Repr

def maxAmount : Nat := 2 ^ 62 - 1

namespace Asset

def isAmountWithinRange (a : Asset) : Bool := -(maxAmount : Int) ≤ a.amount && a.amount ≤ maxAmount

def isValid (a : Asset) : Bool := a.isAmountWithinRange && Symbol.isValid a.symbol

/-- The magnitude with a point before its last digits, and the sign apart. -/
def display (a : Asset) : Text :=
  let precision := Symbol.precision a.symbol
  let code := SymbolCode.display (Symbol.code a.symbol)
  if precision = 0 then signed a.amount ++ ' ' :: code
  else
    let digits := padded (precision + 1) a.amount.natAbs
    let split := digits.length - precision
    (if a.amount < 0 then ['-'] else []) ++ (digits.take split ++ '.' :: digits.drop split) ++
      ' ' :: code

/-- The number in an asset, once its sign is off. -/
def parseMagnitude (digits : Text) : Except ParseAssetError (Nat × Nat) :=
  let (whole, fraction) := (splitOnce '.' digits).getD (digits, [])
  if whole = [] ∧ fraction = [] then .error .missingAmount
  else if ¬(whole.all Char.isDigit ∧ fraction.all Char.isDigit) then .error .invalidAmount
  else if maxPrecision < fraction.length then .error .precision
  else match parseUnsigned (2 ^ 64) (whole ++ fraction) with
    | none => .error .invalidAmount
    | some magnitude =>
      if maxAmount < magnitude then .error .magnitude else .ok (magnitude, fraction.length)

def parseSign (amount : Text) : Bool × Text :=
  match stripPrefix '-' amount with
  | some rest => (true, rest)
  | none => (false, (stripPrefix '+' amount).getD amount)

def fromStr (s : Text) : Except ParseAssetError Asset := do
  let (amountStr, symbolStr) ← ((splitOnce ' ' (trim s)).elim (.error .format) .ok)
  let code ← (SymbolCode.fromStr (trim symbolStr)).mapError .symbolCode
  let (negative, digits) := parseSign (trim amountStr)
  let (magnitude, precision) ← parseMagnitude digits
  let symbol ← (Symbol.tryNewWithCode precision code).mapError .symbol
  return ⟨if negative then -magnitude else magnitude, symbol⟩

open Serialization in
/-- Amount and symbol one after the other; both are checked when they are read. -/
def wire : Wire Asset where
  numBytes a := (sint 8).numBytes a.amount + (uint 8).numBytes a.symbol
  write a := ((sint 8).write a.amount).andThen ((uint 8).write a.symbol)
  read := do
    let amount ← (sint 8).read
    let symbol ← (uint 8).read
    if Symbol.isValid symbol then
      if isAmountWithinRange ⟨amount, symbol⟩ then return ⟨amount, symbol⟩
      else Reader.fail .parseError
    else Reader.fail .parseError

end Asset

/-! Taking texts apart. -/

theorem trim_split (s : Text) : ∃ lead trail, s = lead ++ (trim s ++ trail) ∧
    (∀ c ∈ lead, isWhitespace c) ∧ ∀ c ∈ trail, isWhitespace c := by
  refine ⟨s.takeWhile isWhitespace, (s.dropWhile isWhitespace).rtakeWhile isWhitespace, ?_, ?_, ?_⟩
  · rw [trim, rdropWhile_append_rtakeWhile, takeWhile_append_dropWhile]
  · exact fun c member => mem_takeWhile_imp member
  · exact fun c member => mem_rtakeWhile_imp member

variable {s a : Text} {c : Char}

theorem trim_ends (first : ∀ c ∈ s.head?, isWhitespace c = false)
    (last : ∀ c ∈ s.getLast?, isWhitespace c = false) : trim s = s := by
  have front : s.dropWhile isWhitespace = s := by
    cases s with
    | nil => rfl
    | cons c rest => rw [dropWhile_cons_of_neg (by simp [first c rfl])]
  rw [trim, front, rdropWhile_eq_self_iff]
  intro nonempty
  simp [last _ (getLast?_eq_some_getLast nonempty)]

theorem trim_plain (plain : ∀ c ∈ s, isWhitespace c = false) : trim s = s :=
  trim_ends (fun c there => plain c (mem_of_mem_head? there))
    fun c there => plain c (mem_of_getLast? there)

theorem trim_joined {b : Text} (someA : a ≠ []) (someB : b ≠ [])
    (plainA : ∀ c ∈ a, isWhitespace c = false) (plainB : ∀ c ∈ b, isWhitespace c = false) :
    trim (a ++ ' ' :: b) = a ++ ' ' :: b := by
  apply trim_ends
  · intro c there
    rw [head?_append_of_ne_nil _ someA] at there
    exact plainA c (mem_of_mem_head? there)
  · intro c there
    rw [getLast?_append_of_ne_nil _ (by simp), getLast?_cons_of_ne_nil someB] at there
    exact plainB c (mem_of_getLast? there)

theorem splitOnce_append (absent : c ∉ a) (b : Text) : splitOnce c (a ++ c :: b) = some (a, b) := by
  have each : ∀ d ∈ a, d ≠ c := fun d member same => absent (same ▸ member)
  unfold splitOnce
  rw [if_pos (by simp), takeWhile_append_of_pos (by simpa using each),
    dropWhile_append_of_pos (by simpa using each)]
  simp

theorem splitOnce_absent (absent : c ∉ s) : splitOnce c s = none :=
  if_neg absent

theorem splitOnce_some {b : Text} (found : splitOnce c s = some (a, b)) : s = a ++ c :: b := by
  by_cases member : c ∈ s
  · obtain ⟨front, back, rfl, absent⟩ := eq_append_cons_of_mem member
    rw [splitOnce_append absent back] at found
    cases found
    rfl
  · rw [splitOnce_absent member] at found
    cases found

theorem text_of_ascii (ascii : ∀ b ∈ s.flatMap String.utf8EncodeChar, b.toNat < 128) :
    s = (s.flatMap String.utf8EncodeChar).map Name.charOf := by
  induction s with
  | nil => rfl
  | cons c rest ih =>
    rw [flatMap_cons] at ascii ⊢
    have single : String.utf8EncodeChar c = [UInt8.ofNat c.toNat] ∧ c.toNat < 128 := by
      have same : c.val.toNat = c.toNat := rfl
      have each : ∀ b ∈ String.utf8EncodeChar c, b.toNat < 128 :=
        fun b member => ascii b (mem_append_left _ member)
      unfold String.utf8EncodeChar at each ⊢
      dsimp only at each ⊢
      split_ifs at each ⊢ with small
      · exact ⟨rfl, by omega⟩
      all_goals
        have first := each _ mem_cons_self
        rw [UInt8.toNat_ofNat'] at first
        omega
    have back : Name.charOf (UInt8.ofNat c.toNat) = c := by
      rw [Name.charOf, UInt8.toNat_ofNat', Nat.mod_eq_of_lt (by omega), Char.ofNat_toNat]
    rw [single.1, map_append, map_singleton, back, singleton_append,
      ← ih fun b member => ascii b (mem_append_right _ member)]

/-! Codes and their letters. -/

namespace SymbolCode

/-- One to seven capital letters. -/
structure Word (bytes : Bytes) : Prop where
  nonempty : bytes ≠ []
  short : bytes.length ≤ 7
  upper : ∀ b ∈ bytes, isUppercase b.toNat

theorem validFrom_iff (left i sym : Nat) : validFrom left i sym ↔
    ∃ bytes : Bytes, bytes.length ≤ left ∧ (∀ b ∈ bytes, isUppercase b.toNat) ∧
      sym = ofLe bytes ∧ (0 < i ∨ bytes ≠ []) := by
  induction left generalizing i sym with
  | zero => simp [validFrom, ofLe, and_comm]
  | succ left ih =>
    unfold validFrom
    have low : ∀ (b : UInt8) (rest : Bytes), sym = ofLe (b :: rest) →
        sym % 256 = b.toNat ∧ sym / 256 = ofLe rest := by
      intro b rest same
      have bound := b.toNat_lt
      rw [same, ofLe]
      omega
    split_ifs with upper
    · rw [ih]
      constructor
      · rintro ⟨bytes, short, all, same, _⟩
        have byte : (UInt8.ofNat (sym % 256)).toNat = sym % 256 := by
          rw [UInt8.toNat_ofNat']
          omega
        refine ⟨UInt8.ofNat (sym % 256) :: bytes, by simpa using short, ?_, ?_, .inr (by simp)⟩
        · simpa [byte, upper] using all
        · rw [ofLe, byte, ← same]
          omega
      · rintro ⟨bytes, short, all, same, _⟩
        cases bytes with
        | nil =>
          rw [ofLe] at same
          simp [same, isUppercase] at upper
        | cons b rest =>
          refine ⟨rest, by simpa using short, fun b member => all b (mem_cons_of_mem _ member),
            (low b rest same).2, .inl (by omega)⟩
    · constructor
      · intro stop
        simp only [Bool.and_eq_true, decide_eq_true_eq] at stop
        exact ⟨[], by simp, by simp, stop.2, .inl stop.1⟩
      · rintro ⟨bytes, short, all, same, nonempty⟩
        cases bytes with
        | nil => simpa [same, ofLe] using nonempty
        | cons b rest =>
          rw [(low b rest same).1] at upper
          exact absurd (all b mem_cons_self) upper

theorem isValid_iff (code : Nat) : isValid code ↔ ∃ bytes, Word bytes ∧ code = ofLe bytes := by
  rw [isValid, validFrom_iff]
  constructor
  · intro ⟨bytes, short, upper, same, nonempty⟩
    exact ⟨bytes, ⟨nonempty.resolve_left (by omega), short, upper⟩, same⟩
  · intro ⟨bytes, word, same⟩
    exact ⟨bytes, word.short, word.upper, same, .inr word.nonempty⟩

theorem isUppercase_iff (n : Nat) : isUppercase n ↔ 65 ≤ n ∧ n ≤ 90 := by simp [isUppercase]

variable {bytes : Bytes}

theorem spell_ofLe {left : Nat} (short : bytes.length ≤ left)
    (upper : ∀ b ∈ bytes, isUppercase b.toNat) : spell left (ofLe bytes) = bytes.map Name.charOf := by
  induction bytes generalizing left with
  | nil => cases left <;> rfl
  | cons b rest ih =>
    cases left with
    | zero => simp at short
    | succ left =>
      have bound := b.toNat_lt
      have letter := (isUppercase_iff _).mp (upper b mem_cons_self)
      have low : ofLe (b :: rest) % 256 = b.toNat := by rw [ofLe]; omega
      have high : ofLe (b :: rest) / 256 = ofLe rest := by rw [ofLe]; omega
      rw [spell, low, high, if_neg (by omega), ih (by simpa using short)
        fun b member => upper b (mem_cons_of_mem _ member)]
      rfl

theorem gather_upper (upper : ∀ b ∈ bytes, isUppercase b.toNat) (shift value : Nat) :
    gather shift value bytes = .ok (value + ofLe bytes * 2 ^ shift) := by
  induction bytes generalizing shift value with
  | nil => simp [gather, ofLe]
  | cons b rest ih =>
    rw [gather, if_pos (upper b mem_cons_self),
      ih fun b member => upper b (mem_cons_of_mem _ member), ofLe, pow_add]
    congr 1
    ring

theorem upper_of_gather {shift value code : Nat} (read : gather shift value bytes = .ok code) :
    ∀ b ∈ bytes, isUppercase b.toNat := by
  induction bytes generalizing shift value with
  | nil => simp
  | cons b rest ih =>
    unfold gather at read
    split_ifs at read with upper
    simpa [upper] using ih read

theorem fromBytes_ok_iff (bytes : Bytes) (code : Nat) :
    symbolCodeFromBytes bytes = .ok code ↔ Word bytes ∧ code = ofLe bytes := by
  unfold symbolCodeFromBytes symbolCodeMaxLen
  constructor
  · intro read
    split_ifs at read with empty long
    have upper := upper_of_gather read
    rw [gather_upper upper] at read
    refine ⟨⟨fun nil => empty (by rw [nil]; rfl), not_lt.mp long, upper⟩, ?_⟩
    simpa using (Except.ok.inj read).symm
  · intro ⟨word, same⟩
    rw [if_neg (length_pos_of_ne_nil word.nonempty).ne', if_neg (not_lt.mpr word.short),
      gather_upper word.upper, same]
    simp

theorem display_ofLe (word : Word bytes) :
    display (ofLe bytes) = bytes.map Name.charOf := spell_ofLe word.short word.upper

theorem Word.ascii (word : Word bytes) : ∀ b ∈ bytes, b.toNat < 128 := by
  intro b member
  have letter := (isUppercase_iff _).mp (word.upper b member)
  omega

theorem flatMap_charOf (ascii : ∀ b ∈ bytes, b.toNat < 128) :
    (bytes.map Name.charOf).flatMap String.utf8EncodeChar = bytes := by
  have single : ∀ b ∈ bytes, String.utf8EncodeChar (Name.charOf b) = [b] :=
    fun b member => (Name.charOf_ascii (ascii b member)).1
  rw [flatMap_map, flatMap_congr single, flatMap_singleton']

theorem fromStr_ok_iff (s : Text) (code : Nat) :
    fromStr s = .ok code ↔ isValid code ∧ s = display code := by
  rw [fromStr, fromBytes_ok_iff, isValid_iff]
  constructor
  · intro ⟨word, same⟩
    refine ⟨⟨_, word, same⟩, ?_⟩
    rw [same, display_ofLe word]
    exact text_of_ascii word.ascii
  · intro ⟨⟨bytes, word, same⟩, text⟩
    rw [text, same, display_ofLe word, flatMap_charOf word.ascii]
    exact ⟨word, rfl⟩

theorem letters_display {code : Nat} (valid : isValid code) :
    display code ≠ [] ∧ ∀ c ∈ display code, 65 ≤ c.toNat ∧ c.toNat ≤ 90 := by
  obtain ⟨bytes, word, rfl⟩ := (isValid_iff code).mp valid
  rw [display_ofLe word]
  refine ⟨by simpa using word.nonempty, ?_⟩
  intro c member
  obtain ⟨b, listed, rfl⟩ := mem_map.mp member
  have all : ∀ i : Fin 256, isUppercase i → 65 ≤ (Name.charOf (UInt8.ofNat i)).toNat ∧
      (Name.charOf (UInt8.ofNat i)).toNat ≤ 90 := by
    decide +kernel
  simpa using all ⟨b.toNat, b.toNat_lt⟩ (word.upper b listed)

end SymbolCode

/-! Symbols. -/

namespace Symbol

theorem isValid_iff (symbol : Nat) : isValid symbol ↔
    precision symbol ≤ maxPrecision ∧ SymbolCode.isValid (code symbol) := by
  simp [isValid]

theorem code_lt {c : Nat} (valid : SymbolCode.isValid c) : c < 256 ^ 7 := by
  obtain ⟨bytes, word, rfl⟩ := (SymbolCode.isValid_iff c).mp valid
  exact (ofLe_lt bytes).trans_le (Nat.pow_le_pow_right (by decide) word.short)

theorem precision_newWithCode {p c : Nat} (small : p ≤ maxPrecision) (valid : SymbolCode.isValid c) :
    precision (newWithCode p c) = p ∧ code (newWithCode p c) = c ∧ newWithCode p c < 256 ^ 8 := by
  have bound := code_lt valid
  unfold maxPrecision at small
  unfold precision code newWithCode
  omega

theorem newWithCode_self {symbol : Nat} (valid : isValid symbol) :
    newWithCode (precision symbol) (code symbol) = symbol := by
  have bound := code_lt ((isValid_iff symbol).mp valid).2
  unfold newWithCode precision
  unfold code at bound ⊢
  omega

theorem tryNewWithCode_ok_iff (p c symbol : Nat) : tryNewWithCode p c = .ok symbol ↔
    p ≤ maxPrecision ∧ SymbolCode.isValid c ∧ symbol = newWithCode p c := by
  unfold tryNewWithCode
  split_ifs with high valid
  · simp [high]
  · simp [not_lt.mp high, valid, eq_comm]
  · simp [valid]

/-- The text of a valid symbol is read as that symbol. -/
theorem fromStr_display {symbol : Nat} (valid : isValid symbol) :
    fromStr (display symbol) = .ok symbol := by
  obtain ⟨precise, known⟩ := (isValid_iff symbol).mp valid
  have digits : ∀ c ∈ numeral (precision symbol), c.isDigit := fun _ => isDigit_of_mem_numeral
  have front : ',' ∉ numeral (precision symbol) := fun member => absurd (digits _ member) (by decide)
  have back : ',' ∉ SymbolCode.display (code symbol) := fun member =>
    absurd ((SymbolCode.letters_display known).2 _ member) (by decide)
  have read := (SymbolCode.fromStr_ok_iff _ _).mpr ⟨known, rfl⟩
  have made := (tryNewWithCode_ok_iff _ _ _).mpr ⟨precise, known, (newWithCode_self valid).symm⟩
  have byte : precision symbol < 256 := Nat.mod_lt _ (by decide)
  simp only [fromStr, display, splitOnce_append front, Option.elim_some, bind, Except.bind, back,
    if_false, parseUnsigned_digits (numeral_ne_nil _) digits, value_numeral, byte, if_true, read,
    Except.mapError, made]

end Symbol

/-! Assets as texts. -/

namespace Asset

theorem isValid_iff (a : Asset) :
    a.isValid ↔ a.amount.natAbs ≤ maxAmount ∧ Symbol.isValid a.symbol := by
  simp only [isValid, isAmountWithinRange, Bool.and_eq_true, decide_eq_true_eq]
  apply and_congr_left
  intro _
  omega

theorem isWhitespace_digit {c : Char} (digit : c.isDigit) : isWhitespace c = false := by
  have range := (isDigit_iff c).mp digit
  simp only [isWhitespace, Bool.or_eq_false_iff, Bool.and_eq_false_iff, decide_eq_false_iff_not]
  omega

theorem isWhitespace_code {code : Nat} (valid : SymbolCode.isValid code) :
    SymbolCode.display code ≠ [] ∧ ∀ c ∈ SymbolCode.display code, isWhitespace c = false := by
  obtain ⟨nonempty, letters⟩ := SymbolCode.letters_display valid
  refine ⟨nonempty, fun c member => ?_⟩
  have range := letters c member
  simp only [isWhitespace, Bool.or_eq_false_iff, Bool.and_eq_false_iff, decide_eq_false_iff_not]
  omega

theorem value_padded (width n : Nat) : value (padded width n) = n := by
  rw [padded, value_zeros, value_numeral]

theorem isDigit_of_mem_padded {width n : Nat} {c : Char} (member : c ∈ padded width n) : c.isDigit := by
  rcases mem_append.mp member with zero | digit
  · rw [eq_of_mem_replicate zero]
    rfl
  · exact isDigit_of_mem_numeral digit

theorem length_padded (width n : Nat) : width ≤ (padded width n).length := by
  rw [padded, length_append, length_replicate]
  omega

section
variable {whole fraction : Text}

theorem point_notMem {s : Text} (digits : ∀ c ∈ s, c.isDigit) : '.' ∉ s :=
  fun member => by simpa using digits '.' member

theorem parseMagnitude_split {text : Text}
    (split : (splitOnce '.' text).getD (text, []) = (whole, fraction)) (nonempty : whole ≠ [])
    (digits : ∀ c ∈ whole ++ fraction, c.isDigit) (short : fraction.length ≤ maxPrecision)
    (small : value (whole ++ fraction) ≤ maxAmount) :
    parseMagnitude text = .ok (value (whole ++ fraction), fraction.length) := by
  have all : whole.all Char.isDigit ∧ fraction.all Char.isDigit := by
    simpa [or_imp, forall_and] using digits
  have fits : value (whole ++ fraction) < 2 ^ 64 := by
    unfold maxAmount at small
    omega
  simp only [parseMagnitude, split]
  rw [if_neg (by simp [nonempty]), if_neg (by simp [all]), if_neg (by omega),
    parseUnsigned_digits (by simp [nonempty]) digits, if_pos fits]
  simp [not_lt.mpr small]

end

def signOf (a : Asset) : Text := if a.amount < 0 then ['-'] else []

variable {a : Asset}

theorem display_form (valid : a.isValid) : ∃ d number, a.display = (a.signOf ++ d :: number) ++
        ' ' :: SymbolCode.display (Symbol.code a.symbol) ∧
      d.isDigit ∧ (∀ c ∈ d :: number, c.isDigit ∨ c = '.') ∧
      parseMagnitude (d :: number) = .ok (a.amount.natAbs, Symbol.precision a.symbol) := by
  obtain ⟨range, symbol⟩ := (isValid_iff a).mp valid
  have precise := ((Symbol.isValid_iff _).mp symbol).1
  by_cases units : Symbol.precision a.symbol = 0
  · obtain ⟨d, number, digits⟩ := exists_cons_of_ne_nil (numeral_ne_nil a.amount.natAbs)
    have all : ∀ c ∈ d :: number, c.isDigit := fun c member =>
      isDigit_of_mem_numeral (digits ▸ member)
    have total : value (d :: number) = a.amount.natAbs := by rw [← digits, value_numeral]
    refine ⟨d, number, ?_, all d mem_cons_self, fun c member => .inl (all c member), ?_⟩
    · rw [display, if_pos units, signed, signOf]
      split_ifs <;> simp [digits]
    · have parsed := parseMagnitude_split (by rw [splitOnce_absent (point_notMem all)])
        (by simp) (by simpa using all) (by simp) (by simpa [total] using range)
      simpa [total, units] using parsed
  · let digits := padded (Symbol.precision a.symbol + 1) a.amount.natAbs
    let split := digits.length - Symbol.precision a.symbol
    have long : Symbol.precision a.symbol + 1 ≤ digits.length := length_padded _ _
    have whole : digits.take split ≠ [] := by
      apply ne_nil_of_length_pos
      rw [length_take]
      omega
    have all : ∀ c ∈ digits.take split ++ digits.drop split, c.isDigit := by
      rw [take_append_drop]
      exact fun c member => isDigit_of_mem_padded member
    have total : value (digits.take split ++ digits.drop split) = a.amount.natAbs := by
      rw [take_append_drop, value_padded]
    have places : (digits.drop split).length = Symbol.precision a.symbol := by
      rw [length_drop]
      omega
    have point := point_notMem fun c member => all c (mem_append_left _ member)
    have parsed := parseMagnitude_split (by rw [splitOnce_append point]; rfl) whole all
      (by rw [places]; exact precise) (by rw [total]; exact range)
    rw [total, places] at parsed
    obtain ⟨d, number, front⟩ := exists_cons_of_ne_nil whole
    refine ⟨d, number ++ '.' :: digits.drop split, ?_, ?_, ?_, ?_⟩
    · rw [display, if_neg units, signOf]
      change _ ++ (digits.take split ++ '.' :: digits.drop split) ++ _ = _
      rw [front]
      simp
    · exact all d (by simp [front])
    · intro c member
      rw [← cons_append, ← front, mem_append, mem_cons] at member
      rcases member with early | rfl | late
      · exact .inl (all c (mem_append_left _ early))
      · exact .inr rfl
      · exact .inl (all c (mem_append_right _ late))
    · rw [← cons_append, ← front]
      exact parsed

theorem parseSign_signed {d : Char} (number : Text) (digit : d.isDigit) :
    parseSign (a.signOf ++ d :: number) = (decide (a.amount < 0), d :: number) := by
  have minus : d ≠ '-' := by
    rintro rfl
    simp at digit
  have plus : d ≠ '+' := by
    rintro rfl
    simp at digit
  unfold parseSign signOf
  split_ifs with negative
  · simp [stripPrefix, negative]
  · simp [stripPrefix, minus, plus, negative]

/-- The text of a valid asset is read as that asset. -/
theorem fromStr_display (valid : a.isValid) : fromStr a.display = .ok a := by
  obtain ⟨-, symbol⟩ := (isValid_iff a).mp valid
  obtain ⟨precise, code⟩ := (Symbol.isValid_iff _).mp symbol
  obtain ⟨nonempty, plainCode⟩ := isWhitespace_code code
  obtain ⟨d, number, text, digit, chars, parsed⟩ := display_form valid
  have plainAmount : ∀ c ∈ a.signOf ++ d :: number, isWhitespace c = false := by
    intro c member
    rcases mem_append.mp member with sign | later
    · unfold signOf at sign
      split_ifs at sign
      · rw [mem_singleton.mp sign]
        rfl
      · cases sign
    · rcases chars c later with digit | point
      · exact isWhitespace_digit digit
      · rw [point]
        rfl
  have blank : ' ' ∉ a.signOf ++ d :: number := by
    intro member
    have plain := plainAmount ' ' member
    simp [isWhitespace] at plain
  have symbolRead := (SymbolCode.fromStr_ok_iff _ _).mpr ⟨code, rfl⟩
  have symbolMade := (Symbol.tryNewWithCode_ok_iff _ _ _).mpr
    ⟨precise, code, (Symbol.newWithCode_self symbol).symm⟩
  simp only [fromStr, text, trim_joined (by simp) nonempty plainAmount plainCode,
    splitOnce_append blank, Option.elim_some, bind, Except.bind, trim_plain plainCode, symbolRead,
    Except.mapError, trim_plain plainAmount, parseSign_signed number digit, parsed, symbolMade]
  congr 2
  simp only [decide_eq_true_eq]
  split_ifs <;> omega

/-! Assets as bytes. -/

open Serialization in
theorem lawful_wire : Lawful wire (fun a => a.isValid)
    (fun a => leBytes 8 (a.amount % 256 ^ 8).toNat ++ leBytes 8 a.symbol) where
  size a _ := by
    rw [length_append, length_leBytes, length_leBytes]
    rfl
  writes a valid := (writes_copyFromSlice _).andThen (writes_copyFromSlice _)
  reads a valid := by
    obtain ⟨range, symbol⟩ := (isValid_iff a).mp valid
    have amount : SignedRange 8 a.amount := by
      unfold maxAmount at range
      unfold SignedRange
      omega
    have small : a.symbol < 256 ^ 8 := by
      have bound := Symbol.code_lt ((Symbol.isValid_iff _).mp symbol).2
      unfold Symbol.code at bound
      omega
    have within : isAmountWithinRange a := by
      have both := valid
      simp only [isValid, Bool.and_eq_true] at both
      exact both.1
    apply ((lawful_sint 8).reads a.amount amount).bind
    apply ((lawful_uint 8).reads a.symbol small).map
    rw [if_pos symbol, if_pos within]
  safe := by
    apply (lawful_sint 8).safe.bind
    intro amount
    apply (lawful_uint 8).safe.bind
    intro symbol
    split_ifs
    · exact Reader.safe_pure _
    · exact Reader.safe_fail _
    · exact Reader.safe_fail _

/-! What a text says. -/

/-- A number with `places` digits behind its point and a code, with white space around. -/
structure Denotes (s : Text) (number : ℚ) (places : Nat) (code : Text) : Prop where
  parts : ∃ lead sign whole point fraction gap trail : Text,
    s = lead ++ ((sign ++ (whole ++ (point ++ fraction))) ++ (gap ++ (code ++ trail))) ∧
    (∀ c ∈ lead ++ gap ++ trail, isWhitespace c) ∧ ' ' ∈ gap ∧
    (sign = [] ∨ sign = ['+'] ∨ sign = ['-']) ∧ (point = ['.'] ∨ point = [] ∧ fraction = []) ∧
    (∀ c ∈ whole ++ fraction, c.isDigit) ∧ whole ++ fraction ≠ [] ∧ fraction.length = places ∧
    number = (if sign = ['-'] then -1 else 1) * (value whole + value fraction / 10 ^ places)

theorem parseMagnitude_ok {digits : Text} {magnitude places : Nat}
    (read : parseMagnitude digits = .ok (magnitude, places)) :
    ∃ whole point fraction, digits = whole ++ (point ++ fraction) ∧
      (point = ['.'] ∨ point = [] ∧ fraction = []) ∧ (∀ c ∈ whole ++ fraction, c.isDigit) ∧
      whole ++ fraction ≠ [] ∧ fraction.length = places ∧ places ≤ maxPrecision ∧
      magnitude = value (whole ++ fraction) ∧ magnitude ≤ maxAmount := by
  obtain ⟨whole, point, fraction, split, form, text⟩ : ∃ whole point fraction,
      (splitOnce '.' digits).getD (digits, []) = (whole, fraction) ∧
      (point = ['.'] ∨ point = [] ∧ fraction = []) ∧ digits = whole ++ (point ++ fraction) := by
    cases found : splitOnce '.' digits with
    | none => exact ⟨digits, [], [], rfl, .inr ⟨rfl, rfl⟩, by simp⟩
    | some parts => exact ⟨parts.1, ['.'], parts.2, rfl, .inl rfl, splitOnce_some found⟩
  simp only [parseMagnitude, split] at read
  split_ifs at read with missing other long
  split at read
  · cases read
  · next number parsed =>
    split_ifs at read with high
    cases read
    have all : ∀ c ∈ whole ++ fraction, c.isDigit := by
      simp only [all_eq_true] at other
      intro c member
      rcases mem_append.mp member with early | late
      · exact other.1 c early
      · exact other.2 c late
    have nonempty : whole ++ fraction ≠ [] := by
      rw [Ne, append_eq_nil_iff]
      exact missing
    rw [parseUnsigned_digits nonempty all] at parsed
    split_ifs at parsed
    refine ⟨whole, point, fraction, text, form, all, nonempty, rfl, by omega,
      (Option.some.inj parsed).symm, by omega⟩

theorem parseSign_form (amount : Text) : ∃ sign, amount = sign ++ (parseSign amount).2 ∧
    (sign = [] ∨ sign = ['+'] ∨ sign = ['-']) ∧ ((parseSign amount).1 ↔ sign = ['-']) := by
  cases amount with
  | nil => exact ⟨[], rfl, .inl rfl, by simp [parseSign, stripPrefix]⟩
  | cons c rest =>
    by_cases minus : c = '-'
    · exact ⟨['-'], by simp [parseSign, stripPrefix, minus], by simp, by simp [parseSign, stripPrefix, minus]⟩
    · by_cases plus : c = '+'
      · exact ⟨['+'], by simp [parseSign, stripPrefix, plus], by simp, by simp [parseSign, stripPrefix, plus]⟩
      · exact ⟨[], by simp [parseSign, stripPrefix, minus, plus], by simp,
          by simp [parseSign, stripPrefix, minus]⟩

theorem denotes_of_parts {s amountStr symbolStr : Text} {code magnitude places symbol : Nat}
    (split : splitOnce ' ' (trim s) = some (amountStr, symbolStr))
    (coded : SymbolCode.fromStr (trim symbolStr) = .ok code)
    (parsed : parseMagnitude (parseSign (trim amountStr)).2 = .ok (magnitude, places))
    (made : Symbol.tryNewWithCode places code = .ok symbol) :
    let a : Asset := ⟨if (parseSign (trim amountStr)).1 then -magnitude else magnitude, symbol⟩
    a.isValid ∧ Denotes s ((a.amount : ℚ) / 10 ^ Symbol.precision a.symbol)
      (Symbol.precision a.symbol) (SymbolCode.display (Symbol.code a.symbol)) := by
  obtain ⟨validCode, codeText⟩ := (SymbolCode.fromStr_ok_iff _ _).mp coded
  obtain ⟨few, -, rfl⟩ := (Symbol.tryNewWithCode_ok_iff _ _ _).mp made
  obtain ⟨precision, codeBack, -⟩ := Symbol.precision_newWithCode few validCode
  obtain ⟨whole, point, fraction, digits, form, all, nonempty, size, -, total, small⟩ :=
    parseMagnitude_ok parsed
  obtain ⟨sign, amount, signs, negative⟩ := parseSign_form (trim amountStr)
  obtain ⟨lead, trail, outer, leadBlank, trailBlank⟩ := trim_split s
  obtain ⟨lead', trail', inner, leadBlank', trailBlank'⟩ := trim_split amountStr
  obtain ⟨lead'', trail'', inner', leadBlank'', trailBlank''⟩ := trim_split symbolStr
  dsimp only
  rw [precision, codeBack]
  constructor
  · rw [isValid_iff, Symbol.isValid_iff, precision, codeBack]
    refine ⟨?_, few, validCode⟩
    dsimp only
    split_ifs <;> omega
  · refine ⟨lead ++ lead', sign, whole, point, fraction, trail' ++ ' ' :: lead'', trail'' ++ trail,
      ?_, ?_, by simp, signs, form, all, nonempty, size, ?_⟩
    · rw [← digits, ← amount, ← codeText]
      conv_lhs => rw [outer, splitOnce_some split, inner, inner']
      simp only [append_assoc, cons_append]
    · intro c member
      simp only [mem_append, mem_cons] at member
      have blank : isWhitespace ' ' := by decide
      rcases member with ((h | h) | h | rfl | h) | h | h
      · exact leadBlank c h
      · exact leadBlank' c h
      · exact trailBlank' c h
      · exact blank
      · exact leadBlank'' c h
      · exact trailBlank'' c h
      · exact trailBlank c h
    · have sum : (magnitude : ℚ) = value whole * 10 ^ places + value fraction := by
        rw [total, value_append, size]
        push_cast
        ring
      have exact_ : (magnitude : ℚ) / 10 ^ places = value whole + value fraction / 10 ^ places := by
        rw [sum]
        field_simp
      rw [← exact_]
      by_cases minus : sign = ['-']
      · rw [if_pos (negative.mpr minus), if_pos minus]
        push_cast
        ring
      · rw [if_neg fun flag => minus (negative.mp flag), if_neg minus]
        push_cast
        ring

/-- What is read is valid, and is the number that the text says. -/
theorem denotes_of_fromStr {s : Text} (read : fromStr s = .ok a) :
    a.isValid ∧ Denotes s ((a.amount : ℚ) / 10 ^ Symbol.precision a.symbol)
      (Symbol.precision a.symbol) (SymbolCode.display (Symbol.code a.symbol)) := by
  simp only [fromStr, bind_eq_ok, mapError_eq_ok] at read
  obtain ⟨⟨amountStr, symbolStr⟩, split, code, coded, ⟨magnitude, places⟩, parsed, symbol, made,
    done⟩ := read
  have found : splitOnce ' ' (trim s) = some (amountStr, symbolStr) := by
    cases cut : splitOnce ' ' (trim s) <;> simp_all
  exact Except.ok.inj done ▸ denotes_of_parts found coded parsed made

/-- Every valid asset comes back from its text and from its bytes, wherever these stand; and
every text that is read says exactly the amount of the valid asset it is read for. -/
theorem asset_roundtrip :
    (∀ a : Asset, a.isValid → fromStr a.display = .ok a ∧
      ∃ packed, wire.pack a = some (.ok packed) ∧ packed.length = 16 ∧
        ∀ front tail, wire.read (front ++ (packed ++ tail)) front.length =
          some (.ok a, front.length + packed.length)) ∧
    ∀ s a, fromStr s = .ok a → a.isValid ∧
      Denotes s ((a.amount : ℚ) / 10 ^ Symbol.precision a.symbol) (Symbol.precision a.symbol)
        (SymbolCode.display (Symbol.code a.symbol)) := by
  refine ⟨fun a valid => ⟨fromStr_display valid, _, lawful_wire.pack valid,
    lawful_wire.size a valid, lawful_wire.reads a valid⟩, fun s a read => denotes_of_fromStr read⟩

-- a value between -1 and 0, with blanks in all places where they may stand
example : fromStr [' ', '-', '0', '.', '5', ' ', ' ', 'S', 'Y', 'S', '\n'] =
    .ok ⟨-5, Symbol.newWithCode 1 0x535953⟩ := by decide +kernel

end Asset

end PulseVM.Types
