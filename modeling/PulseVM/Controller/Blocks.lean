import PulseVM.Controller.Features
import PulseVM.Serialization.Roundtrip

/-!
Blocks: receipts, headers with their extensions, and the producer schedules that headers
announce and promote.
-/

namespace PulseVM.Controller
open Lib.Encoding

/-! Time. -/

def blockTimestampEpochMs : Nat := 946684800000

/-- The microsecond at which a slot starts. -/
def slotMicros (slot : UInt32) : Int64 :=
  Int64.ofNat ((slot.toNat * 500 + blockTimestampEpochMs) * 1000)

def slotSeconds (slot : UInt32) : UInt32 :=
  UInt32.ofNat ((slot.toNat * 500 + blockTimestampEpochMs) * 1000 / 1000000)

def maxFutureBlockTimeSlots : Nat := 20

/-! Receipts. -/

inductive TransactionStatus where
  | executed
  | softFail
  | hardFail
  | delayed
  | expired
  deriving DecidableEq, Repr

structure TransactionReceiptHeader where
  status : TransactionStatus
  cpuUsageUs : UInt32
  netUsageWords : UInt32
  deriving DecidableEq, Repr

/-- An input transaction is committed in packed form, a generated one by its id. -/
inductive ReceiptTransaction where
  | id (id : Id)
  | packed (transaction : PackedTransaction)
  deriving DecidableEq, Repr

structure TransactionReceipt where
  header : TransactionReceiptHeader
  trx : ReceiptTransaction
  deriving DecidableEq, Repr

namespace TransactionReceipt

def packedTrx (receipt : TransactionReceipt) : Option PackedTransaction :=
  match receipt.trx with
  | .packed transaction => some transaction
  | .id _ => none

def transactionId (receipt : TransactionReceipt) : Id :=
  match receipt.trx with
  | .packed transaction => transaction.id
  | .id id => id

end TransactionReceipt

/-- Traces of actions are kept as they were packed. -/
structure TransactionTrace where
  id : Id
  blockNum : UInt32
  blockTime : UInt32
  scheduled : Bool
  receipt : TransactionReceiptHeader
  actionTraces : Bytes
  deriving DecidableEq, Repr

/-! Schedules. -/

abbrev PublicKey := Bytes

structure ProducerKey where
  producerName : UInt64
  blockSigningKey : PublicKey
  deriving DecidableEq, Repr

structure ProducerSchedule where
  version : UInt32
  producers : List ProducerKey
  deriving DecidableEq, Repr

def ProducerSchedule.blockSigningKey (schedule : ProducerSchedule) (producer : UInt64) :
    Option PublicKey :=
  (schedule.producers.find? (·.producerName = producer)).map (·.blockSigningKey)

structure TransactionResult where
  trace : TransactionTrace
  billedCpuTimeUs : UInt32
  actionReceiptDigests : List Digest
  proposedSchedule : Option (List ProducerKey)
  deriving DecidableEq, Repr

/-! Headers. -/

structure BlockHeader where
  timestamp : UInt32
  producer : UInt64
  confirmed : UInt16
  previous : Id
  transactionMroot : Digest
  actionMroot : Digest
  scheduleVersion : UInt32
  newProducers : Option ProducerSchedule
  headerExtensions : List (UInt16 × Bytes)
  deriving DecidableEq, Repr

structure SignedBlock where
  header : BlockHeader
  signature : Bytes
  transactions : List TransactionReceipt
  blockExtensions : List (UInt16 × Bytes)
  deriving DecidableEq, Repr

/-- The first four bytes of an id are the block's number, most significant first. -/
def numFromId (id : Id) : UInt32 :=
  UInt32.ofNat (id.toList.take 4 |>.foldl (fun n byte => n * 256 + byte.toNat) 0)

def BlockHeader.blockNum (header : BlockHeader) : UInt32 := numFromId header.previous + 1

def SignedBlock.blockNum (block : SignedBlock) : UInt32 := block.header.blockNum

def protocolFeatureActivationExtensionId : UInt16 := 0

def producerScheduleChangeExtensionId : UInt16 := 1

/-- How what headers carry is written. -/
structure Wire where
  readSchedule : Bytes → Except String ProducerSchedule
  readAuthoritySchedule : Bytes → Except String ProducerSchedule
  packHeader : BlockHeader → Except String Bytes
  hash : Bytes → Digest
  fromDeferredTransactionBytes : Bytes → Except ChainError PackedTransaction

namespace Wire

variable (wire : Wire)

def packedHeader (header : BlockHeader) : Except ChainError Bytes :=
  (wire.packHeader header).mapError .serializationError

def digest (header : BlockHeader) : Except ChainError Digest :=
  (wire.packedHeader header).map wire.hash

def sigDigest : BlockHeader → Except ChainError Digest := wire.digest

/-- The block's number takes the place of the first four bytes of the digest. -/
def calculateId (header : BlockHeader) : Except ChainError Id :=
  (wire.digest header).map fun digest => Vector.ofFn fun i =>
    if i.val < 4 then UInt8.ofNat (header.blockNum.toNat / 256 ^ (3 - i.val)) else digest[i]

def blockId (block : SignedBlock) : Except ChainError Id := wire.calculateId block.header

/-- The payload of the one extension that changes the schedule. -/
def authorityPayload : Option Bytes → List (UInt16 × Bytes) → Except ChainError (Option Bytes)
  | found, [] => .ok found
  | found, (id, payload) :: rest =>
    if id = producerScheduleChangeExtensionId then
      if found.isSome then
        .error (.blockError "duplicate producer schedule change extension")
      else authorityPayload (some payload) rest
    else authorityPayload found rest

/-- The schedule that a header announces, in the old place or in an extension. -/
def newSchedule (header : BlockHeader) : Except ChainError (Option ProducerSchedule) := do
  match ← authorityPayload none header.headerExtensions with
  | none => .ok header.newProducers
  | some payload =>
    if header.newProducers.isSome then
      .error (.blockError "block contains both legacy and authority producer schedules")
    else
      match wire.readAuthoritySchedule payload with
      | .ok schedule => .ok (some schedule)
      | .error error => .error (.blockError s!"invalid producer schedule change extension: {error}")

end Wire

/-! The features that a header activates. -/

/-- The digests at the start of a payload, and what is behind them. -/
def readDigests (payload : Bytes) : Except String (List Digest × Bytes) :=
  match (Serialization.vec Serialization.digest).read payload 0 with
  | some (.ok digests, pos) => .ok (digests, payload.drop pos)
  | some (.error error, _) => .error error.display
  -- a read that starts in its buffer does not panic
  | none => .error "panicked"

def packDigests (digests : List Digest) : Except String Bytes :=
  match (Serialization.vec Serialization.digest).pack digests with
  | some (.ok payload) => .ok payload
  | some (.error error) => .error error.display
  -- neither does a write into a buffer of the announced size
  | none => .error "panicked"

/-- Read the payload of an activation extension, which has to hold something. -/
def readActivations (payload : Bytes) : Except ChainError (List Digest) :=
  match readDigests payload with
  | .error error =>
    .error (.blockError s!"invalid protocol feature activation extension: {error}")
  | .ok (features, rest) =>
    if rest ≠ [] ∨ features = [] then .error (.blockError
      "protocol feature activation extension must contain a non-empty digest vector")
    else if ¬features.Nodup then .error (.blockError
      "protocol feature activation extension contains a duplicate digest")
    else .ok features

def decodeActivations : Option (List Digest) → List (UInt16 × Bytes) →
    Except ChainError (List Digest)
  | decoded, [] => .ok (decoded.getD [])
  | decoded, (id, payload) :: rest =>
    if id = producerScheduleChangeExtensionId then decodeActivations decoded rest
    else if id ≠ protocolFeatureActivationExtensionId then
      .error (.blockError s!"unsupported block header extension {id}")
    else if decoded.isSome then
      .error (.blockError "duplicate protocol feature activation extension")
    else do
      let features ← readActivations payload
      decodeActivations (some features) rest

/-- The features that a header activates; none if it has no such extension. -/
def BlockHeader.protocolFeatureActivations (header : BlockHeader) :
    Except ChainError (List Digest) :=
  decodeActivations none header.headerExtensions

/-- Without features a header gets no extension. -/
def BlockHeader.setProtocolFeatureActivations (header : BlockHeader) (features : List Digest) :
    Except ChainError BlockHeader :=
  if features = [] then .ok { header with headerExtensions := [] }
  else
    match packDigests features with
    | .ok payload => .ok { header with
        headerExtensions := [(protocolFeatureActivationExtensionId, payload)] }
    | .error error => .error (.serializationError error)

theorem readDigests_packDigests {digests : List Digest} (fits : digests.length < 2 ^ 32) :
    ∃ payload, packDigests digests = .ok payload ∧ readDigests payload = .ok (digests, []) := by
  have lawful := Serialization.lawful_vec Serialization.lawful_digest
  have ok : digests.length < 2 ^ 32 ∧ ∀ d ∈ digests, True := ⟨fits, fun _ _ => trivial⟩
  have packed := lawful.pack ok
  have read := lawful.reads digests ok [] []
  simp only [List.nil_append, List.append_nil, List.length_nil, Nat.zero_add] at read
  refine ⟨_, by rw [packDigests, packed], ?_⟩
  rw [readDigests, read]
  simp

/-- A header says what it was told to activate. -/
theorem BlockHeader.activations_of_set {header filled : BlockHeader} {features : List Digest}
    (distinct : features.Nodup) (fits : features.length < 2 ^ 32)
    (set : header.setProtocolFeatureActivations features = .ok filled) :
    filled.protocolFeatureActivations = .ok features := by
  unfold setProtocolFeatureActivations at set
  split_ifs at set with silent
  · cases set
    rw [silent]
    rfl
  · obtain ⟨payload, packed, read⟩ := readDigests_packDigests fits
    rw [packed] at set
    cases set
    simp [protocolFeatureActivations, decodeActivations, readActivations, read, silent, distinct,
      protocolFeatureActivationExtensionId, producerScheduleChangeExtensionId, bind, Except.bind]

def pulseAssert (condition : Bool) (error : ChainError) : Except ChainError Unit :=
  if condition then .ok () else .error error

def BlockHeader.validateTimestamp (header : BlockHeader) (parentTimestamp now : UInt32) :
    Except ChainError Unit := do
  pulseAssert (parentTimestamp < header.timestamp) (.blockError
    s!"block timestamp {header.timestamp} is not after parent timestamp {parentTimestamp}")
  let maxAllowed := min (now.toNat + maxFutureBlockTimeSlots) (2 ^ 32 - 1)
  pulseAssert (header.timestamp.toNat ≤ maxAllowed) (.blockError
    s!"block timestamp {header.timestamp} is too far in the future (maximum {maxAllowed})")

def SignedBlock.validateSemantically (block : SignedBlock) (transactionMroot actionMroot : Digest) :
    Except ChainError Unit := do
  pulseAssert (block.header.transactionMroot = transactionMroot) (.blockError
    s!"transaction merkle root mismatch: expected {hexEncode transactionMroot}, got {hexEncode block.header.transactionMroot}")
  pulseAssert (block.header.actionMroot = actionMroot) (.blockError
    s!"action merkle root mismatch: expected {hexEncode actionMroot}, got {hexEncode block.header.actionMroot}")

/-! The schedules along a chain of headers. -/

structure ProducerScheduleState where
  active : ProducerSchedule
  pending : Option ProducerSchedule
  deriving DecidableEq, Repr

namespace ProducerScheduleState

/-- A header that names another version promotes the pending schedule. -/
def promote (state : ProducerScheduleState) (version : UInt32) :
    Except ChainError (Bool × ProducerScheduleState) :=
  if version = state.active.version then .ok (false, state)
  else
    match state.pending with
    | none => .error (.blockError
        s!"block declares active schedule version {version}, but current version is {state.active.version} and no schedule is pending")
    | some pending =>
      if pending.version ≠ version then .error (.blockError
        s!"block declares active schedule version {version}, but pending version is {pending.version}")
      else .ok (true, ⟨pending, none⟩)

def announce (state : ProducerScheduleState) (schedule : ProducerSchedule) :
    Except ChainError ProducerScheduleState :=
  if state.pending.isSome then .error (.blockError
    "block sets new pending producers before the prior schedule became active")
  else if schedule.version ≠ state.active.version + 1 then .error (.blockError
    s!"new pending schedule version {schedule.version} does not follow active version {state.active.version}")
  else .ok { state with pending := some schedule }

/-- Whether the header promoted a schedule, and the schedules after it. -/
def applyHeader (wire : Wire) (state : ProducerScheduleState) (header : BlockHeader) :
    Except ChainError (Bool × ProducerScheduleState) := do
  let (promoted, state) ← state.promote header.scheduleVersion
  match ← wire.newSchedule header with
  | none => return (promoted, state)
  | some schedule => return (promoted, ← state.announce schedule)

end ProducerScheduleState

end PulseVM.Controller
