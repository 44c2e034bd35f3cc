import PulseVM.Chain.ApplyContext
import PulseVM.Controller.Mempool
import PulseVM.Lib.Codec

/-!
Protocol features. A privileged contract queues a feature, and the header of a later block
activates what is queued.
-/

namespace PulseVM.Controller
open Lib.Encoding Lib.Codec

/-- Why the controller refuses something. -/
inductive ChainError where
  | blockError (message : String)
  | transactionError (message : String)
  | networkError (message : String)
  | internalError (message : String)
  | serializationError (message : String)
  | databaseError (message : String)
  | apply (error : Chain.ChainError)
  deriving DecidableEq, Repr

def hexDigit (n : Nat) : Char := "0123456789abcdef".toList.getD n '0'

def hexEncode (digest : Digest) : String :=
  String.ofList (digest.toList.flatMap fun byte =>
    [hexDigit (byte.toNat / 16), hexDigit (byte.toNat % 16)])

/-- A digest written as a number, first byte first. -/
def digestOf (value : Nat) : Digest :=
  Vector.ofFn fun i => UInt8.ofNat (value / 256 ^ (31 - i.val))

/-! What is known of each feature. -/

structure ProtocolFeatureSpec where
  dependencies : List Digest
  preactivationRequired : Bool

/-- The node's own configuration enables this one, so a header may activate it directly. -/
def preactivateFeature : Digest :=
  digestOf 0x0ec7e080177b2c02b278d5088611686b49d739925a92d9bfcacd7fc6b74053bd

def replaceDeferred : Digest :=
  digestOf 0xef43112c6543b88db2283a2e077278c315ae2c84719a8b25f25cc88565fbea99

def noDuplicateDeferredId : Digest :=
  digestOf 0x4a90c00d55454dc5b059055ca213579c6ea856967712a56017487886a4d4cc0f

def disableDeferredTrxsStage1 : Digest :=
  digestOf 0xfce57d2331667353a0eac6b4209b67b843a7262a848af0a49a6e2fa9f6584eb4

def disableDeferredTrxsStage2 : Digest :=
  digestOf 0x09e86cb0accf8d81c9e85d34bea4b925ae936626d00c984e4691186891f5bc16

def independentFeatures : List Digest := [
  digestOf 0x1a99a59d87e06e09ec5b028a9cbb7749b4a5ad8819004365d02dc4379a8b7241,
  replaceDeferred,
  digestOf 0xe0fb64b1085cc5538970158d05a009c24e276fb94e1a0bf6a528b48fbc4ff526,
  digestOf 0x68dcaa34c0517d19666e6b33add67351d8c5f69e999ca1e37931bc410a297428,
  digestOf 0xad9e3d8f650687709fd68f4b90b41f7d825a365b02c23a636cef88ac2ac00c43,
  digestOf 0x8ba52fe7a3956c5cd3a656a3174b931d3bb2abb45578befc59f283ecd816a405,
  digestOf 0x2652f5f96006294109b3dd0bbde63693f55324af452b799ee137a81a905eed25,
  digestOf 0xf0af56d2c5a48d60a4a5b5c903edfb7db3a736a94ed589d0b797df33ff9d3e1d,
  digestOf 0x4e7bf348da00a945489b2a681749eb56f5de00b900014e137ddae39f48f69d67,
  digestOf 0x4fca8bd82bbd181e714e283f83e1b45d95ca5af40fb89ad3977b653c448f78c2,
  digestOf 0x299dcb6af692324b899b39f16d5a530a33062804e41f09dc97e9f156b4476707,
  digestOf 0xc3a6138c5061cf291310887c0b5c71fcaffeab90d5deb50d3b9e687cead45071,
  digestOf 0xd528b9f6e9693f45ed277af93474fd473ce7d831dae2180cca35d907bd10cb40,
  digestOf 0x5443fcf88330c586bc0e5f3dee10e7f63c76c00249c87fe4fbf7f38c082006b4,
  digestOf 0xbcd2a26394b36614fd4894241d3c451ab0f6fd110958c3423073621a70826e99,
  digestOf 0x6bcb40a24e49c26d0a60513b6aeb8551d264e4717f306b81a37a5afb3b47cedc,
  digestOf 0x35c2186cc36f7bb4aeaf4487b36e57039ccf45a9136aa856a5d569ecca55ef2b,
  digestOf 0x63320dd4a58212e4d32d1f58926b73ca33a247326c2a5e9fd39268d2384e011a,
  disableDeferredTrxsStage1]

def protocolFeatureSpec (digest : Digest) : Option ProtocolFeatureSpec :=
  if digest = preactivateFeature then some ⟨[], false⟩
  else if digest ∈ independentFeatures then some ⟨[], true⟩
  else if digest = noDuplicateDeferredId then some ⟨[replaceDeferred], true⟩
  else if digest = disableDeferredTrxsStage2 then some ⟨[disableDeferredTrxsStage1], true⟩
  else none

/-! The tables. -/

/-- The features that are active, with the block that activated them, and the ordered queue
of those that wait for a header. -/
structure ProtocolFeatures where
  activated : List (Digest × UInt32)
  preactivated : List Digest
  deriving DecidableEq, Repr

namespace ProtocolFeatures

variable (features : ProtocolFeatures)

def protocolFeatureActivated (digest : Digest) : Bool := features.activated.any (·.1 = digest)

/-- Queue a feature: the storage refuses what is active or queued. -/
def queue (digest : Digest) : Except ChainError ProtocolFeatures :=
  if features.protocolFeatureActivated digest then .error (.internalError
    "arena preactivate feature: Corrupted(\"protocol feature is already activated\")")
  else if digest ∈ features.preactivated then .error (.internalError
    "arena preactivate feature: Corrupted(\"protocol feature is already preactivated\")")
  else .ok { features with preactivated := features.preactivated ++ [digest] }

def preactivateProtocolFeature (digest : Digest) : Except ChainError ProtocolFeatures :=
  match protocolFeatureSpec digest with
  | none => .error (.internalError s!"unrecognized protocol feature {hexEncode digest}")
  | some spec =>
    if !spec.preactivationRequired then .error (.internalError
      s!"protocol feature {hexEncode digest} does not support preactivation")
    else
      match spec.dependencies.find? fun dependency =>
        !features.protocolFeatureActivated dependency && dependency ∉ features.preactivated with
      | some dependency => .error (.internalError
          s!"protocol feature {hexEncode digest} requires dependency {hexEncode dependency}")
      | none => features.queue digest

/-- What a header's activation of a feature has to satisfy, with the features before it in
the header. -/
def checkActivation (earlier : List Digest) (digest : Digest) : Except ChainError Unit :=
  match protocolFeatureSpec digest with
  | none => .error (.blockError s!"unrecognized protocol feature {hexEncode digest}")
  | some spec =>
    if digest ∈ earlier then .error (.blockError
      s!"protocol feature activation contains duplicate {hexEncode digest}")
    else if features.protocolFeatureActivated digest then .error (.blockError
      s!"protocol feature {hexEncode digest} is already activated")
    else if spec.preactivationRequired && digest ∉ features.preactivated then .error (.blockError
      s!"protocol feature {hexEncode digest} requires prior preactivation")
    else
      match spec.dependencies.find? fun dependency =>
        !features.protocolFeatureActivated dependency && dependency ∉ earlier with
      | some dependency => .error (.blockError
          s!"protocol feature {hexEncode digest} requires dependency {hexEncode dependency} to be active earlier")
      | none => .ok ()

def checkActivations : List Digest → List Digest → Except ChainError Unit
  | _, [] => .ok ()
  | earlier, digest :: rest => do
    features.checkActivation earlier digest
    checkActivations (earlier ++ [digest]) rest

def activateOne (activationBlockNum : UInt32) (digest : Digest) : ProtocolFeatures where
  activated := features.activated ++ [(digest, activationBlockNum)]
  preactivated := features.preactivated.erase digest

/-- The storage checks once more that nothing is active or listed twice. -/
def checkStored : List Digest → List Digest → Except ChainError Unit
  | _, [] => .ok ()
  | earlier, digest :: rest =>
    if features.protocolFeatureActivated digest then .error (.blockError
      "protocol feature activation: Corrupted(\"protocol feature is already activated\")")
    else if digest ∈ earlier then .error (.blockError
      "protocol feature activation: Corrupted(\"protocol feature activation list contains a duplicate\")")
    else checkStored (earlier ++ [digest]) rest

def store (digests : List Digest) (activationBlockNum : UInt32) :
    Except ChainError ProtocolFeatures :=
  if digests = [] then .error (.blockError
    "protocol feature activation: Corrupted(\"protocol feature activation list is empty\")")
  else do
    features.checkStored [] digests
    return digests.foldl (activateOne · activationBlockNum) features

/-- Activate the features that a header lists, which have to include the whole queue. -/
def activateProtocolFeatures (digests : List Digest) (activationBlockNum : UInt32) :
    Except ChainError ProtocolFeatures :=
  if features.preactivated.any (· ∉ digests) then .error (.blockError
    "protocol feature activation must include the complete preactivation queue")
  else do
    features.checkActivations [] digests
    features.store digests activationBlockNum

/-! What activation does. -/

variable {features} {after : ProtocolFeatures} {digest : Digest}

theorem activated_foldl_eq (digests : List Digest) (activationBlockNum : UInt32) :
    (digests.foldl (activateOne · activationBlockNum) features).activated =
      features.activated ++ digests.map (·, activationBlockNum) := by
  induction digests generalizing features with
  | nil => simp
  | cons digest rest ih =>
    rw [List.foldl_cons, ih]
    simp [activateOne]

theorem preactivated_foldl (digests : List Digest) (activationBlockNum : UInt32) :
    (digests.foldl (activateOne · activationBlockNum) features).preactivated =
      features.preactivated.diff digests := by
  induction digests generalizing features with
  | nil => simp
  | cons digest rest ih =>
    rw [List.foldl_cons, ih, List.diff_cons]
    rfl

variable {digests : List Digest} {activationBlockNum : UInt32}

theorem preactivated_foldl_nil (activationBlockNum : UInt32) (nodup : features.preactivated.Nodup)
    (complete : ∀ digest ∈ features.preactivated, digest ∈ digests) :
    (digests.foldl (activateOne · activationBlockNum) features).preactivated = [] := by
  rw [preactivated_foldl, nodup.sdiff_eq_filter, List.filter_eq_nil_iff]
  intro digest queued
  simp [complete digest queued]

theorem activateProtocolFeatures_ok
    (done : features.activateProtocolFeatures digests activationBlockNum = .ok after) :
    features.checkActivations [] digests = .ok () ∧ (∀ digest ∈ features.preactivated, digest ∈ digests) ∧
      after = digests.foldl (activateOne · activationBlockNum) features := by
  unfold activateProtocolFeatures at done
  split_ifs at done with complete
  obtain ⟨_, checked, stored⟩ := bind_eq_ok.mp done
  unfold store at stored
  split_ifs at stored
  obtain ⟨_, _, same⟩ := bind_eq_ok.mp stored
  exact ⟨checked, by simpa using complete, (Except.ok.inj same).symm⟩

theorem preactivateProtocolFeature_ok
    (done : features.preactivateProtocolFeature digest = .ok after) :
    after = { features with preactivated := features.preactivated ++ [digest] } ∧
      features.protocolFeatureActivated digest = false ∧ digest ∉ features.preactivated := by
  unfold preactivateProtocolFeature at done
  split at done
  · cases done
  · split at done
    · cases done
    · split at done
      · cases done
      · unfold queue at done
        split at done
        · cases done
        · rename_i inactive
          split at done
          · cases done
          · rename_i fresh
            cases done
            exact ⟨rfl, by simpa using inactive, fresh⟩

/-! The queue over time. -/

/-- No feature waits twice, and none that waits is active. -/
structure Sound (features : ProtocolFeatures) : Prop where
  nodup : features.preactivated.Nodup
  apart : ∀ digest ∈ features.preactivated, features.protocolFeatureActivated digest = false

/-- What contracts can do to the features: queue some of them. -/
def Queues : ProtocolFeatures → ProtocolFeatures → Prop :=
  Relation.ReflTransGen fun before after =>
    ∃ digest, before.preactivateProtocolFeature digest = .ok after

instance : IsPreorder ProtocolFeatures Queues where
  refl _ := .refl
  trans _ _ _ := .trans

theorem Queues.kept (queues : features.Queues after) :
    after.activated = features.activated ∧ features.preactivated ⊆ after.preactivated := by
  induction queues with
  | refl => exact ⟨rfl, List.Subset.refl _⟩
  | tail _ step ih =>
    obtain ⟨digest, queued⟩ := step
    obtain ⟨rfl, _⟩ := preactivateProtocolFeature_ok queued
    exact ⟨ih.1, List.Subset.trans ih.2 (List.subset_append_left _ _)⟩

theorem Queues.sound (queues : features.Queues after) (sound : features.Sound) : after.Sound := by
  induction queues with
  | refl => exact sound
  | tail _ step ih =>
    obtain ⟨digest, queued⟩ := step
    obtain ⟨rfl, inactive, fresh⟩ := preactivateProtocolFeature_ok queued
    constructor
    · rw [← List.concat_eq_append]
      exact ih.nodup.concat fresh
    · intro other waits
      rcases List.mem_append.mp waits with before | added
      · exact ih.apart other before
      · rw [List.mem_singleton.mp added]
        exact inactive

theorem activated_of_queued
    (done : features.activateProtocolFeatures digests activationBlockNum = .ok after)
    {other : Digest}
    (waits : other ∈ features.preactivated ∨ features.protocolFeatureActivated other) :
    after.protocolFeatureActivated other := by
  obtain ⟨_, complete, rfl⟩ := activateProtocolFeatures_ok done
  rw [protocolFeatureActivated, activated_foldl_eq]
  rcases waits with queued | active
  · simp [complete other queued]
  · simp_all [protocolFeatureActivated]

theorem sound_activate
    (done : features.activateProtocolFeatures digests activationBlockNum = .ok after)
    (sound : features.Sound) : after.Sound := by
  obtain ⟨_, complete, rfl⟩ := activateProtocolFeatures_ok done
  have empty := preactivated_foldl_nil activationBlockNum sound.nodup complete
  exact ⟨by simp [empty], by simp [empty]⟩

end ProtocolFeatures

end PulseVM.Controller
