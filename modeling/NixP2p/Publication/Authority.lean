import Mathlib.Data.List.Sort
import Mathlib.Data.String.Basic
import NixP2p.Base.Bytes
import NixP2p.Base.HashTable
import NixP2p.Publication.Publisher

/-!
# The publication authority

The authority holds, for each signer it admits, the signed packet of the highest sequence. Every change is written to the state file before it is answered, and a write that fails after the rename poisons the store until a restart. The wall clock has a durable high water; a monotonic clock bounds how long an entry is shown. Signatures and the packet library are fields of `SignedPacketCodec`.
-/

namespace NixP2p

open HashTable Checked Wire

inductive SignedPacketVerifyError where
  | signatureError (why : String)
  | other (why : String)

class SignedPacketCodec where
  PublicKey : Type
  decEqPublicKey : DecidableEq PublicKey
  SignedPacket : Type
  fromZ32 : String → Option PublicKey
  toZ32 : PublicKey → String
  fromRelayPayload : PublicKey → List UInt8 → Except SignedPacketVerifyError SignedPacket
  fromBytes : List UInt8 → Except String SignedPacket
  publicKey : SignedPacket → PublicKey
  asBytes : SignedPacket → List UInt8
  toRelayPayload : SignedPacket → List UInt8

export SignedPacketCodec (PublicKey SignedPacket)

instance [SignedPacketCodec] : DecidableEq PublicKey := SignedPacketCodec.decEqPublicKey

structure AuthorityError where
  message : String
  deriving DecidableEq

structure AuthorityEntry where
  highWaterSequence : UInt64
  expiresUnixMicros : UInt64
  state : PublicationState
  expired : Bool
  packet : List UInt8
  deriving DecidableEq

structure AuthorityIdentity where
  schemaVersion : UInt32
  stateNamespace : String
  signedRecipient : String
  signerAdmissionBlake3Hex : String
  deriving DecidableEq

structure AuthorityStateBody where
  identity : AuthorityIdentity
  wallClockHighWaterUnixMicros : UInt64
  records : Table String AuthorityEntry

structure AuthorityAnchorEntry where
  highWaterSequence : UInt64
  expired : Bool
  packetBlake3Hex : String
  deriving DecidableEq

structure AuthorityAnchorBody where
  identity : AuthorityIdentity
  wallClockHighWaterUnixMicros : UInt64
  records : List (String × AuthorityAnchorEntry)
  deriving DecidableEq

structure PublicationAuthorityConfig where
  recordNamespace : String
  signedRecipient : String
  signerAdmission : List String

def authorityStateSchema : UInt32 := 1

def clockHighWaterGranularityMicros : UInt64 := 1000000

def expiryClockGraceMicros : UInt64 := 1000000

def authorityAdmissionDomain : List UInt8 :=
  "nix-p2p/iroh-node-publication-authority/admission/v1\x00".toUTF8.data.toList

namespace PublicationAuthorityConfig

def admits (config : PublicationAuthorityConfig) (signer : String) : Bool :=
  config.signerAdmission.contains signer

def fingerprint [Blake3] (config : PublicationAuthorityConfig) : String :=
  blake3Hex (authorityAdmissionDomain ++ "explicit\x00".toUTF8.data.toList ++
    config.signerAdmission.flatMap fun signer =>
      beBytes 8 signer.utf8ByteSize ++ signer.toUTF8.data.toList)

def identity [Blake3] (config : PublicationAuthorityConfig) : AuthorityIdentity where
  schemaVersion := authorityStateSchema
  stateNamespace := config.recordNamespace
  signedRecipient := config.signedRecipient
  signerAdmissionBlake3Hex := config.fingerprint

end PublicationAuthorityConfig

namespace AuthorityStateBody

def fresh [Blake3] (config : PublicationAuthorityConfig) : AuthorityStateBody := ⟨config.identity, 0, ∅⟩

def inOrder (body : AuthorityStateBody) : List (String × AuthorityEntry) :=
  (toEntries body.records).insertionSort fun left right => left.1 ≤ right.1

end AuthorityStateBody

def AuthorityAnchorBody.fromState [Blake3] (body : AuthorityStateBody) : AuthorityAnchorBody where
  identity := body.identity
  wallClockHighWaterUnixMicros := body.wallClockHighWaterUnixMicros
  records := body.inOrder.map fun (signer, entry) =>
    (signer, ⟨entry.highWaterSequence, entry.expired, blake3Hex entry.packet⟩)

section Codec

variable [NodeRecordCodec] [SignedPacketCodec]

def validateAuthorityEntry (config : PublicationAuthorityConfig) (signer : String) (entry : AuthorityEntry) :
    Except AuthorityError Unit :=
  match SignedPacketCodec.fromBytes entry.packet with
  | .error why => .error ⟨s!"stored authority packet invalid: {why}"⟩
  | .ok signed =>
    if SignedPacketCodec.toZ32 (SignedPacketCodec.publicKey signed) ≠ signer then
      .error ⟨"stored authority signer key does not match map key"⟩
    else match decodeNodeRecord entry.packet with
      | .error why => .error ⟨s!"stored node record invalid: {why}"⟩
      | .ok record =>
        if record.sequence ≠ entry.highWaterSequence ∨
            record.expiresUnixMicros ≠ entry.expiresUnixMicros ∨
            record.recordNamespace ≠ config.recordNamespace ∨
            record.recipient ≠ config.signedRecipient ∨ record.state ≠ entry.state then
          .error ⟨"stored authority entry metadata does not match signed packet"⟩
        else .ok ()

variable [Blake3]

def validateAuthorityState (body : AuthorityStateBody) (config : PublicationAuthorityConfig) :
    Except AuthorityError Unit :=
  if body.identity ≠ config.identity then
    .error ⟨"authority state schema/namespace/recipient does not match configuration"⟩
  else body.inOrder.forM fun (signer, entry) => validateAuthorityEntry config signer entry

def checkAuthorityAnchor (current anchor : AuthorityAnchorBody) : Except AuthorityError Unit :=
  if anchor.identity ≠ current.identity then
    .error ⟨"authority rollback anchor identity does not match configuration/state"⟩
  else if current.wallClockHighWaterUnixMicros < anchor.wallClockHighWaterUnixMicros then
    .error ⟨"authority state wall-clock high-water is below rollback anchor"⟩
  else anchor.records.forM fun (signer, anchored) =>
    match current.records.lookup signer with
    | none => .error ⟨s!"authority state omitted signer {signer} retained by rollback anchor"⟩
    | some candidate =>
      if candidate.highWaterSequence < anchored.highWaterSequence ∨
          (candidate.highWaterSequence = anchored.highWaterSequence ∧
            (candidate.packetBlake3Hex ≠ anchored.packetBlake3Hex ∨
              (anchored.expired = true ∧ candidate.expired = false))) then
        .error ⟨s!"authority state for signer {signer} regressed below rollback anchor"⟩
      else .ok ()

/-- A write that fails before the rename, or after it, with each file then as it was or as it was to be. -/
inductive AuthorityWrite where
  | done
  | failed (why : String)
  | ambiguous (stateKept anchorKept : Bool) (why : String)

/-- The two files, and every state the state file has held, the oldest first. -/
structure AuthorityFiles where
  stateFile : Option AuthorityStateBody := none
  anchorFile : Option AuthorityAnchorBody := none
  written : List AuthorityStateBody := []

namespace AuthorityFiles

def putState (files : AuthorityFiles) (body : AuthorityStateBody) : AuthorityFiles :=
  { files with stateFile := some body, written := files.written ++ [body] }

def putAnchor (files : AuthorityFiles) (anchor : AuthorityAnchorBody) : AuthorityFiles :=
  { files with anchorFile := some anchor }

def keep (files : AuthorityFiles) (body : AuthorityStateBody) (stateKept anchorKept : Bool) :
    AuthorityFiles :=
  let files := if stateKept then files.putState body else files
  if anchorKept then files.putAnchor (.fromState body) else files

def writeAnchor (files : AuthorityFiles) (anchor : AuthorityAnchorBody) :
    AnchorAnswer → Except AuthorityError Unit × AuthorityFiles
  | .done => (.ok (), files.putAnchor anchor)
  | .failed why => (.error ⟨why⟩, files)
  | .renamed why => (.error ⟨why⟩, files.putAnchor anchor)

def validateOrInitializeAnchor (files : AuthorityFiles) (body : AuthorityStateBody) (hadState : Bool)
    (outcome : AnchorAnswer) : Except AuthorityError Unit × AuthorityFiles :=
  let current := AuthorityAnchorBody.fromState body
  match files.anchorFile with
  | none =>
    if hadState then
      (.error ⟨"iroh-node-publication-authority-anchor.json is missing while authority state exists; refusing a rollback-ambiguous state"⟩, files)
    else files.writeAnchor current outcome
  | some anchor =>
    match checkAuthorityAnchor current anchor with
    | .error why => (.error why, files)
    | .ok () => if current ≠ anchor then files.writeAnchor current outcome else (.ok (), files)

end AuthorityFiles

/-- The clock is further below the durable high water than its granularity. -/
def clockRegressed (body : AuthorityStateBody) (now : UInt64) : Bool :=
  body.wallClockHighWaterUnixMicros ≠ 0 ∧
    saturatingAddU64 now clockHighWaterGranularityMicros < body.wallClockHighWaterUnixMicros

/-- Reading the state file, or beginning without one, and refusing a clock that went back. -/
def AuthorityFiles.openStore (files : AuthorityFiles) (config : PublicationAuthorityConfig)
    (outcome : AnchorAnswer) (clock : Except AuthorityError UInt64) :
    Except AuthorityError AuthorityStateBody × AuthorityFiles :=
  let body := files.stateFile.getD (.fresh config)
  match validateAuthorityState body config with
  | .error why => (.error why, files)
  | .ok () =>
    match files.validateOrInitializeAnchor body files.stateFile.isSome outcome with
    | (.error why, files) => (.error why, files)
    | (.ok (), files) =>
      match clock with
      | .error why => (.error why, files)
      | .ok now =>
        if clockRegressed body now then
          (.error ⟨s!"authority wall clock regressed from durable high-water {body.wallClockHighWaterUnixMicros} to {now}; refusing to serve until clock recovery"⟩, files)
        else (.ok body, files)

def instantLimit : Nat := 2 ^ 63 * 10 ^ 9

def instantAddMicros (instant : Nat) (micros : UInt64) : Option Nat :=
  within instantLimit (instant + micros.toNat * 1000) (instant + micros.toNat * 1000)

def monotonicExpiryDeadlines (body : AuthorityStateBody) (now : UInt64) (instant : Nat) : Table String Nat :=
  filterMapValues (fun entry : AuthorityEntry =>
    if entry.expired then none else instantAddMicros instant (remainingMicros entry.expiresUnixMicros now))
    body.records

structure AuthorityInner where
  config : PublicationAuthorityConfig
  files : AuthorityFiles
  state : AuthorityStateBody
  monotonicExpiry : Table String Nat
  poisoned : Bool := false

inductive AuthorityMethod where
  | get
  | put
  deriving DecidableEq

structure AuthorityRequest where
  method : AuthorityMethod
  signer : String
  body : List UInt8

structure AuthorityResponse where
  status : UInt16
  reason : String
  body : List UInt8 := []
  deriving DecidableEq

namespace AuthorityResponse

def notFound : AuthorityResponse := ⟨404, "Not Found", []⟩

def forbidden : AuthorityResponse := ⟨403, "Forbidden", []⟩

def unprocessable : AuthorityResponse := ⟨422, "Unprocessable Entity", []⟩

def conflict : AuthorityResponse := ⟨409, "Conflict", []⟩

end AuthorityResponse

abbrev AuthorityReply := Except AuthorityError AuthorityResponse

/-- What the clocks and the disk say during one request. -/
structure RequestMoment where
  now : UInt64
  instant : Nat
  outcome : AuthorityWrite

namespace AuthorityInner

def commit (inner : AuthorityInner) (candidate : AuthorityStateBody) :
    AuthorityWrite → Except AuthorityError Unit × AuthorityInner
  | .done => (.ok (), { inner with files := inner.files.keep candidate true true, state := candidate })
  | .failed why => (.error ⟨why⟩, inner)
  | .ambiguous stateKept anchorKept why =>
    (.error ⟨s!"{why}; authority state store is poisoned until restart"⟩,
      { inner with files := inner.files.keep candidate stateKept anchorKept, poisoned := true })

def showPacket (packet : List UInt8) : AuthorityReply :=
  match SignedPacketCodec.fromBytes packet with
  | .error why => .error ⟨s!"stored response packet invalid: {why}"⟩
  | .ok signed => .ok ⟨200, "OK", SignedPacketCodec.toRelayPayload signed⟩

def monotonicExpired (inner : AuthorityInner) (signer : String) (instant : Nat) : Bool :=
  (inner.monotonicExpiry.lookup signer).any fun deadline => deadline ≤ instant

def latched (inner : AuthorityInner) (signer : String) (entry : AuthorityEntry) (now : UInt64) :
    AuthorityStateBody :=
  { inner.state with
    wallClockHighWaterUnixMicros := max inner.state.wallClockHighWaterUnixMicros now
    records := inner.state.records.insert signer { entry with expired := true } }

def serveGet (inner : AuthorityInner) (signer : String) (moment : RequestMoment) :
    AuthorityReply × AuthorityInner :=
  match inner.state.records.lookup signer with
  | none => (.ok .notFound, inner)
  | some entry =>
    if entry.expired then (.ok .notFound, inner)
    else if entry.expiresUnixMicros ≤ moment.now ∨ inner.monotonicExpired signer moment.instant then
      match inner.commit (inner.latched signer entry moment.now) moment.outcome with
      | (.error why, inner) => (.error why, inner)
      | (.ok (), inner) =>
        (.ok .notFound, { inner with monotonicExpiry := inner.monotonicExpiry.erase signer })
    else if clockHighWaterGranularityMicros ≤
        remainingMicros moment.now inner.state.wallClockHighWaterUnixMicros then
      match inner.commit { inner.state with wallClockHighWaterUnixMicros := moment.now } moment.outcome with
      | (.error why, inner) => (.error why, inner)
      | (.ok (), inner) => (showPacket entry.packet, inner)
    else (showPacket entry.packet, inner)

/-- The checks of a packet that do not look at the state. -/
def readPut (config : PublicationAuthorityConfig) (signer : String) (body : List UInt8) (now : UInt64) :
    Except AuthorityReply (SignedPacket × NodeRecord Location) :=
  match SignedPacketCodec.fromZ32 signer with
  | none => .error (.ok .unprocessable)
  | some key =>
    match SignedPacketCodec.fromRelayPayload key body with
    | .error _ => .error (.ok .unprocessable)
    | .ok signed =>
      if SignedPacketCodec.toZ32 (SignedPacketCodec.publicKey signed) ≠ signer then
        .error (.ok .unprocessable)
      else match decodeNodeRecord (SignedPacketCodec.asBytes signed) with
        | .error _ => .error (.ok .unprocessable)
        | .ok record =>
          if record.recordNamespace ≠ config.recordNamespace ∨ record.recipient ≠ config.signedRecipient then
            .error (.ok .unprocessable)
          else match (addU64 now (record.ttlSeconds.toUInt64 * 1000000)).bind (addU64 · expiryClockGraceMicros) with
            | none => .error (.error ⟨"record expiry bound overflow"⟩)
            | some maxExpiry =>
              if record.expiresUnixMicros ≤ now ∨ maxExpiry < record.expiresUnixMicros then
                .error (.ok .unprocessable)
              else .ok (signed, record)

def superseded (existing : AuthorityEntry) (record : NodeRecord Location) (packet : List UInt8) :
    Option AuthorityResponse :=
  if existing.expired ∧ record.sequence ≤ existing.highWaterSequence then some .conflict
  else if record.sequence < existing.highWaterSequence then some .conflict
  else if record.sequence = existing.highWaterSequence then
    if existing.packet = packet then some ⟨200, "OK", []⟩ else some .conflict
  else none

def entryOf (record : NodeRecord Location) (packet : List UInt8) : AuthorityEntry where
  highWaterSequence := record.sequence
  expiresUnixMicros := record.expiresUnixMicros
  state := record.state
  expired := false
  packet := packet

def accepting (inner : AuthorityInner) (signer : String) (entry : AuthorityEntry) (now : UInt64) :
    AuthorityStateBody :=
  { inner.state with
    wallClockHighWaterUnixMicros := max inner.state.wallClockHighWaterUnixMicros now
    records := inner.state.records.insert signer entry }

def servePut (inner : AuthorityInner) (signer : String) (body : List UInt8) (moment : RequestMoment) :
    AuthorityReply × AuthorityInner :=
  match readPut inner.config signer body moment.now with
  | .error reply => (reply, inner)
  | .ok (signed, record) =>
    let packet := SignedPacketCodec.asBytes signed
    match (inner.state.records.lookup signer).bind fun existing => superseded existing record packet with
    | some response => (.ok response, inner)
    | none =>
      match inner.commit (inner.accepting signer (entryOf record packet) moment.now) moment.outcome with
      | (.error why, inner) => (.error why, inner)
      | (.ok (), inner) =>
        match instantAddMicros moment.instant (remainingMicros record.expiresUnixMicros moment.now) with
        | none => (.error ⟨"authority monotonic expiry deadline overflow"⟩, inner)
        | some deadline =>
          (.ok ⟨201, "Created", []⟩,
            { inner with monotonicExpiry := inner.monotonicExpiry.insert signer deadline })

def applyRequestAt (inner : AuthorityInner) (request : AuthorityRequest) (moment : RequestMoment) :
    AuthorityReply × AuthorityInner :=
  if !inner.config.admits request.signer then
    (.ok (if request.method = .get then .notFound else .forbidden), inner)
  else if inner.poisoned then
    (.error ⟨"authority state store is poisoned after an ambiguous post-rename persistence failure; restart is required"⟩, inner)
  else if clockRegressed inner.state moment.now then
    (.error ⟨s!"authority wall clock regressed from durable high-water {inner.state.wallClockHighWaterUnixMicros} to {moment.now}; request failed closed"⟩, inner)
  else match request.method with
    | .get => inner.serveGet request.signer moment
    | .put => inner.servePut request.signer request.body moment

end AuthorityInner

structure StartMoment where
  anchor : AnchorAnswer
  opening : Except AuthorityError UInt64
  now : UInt64
  instant : Nat

inductive AuthorityEvent where
  | start (config : PublicationAuthorityConfig) (moment : StartMoment)
  | request (request : AuthorityRequest) (moment : RequestMoment)
  | crash

/-- Between two processes only the files count. -/
structure AuthorityHost where
  running : Bool
  inner : AuthorityInner

namespace AuthorityHost

def start (host : AuthorityHost) (config : PublicationAuthorityConfig) (moment : StartMoment) : AuthorityHost :=
  match host.inner.files.openStore config moment.anchor moment.opening with
  | (.error _, files) => ⟨false, { host.inner with files }⟩
  | (.ok body, files) =>
    ⟨true, { config, files, state := body
             monotonicExpiry := monotonicExpiryDeadlines body moment.now moment.instant }⟩

def serve (host : AuthorityHost) (request : AuthorityRequest) (moment : RequestMoment) :
    Option AuthorityReply × AuthorityHost :=
  if host.running then
    let (reply, inner) := host.inner.applyRequestAt request moment
    (some reply, ⟨true, inner⟩)
  else (none, host)

def step (host : AuthorityHost) : AuthorityEvent → AuthorityHost
  -- The lock keeps a second process out.
  | .start config moment => if host.running then host else host.start config moment
  | .request request moment => (host.serve request moment).2
  | .crash => { host with running := false }

def first : AuthorityHost where
  running := false
  inner := {
    config := ⟨"", "", []⟩
    files := {}
    state := .fresh ⟨"", "", []⟩
    monotonicExpiry := ∅ }

def run (events : List AuthorityEvent) : AuthorityHost := events.foldl step first

end AuthorityHost

end Codec

end NixP2p
