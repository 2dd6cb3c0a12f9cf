import NixP2p.Base.Hex
import NixP2p.Transfer.Bao

/-!
# The publisher's state and its rollback anchor

A publisher keeps a state file, which says what it wants to publish and which packets it has prepared, and beside it an anchor, a short witness of the state last written. The state is written before the anchor, and a state that the anchor does not witness is refused unless it can only be ahead. The packet library and the URL parser are fields of `NodeRecordCodec`.
-/

namespace NixP2p

inductive PublicationState where
  | live
  | withdrawn
  deriving DecidableEq

structure NodeRecord (Location : Type) where
  nodeIdHex : String
  recordNamespace : String
  recipient : String
  ttlSeconds : UInt32
  sequence : UInt64
  expiresUnixMicros : UInt64
  state : PublicationState
  locations : List Location
  deriving DecidableEq

inductive NodeRecordErrorKind where
  | malformedOrUntrusted
  | noDialableCandidate
  deriving DecidableEq

structure NodeRecordError where
  kind : NodeRecordErrorKind
  message : String
  deriving DecidableEq

instance : ToString NodeRecordError := ⟨fun error => error.message⟩

/-- What the publisher takes from the record codec; a packet reads back as what was signed, up to its locations' canonical form. -/
class NodeRecordCodec where
  Location : Type
  decEqLocation : DecidableEq Location
  isRelay : Location → Bool
  canonicalLocations : List Location → Except NodeRecordError (List Location)
  locationsJson : List Location → List UInt8
  encodeNodeRecord : NodeRecord Location → Except NodeRecordError (List UInt8)
  decodeNodeRecord : List UInt8 → Except NodeRecordError (NodeRecord Location)
  decode_encode : ∀ {record packet}, encodeNodeRecord record = .ok packet →
    ∃ locations, decodeNodeRecord packet = .ok { record with locations }

export NodeRecordCodec (Location isRelay canonicalLocations locationsJson encodeNodeRecord
  decodeNodeRecord)

instance [NodeRecordCodec] : DecidableEq Location := NodeRecordCodec.decEqLocation

inductive PublicationErrorKind where
  | configuration
  | state
  | transport
  | authority
  | visibility
  | closed
  deriving DecidableEq

structure PublicationError where
  kind : PublicationErrorKind
  message : String

namespace PublicationError

def ofState (message : String) : PublicationError := ⟨.state, message⟩

def ofRecord (why : NodeRecordError) : PublicationError :=
  ⟨.configuration, s!"invalid node-publication record configuration: {why}"⟩

end PublicationError

open PublicationError

def publicationStateSchema : UInt32 := 1

def desiredAnchorHashDomain : List UInt8 :=
  "nix-p2p/iroh-node-publication-anchor/desired-locations/v1\x00".toUTF8.data.toList

structure StoredPacket where
  sequence : UInt64
  desiredRevision : UInt64
  expiresUnixMicros : UInt64
  kind : PublicationState
  packet : List UInt8
  deriving DecidableEq

/-- Whose publication it is, the same for every process of a history. -/
structure PublicationIdentity where
  schemaVersion : UInt32 := publicationStateSchema
  nodeIdHex : String
  stateNamespace : String
  signedRecipient : String
  deriving DecidableEq

structure PublicationAnchorBody where
  identity : PublicationIdentity
  desiredRevision : UInt64
  desiredLocationsBlake3Hex : String
  highWaterSequence : UInt64
  latestPacketSequence : Option UInt64
  latestPacketBlake3Hex : Option String
  latestPacketCommitted : Bool
  deriving DecidableEq

section Codec

variable [NodeRecordCodec]

structure PublicationStateBody where
  identity : PublicationIdentity
  desiredRevision : UInt64
  desiredLocations : List Location
  highWaterSequence : UInt64
  committed : Option StoredPacket
  pending : Option StoredPacket
  deriving DecidableEq

/-- The part of the configuration that may differ between two processes. -/
structure PublicationSettings where
  ttlSeconds : UInt32
  /-- In nanoseconds. -/
  requestDeadline : Nat
  initialLocations : List Location
  relayLocationsAllowed : Bool

namespace PublicationStateBody

def fresh (identity : PublicationIdentity) (settings : PublicationSettings) : PublicationStateBody where
  identity := identity
  desiredRevision := 1
  desiredLocations := settings.initialLocations
  highWaterSequence := 0
  committed := none
  pending := none

def lastSequence (body : PublicationStateBody) : Option UInt64 :=
  if body.highWaterSequence ≠ 0 then some body.highWaterSequence else none

def canonicalDesired (body : PublicationStateBody) : Except PublicationError (List Location) :=
  (canonicalLocations body.desiredLocations).mapError ofRecord

def packets (body : PublicationStateBody) : List StoredPacket :=
  body.committed.toList ++ body.pending.toList

end PublicationStateBody

def desiredState (locations : List Location) : PublicationState :=
  if locations.isEmpty then .withdrawn else .live

def storedPacketMatches (identity : PublicationIdentity) (settings : PublicationSettings)
    (body : PublicationStateBody) (desired : List Location) (stored : StoredPacket)
    (record : NodeRecord Location) : Bool :=
  record.nodeIdHex = identity.nodeIdHex ∧ record.recordNamespace = identity.stateNamespace ∧
    record.recipient = identity.signedRecipient ∧ record.sequence = stored.sequence ∧
    stored.desiredRevision ≤ body.desiredRevision ∧
    record.expiresUnixMicros = stored.expiresUnixMicros ∧ record.state = stored.kind ∧
    ¬(stored.desiredRevision = body.desiredRevision ∧
      (record.state ≠ desiredState desired ∨ record.locations ≠ desired)) ∧
    ¬(settings.relayLocationsAllowed = false ∧ record.locations.any isRelay)

def validateStoredPacket (identity : PublicationIdentity) (settings : PublicationSettings)
    (body : PublicationStateBody) (desired : List Location) (stored : StoredPacket) :
    Except PublicationError Unit :=
  match decodeNodeRecord stored.packet with
  | .error why => .error (ofState s!"stored packet is invalid: {why}")
  | .ok record =>
    if storedPacketMatches identity settings body desired stored record then .ok ()
    else .error (ofState "stored publication packet metadata does not match state envelope")

def validateLoadedState (body : PublicationStateBody) (identity : PublicationIdentity)
    (settings : PublicationSettings) : Except PublicationError Unit :=
  if body.identity ≠ identity then
    .error (ofState
      "publication state identity/namespace/recipient/schema does not match configuration")
  else do
    let desired ← body.canonicalDesired
    if body.desiredRevision = 0 then
      .error (ofState "stored desired publication revision must be positive")
    else if settings.relayLocationsAllowed = false ∧ desired.any isRelay then
      .error (ofState "stored desired publication intent contains a relay without relay authorization")
    else
      body.packets.forM (validateStoredPacket identity settings body desired)
      match body.committed, body.pending with
      | some committed, some pending =>
        if pending.sequence ≤ committed.sequence then
          .error (ofState "pending publication sequence does not advance committed state")
        else checkHighWater body
      | _, _ => checkHighWater body
where
  checkHighWater (body : PublicationStateBody) : Except PublicationError Unit :=
    if body.packets.any fun packet => decide (body.highWaterSequence < packet.sequence) then
      .error (ofState "publication high-water sequence is below a stored packet sequence")
    else .ok ()

variable [Blake3]

def blake3Hex (bytes : List UInt8) : String := String.ofList (Hex.encode (Blake3.hash bytes).1)

def PublicationStateBody.latestPacket (body : PublicationStateBody) : Option (StoredPacket × Bool) :=
  (body.pending.map fun packet => (packet, false)).or (body.committed.map fun packet => (packet, true))

def PublicationAnchorBody.fromState (body : PublicationStateBody) : PublicationAnchorBody where
  identity := body.identity
  desiredRevision := body.desiredRevision
  desiredLocationsBlake3Hex := blake3Hex (desiredAnchorHashDomain ++ locationsJson body.desiredLocations)
  highWaterSequence := body.highWaterSequence
  latestPacketSequence := body.latestPacket.map fun latest => latest.1.sequence
  latestPacketBlake3Hex := body.latestPacket.map fun latest => blake3Hex latest.1.packet
  latestPacketCommitted := body.latestPacket.any fun latest => latest.2

def checkAnchor (current anchor : PublicationAnchorBody) : Except PublicationError Unit :=
  if anchor.identity ≠ current.identity then
    .error (ofState "publisher rollback anchor identity does not match state/configuration")
  else if current.highWaterSequence < anchor.highWaterSequence ∨
      current.desiredRevision < anchor.desiredRevision then
    .error (ofState "publisher state regressed below rollback anchor high-water")
  else if current.desiredRevision = anchor.desiredRevision ∧
      current.desiredLocationsBlake3Hex ≠ anchor.desiredLocationsBlake3Hex then
    .error (ofState "publisher desired locations changed at the rollback-anchor revision")
  else if current.highWaterSequence = anchor.highWaterSequence then
    let packetChanged := current.latestPacketSequence ≠ anchor.latestPacketSequence ∨
      current.latestPacketBlake3Hex ≠ anchor.latestPacketBlake3Hex
    let legitimatelyRetiredPending := anchor.latestPacketCommitted = false ∧
      anchor.latestPacketSequence = some anchor.highWaterSequence ∧
      current.latestPacketSequence ≠ some current.highWaterSequence
    if packetChanged ∧ ¬legitimatelyRetiredPending then
      .error (ofState "publisher state packet at rollback-anchor high-water changed or disappeared")
    else if anchor.latestPacketCommitted ∧ current.latestPacketCommitted = false ∧
        current.latestPacketSequence = anchor.latestPacketSequence then
      .error (ofState "publisher state regressed from committed to pending at rollback-anchor high-water")
    else .ok ()
  else .ok ()

end Codec

end NixP2p
