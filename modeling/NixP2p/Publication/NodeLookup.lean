import NixP2p.Publication.Authority

/-!
# Looking a node up

A lookup asks the pinned authority for the signed record of one node and checks it against a table with the highest sequence validated for each node, the hash of its packet and its validity. The table is locked before the request goes out and when the answer has been read; lookups interleave between these two points, or are dropped.
-/

namespace NixP2p

open HashTable Checked

inductive NodeLookupUnavailableKind where
  | emptyNamespace
  | untrustedConfiguration
  | authorityStatus
  | authorityConnectionRefused
  | authorityConnect
  | authorityWrite
  | authorityRead
  | authorityProtocol
  | deadline
  | badSignature
  | malformedOrUntrustedRecord
  | namespaceMismatch
  | recipientMismatch
  | nodeIdMismatch
  | staleSequence
  | conflictingReplay
  | expired
  | withdrawn
  | noDialableCandidate
  | capacity
  | clockRollback
  | closed
  deriving DecidableEq

structure NodeLookupUnavailable where
  kind : NodeLookupUnavailableKind
  message : String
  validatedSignedPacket : Option (UInt64 × String) := none
  deriving DecidableEq

def packetHashHex (packetHash : Hash) : String := String.ofList (Hex.encode packetHash.1)

def NodeLookupUnavailable.withValidatedSignedPacket (error : NodeLookupUnavailable) (sequence : UInt64)
    (packetHash : Hash) : NodeLookupUnavailable :=
  { error with validatedSignedPacket := some (sequence, packetHashHex packetHash) }

inductive PinnedHttpErrorKind where
  | configuration
  | connectionRefused
  | connect
  | write
  | read
  | protocol
  | deadline

structure PinnedHttpError where
  kind : PinnedHttpErrorKind
  message : String

def mapHttpError (error : PinnedHttpError) : NodeLookupUnavailable :=
  let kind := match error.kind with
    | .configuration => .untrustedConfiguration
    | .connectionRefused => .authorityConnectionRefused
    | .connect => .authorityConnect
    | .write => .authorityWrite
    | .read => .authorityRead
    | .protocol => .authorityProtocol
    | .deadline => .deadline
  ⟨kind, error.message, none⟩

def mapSignedPacketError : SignedPacketVerifyError → NodeLookupUnavailable
  | .signatureError why => ⟨.badSignature, s!"pkarr response rejected: {why}", none⟩
  | .other why => ⟨.malformedOrUntrustedRecord, s!"pkarr response rejected: {why}", none⟩

structure NodeLookupConfig where
  recordNamespace : String
  signedRecipient : String

structure ClockReading where
  wallUnixMicros : UInt64
  monotonic : Nat

def nodeLookupSchedulerGraceMicros : UInt64 := 1000000

def maxNodeLocations : Nat := 16

section Codec

variable [NodeRecordCodec]

structure NodeLookupResult where
  nodeId : String
  recordNamespace : String
  recipient : String
  ttlSeconds : UInt32
  sequence : UInt64
  expiresUnixMicros : UInt64
  candidates : List Location
  signedPacketBlake3Hex : String
  deriving DecidableEq

def NodeLookupResult.fromRecord (record : NodeRecord Location) (packetHash : Hash) : NodeLookupResult where
  nodeId := record.nodeIdHex
  recordNamespace := record.recordNamespace
  recipient := record.recipient
  ttlSeconds := record.ttlSeconds
  sequence := record.sequence
  expiresUnixMicros := record.expiresUnixMicros
  candidates := record.locations
  signedPacketBlake3Hex := packetHashHex packetHash

structure HighWater where
  sequence : UInt64
  packetHash : Hash
  observedMonotonic : Nat
  validForAtObservation : Nat
  cached : Option NodeLookupResult

structure LookupState where
  highWater : Table String HighWater := ∅
  lastWallUnixMicros : Option UInt64 := none

abbrev LookupOutcome (α : Type) := Except NodeLookupUnavailable α

namespace LookupState

def observeWallClock (state : LookupState) (wall : UInt64) : LookupOutcome Unit × LookupState :=
  match state.lastWallUnixMicros with
  | some previous =>
    if wall < previous then
      (.error ⟨.clockRollback, s!"wall clock moved backward from {previous} to {wall} microseconds", none⟩, state)
    else (.ok (), { state with lastWallUnixMicros := some wall })
  | none => (.ok (), { state with lastWallUnixMicros := some wall })

def readAndObserveClock (state : LookupState) (clock : LookupOutcome ClockReading) :
    LookupOutcome ClockReading × LookupState :=
  match clock with
  | .error error => (.error error, state)
  | .ok reading =>
    match state.observeWallClock reading.wallUnixMicros with
    | (.error error, state) => (.error error, state)
    | (.ok (), state) => (.ok reading, state)

def expiredError (sequence : UInt64) : NodeLookupUnavailable :=
  ⟨.expired, s!"record sequence {sequence} is expired", none⟩

def withdrawnError (sequence : UInt64) : NodeLookupUnavailable :=
  ⟨.withdrawn, s!"record sequence {sequence} is a withdrawal", none⟩

def recordStateError (record : NodeRecord Location) : NodeLookupUnavailable :=
  match record.state with
  | .withdrawn => withdrawnError record.sequence
  | .live => ⟨.noDialableCandidate, s!"record sequence {record.sequence} has no cached live result", none⟩

def capacityError (capacity : Nat) : NodeLookupUnavailable :=
  ⟨.capacity, s!"node lookup replay table is full at {capacity} identities", none⟩

/-- Why a new record cannot be used, if it cannot. -/
def newStateError (record : NodeRecord Location) (wall : UInt64) : Option NodeLookupUnavailable :=
  if remainingMicros record.expiresUnixMicros wall = 0 then some (expiredError record.sequence)
  else match record.state with
    | .withdrawn => some (withdrawnError record.sequence)
    | .live =>
      if record.locations = [] then
        some ⟨.noDialableCandidate, s!"record sequence {record.sequence} has no dialable candidate", none⟩
      else none

def highWaterOf (record : NodeRecord Location) (packetHash : Hash) (reading : ClockReading) : HighWater where
  sequence := record.sequence
  packetHash := packetHash
  observedMonotonic := reading.monotonic
  validForAtObservation := (remainingMicros record.expiresUnixMicros reading.wallUnixMicros).toNat * 1000
  cached := if (newStateError record reading.wallUnixMicros).isNone then
    some (.fromRecord record packetHash) else none

/-- A sequence above the one in the table is entered, whether or not the record can be used. -/
def advance (state : LookupState) (nodeId : String) (record : NodeRecord Location) (packetHash : Hash)
    (reading : ClockReading) : LookupOutcome NodeLookupResult × LookupState :=
  let state := { state with
    highWater := state.highWater.insert nodeId (highWaterOf record packetHash reading) }
  match newStateError record reading.wallUnixMicros with
  | none => (.ok (.fromRecord record packetHash), state)
  | some error => (.error error, state)

def replay (existing : HighWater) (record : NodeRecord Location) (reading : ClockReading) :
    LookupOutcome NodeLookupResult :=
  if record.expiresUnixMicros ≤ reading.wallUnixMicros ∨
      existing.validForAtObservation ≤ reading.monotonic - existing.observedMonotonic then
    .error (expiredError record.sequence)
  else match existing.cached with
    | some cached => .ok cached
    | none => .error (recordStateError record)

def validateAndAdvance (state : LookupState) (capacity : Nat) (nodeId : String) (record : NodeRecord Location)
    (packetHash : Hash) (reading : ClockReading) : LookupOutcome NodeLookupResult × LookupState :=
  if saturatingAddU64 reading.wallUnixMicros nodeLookupSchedulerGraceMicros < record.sequence then
    (.error ⟨.malformedOrUntrustedRecord,
      s!"record sequence {record.sequence} is more than 1s in the future", none⟩, state)
  else match state.highWater.lookup nodeId with
    | some existing =>
      if record.sequence < existing.sequence then
        (.error ⟨.staleSequence,
          s!"record sequence {record.sequence} is below runtime high-water {existing.sequence}", none⟩, state)
      else if record.sequence = existing.sequence ∧ packetHash ≠ existing.packetHash then
        (.error ⟨.conflictingReplay,
          s!"record sequence {record.sequence} conflicts with a different signed packet", none⟩, state)
      else if record.sequence = existing.sequence then (replay existing record reading, state)
      else state.advance nodeId record packetHash reading
    | none =>
      if capacity ≤ state.highWater.entries.length then (.error (capacityError capacity), state)
      else state.advance nodeId record packetHash reading

end LookupState

variable [SignedPacketCodec] [Blake3]

structure NodeLookupCore where
  config : NodeLookupConfig
  capacity : Nat
  closed : Bool := false
  state : LookupState := {}

structure LookupTarget where
  nodeId : String
  publicKey : PublicKey

/-- The points before the request goes out where the deadline is looked at, and the clock. -/
structure PreflightMoment where
  lateLock : Bool
  closedMeanwhile : Bool
  lateAdmission : Bool
  clock : LookupOutcome ClockReading

/-- The answer, the points after it where the deadline is looked at, and the clock. -/
structure AnswerMoment where
  response : Except PinnedHttpError HttpReply
  lateResponse : Bool
  lateValidation : Bool
  lateLock : Bool
  clock : LookupOutcome ClockReading
  lateOutcome : Bool

def deadlineError (phase : String) : NodeLookupUnavailable :=
  ⟨.deadline, s!"node lookup exhausted its absolute 10000 ms deadline{phase}", none⟩

namespace NodeLookupCore

def preflight (core : NodeLookupCore) (nodeId : String) (moment : PreflightMoment) :
    LookupOutcome Unit × NodeLookupCore :=
  if core.closed then (.error ⟨.closed, "node lookup runtime is closed", none⟩, core)
  else if moment.lateLock then
    (.error (deadlineError " waiting for replay state before network admission"), core)
  else if moment.closedMeanwhile then
    (.error ⟨.closed, "node lookup runtime closed while waiting for replay state", none⟩, core)
  else match core.state.readAndObserveClock moment.clock with
    | (.error error, state) => (.error error, { core with state })
    | (.ok _, state) =>
      let core := { core with state }
      if (state.highWater.lookup nodeId).isNone ∧ core.capacity ≤ state.highWater.entries.length then
        (.error (LookupState.capacityError core.capacity), core)
      else if moment.lateAdmission then (.error (deadlineError " before network admission"), core)
      else (.ok (), core)

def readAnswer (core : NodeLookupCore) (target : LookupTarget) (response : Except PinnedHttpError HttpReply)
    (lateResponse : Bool) : LookupOutcome (List UInt8 × NodeRecord Location) :=
  match response with
  | .error error => .error (mapHttpError error)
  | .ok reply =>
    if lateResponse then .error (deadlineError "")
    else if reply.status = 404 then
      .error ⟨.emptyNamespace, s!"authority namespace has no record for NodeId {target.nodeId}", none⟩
    else if reply.status ≠ 200 then
      .error ⟨.authorityStatus, s!"lookup authority returned HTTP status {reply.status}", none⟩
    else match SignedPacketCodec.fromRelayPayload target.publicKey reply.body with
      | .error error => .error (mapSignedPacketError error)
      | .ok signed =>
        if SignedPacketCodec.publicKey signed ≠ target.publicKey then
          .error ⟨.badSignature, "verified packet signer differs from asker-supplied NodeId", none⟩
        else match decodeNodeRecord (SignedPacketCodec.asBytes signed) with
          | .error error =>
            .error ⟨if error.kind = .noDialableCandidate then .noDialableCandidate
              else .malformedOrUntrustedRecord, s!"signed node record rejected: {error}", none⟩
          | .ok record =>
            if record.nodeIdHex ≠ target.nodeId then
              .error ⟨.nodeIdMismatch,
                s!"signed record NodeId {record.nodeIdHex} differs from requested {target.nodeId}", none⟩
            else if record.recordNamespace ≠ core.config.recordNamespace then
              .error ⟨.namespaceMismatch, s!"signed namespace {record.recordNamespace.quote} differs from configured {core.config.recordNamespace.quote}", none⟩
            else if record.recipient ≠ core.config.signedRecipient then
              .error ⟨.recipientMismatch, s!"signed recipient {record.recipient.quote} differs from configured {core.config.signedRecipient.quote}", none⟩
            else if maxNodeLocations < record.locations.length then
              .error ⟨.malformedOrUntrustedRecord, s!"record has {record.locations.length} candidates, maximum is {maxNodeLocations}", none⟩
            else .ok (SignedPacketCodec.asBytes signed, record)

def store (core : NodeLookupCore) (validated : LookupOutcome NodeLookupResult × LookupState) :
    LookupOutcome NodeLookupResult × NodeLookupCore :=
  (validated.1, { core with state := validated.2 })

/-- The clock is observed and the table asked in one critical section. -/
def settle (core : NodeLookupCore) (nodeId : String) (record : NodeRecord Location) (packetHash : Hash)
    (clock : LookupOutcome ClockReading) : LookupOutcome NodeLookupResult × NodeLookupCore :=
  match core.state.readAndObserveClock clock with
  | (.error error, state) => (.error error, { core with state })
  | (.ok reading, state) =>
    core.store (state.validateAndAdvance core.capacity nodeId record packetHash reading)

/-- The outcome is given out unless it came too late. -/
def deliver (late : Bool) (sequence : UInt64) (packetHash : Hash)
    (settled : LookupOutcome NodeLookupResult × NodeLookupCore) :
    LookupOutcome NodeLookupResult × NodeLookupCore :=
  let tag := fun error : NodeLookupUnavailable => error.withValidatedSignedPacket sequence packetHash
  if late then (.error (tag (deadlineError " during replay/freshness validation")), settled.2)
  else (settled.1.mapError tag, settled.2)

def conclude (core : NodeLookupCore) (target : LookupTarget) (moment : AnswerMoment) :
    LookupOutcome NodeLookupResult × NodeLookupCore :=
  match core.readAnswer target moment.response moment.lateResponse with
  | .error error => (.error error, core)
  | .ok (packet, record) =>
    let packetHash := Blake3.hash packet
    let tag := fun error : NodeLookupUnavailable => error.withValidatedSignedPacket record.sequence packetHash
    if moment.lateValidation then
      (.error (tag (deadlineError " during signed-record validation")), core)
    else if moment.lateLock then
      (.error (tag (deadlineError " waiting for replay state after signed-record validation")), core)
    else
      deliver moment.lateOutcome record.sequence packetHash
        (core.settle target.nodeId record packetHash moment.clock)

end NodeLookupCore

inductive LookupEvent where
  | preflight (lookup : Nat) (target : LookupTarget) (moment : PreflightMoment)
  | conclude (lookup : Nat) (moment : AnswerMoment)
  | drop (lookup : Nat)
  | close

structure LookupRuntime where
  core : NodeLookupCore
  waiting : Table Nat LookupTarget := ∅

namespace LookupRuntime

def finish (runtime : LookupRuntime) (lookup : Nat)
    (concluded : LookupOutcome NodeLookupResult × NodeLookupCore) :
    Option (LookupOutcome NodeLookupResult) × LookupRuntime :=
  (some concluded.1, ⟨concluded.2, runtime.waiting.erase lookup⟩)

def conclude (runtime : LookupRuntime) (lookup : Nat) (moment : AnswerMoment) :
    Option (LookupOutcome NodeLookupResult) × LookupRuntime :=
  match runtime.waiting.lookup lookup with
  | none => (none, runtime)
  | some target => runtime.finish lookup (runtime.core.conclude target moment)

def step (runtime : LookupRuntime) : LookupEvent → LookupRuntime
  | .preflight lookup target moment =>
    match runtime.core.preflight target.nodeId moment with
    | (.error _, core) => { runtime with core }
    | (.ok (), core) => ⟨core, runtime.waiting.insert lookup target⟩
  | .conclude lookup moment => (runtime.conclude lookup moment).2
  | .drop lookup => { runtime with waiting := runtime.waiting.erase lookup }
  | .close => { runtime with core := { runtime.core with closed := true } }

def run (config : NodeLookupConfig) (capacity : Nat) (events : List LookupEvent) : LookupRuntime :=
  events.foldl step ⟨{ config, capacity }, ∅⟩

end LookupRuntime

end Codec

end NixP2p
