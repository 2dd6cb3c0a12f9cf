import NixP2p.Base.Checked
import NixP2p.Base.Effect
import NixP2p.Publication.StateStore

/-!
# The publisher

A publisher writes what it is about to do to its state file before it does it. Each of its calls is one program over the files, the process and the packets put so far. What the clock, the disk and the authority answer is a script, and a script that ends early is a call that was dropped, or a process that was killed, at that point.
-/

namespace NixP2p

open Checked PublicationError

/-- A write that fails before the state is renamed into place, after it, or after the anchor is. -/
inductive WriteAnswer where
  | done
  | failed (why : String)
  | stateOnly (why : String)
  | stateAndAnchor (why : String)

inductive AnchorAnswer where
  | done
  | failed (why : String)
  | renamed (why : String)

structure HttpReply where
  status : UInt16
  body : List UInt8

inductive PublicationAnswer where
  | clock (now : Except PublicationError UInt64)
  | write (outcome : WriteAnswer)
  | anchor (outcome : AnchorAnswer)
  | put (reply : Except String HttpReply)
  | get (reply : Except String HttpReply)

namespace PublicationAnswer

def clock? : PublicationAnswer → Option (Except PublicationError UInt64)
  | clock now => some now
  | _ => none

def write? : PublicationAnswer → Option WriteAnswer
  | write outcome => some outcome
  | _ => none

def anchor? : PublicationAnswer → Option AnchorAnswer
  | anchor outcome => some outcome
  | _ => none

def put? : PublicationAnswer → Option (Except String HttpReply)
  | put reply => some reply
  | _ => none

def get? : PublicationAnswer → Option (Except String HttpReply)
  | get reply => some reply
  | _ => none

end PublicationAnswer

def publicationTransitionDeadline : Nat := 5 * 10 ^ 9

def publicationCompletionMargin : Nat := 10 ^ 9

def publicationRetryReserve (requestDeadline : Nat) : Nat :=
  min publicationTransitionDeadline (requestDeadline * 4)

def singleSubmissionBound (requestDeadline : Nat) : Nat :=
  min publicationTransitionDeadline (requestDeadline * 2)

def completionReserve (requestDeadline : Nat) : Nat :=
  publicationRetryReserve requestDeadline + publicationCompletionMargin

def durationMicros (duration : Nat) : Except PublicationError UInt64 :=
  if duration / 1000 < 2 ^ 64 then .ok (UInt64.ofNat (duration / 1000))
  else .error ⟨.configuration, "duration microseconds exceed u64"⟩

def nextSequence (now : UInt64) : Option UInt64 → Except PublicationError UInt64
  | some highWater =>
    if highWater = UInt64.ofNat (2 ^ 64 - 1) then
      .error (ofState "publication sequence reached u64::MAX and cannot advance")
    else .ok (max now (highWater + 1))
  | none => .ok now

def remainingMicros (expires now : UInt64) : UInt64 := if expires < now then 0 else expires - now

section Codec

variable [NodeRecordCodec]

structure PublicationReceipt where
  record : NodeRecord Location
  reusedCommittedPacket : Bool

/-- A packet sent to the authority, the store's high-water sequence then, and whether the publisher was closing. -/
structure Submission where
  packet : List UInt8
  highWater : UInt64
  byShutdown : Bool

/-- The two files, and every state the state file has held, the oldest first. -/
structure PublicationDisk where
  stateFile : Option PublicationStateBody := none
  anchorFile : Option PublicationAnchorBody := none
  written : List PublicationStateBody := []

structure PublicationSession where
  identity : PublicationIdentity
  settings : PublicationSettings
  disk : PublicationDisk
  puts : List Submission
  script : List PublicationAnswer
  state : PublicationStateBody
  desiredIntent : UInt64 × List Location
  poisoned : Bool := false
  closing : Bool := false

inductive Halt where
  | failed (error : PublicationError)
  | stopped

abbrev Publish := EStateM Halt PublicationSession

namespace Publish

def ask {α : Type} (select : PublicationAnswer → Option α) : Publish α := do
  let session ← get
  match session.script with
  | [] => throw .stopped
  | answer :: script =>
    match select answer with
    | none => throw .stopped
    | some value => do
      modify fun session => { session with script }
      return value

def fail {α : Type} (error : PublicationError) : Publish α := throw (.failed error)

def lift {α : Type} : Except PublicationError α → Publish α
  | .ok value => pure value
  | .error error => fail error

def ensureHealthy : Publish Unit := do
  let session ← get
  if session.poisoned then
    fail (ofState "publisher state store is poisoned after an ambiguous post-rename persistence failure; restart is required")
  else pure ()

variable [Blake3]

def putState (body : PublicationStateBody) (session : PublicationSession) : PublicationSession :=
  { session with disk := { session.disk with
      stateFile := some body, written := session.disk.written ++ [body] } }

def putAnchor (anchor : PublicationAnchorBody) (session : PublicationSession) : PublicationSession :=
  { session with disk := { session.disk with anchorFile := some anchor } }

def poison (session : PublicationSession) : PublicationSession := { session with poisoned := true }

def poisonedError (why : String) : PublicationError :=
  ofState s!"{why}; publisher state store is poisoned until restart"

/-- The state file first, then the anchor; what fails after the first rename poisons the store. -/
def write (body : PublicationStateBody) : Publish Unit := do
  ensureHealthy
  match ← ask PublicationAnswer.write? with
  | .done => modify fun session => putAnchor (.fromState body) (putState body session)
  | .failed why => fail (ofState why)
  | .stateOnly why => do
    modify fun session => poison (putState body session)
    fail (poisonedError why)
  | .stateAndAnchor why => do
    modify fun session => poison (putAnchor (.fromState body) (putState body session))
    fail (poisonedError why)

def writeAnchor (anchor : PublicationAnchorBody) : Publish Unit := do
  match ← ask PublicationAnswer.anchor? with
  | .done => modify (putAnchor anchor)
  | .failed why => fail (ofState why)
  | .renamed why => do
    modify (putAnchor anchor)
    fail (ofState why)

def validateOrInitializeAnchor (state : PublicationStateBody) (hadState : Bool) : Publish Unit := do
  let session ← get
  let current := PublicationAnchorBody.fromState state
  match session.disk.anchorFile with
  | none =>
    if hadState then
      fail (ofState "iroh-node-publication-anchor.json is missing while publisher state exists; refusing a rollback-ambiguous state")
    else writeAnchor current
  | some anchor => do
    lift (checkAnchor current anchor)
    if current ≠ anchor then writeAnchor current else pure ()

def openStore : Publish PublicationStateBody := do
  let session ← get
  match session.disk.stateFile with
  | some body => do
    lift (validateLoadedState body session.identity session.settings)
    validateOrInitializeAnchor body true
    return body
  | none => do
    let body := PublicationStateBody.fresh session.identity session.settings
    validateOrInitializeAnchor body false
    write body
    return body

def openPublisher : Publish Unit := do
  let body ← openStore
  let desired ← lift body.canonicalDesired
  modify fun session => { session with state := body, desiredIntent := (body.desiredRevision, desired) }

def commitState (candidate : PublicationStateBody) : Publish Unit := do
  write candidate
  modify fun session => { session with state := candidate }

def wallUnixMicros : Publish UInt64 := do
  lift (← ask PublicationAnswer.clock?)

def logPut (packet : List UInt8) (session : PublicationSession) : PublicationSession :=
  { session with puts := session.puts ++ [⟨packet, session.state.highWaterSequence, session.closing⟩] }

/-- The packet is on its way before there is an answer. -/
def putExact (packet : List UInt8) : Publish Unit := do
  modify (logPut packet)
  match ← ask PublicationAnswer.put? with
  | .error why => fail ⟨.transport, why⟩
  | .ok reply =>
    if 200 ≤ reply.status ∧ reply.status < 300 then pure ()
    else
      fail ⟨.authority,
        s!"authority PUT returned status {reply.status} with {reply.body.length} body bytes"⟩

def checkVisible (session : PublicationSession) (expected : List UInt8) (reply : HttpReply) :
    Except PublicationError Unit :=
  if reply.status ≠ 200 then
    .error ⟨.visibility, s!"authority visibility GET returned status {reply.status}"⟩
  else if reply.body ≠ expected then
    .error ⟨.visibility, "authority visibility GET did not return the exact signed packet"⟩
  else match decodeNodeRecord reply.body with
    | .error why =>
      .error ⟨.visibility, s!"visible signed record failed strict validation: {why}"⟩
    | .ok record =>
      if record.nodeIdHex ≠ session.identity.nodeIdHex ∨
          record.recordNamespace ≠ session.identity.stateNamespace ∨
          record.recipient ≠ session.identity.signedRecipient then
        .error ⟨.visibility, "visible record does not match configured signer/namespace/recipient"⟩
      else .ok ()

def verifyVisible (expected : List UInt8) : Publish Unit := do
  let session ← get
  match ← ask PublicationAnswer.get? with
  | .error why => fail ⟨.transport, why⟩
  | .ok reply => lift (checkVisible session expected reply)

def persistDesired : Publish Unit := do
  let session ← get
  if session.state.desiredRevision < session.desiredIntent.1 then
    commitState { session.state with
      desiredRevision := session.desiredIntent.1, desiredLocations := session.desiredIntent.2 }
  else pure ()

def persistLatestDesired : Publish (List Location) := do
  persistDesired
  let session ← get
  lift session.state.canonicalDesired

def retirePending : Publish Unit := do
  let session ← get
  commitState { session.state with pending := none }

def submitPending : Publish PublicationReceipt := do
  let session ← get
  match session.state.pending with
  | none => fail (ofState "submit_pending called without pending packet")
  | some pending => do
    putExact pending.packet
    verifyVisible pending.packet
    let record ← lift ((decodeNodeRecord pending.packet).mapError fun why =>
      ofState s!"pending packet invalid: {why}")
    let session ← get
    commitState { session.state with committed := some pending, pending := none }
    return ⟨record, false⟩

def recoverPending : Publish (Option PublicationReceipt) := do
  let session ← get
  match session.state.pending with
  | none => return none
  | some pending =>
    if pending.desiredRevision < session.state.desiredRevision then do
      retirePending
      return none
    else do
      let now ← wallUnixMicros
      let minimumRemaining ← lift (durationMicros (singleSubmissionBound session.settings.requestDeadline +
        completionReserve session.settings.requestDeadline))
      if remainingMicros pending.expiresUnixMicros now ≤ minimumRemaining then do
        retirePending
        return none
      else do
        let receipt ← submitPending
        return some receipt

/-- A shutdown does not replay what was interrupted. -/
def retireInterrupted : Publish (Option PublicationReceipt) := do
  let session ← get
  match session.state.pending with
  | none => return none
  | some _ => do
    retirePending
    return none

def settlePending (recoverFirst : Bool) : Publish (Option PublicationReceipt) :=
  if recoverFirst then recoverPending else retireInterrupted

/-- The record is the wanted one and is good for longer than the margin. -/
def serves (session : PublicationSession) (locations : List Location) (now margin : UInt64)
    (record : NodeRecord Location) : Bool :=
  record.state = desiredState locations ∧ record.locations = locations ∧
    record.ttlSeconds = session.settings.ttlSeconds ∧
    margin < remainingMicros record.expiresUnixMicros now

/-- Putting the committed packet once more, where it still serves. -/
def reuseCommitted (locations : List Location) (now margin : UInt64) :
    Publish (Option PublicationReceipt) := do
  let session ← get
  match session.state.committed with
  | none => return none
  | some committed => do
    let record ← lift ((decodeNodeRecord committed.packet).mapError fun why =>
      ofState s!"committed packet invalid: {why}")
    if serves session locations now margin record then do
      putExact committed.packet
      verifyVisible committed.packet
      return some ⟨record, true⟩
    else return none

def nextRecord (session : PublicationSession) (locations : List Location) (sequence expires : UInt64) :
    NodeRecord Location where
  nodeIdHex := session.identity.nodeIdHex
  recordNamespace := session.identity.stateNamespace
  recipient := session.identity.signedRecipient
  ttlSeconds := session.settings.ttlSeconds
  sequence := sequence
  expiresUnixMicros := expires
  state := desiredState locations
  locations := locations

def preparePending (locations : List Location) (now : UInt64) : Publish Unit := do
  let session ← get
  let sequence ← lift (nextSequence now session.state.lastSequence)
  let ttlMicros ← lift (durationMicros (session.settings.ttlSeconds.toNat * 10 ^ 9))
  let expires ← lift ((addU64 sequence ttlMicros).elim
    (.error (ofState "publication expiry overflows u64 microseconds")) .ok)
  let packet ← lift ((encodeNodeRecord (nextRecord session locations sequence expires)).mapError fun why =>
    ofState s!"encoding signed publication: {why}")
  commitState { session.state with
    pending := some {
      sequence, desiredRevision := session.state.desiredRevision, expiresUnixMicros := expires
      kind := desiredState locations, packet }
    highWaterSequence := sequence }

def transitionLocked (locations : List Location) (recoverFirst : Bool) : Publish PublicationReceipt := do
  ensureHealthy
  let recovered ← settlePending recoverFirst
  let now ← wallUnixMicros
  let session ← get
  let reserve ← lift (durationMicros (completionReserve session.settings.requestDeadline))
  let startMargin ← lift (durationMicros (singleSubmissionBound session.settings.requestDeadline +
    completionReserve session.settings.requestDeadline))
  match recovered.filter fun receipt => serves session locations now reserve receipt.record with
  | some receipt => return receipt
  | none => do
    match ← reuseCommitted locations now startMargin with
    | some receipt => return receipt
    | none => do
      preparePending locations now
      submitPending

def closedError : PublicationError := ⟨.closed, "publisher is closing"⟩

/-- A refresh, or the second half of a change of target. -/
def refreshCurrent : Publish PublicationReceipt := do
  let session ← get
  if session.closing then fail closedError
  else do
    let locations ← persistLatestDesired
    transitionLocked locations true

def updateDesiredIntent (desired : UInt64 × List Location) (locations : List Location) :
    Except PublicationError (UInt64 × List Location) :=
  if desired.2 = locations then .ok desired
  else (addU64 desired.1 1).elim (.error (ofState "desired-location revision overflow"))
    fun revision => .ok (revision, locations)

def validateDesiredLocations (session : PublicationSession) (locations : List Location) :
    Except PublicationError (List Location) := do
  let locations ← (canonicalLocations locations).mapError ofRecord
  if session.settings.relayLocationsAllowed = false ∧ locations.any isRelay then
    .error ⟨.configuration,
      "relay location publication requires an explicitly enabled runtime relay capability"⟩
  else .ok locations

def recordDesiredIntent (locations : List Location) : Publish Unit := do
  let session ← get
  if session.closing then fail closedError
  else do
    let locations ← lift (validateDesiredLocations session locations)
    let desiredIntent ← lift (updateDesiredIntent session.desiredIntent locations)
    modify fun session => { session with desiredIntent }

def recordShutdownIntent : Publish Unit := do
  modify fun session => { session with closing := true }
  let session ← get
  let desiredIntent ← lift (updateDesiredIntent session.desiredIntent [])
  modify fun session => { session with desiredIntent }

def withdrawForShutdown : Publish PublicationReceipt := do
  recordShutdownIntent
  let locations ← persistLatestDesired
  if locations.isEmpty then transitionLocked locations false
  else fail (ofState "shutdown withdrawal intent was superseded after the close latch")

end Publish

inductive PublisherEvent where
  | start (settings : PublicationSettings) (script : List PublicationAnswer)
  | setDesired (locations : List Location)
  | refresh (script : List PublicationAnswer)
  | shutdown (script : List PublicationAnswer)
  | crash

structure PublisherHost where
  running : Bool
  session : PublicationSession

namespace PublisherHost

variable [Blake3]

def call {α : Type} (program : Publish α) (session : PublicationSession) : PublicationSession :=
  match program session with
  | .ok _ session => session
  | .error _ session => session

/-- A new process finds the files as they are and knows nothing else. -/
def boot (host : PublisherHost) (settings : PublicationSettings) (script : List PublicationAnswer) :
    PublicationSession where
  identity := host.session.identity
  settings := settings
  disk := host.session.disk
  puts := host.session.puts
  script := script
  state := .fresh host.session.identity settings
  desiredIntent := (1, settings.initialLocations)

def opens (session : PublicationSession) : Bool :=
  match Publish.openPublisher session with
  | .ok _ _ => true
  | .error _ _ => false

def step (host : PublisherHost) : PublisherEvent → PublisherHost
  | .start settings script =>
    -- A running publisher holds the lock.
    if host.running then host
    else ⟨opens (host.boot settings script), call Publish.openPublisher (host.boot settings script)⟩
  | .setDesired locations =>
    if host.running then { host with session := call (Publish.recordDesiredIntent locations) host.session }
    else host
  | .refresh script =>
    if host.running then
      { host with session := call Publish.refreshCurrent { host.session with script } }
    else host
  | .shutdown script =>
    if host.running then
      { host with session := call Publish.withdrawForShutdown { host.session with script } }
    else host
  | .crash => { host with running := false }

def first (identity : PublicationIdentity) : PublisherHost where
  running := false
  session := {
    identity := identity
    settings := ⟨0, 0, [], false⟩
    disk := {}
    puts := []
    script := []
    state := .fresh identity ⟨0, 0, [], false⟩
    desiredIntent := (1, []) }

def run (identity : PublicationIdentity) (events : List PublisherEvent) : PublisherHost :=
  events.foldl step (first identity)

end PublisherHost

end Codec

end NixP2p
