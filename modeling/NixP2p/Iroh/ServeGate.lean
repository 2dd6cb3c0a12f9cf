import Mathlib.Data.UInt
import NixP2p.Availability.Index
import NixP2p.Base.Checked
import NixP2p.Base.HashTable

/-!
# The admission gate of the iroh provider

Before the provider lets a get-request through it charges the size of the blob to a budget and makes sure that the blob is in its store. Requests for one hash share an entry of the in-flight table: the first produces the blob, the others wait for its verdict, and the last to go removes it. A request may be suspended and dropped at each question it asks, and what it does between two of them is one step.
-/

namespace NixP2p.Iroh

open Checked HashTable

structure ServeBudget where
  maxNarBytesUncompressedNar : UInt64
  maxInflightBytesUncompressedNar : UInt64

inductive ServeDecline where
  | tooLarge
  | busy
  | unknown
  | supplyFailed
  | storeUnreadable
  deriving DecidableEq

structure Declined where
  reason : ServeDecline
  why : String
  deriving DecidableEq

/-- An entry of the in-flight table; the tag pins the blob, and `state` is undecided, or whether the blob could be produced. -/
structure Inflight where
  refs : Nat
  bytesUncompressedNar : UInt64
  tag : Option Blake3Digest
  state : Option Bool
  deriving DecidableEq

/-- The entry of a new hash. A resident blob is published ready at once: nobody would ever decide its entry. -/
def Inflight.fresh (size : UInt64) (mustRegenerate : Bool) : Inflight :=
  ⟨1, size, none, if mustRegenerate then none else some true⟩

inductive Reservation where
  | materialise
  | ready
  | follow
  deriving DecidableEq

structure SweepPolicy where
  armed : Bool
  freeRunning : Bool

structure ServeGate where
  budget : ServeBudget
  sweep : Option SweepPolicy
  inflight : Table Blake3Digest Inflight := ∅

namespace ServeGate

def sweepsFreely (gate : ServeGate) : Bool := gate.sweep.any SweepPolicy.freeRunning

def armSweep (gate : ServeGate) : ServeGate :=
  { gate with sweep := gate.sweep.map fun sweep => { sweep with armed := true } }

/-- The reserved bytes of all entries, as the sum of the machine computes them. -/
def held (gate : ServeGate) : UInt64 :=
  (gate.inflight.entries.map fun entry => entry.2.bytesUncompressedNar).sum

def reserve (gate : ServeGate) (hash : Blake3Digest) (size : UInt64) (mustRegenerate : Bool) :
    Except ServeDecline (ServeGate × Reservation) :=
  if gate.budget.maxNarBytesUncompressedNar < size then .error .tooLarge
  else
    match gate.inflight.lookup hash with
    | some entry =>
      .ok ({ gate with inflight := gate.inflight.insert hash { entry with refs := entry.refs + 1 } },
        if entry.state = some true then .ready else .follow)
    | none =>
      if gate.budget.maxInflightBytesUncompressedNar < saturatingAddU64 gate.held size then .error .busy
      else
        .ok ({ gate with inflight := gate.inflight.insert hash (.fresh size mustRegenerate) },
          if mustRegenerate then .materialise else .ready)

def modifyEntry (gate : ServeGate) (hash : Blake3Digest) (update : Inflight → Option Inflight) : ServeGate :=
  match gate.inflight.lookup hash with
  | none => gate
  | some entry => { gate with inflight := put gate.inflight hash (update entry) }

def publish (gate : ServeGate) (hash : Blake3Digest) (tag : Option Blake3Digest) : ServeGate :=
  gate.modifyEntry hash fun entry => some { entry with tag := tag, state := some tag.isSome }

def release (gate : ServeGate) (hash : Blake3Digest) : ServeGate :=
  gate.modifyEntry hash fun entry =>
    if entry.refs - 1 = 0 then none else some { entry with refs := entry.refs - 1 }

end ServeGate

inductive SupplySource where
  | process
  | memory (bytes : List UInt8)
  deriving DecidableEq

structure SupplyPlan where
  declaredSize : UInt64
  source : SupplySource
  deriving DecidableEq

structure SourceOutput where
  stdout : List UInt8
  stderr : String
  stdoutExceededLimit : Bool
  success : Bool
  status : String

def executeSupplyPlan (plan : SupplyPlan) (content : Blake3Digest) (reserved : UInt64)
    (answer : Except String SourceOutput) : Except Declined (List UInt8) :=
  match plan.source with
  | .process =>
    match answer with
    | .error error => .error ⟨.supplyFailed, s!"supervising source process for {content}: {error}"⟩
    | .ok output =>
      if output.stdoutExceededLimit then
        .error ⟨.tooLarge, s!"{content} source exceeded its reserved output cap of {reserved} B"⟩
      else if output.success = false then
        .error ⟨.supplyFailed,
          s!"source process for {content} exited {output.status}: {output.stderr.trimAscii}"⟩
      else .ok output.stdout
  | .memory bytes =>
    if reserved.toNat < bytes.length then
      .error ⟨.tooLarge, s!"{content} memory source exceeded its reserved output cap of {reserved} B"⟩
    else .ok bytes

def materialiseAttempts : Nat := 2

/-- A materialisation: which attempt it is at, and the size and the plan it was started with. -/
structure Materialisation where
  attempt : Nat
  reserved : UInt64
  plan : SupplyPlan
  deriving DecidableEq

/-- The point at which a request is suspended. -/
inductive AdmitPhase where
  | asking
  | planning (resident : Option UInt64) (storeReadable : Bool)
  | following
  | checking (ready : Bool) (size : UInt64) (plan : Option SupplyPlan)
  | supplying (job : Materialisation)
  | adding (job : Materialisation) (raw : List UInt8)
  | confirming (job : Materialisation)
  | granted
  | declined (why : Declined)
  | over (declined : Option Declined)
  deriving DecidableEq

namespace AdmitPhase

def live : AdmitPhase → Bool
  | .asking | .planning _ _ | .over _ => false
  | _ => true

def materialising : AdmitPhase → Bool
  | .supplying _ | .adding _ _ | .confirming _ => true
  | _ => false

def producing : AdmitPhase → Bool
  | .checking ready _ _ => !ready
  | phase => phase.materialising

end AdmitPhase

structure AdmitRequest where
  hash : Blake3Digest
  phase : AdmitPhase
  deriving DecidableEq

/-- What a request is resumed with: an answer, a poll of the watch channel, the end of its serve or of its decline, or its deadline. -/
inductive AdmitAction where
  | status (readable : Bool)
  | reserve (supplied : Except String (Option SupplyPlan))
  | poll
  | has (readable : Bool)
  | supply (answer : Except String SourceOutput)
  | add (result : Except String Unit)
  | drop
  | cancel

abbrev BlobStore := Table Blake3Digest (List UInt8)

structure AdmitTurn where
  gate : ServeGate
  blobs : BlobStore
  phase : AdmitPhase

section Turns

variable (gate : ServeGate) (blobs : BlobStore) (hash : Blake3Digest)

/-- The failure path of `materialise`: the followers are told before the guard is dropped. -/
def failTurn (why : Declined) : AdmitTurn := ⟨gate.publish hash none, blobs, .declined why⟩

/-- From the reservation to the next suspension. -/
def reserveTurn (size : UInt64) (mustRegenerate : Bool) (plan : Option SupplyPlan) : AdmitTurn :=
  match gate.reserve hash size mustRegenerate with
  | .error reason =>
    ⟨gate, blobs, .over (some ⟨reason, s!"{size} B (uncompressed NAR) does not fit the serve budget"⟩)⟩
  | .ok (gate, .follow) => ⟨gate, blobs, .following⟩
  | .ok (gate, .materialise) => ⟨gate, blobs, .checking false size plan⟩
  | .ok (gate, .ready) =>
    ⟨gate, blobs, if gate.sweepsFreely then .checking true size plan else .granted⟩

def planTurn (resident : Option UInt64) (storeReadable : Bool)
    (supplied : Except String (Option SupplyPlan)) : AdmitTurn :=
  match supplied, resident with
  | .error error, _ => ⟨gate, blobs, .over (some ⟨.supplyFailed, error⟩)⟩
  | .ok plan, some size => reserveTurn gate blobs hash size false plan
  | .ok (some plan), none => reserveTurn gate blobs hash plan.declaredSize true (some plan)
  | .ok none, none =>
    ⟨gate, blobs, .over (some (if storeReadable then
      ⟨.unknown, s!"neither the store nor the supplier knows {hash}"⟩
    else ⟨.storeUnreadable, s!"the blob store could not be asked about {hash}"⟩))⟩

def followTurn : AdmitTurn :=
  match gate.inflight.lookup hash with
  | none =>
    ⟨gate, blobs, .declined ⟨.supplyFailed, s!"the admission regenerating {hash} vanished"⟩⟩
  | some entry =>
    match entry.state with
    | none => ⟨gate, blobs, .following⟩
    | some true => ⟨gate, blobs, .granted⟩
    | some false =>
      ⟨gate, blobs, .declined ⟨.supplyFailed, s!"the admission that is regenerating {hash} failed"⟩⟩

def present (readable : Bool) : Bool := readable && (blobs.lookup hash).isSome

def checkTurn (size : UInt64) (plan : Option SupplyPlan) (readable : Bool) : AdmitTurn :=
  if present blobs hash readable then ⟨gate, blobs, .granted⟩
  else
    match plan with
    | none => failTurn gate blobs hash ⟨.unknown, s!"no closed supply plan can regenerate {hash}"⟩
    | some plan => ⟨gate, blobs, .supplying ⟨0, size, plan⟩⟩

def supplyTurn (job : Materialisation) (answer : Except String SourceOutput) : AdmitTurn :=
  match executeSupplyPlan job.plan hash job.reserved answer with
  | .error why => failTurn gate blobs hash why
  | .ok raw =>
    if raw.length ≠ job.reserved.toNat then
      failTurn gate blobs hash ⟨.tooLarge, s!"{hash} was admitted as {job.reserved} B but its source produced " ++
        s!"{raw.length} B - the budget charged for a different NAR than it got"⟩
    else ⟨gate, blobs, .adding job raw⟩

def addTurn [Blake3] (job : Materialisation) (raw : List UInt8) (result : Except String Unit) : AdmitTurn :=
  match result with
  | .error error =>
    failTurn gate blobs hash ⟨.supplyFailed, s!"the blob store rejected {hash}: {error}"⟩
  | .ok () =>
    let tag := Blake3Digest.fromRawNar raw
    let blobs := blobs.insert tag raw
    if tag ≠ hash then
      failTurn gate blobs hash
        ⟨.supplyFailed, s!"the source for {hash} now hashes to {String.ofList (Hex.encode tag.bytes.1)}"⟩
    else ⟨gate, blobs, .confirming job⟩

def confirmTurn (job : Materialisation) (readable : Bool) : AdmitTurn :=
  if present blobs hash readable then ⟨gate.publish hash (some hash), blobs, .granted⟩
  else if job.attempt + 1 < materialiseAttempts then
    ⟨gate, blobs, .supplying { job with attempt := job.attempt + 1 }⟩
  else
    failTurn gate blobs hash ⟨.supplyFailed,
      s!"{hash} was collected from under {materialiseAttempts} materialisations"⟩

def dropTurn (declined : Option Declined) : AdmitTurn := ⟨gate.release hash, blobs, .over declined⟩

/-- The task is dropped where it is, and its guard with it if it has one. -/
def cancelTurn (phase : AdmitPhase) : AdmitTurn :=
  if phase.live then dropTurn gate blobs hash none
  else
    match phase with
    | .over declined => ⟨gate, blobs, .over declined⟩
    | _ => ⟨gate, blobs, .over none⟩

/-- One step of a request. An action that its phase does not wait for changes nothing. -/
def admitTurn [Blake3] (phase : AdmitPhase) (action : AdmitAction) : AdmitTurn :=
  match action, phase with
  | .status readable, .asking =>
    ⟨gate, blobs, .planning (if readable then (blobs.lookup hash).map fun raw => UInt64.ofNat raw.length else none)
      readable⟩
  | .reserve supplied, .planning resident storeReadable =>
    planTurn gate blobs hash resident storeReadable supplied
  | .poll, .following => followTurn gate blobs hash
  | .has readable, .checking _ size plan => checkTurn gate blobs hash size plan readable
  | .supply answer, .supplying job => supplyTurn gate blobs hash job answer
  | .add result, .adding job raw => addTurn gate blobs hash job raw result
  | .has readable, .confirming job => confirmTurn gate blobs hash job readable
  | .drop, .granted => dropTurn gate blobs hash none
  | .drop, .declined why => dropTurn gate blobs hash (some why)
  | .cancel, phase => cancelTurn gate blobs hash phase
  | _, phase => ⟨gate, blobs, phase⟩

end Turns

/-- The gate, its store, the requests so far, and what the collector protects while it sweeps. -/
structure ServeSystem where
  gate : ServeGate
  blobs : BlobStore
  requests : List AdmitRequest
  sweeping : Option (List Blake3Digest)

inductive GateEvent where
  | request (hash : Blake3Digest)
  | turn (index : Nat) (action : AdmitAction)
  | seed (raw : List UInt8)
  | armSweep
  | sweepBegin
  | sweepDelete (hash : Blake3Digest)
  | sweepEnd

namespace ServeSystem

def init (gate : ServeGate) (blobs : BlobStore) : ServeSystem :=
  ⟨{ gate with inflight := ∅ }, blobs, [], none⟩

/-- The protect callback: a sweep that goes on protects what is in flight at this moment. -/
def sweepBegin (system : ServeSystem) : ServeSystem :=
  match system.gate.sweep, system.sweeping with
  | none, _ => system
  | some _, some _ => system
  | some sweep, none =>
    let next := if sweep.freeRunning then sweep else { sweep with armed := false }
    if sweep.freeRunning || sweep.armed then
      { system with gate.sweep := some next, sweeping := some system.gate.inflight.keys }
    else { system with gate.sweep := some next }

def sweepDelete (system : ServeSystem) (hash : Blake3Digest) : ServeSystem :=
  match system.sweeping with
  | none => system
  | some live => if hash ∈ live then system else { system with blobs := system.blobs.erase hash }

def step [Blake3] (system : ServeSystem) : GateEvent → ServeSystem
  | .request hash => { system with requests := system.requests ++ [⟨hash, .asking⟩] }
  | .turn index action =>
    match system.requests[index]? with
    | none => system
    | some request =>
      let turn := admitTurn system.gate system.blobs request.hash request.phase action
      { system with
        gate := turn.gate
        blobs := turn.blobs
        requests := system.requests.set index ⟨request.hash, turn.phase⟩ }
  | .seed raw => { system with blobs := system.blobs.insert (Blake3Digest.fromRawNar raw) raw }
  | .armSweep => { system with gate := system.gate.armSweep }
  | .sweepBegin => system.sweepBegin
  | .sweepDelete hash => system.sweepDelete hash
  | .sweepEnd => { system with sweeping := none }

def run [Blake3] (gate : ServeGate) (blobs : BlobStore) (events : List GateEvent) : ServeSystem :=
  events.foldl step (init gate blobs)

end ServeSystem

end NixP2p.Iroh
