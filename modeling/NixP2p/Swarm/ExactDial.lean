import Mathlib.Logic.Function.Basic
import NixP2p.Base.HashTable

/-!
# Exact dials

A caller that wants one authorized connection enqueues a dial command and waits; when it gives up it closes its reply channel and enqueues a cancel. The swarm worker takes commands and cancels in any order, and a cancelled dial leaves a tombstone until its terminal event.
-/

namespace NixP2p

open HashTable

variable {PeerId : Type}

abbrev ConnectionId := Nat

inductive ConnectionRoute (PeerId : Type) where
  | direct
  | relayed (relay : PeerId)
  | relayedUnknown

structure AuthorizedConnection (PeerId : Type) where
  id : ConnectionId
  route : ConnectionRoute PeerId

inductive PendingExactDial (PeerId : Type) where
  | active (peer : PeerId) (permittedRelays : List PeerId)
  | tombstone (peer : PeerId)

def PendingExactDial.peer : PendingExactDial PeerId → PeerId
  | .active peer _ | .tombstone peer => peer

def maxPendingExactDials : Nat := 64

/-- Why a dial was answered with an error; the texts of the network's own errors are taken as they come. -/
inductive DialFault (PeerId : Type) where
  | atCap (peer : PeerId) (count : Nat)
  | unregistered (connection : ConnectionId) (peer : PeerId) (error : String)
  | unauthorized (connection : ConnectionId) (expected found : PeerId) (route : ConnectionRoute PeerId)
  | failed (connection : ConnectionId) (target : PeerId) (error : String)
  | closedEarly (connection : ConnectionId) (peer : PeerId)

def ConnectionRoute.debug [ToString PeerId] : ConnectionRoute PeerId → String
  | .direct => "Direct"
  | .relayed relay => "Relayed \x7b relay: PeerId(\"" ++ toString relay ++ "\") \x7d"
  | .relayedUnknown => "RelayedUnknown"

instance [ToString PeerId] : ToString (DialFault PeerId) where
  toString
    | .atCap peer count =>
      s!"refusing exact dial to {peer}: {count} active/tombstoned attempts reached hard cap {maxPendingExactDials}"
    | .unregistered connection peer error =>
      s!"registering exact authorized dial {connection} to {peer} failed: {error}"
    | .unauthorized connection expected found route =>
      s!"exact dial {connection} expected authorized route to {expected}, but established peer {found} via {route.debug}"
    | .failed connection target error =>
      s!"exact authorized dial {connection} to {target} failed: {error}"
    | .closedEarly connection peer =>
      s!"exact authorized connection {connection} to {peer} closed before it became usable"

abbrev DialReply (PeerId : Type) := Except (DialFault PeerId) (AuthorizedConnection PeerId)

structure DialLedger (PeerId : Type) where
  pending : Table ConnectionId (PendingExactDial PeerId)
  routes : Table PeerId (Table ConnectionId (ConnectionRoute PeerId))

def DialLedger.empty : DialLedger PeerId := ⟨∅, ∅⟩

inductive ExactDialCancelTransition where
  | none
  | awaitTerminal
  | close

inductive ExactConnectionCloseReason where
  | cancelled
  | unauthorizedRoute
  | waiterGone

inductive ConnectionEstablishedTransition where
  | keep
  | close (reason : ExactConnectionCloseReason)

section Ledger

variable [DecidableEq PeerId]

def connectionRouteAllowed (permittedRelays : List PeerId) : ConnectionRoute PeerId → Bool
  | .direct => true
  | .relayed relay => decide (relay ∈ permittedRelays)
  | .relayedUnknown => false

namespace DialLedger

def route? (ledger : DialLedger PeerId) (peer : PeerId) (connection : ConnectionId) :
    Option (ConnectionRoute PeerId) :=
  cell? ledger.routes peer connection

def recordRoute (ledger : DialLedger PeerId) (peer : PeerId) (connection : ConnectionId)
    (route : ConnectionRoute PeerId) : DialLedger PeerId :=
  { ledger with routes := insertCell ledger.routes peer connection route }

def removeConnectionRoute (ledger : DialLedger PeerId) (peer : PeerId) (connection : ConnectionId) :
    DialLedger PeerId × Bool :=
  ({ ledger with routes := eraseCell ledger.routes peer connection },
    (ledger.route? peer connection).isSome)

def applyExactDialCancel (ledger : DialLedger PeerId) (peer : PeerId) (connection : ConnectionId) :
    DialLedger PeerId × ExactDialCancelTransition :=
  match ledger.pending.lookup connection with
  | some dial =>
    ({ ledger with pending := ledger.pending.insert connection (.tombstone dial.peer) }, .awaitTerminal)
  | none =>
    let removed := ledger.removeConnectionRoute peer connection
    if removed.2 then
      ({ removed.1 with pending := removed.1.pending.insert connection (.tombstone peer) }, .close)
    else (removed.1, .none)

/-- The reply is the one sent to the waiter of the dial; `waiting` says whether it can be delivered. -/
def applyConnectionEstablished (ledger : DialLedger PeerId) (peer : PeerId) (connection : ConnectionId)
    (route : ConnectionRoute PeerId) (waiting : Bool) :
    DialLedger PeerId × ConnectionEstablishedTransition × Option (DialReply PeerId) :=
  let rest : DialLedger PeerId := { ledger with pending := ledger.pending.erase connection }
  match ledger.pending.lookup connection with
  | some (.tombstone _) => (rest, .close .cancelled, none)
  | some (.active expected permittedRelays) =>
    if expected ≠ peer ∨ connectionRouteAllowed permittedRelays route = false then
      (rest, .close .unauthorizedRoute, some (.error (.unauthorized connection expected peer route)))
    else if waiting = false then (rest, .close .waiterGone, some (.ok ⟨connection, route⟩))
    else (rest.recordRoute peer connection route, .keep, some (.ok ⟨connection, route⟩))
  | none => (rest.recordRoute peer connection route, .keep, none)

end DialLedger

end Ledger

/-- What has become of a connection id in the network: an id is dialed or accepted once, and a dial ends once. -/
inductive Link where
  | unused
  | reserved
  | dialing
  | up
  | over
  deriving DecidableEq

/-- The caller waits, has closed its reply channel but not yet sent the cancel, or is done. -/
inductive WaiterPhase where
  | waiting
  | dropping
  | gone
  deriving DecidableEq

structure Caller (PeerId : Type) where
  peer : PeerId
  permittedRelays : List PeerId
  phase : WaiterPhase

structure DialCommand (PeerId : Type) where
  connection : ConnectionId
  peer : PeerId
  permittedRelays : List PeerId

structure DialSystem (PeerId : Type) where
  ledger : DialLedger PeerId
  commands : List (DialCommand PeerId)
  cancels : List (PeerId × ConnectionId)
  callers : ConnectionId → Option (Caller PeerId)
  replies : ConnectionId → Option (DialReply PeerId)
  links : ConnectionId → Link

/-- One atomic step of a caller, of the worker or of the network. -/
inductive DialEvent (PeerId : Type) where
  | dial (connection : ConnectionId) (peer : PeerId) (permittedRelays : List PeerId)
  | closeReply (connection : ConnectionId)
  | sendCancel (connection : ConnectionId)
  | receive (connection : ConnectionId)
  | command (dialError : Option String)
  | cancel
  | sweep (walk : IterOrder (PeerId × ConnectionId))
  | established (connection : ConnectionId) (peer : PeerId) (route : ConnectionRoute PeerId)
  | outgoingError (connection : ConnectionId) (peer : Option PeerId) (error : String)
  | closed (connection : ConnectionId) (peer : PeerId)

namespace DialSystem

def init : DialSystem PeerId where
  ledger := .empty
  commands := []
  cancels := []
  callers := fun _ => none
  replies := fun _ => none
  links := fun _ => .unused

def waits (system : DialSystem PeerId) (connection : ConnectionId) : Bool :=
  (system.callers connection).any fun caller => caller.phase = .waiting

def deliver (system : DialSystem PeerId) (connection : ConnectionId) (reply : Option (DialReply PeerId)) :
    DialSystem PeerId :=
  { system with
    replies :=
      if system.waits connection && reply.isSome then
        Function.update system.replies connection reply
      else system.replies }

def setLink (system : DialSystem PeerId) (connection : ConnectionId) (link : Link) : DialSystem PeerId :=
  { system with links := Function.update system.links connection link }

def setCaller (system : DialSystem PeerId) (connection : ConnectionId) (caller : Caller PeerId) :
    DialSystem PeerId :=
  { system with callers := Function.update system.callers connection (some caller) }

def terminalReply (system : DialSystem PeerId) (connection : ConnectionId)
    (fault : PeerId → DialFault PeerId) : Option (DialReply PeerId) :=
  match system.ledger.pending.lookup connection with
  | some (.active peer _) => some (.error (fault peer))
  | _ => none

/-- The caller builds its options, which allocates the id, and enqueues the command. -/
def dialExact (system : DialSystem PeerId) (connection : ConnectionId) (peer : PeerId)
    (permittedRelays : List PeerId) : DialSystem PeerId :=
  if system.links connection = .unused then
    { (system.setLink connection .reserved).setCaller connection ⟨peer, permittedRelays, .waiting⟩ with
      commands := system.commands ++ [⟨connection, peer, permittedRelays⟩] }
  else system

/-- Dropping the guard closes the channel first. -/
def closeReply (system : DialSystem PeerId) (connection : ConnectionId) : DialSystem PeerId :=
  match system.callers connection with
  | some ⟨peer, permittedRelays, .waiting⟩ =>
    system.setCaller connection ⟨peer, permittedRelays, .dropping⟩
  | _ => system

def sendCancel (system : DialSystem PeerId) (connection : ConnectionId) : DialSystem PeerId :=
  match system.callers connection with
  | some ⟨peer, permittedRelays, .dropping⟩ =>
    { system.setCaller connection ⟨peer, permittedRelays, .gone⟩ with
      cancels := system.cancels ++ [(peer, connection)] }
  | _ => system

def receive (system : DialSystem PeerId) (connection : ConnectionId) : DialSystem PeerId :=
  match system.callers connection, system.replies connection with
  | some ⟨peer, permittedRelays, .waiting⟩, some _ =>
    system.setCaller connection ⟨peer, permittedRelays, .gone⟩
  | _, _ => system

def abandoned (system : DialSystem PeerId) : List (PeerId × ConnectionId) :=
  (toEntries system.ledger.pending).filterMap fun entry =>
    match entry.2 with
    | .active peer _ => if system.waits entry.1 then none else some (peer, entry.1)
    | .tombstone _ => none

variable [DecidableEq PeerId]

/-- A command is refused at the cap, and otherwise entered before the network is asked to dial. -/
def onDialExact (system : DialSystem PeerId) (command : DialCommand PeerId) (dialError : Option String) :
    DialSystem PeerId :=
  if maxPendingExactDials ≤ system.ledger.pending.entries.length then
    (system.setLink command.connection .over).deliver command.connection
      (some (.error (.atCap command.peer system.ledger.pending.entries.length)))
  else
    let entered := system.ledger.pending.insert command.connection
      (.active command.peer command.permittedRelays)
    match dialError with
    | none =>
      { system with ledger := { system.ledger with pending := entered } }.setLink command.connection .dialing
    | some error =>
      ({ system with
          ledger := { system.ledger with pending := entered.erase command.connection } }.setLink
        command.connection .over).deliver command.connection
          (some (.error (.unregistered command.connection command.peer error)))

def onCommand (system : DialSystem PeerId) (dialError : Option String) : DialSystem PeerId :=
  match system.commands with
  | [] => system
  | command :: commands => { system with commands }.onDialExact command dialError

def onCancel (system : DialSystem PeerId) : DialSystem PeerId :=
  match system.cancels with
  | [] => system
  | (peer, connection) :: cancels =>
    { system with cancels, ledger := (system.ledger.applyExactDialCancel peer connection).1 }

def tombstoneAbandonedExactDials (system : DialSystem PeerId) (walk : IterOrder (PeerId × ConnectionId)) :
    DialSystem PeerId :=
  { system with
    ledger := (walk.arrange system.abandoned).foldl
      (fun ledger entry => (ledger.applyExactDialCancel entry.1 entry.2).1) system.ledger }

/-- A dial under way succeeds, or a connection comes up that no exact dial asked for. -/
def onEstablished (system : DialSystem PeerId) (connection : ConnectionId) (peer : PeerId)
    (route : ConnectionRoute PeerId) : DialSystem PeerId :=
  if system.links connection = .dialing ∨ system.links connection = .unused then
    let applied := system.ledger.applyConnectionEstablished peer connection route
      (system.waits connection)
    ({ system with ledger := applied.1 }.setLink connection .up).deliver connection applied.2.2
  else system

def onOutgoingError (system : DialSystem PeerId) (connection : ConnectionId) (peer : Option PeerId)
    (error : String) : DialSystem PeerId :=
  if system.links connection = .dialing ∨ system.links connection = .unused then
    ({ system with
        ledger := { system.ledger with pending := system.ledger.pending.erase connection } }.setLink
      connection .over).deliver connection
        (system.terminalReply connection fun expected => .failed connection (peer.getD expected) error)
  else system

def onClosed (system : DialSystem PeerId) (connection : ConnectionId) (peer : PeerId) :
    DialSystem PeerId :=
  if system.links connection = .up then
    ({ system with
        ledger :=
          (DialLedger.removeConnectionRoute
            { system.ledger with pending := system.ledger.pending.erase connection }
            peer connection).1 }.setLink
      connection .over).deliver connection
        (system.terminalReply connection fun _ => .closedEarly connection peer)
  else system

/-- A step that its process cannot take leaves the system as it is. -/
def step (system : DialSystem PeerId) : DialEvent PeerId → DialSystem PeerId
  | .dial connection peer permittedRelays => system.dialExact connection peer permittedRelays
  | .closeReply connection => system.closeReply connection
  | .sendCancel connection => system.sendCancel connection
  | .receive connection => system.receive connection
  | .command dialError => system.onCommand dialError
  | .cancel => system.onCancel
  | .sweep walk => system.tombstoneAbandonedExactDials walk
  | .established connection peer route => system.onEstablished connection peer route
  | .outgoingError connection peer error => system.onOutgoingError connection peer error
  | .closed connection peer => system.onClosed connection peer

def run (system : DialSystem PeerId) (events : List (DialEvent PeerId)) : DialSystem PeerId :=
  events.foldl step system

end DialSystem

end NixP2p
