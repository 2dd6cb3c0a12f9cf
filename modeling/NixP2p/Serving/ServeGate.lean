import NixP2p.Base.Checked
import NixP2p.Base.Holdings
import NixP2p.Transfer.Fetch

/-!
# Serve slots

A server admits a stream by taking a permit from a counter that all its serve sessions share, and a request by reserving its declared size against the in-flight ceiling. Both are taken by a loop of an atomic load and a compare-and-exchange. A run interleaves the atomic steps of any number of admissions with sessions that end and begin.
-/

namespace NixP2p

open Checked Holdings

structure ServeBudget where
  maxNarBytesUncompressedNar : UInt64
  maxInflightBytesUncompressedNar : UInt64

structure ServeCounters where
  declinedTooLarge : Nat := 0
  declinedBusy : Nat := 0
  declinedUnknown : Nat := 0
  refusedStopped : Nat := 0
  refusedUploadRate : Nat := 0
  declinedConcurrency : Nat := 0

structure ServeGate where
  budget : ServeBudget
  maxConcurrentServes : Option UInt64
  active : Bool := true
  inflightBytes : UInt64 := 0
  counters : ServeCounters := {}

def ServeGate.new (budget : ServeBudget) : ServeGate where
  budget := budget
  maxConcurrentServes := none

def ServeGate.withServeConcurrency (gate : ServeGate) (maxConcurrentServes : UInt64) : ServeGate :=
  { gate with maxConcurrentServes := some maxConcurrentServes }

inductive ServeRefusal where
  | full
  | notHeld
  | declined (reason : DeclineReason)
  deriving DecidableEq

/-- Where one admission is: before its next load, between a load and its exchange, holding its guard, or over. -/
inductive ServeThread where
  | counting (gate : Nat)
  | counted (gate : Nat) (held : UInt64)
  | permit (gate : Nat)
  | planning (gate : Nat) (declared : UInt64)
  | planned (gate : Nat) (declared held : UInt64)
  | reserved (gate : Nat) (declared : UInt64)
  | unbounded
  | refused (why : ServeRefusal)
  | released
  deriving DecidableEq

namespace ServeThread

def permits : ServeThread → Nat
  | .permit _ => 1
  | _ => 0

def bytes (gate : Nat) : ServeThread → Nat
  | .reserved owner declared => if owner = gate then declared.toNat else 0
  | _ => 0

end ServeThread

structure ServeState where
  serveConcurrency : Option UInt64
  serveInflightCounter : UInt64
  gates : List ServeGate
  threads : List ServeThread
  aborted : Bool

inductive ServeEvent where
  | setServeConcurrency (maxConcurrentServes : UInt64)
  | serve (budget : ServeBudget)
  | stop (gate : Nat)
  | acceptStream (gate : Nat)
  | request (gate : Nat) (declared : Option UInt64) (uploadAdmitted : Bool)
  | advance (thread : Nat) (spurious : Bool)

/-- Cloning a reference aborts the process once this many are held. -/
def maxRefcount : Nat := 2 ^ 63 - 1

namespace ServeState

def init : ServeState := ⟨none, 0, [], [], false⟩

def livePermits (state : ServeState) : Nat := total ServeThread.permits state.threads

def reservedBytes (state : ServeState) (gate : Nat) : Nat := total (ServeThread.bytes gate) state.threads

def newGate (state : ServeState) (budget : ServeBudget) : ServeGate :=
  match state.serveConcurrency with
  | none => .new budget
  | some max => (ServeGate.new budget).withServeConcurrency max

def setGate (state : ServeState) (index : Nat) (update : ServeGate → ServeGate) : ServeState :=
  { state with gates := state.gates.modify index update }

def tally (state : ServeState) (index : Nat) (update : ServeCounters → ServeCounters) : ServeState :=
  state.setGate index fun gate => { gate with counters := update gate.counters }

def admitPlan (state : ServeState) (index : Nat) (declared : Option UInt64) (uploadAdmitted : Bool) :
    ServeState × ServeThread :=
  match state.gates[index]? with
  | none => (state, .refused .notHeld)
  | some gate =>
    if gate.active = false then
      (state.tally index fun tallies => { tallies with refusedStopped := tallies.refusedStopped + 1 },
        .refused .notHeld)
    else
      match declared with
      | none =>
        (state.tally index fun tallies => { tallies with declinedUnknown := tallies.declinedUnknown + 1 },
          .refused .notHeld)
      | some declared =>
        if gate.budget.maxNarBytesUncompressedNar < declared then
          (state.tally index fun tallies => { tallies with declinedTooLarge := tallies.declinedTooLarge + 1 },
            .refused (.declined .tooLarge))
        else if uploadAdmitted = false then
          (state.tally index fun tallies => { tallies with refusedUploadRate := tallies.refusedUploadRate + 1 },
            .refused (.declined .busy))
        else (state, .planning index declared)

def loadCount (state : ServeState) (index : Nat) : ServeState × ServeThread :=
  match (state.gates[index]?).bind ServeGate.maxConcurrentServes with
  | none => (state, .unbounded)
  | some max =>
    if max < saturatingAddU64 state.serveInflightCounter 1 then
      (state.tally index fun tallies => { tallies with declinedConcurrency := tallies.declinedConcurrency + 1 },
        .refused .full)
    else (state, .counted index state.serveInflightCounter)

/-- The exchange of the count loop, which may fail spuriously; the permit clones the counter's reference. -/
def exchangeCount (state : ServeState) (index : Nat) (held : UInt64) (spurious : Bool) :
    ServeState × ServeThread :=
  if state.serveInflightCounter = held ∧ spurious = false then
    if maxRefcount < state.livePermits then ({ state with aborted := true }, .counted index held)
    else ({ state with serveInflightCounter := saturatingAddU64 held 1 }, .permit index)
  else (state, .counting index)

def dropPermit (state : ServeState) : ServeState × ServeThread :=
  ({ state with serveInflightCounter := state.serveInflightCounter - 1 }, .released)

def loadBytes (state : ServeState) (index : Nat) (declared : UInt64) : ServeState × ServeThread :=
  match state.gates[index]? with
  | none => (state, .refused .notHeld)
  | some gate =>
    match addU64 gate.inflightBytes declared with
    | none =>
      (state.tally index fun tallies => { tallies with declinedBusy := tallies.declinedBusy + 1 },
        .refused (.declined .busy))
    | some want =>
      if gate.budget.maxInflightBytesUncompressedNar < want then
        (state.tally index fun tallies => { tallies with declinedBusy := tallies.declinedBusy + 1 },
          .refused (.declined .busy))
      else (state, .planned index declared gate.inflightBytes)

def exchangeBytes (state : ServeState) (index : Nat) (declared held : UInt64) (spurious : Bool) :
    ServeState × ServeThread :=
  if (state.gates[index]?).map ServeGate.inflightBytes = some held ∧ spurious = false then
    (state.setGate index fun gate => { gate with inflightBytes := held + declared },
      .reserved index declared)
  else (state, .planning index declared)

def dropReservation (state : ServeState) (index : Nat) (declared : UInt64) : ServeState × ServeThread :=
  (state.setGate index fun gate => { gate with inflightBytes := gate.inflightBytes - declared }, .released)

/-- The next atomic step of one admission; a guard may be dropped at any time. -/
def advance (state : ServeState) (spurious : Bool) : ServeThread → ServeState × ServeThread
  | .counting index => state.loadCount index
  | .counted index held => state.exchangeCount index held spurious
  | .permit _ => state.dropPermit
  | .planning index declared => state.loadBytes index declared
  | .planned index declared held => state.exchangeBytes index declared held spurious
  | .reserved index declared => state.dropReservation index declared
  | .unbounded => (state, .unbounded)
  | .refused why => (state, .refused why)
  | .released => (state, .released)

def step (state : ServeState) (event : ServeEvent) : ServeState :=
  if state.aborted then state
  else
    match event with
    | .setServeConcurrency max =>
      { state with serveConcurrency := some (state.serveConcurrency.getD max) }
    | .serve budget => { state with gates := state.gates ++ [state.newGate budget] }
    | .stop index => state.setGate index fun gate => { gate with active := false }
    | .acceptStream index =>
      if index < state.gates.length then { state with threads := state.threads ++ [.counting index] }
      else state
    | .request index declared uploadAdmitted =>
      let admitted := state.admitPlan index declared uploadAdmitted
      { admitted.1 with threads := state.threads ++ [admitted.2] }
    | .advance index spurious =>
      match state.threads[index]? with
      | none => state
      | some thread =>
        let advanced := state.advance spurious thread
        { advanced.1 with threads := state.threads.set index advanced.2 }

def run (state : ServeState) (events : List ServeEvent) : ServeState := events.foldl step state

end ServeState

end NixP2p
