import Mathlib.Data.Finset.Card
import NixP2p.Base.HashTable
import NixP2p.Records.Ids
import NixP2p.Serving.Narinfo
import NixP2p.Serving.NarHashKey

/-!
# Announcing after a fetch

A node that has fetched a path announces itself as a holder, within a budget: `onFetched` reserves a unit for the key and spawns a task, which withdraws the holdings whose store path is gone and then grows the reserved key. Every access to the ledger is one critical section, and the tasks await the network and the store in between.
-/

namespace NixP2p

open HashTable

structure AnnounceLedger where
  remaining : UInt64
  inflight : Finset NarHashKey
  announced : Finset NarHashKey
  held : Table NarHashKey (ContentKey × String)
  seedOwned : Finset NarHashKey

inductive Begin where
  | proceed
  | alreadyHandled
  | seedOwned
  | exhausted
  deriving DecidableEq

namespace AnnounceLedger

def begin (led : AnnounceLedger) (key : NarHashKey) : AnnounceLedger × Begin :=
  if key ∈ led.seedOwned then (led, .seedOwned)
  else if key ∈ led.announced ∨ key ∈ led.inflight then (led, .alreadyHandled)
  else if led.remaining = 0 then (led, .exhausted)
  else ({ led with remaining := led.remaining - 1, inflight := insert key led.inflight }, .proceed)

def commitSuccess (led : AnnounceLedger) (key : NarHashKey) (contentKey : ContentKey)
    (storePath : String) : AnnounceLedger :=
  { led with
    inflight := led.inflight.erase key
    announced := insert key led.announced
    held := led.held.insert key (contentKey, storePath) }

def commitFailure (led : AnnounceLedger) (key : NarHashKey) : AnnounceLedger :=
  if key ∈ led.inflight then
    { led with inflight := led.inflight.erase key, remaining := led.remaining + 1 }
  else led

/-- The holdings whose store path is gone, as an unordered walk meets them. -/
def gone (led : AnnounceLedger) (exist : String → Bool)
    (order : IterOrder (NarHashKey × ContentKey × String)) : List (NarHashKey × ContentKey) :=
  ((order.arrange (toEntries led.held)).filter fun holding => !exist holding.2.2).map
    fun holding => (holding.1, holding.2.1)

def dropHeld (led : AnnounceLedger) (key : NarHashKey) : AnnounceLedger :=
  { led with held := led.held.erase key }

end AnnounceLedger

/-- How one grow ended; `cleanFailure` is guaranteed not to have been published. -/
inductive AnnounceAttempt where
  | published (contentKey : ContentKey)
  | ambiguous (contentKey : ContentKey)
  | cleanFailure (why : String)

def AnnounceAttempt.intoGrowResult : AnnounceAttempt → Option ContentKey
  | .published contentKey => some contentKey
  | .ambiguous contentKey => some contentKey
  | .cleanFailure _ => none

abbrev Grow := NarHashKey × String

/-- Where a dispatched task stands between two of its critical sections. -/
inductive DispatchTask where
  | spawned (grow : Option Grow)
  | reconciling (gone : List (NarHashKey × ContentKey)) (grow : Option Grow)
  | dropping (key : NarHashKey) (gone : List (NarHashKey × ContentKey)) (grow : Option Grow)
  | growing (key : NarHashKey) (storePath : String)
  | committing (key : NarHashKey) (storePath : String) (result : Option ContentKey)
  | finished

/-- The ledger, the tasks, and what has happened: the grows begun, the keys possibly published and the withdrawals sent. -/
structure AnnounceSystem where
  ledger : AnnounceLedger
  tasks : List DispatchTask
  grown : List NarHashKey
  published : List NarHashKey
  withdrawn : List (NarHashKey × ContentKey)

inductive TaskStep where
  /-- The walk over the holdings, with the store paths that exist as it looks at them. -/
  | snapshot (exist : String → Bool) (order : IterOrder (NarHashKey × ContentKey × String))
  | withdrew (ok : Bool)
  | dropped
  | startGrow
  | grew (attempt : AnnounceAttempt)
  | commit

/-- A fetch, or a step of the task at a position; a step that the task is not at does nothing. -/
inductive AnnounceEvent where
  | fetched (narHash : NarHash) (storePath : String)
  | task (position : Nat) (action : TaskStep)

namespace AnnounceSystem

def new (announceBudgetCount : UInt64) (seedOwned : Finset NarHashKey) : AnnounceSystem where
  ledger :=
    { remaining := announceBudgetCount, inflight := ∅, announced := ∅, held := ∅, seedOwned }
  tasks := []
  grown := []
  published := []
  withdrawn := []

def onFetched (state : AnnounceSystem) (narHash : NarHash) (storePath : String) : AnnounceSystem :=
  match NarHashKey.fromStr narHash with
  | .error _ => state
  | .ok key =>
    match state.ledger.begin key with
    | (ledger, .proceed) =>
      { state with ledger, tasks := state.tasks ++ [.spawned (some (key, storePath))] }
    | (ledger, _) => { state with ledger, tasks := state.tasks ++ [.spawned none] }

def advance (state : AnnounceSystem) (position : Nat) : DispatchTask → TaskStep → AnnounceSystem
  | .spawned grow, .snapshot exist order =>
    { state with tasks := state.tasks.set position (.reconciling (state.ledger.gone exist order) grow) }
  | .reconciling ((key, contentKey) :: gone) grow, .withdrew ok =>
    { state with
      withdrawn := state.withdrawn ++ [(key, contentKey)]
      tasks := state.tasks.set position
        (if ok then .dropping key gone grow else .reconciling gone grow) }
  | .dropping key gone grow, .dropped =>
    { state with
      ledger := state.ledger.dropHeld key
      tasks := state.tasks.set position (.reconciling gone grow) }
  | .reconciling [] none, .startGrow => { state with tasks := state.tasks.set position .finished }
  | .reconciling [] (some (key, storePath)), .startGrow =>
    { state with
      grown := state.grown ++ [key]
      tasks := state.tasks.set position (.growing key storePath) }
  | .growing key storePath, .grew attempt =>
    { state with
      published :=
        if attempt.intoGrowResult.isSome then state.published ++ [key] else state.published
      tasks := state.tasks.set position (.committing key storePath attempt.intoGrowResult) }
  | .committing key storePath (some contentKey), .commit =>
    { state with
      ledger := state.ledger.commitSuccess key contentKey storePath
      tasks := state.tasks.set position .finished }
  | .committing key _ none, .commit =>
    { state with
      ledger := state.ledger.commitFailure key
      tasks := state.tasks.set position .finished }
  | _, _ => state

def step (state : AnnounceSystem) : AnnounceEvent → AnnounceSystem
  | .fetched narHash storePath => state.onFetched narHash storePath
  | .task position action =>
    match state.tasks[position]? with
    | none => state
    | some task => state.advance position task action

def run (announceBudgetCount : UInt64) (seedOwned : Finset NarHashKey) (events : List AnnounceEvent) :
    AnnounceSystem :=
  events.foldl step (new announceBudgetCount seedOwned)

end AnnounceSystem

end NixP2p
