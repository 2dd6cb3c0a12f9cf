import NixP2p.Availability.SupplyCatalog
import NixP2p.Claims.BatchHold
import NixP2p.Serving.NarHashKey
import NixP2p.Transfer.Bao

/-!
# The availability index

A node answers whether it holds a NarHash from a map of registrations shared by reference: a probe takes a reference under the map's lock, dumps and hashes the store path outside it, and publishes the result if the map still holds the reference. Every critical section is one step, and what the store, the disk and the budget answer is the step's `World`.
-/

namespace NixP2p

open HashTable

class Sha256 where
  digest : List UInt8 → Wire.Bytes 32

def NarHashKey.fromRawNar [Sha256] (rawNar : List UInt8) : NarHashKey := ⟨Sha256.digest rawNar⟩

def Blake3Digest.fromRawNar [Blake3] (rawNar : List UInt8) : Blake3Digest := ⟨Blake3.hash rawNar⟩

structure DumpError where
  why : String

structure PersistError where
  why : String

structure NarHashMismatch where
  registered : NarHashKey
  computed : NarHashKey
  storePath : StorePath

inductive AvailabilityError where
  | dump (error : DumpError)
  | persist (error : PersistError)
  | narHashMismatch (error : NarHashMismatch)

structure DerivedNar where
  blake3 : Blake3Digest
  narSizeUncompressedNar : UInt64

inductive DeriveOutcome where
  | verified (derived : DerivedNar)
  | quarantined (mismatch : NarHashMismatch)

structure Entry where
  storePath : StorePath
  supplyRegistration : SupplyRegistration
  digest : Option DeriveOutcome

def Entry.retire (entry : Entry) : Entry :=
  { entry with supplyRegistration := { entry.supplyRegistration with retired := true } }

/-- A shared reference to an entry: its position among all entries ever made. -/
abbrev EntryRef := Nat

structure AvailabilityIndex where
  nodeId : NodeId
  arena : List Entry := []
  entries : Table NarHashKey EntryRef := ∅
  supplyCatalog : CatalogState := {}

/-- What the outside answers during one step. -/
structure World where
  pathExists : StorePath → Bool
  dump : StorePath → Except DumpError (List UInt8)
  /-- Whether the gate lets a cold key be dumped, where asking for the size may fail. -/
  allowance : Except DumpError Bool
  cancelled : Bool
  save : Except PersistError Unit

class NarDumper where
  productionSource : StorePath → NarProductionSource

def deriveNar [Blake3] (rawNar : List UInt8) : DerivedNar :=
  ⟨Blake3Digest.fromRawNar rawNar, UInt64.ofNat rawNar.length⟩

namespace AvailabilityIndex

def retireSupplyRegistration (index : AvailabilityIndex) (gone : EntryRef) : AvailabilityIndex :=
  match index.arena[gone]? with
  -- A reference is never dangling.
  | none => index
  | some entry =>
    { index with
      arena := index.arena.set gone entry.retire
      supplyCatalog := index.supplyCatalog.retire entry.supplyRegistration }

def bindsPath (index : AvailabilityIndex) (key : NarHashKey) (storePath : StorePath) : Bool :=
  ((index.entries.lookup key).bind fun existing => index.arena[existing]?).any fun existing =>
    decide (existing.storePath = storePath)

/-- One critical section, or none where the catalog's identities are used up and the call panics. -/
def registerBinding (index : AvailabilityIndex) (key : NarHashKey) (storePath : StorePath)
    (verified : Option DerivedNar) (save : Except PersistError Unit) :
    Option (AvailabilityIndex × Except PersistError Unit) :=
  if index.bindsPath key storePath ∧ verified.isNone then some (index, .ok ())
  else match index.supplyCatalog.register with
    | none => none
    | some (supplyCatalog, supplyRegistration) =>
      let fresh := index.arena.length
      let replaced := index.entries.lookup key
      let entry : Entry := { storePath, supplyRegistration, digest := verified.map .verified }
      let inserted := { index with
        arena := index.arena ++ [entry], entries := index.entries.insert key fresh, supplyCatalog }
      match save with
      | .error error =>
        -- The previous reference goes back into the map, and what it pushes out is the new entry.
        let restored := { inserted with entries := put inserted.entries key replaced }
        some (restored.retireSupplyRegistration fresh, .error error)
      | .ok () =>
        some (match replaced with
          | some replaced => inserted.retireSupplyRegistration replaced
          | none => inserted, .ok ())

def register (index : AvailabilityIndex) (world : World) (key : NarHashKey) (storePath : StorePath) :
    Option (AvailabilityIndex × Except PersistError Unit) :=
  index.registerBinding key storePath none world.save

def verifyAndRegister [Sha256] [Blake3] (index : AvailabilityIndex) (world : World) (key : NarHashKey)
    (storePath : StorePath) (expectedSize : UInt64) :
    Option (AvailabilityIndex × Except AvailabilityError DerivedNar) :=
  match world.dump storePath with
  | .error error => some (index, .error (.dump error))
  | .ok raw =>
    let computed := NarHashKey.fromRawNar raw
    if world.cancelled then some (index, .error (.dump ⟨"candidate registration cancelled"⟩))
    else if computed ≠ key then some (index, .error (.narHashMismatch ⟨key, computed, storePath⟩))
    else if UInt64.ofNat raw.length ≠ expectedSize then
      some (index, .error (.dump ⟨"candidate registration NAR size differs from metadata"⟩))
    else
      let derived := deriveNar raw
      (index.registerBinding key storePath (some derived) world.save).map fun (next, saved) =>
        (next, (saved.mapError .persist).map fun _ => derived)

def remove (index : AvailabilityIndex) (key : NarHashKey) (gone : EntryRef) : AvailabilityIndex :=
  { index with entries := index.entries.erase key }.retireSupplyRegistration gone

def unregister (index : AvailabilityIndex) (world : World) (key : NarHashKey) :
    AvailabilityIndex × Except PersistError Unit :=
  match index.entries.lookup key with
  | none => (index, .ok ())
  | some removed => (index.remove key removed, world.save)

def dropIfSame (index : AvailabilityIndex) (world : World) (key : NarHashKey) (observed : EntryRef) :
    AvailabilityIndex × Except PersistError Unit :=
  if index.entries.lookup key = some observed then (index.remove key observed, world.save)
  else (index, .ok ())

inductive DeriveStep where
  | derived (derived : DerivedNar) (freshlyDerived : Bool)
  | deferred

def setDigest (index : AvailabilityIndex) (ref : EntryRef) (entry : Entry) (outcome : DeriveOutcome) :
    AvailabilityIndex :=
  { index with arena := index.arena.set ref { entry with digest := some outcome } }

/-- The single-flight computation, under the entry's own lock. -/
def derive [Sha256] [Blake3] (index : AvailabilityIndex) (world : World) (key : NarHashKey)
    (ref : EntryRef) (entry : Entry) : AvailabilityIndex × Except AvailabilityError DeriveStep :=
  match entry.digest with
  | some (.verified derived) => (index, .ok (.derived derived false))
  | some (.quarantined mismatch) => (index, .error (.narHashMismatch mismatch))
  | none =>
    match world.allowance with
    | .error error => (index, .error (.dump error))
    | .ok false => (index, .ok .deferred)
    | .ok true =>
      match world.dump entry.storePath with
      | .error error => (index, .error (.dump error))
      | .ok rawNar =>
        let computed := NarHashKey.fromRawNar rawNar
        if computed ≠ key then
          let mismatch := ⟨key, computed, entry.storePath⟩
          (index.setDigest ref entry (.quarantined mismatch), .error (.narHashMismatch mismatch))
        else
          let derived := deriveNar rawNar
          (index.setDigest ref entry (.verified derived), .ok (.derived derived true))

def catalogRecord [NarDumper] (entry : Entry) (derived : DerivedNar) : SupplyCatalogRecord where
  declaredSize := derived.narSizeUncompressedNar
  source := NarDumper.productionSource entry.storePath
  storePath := entry.storePath

end AvailabilityIndex

inductive BudgetedHold where
  | holds (blake3 : Blake3Digest) (offers : List KnownTransport)
  | absent
  | deferred

/-- Where a probe or a prune is: before its next critical section or its next look at the store. -/
inductive HoldThread where
  | reading (key : NarHashKey)
  | observed (key : NarHashKey) (entry : EntryRef)
  | dropping (key : NarHashKey) (entry : EntryRef)
  | rereading (key : NarHashKey)
  | materialised (key : NarHashKey) (entry : EntryRef)
  | failing (key : NarHashKey) (entry : EntryRef) (error : AvailabilityError)
  | publishing (key : NarHashKey) (entry : EntryRef) (derived : DerivedNar)
  | held (answer : Except AvailabilityError BudgetedHold)
  | pruning (key : NarHashKey)
  | pruneObserved (key : NarHashKey) (entry : EntryRef)
  | pruneDropping (key : NarHashKey) (entry : EntryRef)
  | pruned (answer : Except PersistError Unit)

section Threads

variable [Sha256] [Blake3] [NarDumper]

open AvailabilityIndex

def HoldThread.afterDerive (key : NarHashKey) (ref : EntryRef) :
    Except AvailabilityError DeriveStep → HoldThread
  | .ok .deferred => .held (.ok .deferred)
  | .ok (.derived derived _) => .publishing key ref derived
  | .error error => .failing key ref error

def HoldThread.advance (index : AvailabilityIndex) (world : World) :
    HoldThread → AvailabilityIndex × HoldThread
  | .reading key =>
    match index.entries.lookup key with
    | none => (index, .held (.ok .absent))
    | some ref => (index, .observed key ref)
  | .observed key ref =>
    match index.arena[ref]? with
    | none => (index, .observed key ref)
    | some entry =>
      if world.pathExists entry.storePath then (index, .materialised key ref) else (index, .dropping key ref)
  | .dropping key ref =>
    match index.dropIfSame world key ref with
    | (next, .error error) => (next, .held (.error (.persist error)))
    | (next, .ok ()) => (next, .rereading key)
  | .rereading key =>
    match index.entries.lookup key with
    | none => (index, .held (.ok .absent))
    | some _ => (index, .reading key)
  | .materialised key ref =>
    match index.arena[ref]? with
    | none => (index, .materialised key ref)
    | some entry =>
      let (next, step) := index.derive world key ref entry
      (next, .afterDerive key ref step)
  | .failing key ref error =>
    if index.entries.lookup key = some ref then (index, .held (.error error)) else (index, .reading key)
  | .publishing key ref derived =>
    if index.entries.lookup key = some ref then
      match index.arena[ref]? with
      | none => (index, .publishing key ref derived)
      | some entry =>
        match index.supplyCatalog.publish entry.supplyRegistration derived.blake3
            (catalogRecord entry derived) with
        | none =>
          (index, .held (.error (.dump
            ⟨s!"active registration for {key} was retired before supply publication"⟩)))
        -- A snapshot that cannot be saved here is only logged.
        | some supplyCatalog =>
          ({ index with supplyCatalog }, .held (.ok (.holds derived.blake3 [.iroh index.nodeId])))
    else (index, .reading key)
  | .pruning key =>
    match index.entries.lookup key with
    | none => (index, .pruned (.ok ()))
    | some ref => (index, .pruneObserved key ref)
  | .pruneObserved key ref =>
    match index.arena[ref]? with
    | none => (index, .pruneObserved key ref)
    | some entry =>
      if world.pathExists entry.storePath then (index, .pruned (.ok ())) else (index, .pruneDropping key ref)
  | .pruneDropping key ref =>
    let (next, saved) := index.dropIfSame world key ref
    (next, .pruned saved)
  | .held answer => (index, .held answer)
  | .pruned answer => (index, .pruned answer)

inductive IndexAction where
  | register (key : NarHashKey) (storePath : StorePath)
  | verifyAndRegister (key : NarHashKey) (storePath : StorePath) (expectedSize : UInt64)
  | unregister (key : NarHashKey)
  | hold (key : NarHashKey)
  | pruneIfGone (key : NarHashKey)
  | advance (thread : Nat)

structure IndexState where
  index : AvailabilityIndex
  threads : List HoldThread := []
  /-- A panic under the locks poisons them, and no later call gets past one. -/
  poisoned : Bool := false

def IndexState.registered {α : Type} (state : IndexState) : Option (AvailabilityIndex × α) → IndexState
  | none => { state with poisoned := true }
  | some (index, _) => { state with index }

def IndexState.act (state : IndexState) (world : World) : IndexAction → IndexState
  | .register key storePath => state.registered (state.index.register world key storePath)
  | .verifyAndRegister key storePath expectedSize =>
    state.registered (state.index.verifyAndRegister world key storePath expectedSize)
  | .unregister key => { state with index := (state.index.unregister world key).1 }
  | .hold key => { state with threads := state.threads ++ [.reading key] }
  | .pruneIfGone key => { state with threads := state.threads ++ [.pruning key] }
  | .advance thread =>
    match state.threads[thread]? with
    | none => state
    | some current =>
      let (index, next) := current.advance state.index world
      { state with index, threads := state.threads.set thread next }

def IndexState.step (state : IndexState) (event : IndexAction × World) : IndexState :=
  if state.poisoned then state else state.act event.2 event.1

def IndexState.run (nodeId : NodeId) (events : List (IndexAction × World)) : IndexState :=
  events.foldl IndexState.step { index := { nodeId } }

end Threads

end NixP2p
