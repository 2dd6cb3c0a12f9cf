import Mathlib.Data.List.Sort
import NixP2p.Availability.Index
import NixP2p.Base.Hex

/-!
# LAN metadata and its registry of aliases

A node of a trusted LAN keeps a durable registry of the output paths it has admitted, while the availability index keeps one chosen path for each NAR. Requests and refreshes exclude each other by the publication lock, but a request that times out leaves its worker running. A worker, a request and the refresh are tasks here, and every critical section or look at the store is one step, in a world that answers it.
-/

namespace NixP2p.Lan

open HashTable Text

deriving instance DecidableEq for DerivedNar

structure VerifiedAlias where
  key : NarHashKey
  path : StorePath
  derived : DerivedNar
  deriving DecidableEq

def validStoreHash (hash : List Char) : Bool :=
  decide ((toUtf8 hash).length = 32) && (toUtf8 hash).all fun byte => base32Alphabet.contains byte

def fileName (path : StorePath) : Option String :=
  path.components.getLast?.filter fun name => name != ".." && name != "/" && name != "."

def pathHash (path : StorePath) : Option (List Char) := do
  let name ← fileName path
  let (hash, _) ← splitOnce '-' name.toList
  if validStoreHash hash then some hash else none

def blake3Prefix : List Char := "blake3:".toList

def parseDigest (text : List Char) : Option Blake3Digest := do
  let body ← text.dropPrefix? blake3Prefix
  let bytes ← Hex.decode body
  if h : bytes.length = 32 then some ⟨⟨bytes, h⟩⟩ else none

structure AliasFields where
  key : List Char
  digest : List Char
  size : UInt64

abbrev AliasFile := Table StorePath AliasFields

class AliasJson where
  length : AliasFile → Nat

def maxLanStateBytes : Nat := 4 * 1024 * 1024

structure LanConfig where
  limit : Nat
  maxNarBytes : UInt64
  excluded : List NarHashKey

structure LanAliases where
  paths : Table (List Char) VerifiedAlias := ∅
  file : Option AliasFile := none

inductive AliasError where
  | tooLarge
  | pathBudget
  | badNarHash
  | badDigest
  | zeroSize
  | badPath
  | ambiguous
  | io
  deriving DecidableEq

def VerifiedAlias.fields (entry : VerifiedAlias) : AliasFields :=
  ⟨entry.key.display, (toString entry.derived.blake3).toList, entry.derived.narSizeUncompressedNar⟩

def aliasFile (paths : Table (List Char) VerifiedAlias) : AliasFile :=
  ofEntries ((toEntries paths).map fun entry => (entry.2.path, entry.2.fields))

def parseAlias (path : StorePath) (fields : AliasFields) : Except AliasError (List Char × VerifiedAlias) :=
  match NarHashKey.fromStr fields.key with
  | .error _ => .error .badNarHash
  | .ok key =>
    match parseDigest fields.digest with
    | none => .error .badDigest
    | some blake3 =>
      if fields.size = 0 then .error .zeroSize
      else
        match pathHash path with
        | none => .error .badPath
        | some hash => .ok (hash, ⟨key, path, ⟨blake3, fields.size⟩⟩)

def readAliases : List (StorePath × AliasFields) → Table (List Char) VerifiedAlias →
    Except AliasError (Table (List Char) VerifiedAlias)
  | [], paths => .ok paths
  | (path, fields) :: rest, paths =>
    match parseAlias path fields with
    | .error error => .error error
    | .ok (hash, entry) =>
      if (paths.lookup hash).isSome then .error .ambiguous else readAliases rest (paths.insert hash entry)

/-- How a save ends: before the rename, between the rename and the last sync, or well. -/
inductive SaveEnd where
  | refused
  | unsynced
  | done
  deriving DecidableEq

structure SaveTurn where
  aliases : LanAliases
  saved : Except AliasError Unit

/-- Saving the next registry, and taking it over if it was saved. -/
def replacePaths [AliasJson] (config : LanConfig) (aliases : LanAliases) (next : Table (List Char) VerifiedAlias)
    (ended : SaveEnd) : SaveTurn :=
  if config.limit < next.entries.length then ⟨aliases, .error .pathBudget⟩
  else if maxLanStateBytes < AliasJson.length (aliasFile next) then ⟨aliases, .error .tooLarge⟩
  else
    match ended with
    | .refused => ⟨aliases, .error .io⟩
    | .unsynced => ⟨{ aliases with file := some (aliasFile next) }, .error .io⟩
    | .done => ⟨⟨next, some (aliasFile next)⟩, .ok ()⟩

structure PersistedRegistration where
  key : NarHashKey
  storePath : StorePath
  derived : Option DerivedNar

/-- The aliases that an index snapshot has verified; of two under one store hash the later one. -/
def migrateAliases : List PersistedRegistration → Table (List Char) VerifiedAlias →
    Except AliasError (Table (List Char) VerifiedAlias)
  | [], paths => .ok paths
  | registration :: rest, paths =>
    match registration.derived with
    | none => migrateAliases rest paths
    | some derived =>
      match pathHash registration.storePath with
      | none => .error .badPath
      | some hash =>
        migrateAliases rest (paths.insert hash ⟨registration.key, registration.storePath, derived⟩)

def retainOwn (config : LanConfig) (paths : Table (List Char) VerifiedAlias) : Table (List Char) VerifiedAlias :=
  retain (fun _ entry => !config.excluded.contains entry.key) paths

def readFile [AliasJson] (config : LanConfig) (file : AliasFile) :
    Except AliasError (Table (List Char) VerifiedAlias) :=
  if maxLanStateBytes < AliasJson.length file then .error .tooLarge
  else if config.limit < file.entries.length then .error .pathBudget
  else readAliases (toEntries file) ∅

/-- Opening the registry. Where there is no state file yet, the snapshot's aliases are saved as one. -/
def openAliases [AliasJson] (config : LanConfig) (file : Option AliasFile) (legacy : List PersistedRegistration)
    (ended : SaveEnd) : Except AliasError LanAliases :=
  match file with
  | some file => (readFile config file).map fun paths => ⟨retainOwn config paths, some file⟩
  | none =>
    match migrateAliases legacy ∅ with
    | .error error => .error error
    | .ok paths =>
      let turn := replacePaths config {} (retainOwn config paths) ended
      turn.saved.map fun _ => turn.aliases

def canAdmit (config : LanConfig) (aliases : LanAliases) (hash : List Char) : Bool :=
  (aliases.paths.lookup hash).isSome || decide (aliases.paths.entries.length < config.limit)

structure LanWorld extends World where
  aliasSave : SaveEnd
  workAdmitted : Bool
  withdrawn : Bool

inductive AdmitPhase where
  | checking
  | verifying (hash : List Char)
  | committing (hash : List Char) (derived : DerivedNar)
  | holding (thread : HoldThread)
  | finished (provided : Bool)

structure AdmitWorker where
  key : NarHashKey
  path : StorePath
  size : UInt64
  phase : AdmitPhase

/-- Where the refresh is. A key it has begun stands before those that are still to come. -/
inductive RefreshPhase where
  | idle
  | waiting (keys : List NarHashKey)
  | locked (key : NarHashKey) (rest : List NarHashKey)
  | listing (key : NarHashKey) (rest : List NarHashKey)
  | unregistering (key : NarHashKey) (rest : List NarHashKey)
  | probing (key : NarHashKey) (first : VerifiedAlias) (live : List VerifiedAlias) (rest : List NarHashKey)
  | renewing (key : NarHashKey) (chosen : VerifiedAlias) (rest : List NarHashKey)
  | holding (key : NarHashKey) (thread : HoldThread) (rest : List NarHashKey)
  | retaining (key : NarHashKey) (rest : List NarHashKey)
  | announcing (rest : List NarHashKey)
  | withdrawing (key : NarHashKey) (rest : List NarHashKey)
  | removing (key : NarHashKey) (rest : List NarHashKey)

inductive RequestPhase where
  | waiting
  | informing
  | admitting (worker : Nat)
  | announcing
  | closed (answered : Bool)
  deriving DecidableEq

structure LanRequest where
  hash : List Char
  phase : RequestPhase

inductive LockHolder where
  | request (index : Nat)
  | refresh
  deriving DecidableEq

/-- What `nix path-info` says of a path, if the narinfo made of it is within its bound. -/
structure PathFacts where
  key : NarHashKey
  size : UInt64

structure LanSystem where
  index : AvailabilityIndex
  aliases : LanAliases := {}
  requests : List LanRequest := []
  workers : List AdmitWorker := []
  refresh : RefreshPhase := .idle
  publication : Option LockHolder := none
  permits : Nat := 2

section Turns

variable [Sha256] [Blake3] [NarDumper] [AliasJson] (config : LanConfig) (world : LanWorld)

/-- The oldest owner of a digest, unless its path is gone. -/
def probeRecord (index : AvailabilityIndex) (digest : Blake3Digest) : Option SupplyCatalogRecord :=
  let owners := (index.supplyCatalog.records.lookup digest).elim [] toEntries
  let oldest := owners.foldl (fun best entry =>
    match best with
    | none => some entry
    | some (id, record) => if entry.1 < id then some entry else some (id, record)) none
  (oldest.map (·.2)).filter fun record => world.pathExists record.storePath

/-- What is made of the answer of a hold: whether the key can be announced. -/
def provides (index : AvailabilityIndex) : Except AvailabilityError BudgetedHold → Bool
  | .ok (.holds blake3 _) => (probeRecord world index blake3).isSome
  | _ => false

structure WorkTurn where
  index : AvailabilityIndex
  aliases : LanAliases
  phase : AdmitPhase
  commit : Option (List Char × VerifiedAlias) := none

def checkTurn (index : AvailabilityIndex) (aliases : LanAliases) (path : StorePath) : WorkTurn :=
  match pathHash path with
  | none => ⟨index, aliases, .finished false, none⟩
  | some hash => ⟨index, aliases, if canAdmit config aliases hash then .verifying hash else .finished false, none⟩

/-- A registration whose identities are used up panics, and its worker is gone. -/
def verifyTurn (index : AvailabilityIndex) (aliases : LanAliases) (worker : AdmitWorker) (hash : List Char) : WorkTurn :=
  match index.verifyAndRegister world.toWorld worker.key worker.path worker.size with
  | none => ⟨index, aliases, .finished false, none⟩
  | some (next, .error _) => ⟨next, aliases, .finished false, none⟩
  | some (next, .ok derived) => ⟨next, aliases, .committing hash derived, none⟩

def commitTurn (index : AvailabilityIndex) (aliases : LanAliases) (worker : AdmitWorker) (hash : List Char)
    (derived : DerivedNar) : WorkTurn :=
  let entry : VerifiedAlias := ⟨worker.key, worker.path, derived⟩
  let turn := replacePaths config aliases (aliases.paths.insert hash entry) world.aliasSave
  match turn.saved with
  | .error _ => ⟨index, turn.aliases, .finished false, none⟩
  | .ok () => ⟨index, turn.aliases, .holding (.reading worker.key), some (hash, entry)⟩

def workTurn (index : AvailabilityIndex) (aliases : LanAliases) (worker : AdmitWorker) : WorkTurn :=
  match worker.phase with
  | .checking => checkTurn config index aliases worker.path
  | .verifying hash => verifyTurn world index aliases worker hash
  | .committing hash derived => commitTurn config world index aliases worker hash derived
  | .holding (.held answer) => ⟨index, aliases, .finished (provides world index answer), none⟩
  | .holding thread =>
    ⟨(thread.advance index world.toWorld).1, aliases, .holding (thread.advance index world.toWorld).2, none⟩
  | .finished provided => ⟨index, aliases, .finished provided, none⟩

structure RefreshTurn where
  index : AvailabilityIndex
  aliases : LanAliases
  phase : RefreshPhase

def pathLe (left right : VerifiedAlias) : Bool :=
  (List.lex left.path.components right.path.components fun a b => decide (a < b)) ||
    decide (left.path = right.path)

def liveAliases (aliases : LanAliases) (key : NarHashKey) : List VerifiedAlias :=
  (((toEntries aliases.paths).map (·.2)).filter fun entry =>
    decide (entry.key = key) && world.pathExists entry.path).insertionSort fun left right => pathLe left right = true

def listTurn (index : AvailabilityIndex) (aliases : LanAliases) (key : NarHashKey) (rest : List NarHashKey) :
    RefreshTurn :=
  match liveAliases world aliases key with
  | [] => ⟨index, aliases, .unregistering key rest⟩
  | first :: others => ⟨index, aliases, .probing key first (first :: others) rest⟩

def unregisterTurn (index : AvailabilityIndex) (aliases : LanAliases) (key : NarHashKey) (rest : List NarHashKey) :
    RefreshTurn :=
  match index.unregister world.toWorld key with
  | (next, .error _) => ⟨next, aliases, .waiting rest⟩
  | (next, .ok ()) => ⟨next, aliases, .withdrawing key rest⟩

/-- A record of one of the live aliases is kept as it is. -/
def probeTurn (index : AvailabilityIndex) (aliases : LanAliases) (key : NarHashKey) (first : VerifiedAlias)
    (live : List VerifiedAlias) (rest : List NarHashKey) : RefreshTurn :=
  let warm := (probeRecord world index first.derived.blake3).bind fun record =>
    live.find? fun entry => decide (entry.path = record.storePath) &&
      decide (entry.derived.narSizeUncompressedNar = record.declaredSize)
  match warm with
  | some _ => ⟨index, aliases, .holding key (.reading key) rest⟩
  | none => ⟨index, aliases, if world.workAdmitted then .renewing key first rest else .waiting rest⟩

def renewTurn (index : AvailabilityIndex) (aliases : LanAliases) (key : NarHashKey) (chosen : VerifiedAlias)
    (rest : List NarHashKey) : RefreshTurn :=
  match index.verifyAndRegister world.toWorld key chosen.path chosen.derived.narSizeUncompressedNar with
  | none => ⟨index, aliases, .waiting rest⟩
  | some (next, .error _) => ⟨next, aliases, .waiting rest⟩
  | some (next, .ok _) => ⟨next, aliases, .holding key (.reading key) rest⟩

/-- Dropping the aliases of the key whose path is gone; if there are none, nothing is saved. -/
def retainTurn (index : AvailabilityIndex) (aliases : LanAliases) (key : NarHashKey) (rest : List NarHashKey) :
    RefreshTurn :=
  let next := retain (fun _ entry => decide (entry.key ≠ key) || world.pathExists entry.path) aliases.paths
  if next.entries.length = aliases.paths.entries.length then ⟨index, aliases, .announcing rest⟩
  else
    let turn := replacePaths config aliases next world.aliasSave
    match turn.saved with
    | .error _ => ⟨index, turn.aliases, .waiting rest⟩
    | .ok () => ⟨index, turn.aliases, .announcing rest⟩

def removeTurn (index : AvailabilityIndex) (aliases : LanAliases) (key : NarHashKey) (rest : List NarHashKey) :
    RefreshTurn :=
  let next := retain (fun _ entry => decide (entry.key ≠ key)) aliases.paths
  ⟨index, (replacePaths config aliases next world.aliasSave).aliases, .waiting rest⟩

/-- One step of the refresh, apart from its waiting for the lock and a permit. -/
def refreshTurn (index : AvailabilityIndex) (aliases : LanAliases) : RefreshPhase → RefreshTurn
  | .listing key rest => listTurn world index aliases key rest
  | .unregistering key rest => unregisterTurn world index aliases key rest
  | .probing key first live rest => probeTurn world index aliases key first live rest
  | .renewing key chosen rest => renewTurn world index aliases key chosen rest
  | .holding key (.held answer) rest =>
    ⟨index, aliases, if provides world index answer then .retaining key rest else .waiting rest⟩
  | .holding key thread rest =>
    ⟨(thread.advance index world.toWorld).1, aliases, .holding key (thread.advance index world.toWorld).2 rest⟩
  | .retaining key rest => retainTurn config world index aliases key rest
  | .announcing rest => ⟨index, aliases, .waiting rest⟩
  | .withdrawing key rest => ⟨index, aliases, if world.withdrawn then .removing key rest else .waiting rest⟩
  | .removing key rest => removeTurn config world index aliases key rest
  | phase => ⟨index, aliases, phase⟩

end Turns

def RefreshPhase.working : RefreshPhase → Bool
  | .listing .. | .unregistering .. | .probing .. | .renewing .. | .holding .. | .retaining .. => true
  | _ => false

def RefreshPhase.publishing : RefreshPhase → Bool
  | .idle | .waiting _ => false
  | _ => true

def AdmitPhase.running : AdmitPhase → Bool
  | .finished _ => false
  | _ => true

inductive LanAction where
  | request (hash : List Char)
  | lock (request : Nat)
  | inform (request : Nat) (listing : List StorePath) (facts : Option PathFacts)
  | deliver (request : Nat)
  | announce (request : Nat) (published : Bool)
  | leave (request : Nat)
  | work (worker : Nat)
  | round (order : IterOrder NarHashKey)
  | refreshLock
  | refreshPermit
  | refresh

namespace LanSystem

variable [Sha256] [Blake3] [NarDumper] [AliasJson] (config : LanConfig)

/-- A request ends and gives up what it holds: the lock, and before its worker is spawned the permit. -/
def close (system : LanSystem) (index : Nat) (request : LanRequest) (answered : Bool) : LanSystem :=
  { system with
    requests := system.requests.set index { request with phase := .closed answered }
    publication := if system.publication = some (.request index) then none else system.publication
    permits := if request.phase = .informing then system.permits + 1 else system.permits }

def foundPath (hash : List Char) (listing : List StorePath) : Option StorePath :=
  match listing.filter fun path => (fileName path).any fun name => (hash ++ ['-']).isPrefixOf name.toList with
  | [path] => if listing.length < 200000 then some path else none
  | _ => none

def informed (system : LanSystem) (world : LanWorld) (index : Nat) (request : LanRequest) (path : StorePath)
    (facts : PathFacts) : LanSystem :=
  if facts.size = 0 ∨ config.maxNarBytes < facts.size then system.close index request false
  else if config.excluded.contains facts.key then system.close index request true
  else if canAdmit config system.aliases request.hash = false ∨ world.workAdmitted = false then
    system.close index request false
  else
    { system with
      requests := system.requests.set index { request with phase := .admitting system.workers.length }
      workers := system.workers ++ [⟨facts.key, path, facts.size, .checking⟩] }

def act (system : LanSystem) (world : LanWorld) : LanAction → LanSystem
  | .request hash =>
    { system with requests := system.requests ++ [⟨hash, if validStoreHash hash then .waiting else .closed false⟩] }
  | .lock index =>
    match system.requests[index]? with
    | some ⟨hash, .waiting⟩ =>
      if system.publication.isSome then system
      else if system.permits = 0 ∨ world.workAdmitted = false then
        { system with requests := system.requests.set index ⟨hash, .closed false⟩ }
      else
        { system with
          requests := system.requests.set index ⟨hash, .informing⟩
          publication := some (.request index)
          permits := system.permits - 1 }
    | _ => system
  | .inform index listing facts =>
    match system.requests[index]? with
    | some ⟨hash, .informing⟩ =>
      match foundPath hash listing, facts with
      | some path, some facts => system.informed config world index ⟨hash, .informing⟩ path facts
      | _, _ => system.close index ⟨hash, .informing⟩ false
    | _ => system
  | .deliver index =>
    match system.requests[index]? with
    | some ⟨hash, .admitting worker⟩ =>
      match system.workers[worker]? with
      | some ⟨_, _, _, .finished provided⟩ =>
        if provided then { system with requests := system.requests.set index ⟨hash, .announcing⟩ }
        else system.close index ⟨hash, .admitting worker⟩ false
      | _ => system
    | _ => system
  | .announce index published =>
    match system.requests[index]? with
    | some ⟨hash, .announcing⟩ => system.close index ⟨hash, .announcing⟩ published
    | _ => system
  | .leave index =>
    match system.requests[index]? with
    | some ⟨_, .closed _⟩ => system
    | some request => system.close index request false
    | none => system
  | .work index =>
    match system.workers[index]? with
    | none => system
    | some worker =>
      let turn := workTurn config world system.index system.aliases worker
      { system with
        index := turn.index
        aliases := turn.aliases
        workers := system.workers.set index { worker with phase := turn.phase }
        permits := if worker.phase.running && !turn.phase.running then system.permits + 1 else system.permits }
  | .round order =>
    match system.refresh with
    | .idle | .waiting [] =>
      { system with
        refresh := .waiting (order.arrange ((toEntries system.aliases.paths).map (·.2.key)).dedup) }
    | _ => system
  | .refreshLock =>
    match system.refresh with
    | .waiting (key :: rest) =>
      if system.publication.isSome then system
      else { system with refresh := .locked key rest, publication := some .refresh }
    | _ => system
  | .refreshPermit =>
    match system.refresh with
    | .locked key rest =>
      if system.permits = 0 then system
      else { system with refresh := .listing key rest, permits := system.permits - 1 }
    | _ => system
  | .refresh =>
    let turn := refreshTurn config world system.index system.aliases system.refresh
    { system with
      index := turn.index
      aliases := turn.aliases
      refresh := turn.phase
      publication := if system.refresh.publishing && !turn.phase.publishing then none else system.publication
      permits := if system.refresh.working && !turn.phase.working then system.permits + 1 else system.permits }

def step (system : LanSystem) (event : LanAction × LanWorld) : LanSystem := system.act config event.2 event.1

def committed (system : LanSystem) (event : LanAction × LanWorld) : Option (List Char × VerifiedAlias) :=
  match event.1 with
  | .work index =>
    (system.workers[index]?).bind fun worker => (workTurn config event.2 system.index system.aliases worker).commit
  | _ => none

def start (index : AvailabilityIndex) (aliases : LanAliases) : LanSystem := { index, aliases }

def run (index : AvailabilityIndex) (aliases : LanAliases) (events : List (LanAction × LanWorld)) : LanSystem :=
  events.foldl (step config) (start index aliases)

end LanSystem

end NixP2p.Lan
