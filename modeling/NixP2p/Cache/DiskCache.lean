import NixP2p.Cache.Bookkeeping
import NixP2p.Serving.Http

/-!
# The narinfo cache

A fetch first reads the entry file of its store hash, and otherwise asks upstream and installs the answer: the file is renamed into place, then the bookkeeping is updated, and then the files of the evicted entries are deleted. Any number of fetches go through these points at once, and a crash may cut a file anywhere.
-/

namespace NixP2p

open HashTable Text

abbrev NarinfoResponse := UpstreamResponse UpstreamBody

def positiveTtl : Nat := 30 * 24 * 3600

def negativeTtl : Nat := 3600

def EntryKind.ttl : EntryKind → Nat
  | .positive => positiveTtl
  | .negative => negativeTtl

def positiveResponse (body : List UInt8) : NarinfoResponse where
  status := 200
  headers := [("content-type", ascii "text/x-nix-narinfo"), ("content-length", decimal body.length)]
  body := ⟨body, true⟩

def negativeResponse : NarinfoResponse where
  status := 404
  headers := [("content-type", ascii "text/plain")]
  body := ⟨[], true⟩

def CacheEntry.response (entry : CacheEntry) : NarinfoResponse :=
  match entry.kind with
  | .positive => positiveResponse entry.body
  | .negative => negativeResponse

/-- The whole body, unless it is too long or breaks off; `why` is what the reader then reports. -/
def collectBody (body : UpstreamBody) (why : String) : Except SourceError (List UInt8) :=
  if maxNarinfoBytes < body.bytes.length ∨ body.clean = false then
    .error (.upstream s!"reading narinfo body (or exceeds {maxNarinfoBytes} B): {why}")
  else .ok body.bytes

def cacheable (headers : HeaderMap) (bytes : List UInt8) : Bool :=
  isWellFormedNarinfo bytes && !hasUnsupportedTransferCoding headers && !connectionHeaderIsMalformed headers &&
    !hasAmbiguousFraming headers

/-- Where a fetch is. A response stands beside an entry while the entry is being installed. -/
inductive FetchPhase where
  | reading
  | judging (raw : List UInt8)
  | asking
  | installing (entry : CacheEntry) (response : NarinfoResponse)
  | recording (entry : CacheEntry) (response : NarinfoResponse)
  | deleting (victims : List (List Char)) (response : NarinfoResponse)
  | hit (response : NarinfoResponse) (now : UInt64)
  | answered (result : Except SourceError NarinfoResponse)
  deriving DecidableEq

/-- What a fetch meets at its next point: whether a file operation succeeds, or what upstream answers. -/
inductive FetchAction where
  | read (readable : Bool)
  | judge
  | answer (result : Except SourceError NarinfoResponse) (why : String)
  | install (written : Bool)
  | record
  | delete (deleted : Bool)

structure CacheStore where
  files : Table (List Char) (List UInt8)
  book : Bookkeeping

structure FetchTurn where
  store : CacheStore
  phase : FetchPhase

section Turns

variable (maxEntries : {n : Nat // n ≠ 0}) (clock : UInt64) (store : CacheStore) (storeHash : List Char)

def readEntry (readable : Bool) : FetchTurn :=
  match safeKey storeHash with
  | none => ⟨store, .asking⟩
  | some key =>
    match (if readable then store.files.lookup key else none) with
    | none => ⟨store, .asking⟩
    | some raw => ⟨store, .judging raw⟩

/-- The second half of `read_fresh`: a damaged file is removed, and an old entry is a miss. -/
def judgeEntry (raw : List UInt8) : FetchTurn :=
  match CacheEntry.decode raw with
  | none => ⟨{ store with files := store.files.erase storeHash }, .asking⟩
  | some entry =>
    if entry.kind.ttl ≤ clock.toNat - entry.fetchedAt.toNat then ⟨store, .asking⟩
    else ⟨store, .hit entry.response clock⟩

def takeAnswer (result : Except SourceError NarinfoResponse) (why : String) : FetchPhase :=
  match result with
  | .error error => .answered (.error error)
  | .ok response =>
    if response.status = 404 then .installing ⟨.negative, clock, []⟩ negativeResponse
    else if response.status ≠ 200 then .answered (.ok response)
    else
      match collectBody response.body why with
      | .error error => .answered (.error error)
      | .ok bytes =>
        if cacheable response.headers bytes then
          .installing ⟨.positive, clock, bytes⟩ ⟨200, response.headers, ⟨bytes, true⟩⟩
        else .answered (.ok ⟨200, response.headers, ⟨bytes, true⟩⟩)

def installEntry (entry : CacheEntry) (response : NarinfoResponse) (written : Bool) : FetchTurn :=
  match safeKey storeHash with
  | none => ⟨store, .answered (.ok response)⟩
  | some key =>
    if written then ⟨{ store with files := store.files.insert key entry.encode }, .recording entry response⟩
    else ⟨store, .answered (.ok response)⟩

def recordEntry (entry : CacheEntry) (response : NarinfoResponse) : FetchTurn :=
  let eviction := store.book.recordAndEvict maxEntries storeHash entry.fetchedAt (Bookkeeping.tokenOf entry)
  ⟨{ store with book := eviction.book }, .deleting eviction.victims response⟩

def deleteEntry (victims : List (List Char)) (response : NarinfoResponse) (deleted : Bool) : FetchTurn :=
  match victims with
  | [] => ⟨store, .answered (.ok response)⟩
  | victim :: rest =>
    match safeKey victim with
    | none => ⟨store, .deleting rest response⟩
    | some key =>
      if deleted then ⟨{ store with files := store.files.erase key }, .deleting rest response⟩
      else ⟨store, .deleting rest response⟩

/-- One step of a fetch. An action that its phase does not wait for changes nothing. -/
def fetchTurn (phase : FetchPhase) (action : FetchAction) : FetchTurn :=
  match phase, action with
  | .reading, .read readable => readEntry store storeHash readable
  | .judging raw, .judge => judgeEntry clock store storeHash raw
  | .asking, .answer result why => ⟨store, takeAnswer clock result why⟩
  | .installing entry response, .install written => installEntry store storeHash entry response written
  | .recording entry response, .record => recordEntry maxEntries store storeHash entry response
  | .deleting victims response, .delete deleted => deleteEntry store victims response deleted
  | phase, _ => ⟨store, phase⟩

end Turns

structure FetchTask where
  storeHash : List Char
  phase : FetchPhase
  deriving DecidableEq

structure UpstreamAnswer where
  fetch : Nat
  storeHash : List Char
  given : UInt64
  result : Except SourceError NarinfoResponse
  deriving DecidableEq

structure CacheSystem where
  clock : UInt64
  store : CacheStore
  fetches : List FetchTask
  answers : List UpstreamAnswer

inductive CacheEvent where
  | fetch (storeHash : List Char)
  | turn (index : Nat) (action : FetchAction)
  | tick (now : UInt64)
  | cut (key : List Char) (length : Nat)

namespace CacheSystem

def answerOf (clock : UInt64) (index : Nat) (task : FetchTask) : FetchAction → List UpstreamAnswer
  | .answer result _ => if task.phase = .asking then [⟨index, task.storeHash, clock, result⟩] else []
  | _ => []

def step (maxEntries : {n : Nat // n ≠ 0}) (system : CacheSystem) : CacheEvent → CacheSystem
  | .fetch storeHash => { system with fetches := system.fetches ++ [⟨storeHash, .reading⟩] }
  | .turn index action =>
    match system.fetches[index]? with
    | none => system
    | some task =>
      let turn := fetchTurn maxEntries system.clock system.store task.storeHash task.phase action
      { system with
        store := turn.store
        fetches := system.fetches.set index ⟨task.storeHash, turn.phase⟩
        answers := system.answers ++ answerOf system.clock index task action }
  | .tick now => if system.clock ≤ now then { system with clock := now } else system
  | .cut key length =>
    match system.store.files.lookup key with
    | none => system
    | some raw => { system with store.files := system.store.files.insert key (raw.take length) }

def run (maxEntries : {n : Nat // n ≠ 0}) (start : UInt64) (events : List CacheEvent) : CacheSystem :=
  events.foldl (step maxEntries) ⟨start, ⟨∅, {}⟩, [], []⟩

end CacheSystem

end NixP2p
