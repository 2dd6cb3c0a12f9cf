import Mathlib.Data.Char
import Mathlib.Data.List.Lex
import Mathlib.Data.Prod.Lex
import NixP2p.Base.HashTable
import NixP2p.Base.Smallest
import NixP2p.Cache.NarinfoEntry

/-!
# The bookkeeping of the narinfo cache

Beside the entry files the cache keeps, in memory, a record for every entry, the entries in the order of their age, and which entry a NAR token was last seen in. The three are derived from the files: they are loaded from a sidecar file, or from a scan of the directory where that is missing or damaged, and follow every install. The oldest entries go when there are too many.
-/

namespace NixP2p

open HashTable Text

structure CacheRecord where
  fetchedAt : UInt64
  token : Option (List Char)
  deriving DecidableEq

/-- Age first, and the store hash to break ties. -/
abbrev AgeKey := Nat ×ₗ List Char

def ageKey (fetchedAt : UInt64) (storeHash : List Char) : AgeKey := toLex (fetchedAt.toNat, storeHash)

def AgeKey.hash (key : AgeKey) : List Char := (ofLex key).2

structure Bookkeeping where
  records : Table (List Char) CacheRecord := ∅
  lru : Finset AgeKey := ∅
  tokenIndex : Table (List Char) (List Char) := ∅

namespace Bookkeeping

def size (book : Bookkeeping) : Nat := book.records.entries.length

def unlink (index : Table (List Char) (List Char)) (storeHash : List Char) :
    Option (List Char) → Table (List Char) (List Char)
  | none => index
  | some token => if index.lookup token = some storeHash then index.erase token else index

def remove (book : Bookkeeping) (storeHash : List Char) : Bookkeeping :=
  match book.records.lookup storeHash with
  | none => book
  | some record =>
    { records := book.records.erase storeHash
      lru := book.lru.erase (ageKey record.fetchedAt storeHash)
      tokenIndex := unlink book.tokenIndex storeHash record.token }

def insert (book : Bookkeeping) (storeHash : List Char) (fetchedAt : UInt64) (token : Option (List Char)) :
    Bookkeeping where
  records := book.records.insert storeHash ⟨fetchedAt, token⟩
  lru := Insert.insert (ageKey fetchedAt storeHash) book.lru
  tokenIndex :=
    match token with
    | none => book.tokenIndex
    | some token => book.tokenIndex.insert token storeHash

def others (book : Bookkeeping) (spare : Option (List Char)) : Finset AgeKey :=
  book.lru.filter fun key => spare ≠ some key.hash

def oldest (book : Bookkeeping) (spare : Option (List Char)) : Option AgeKey :=
  if h : (book.others spare).Nonempty then some ((book.others spare).min' h) else none

structure Eviction where
  book : Bookkeeping
  victims : List (List Char)

/-- The eviction loop. Each round drops one record, so it needs no more rounds than there are records. -/
def evictLoop (cap : Nat) (spare : Option (List Char)) : Nat → Bookkeeping → Eviction
  | 0, book => ⟨book, []⟩
  | rounds + 1, book =>
    if cap < book.size then
      match book.oldest spare with
      | none => ⟨book, []⟩
      | some victim =>
        ⟨(evictLoop cap spare rounds (book.remove victim.hash)).book,
          victim.hash :: (evictLoop cap spare rounds (book.remove victim.hash)).victims⟩
    else ⟨book, []⟩

def evictOverCap (book : Bookkeeping) (cap : Nat) (spare : Option (List Char)) : Eviction :=
  evictLoop cap spare book.size book

def recordAndEvict (book : Bookkeeping) (cap : Nat) (storeHash : List Char) (fetchedAt : UInt64)
    (token : Option (List Char)) : Eviction :=
  ((book.remove storeHash).insert storeHash fetchedAt token).evictOverCap cap (some storeHash)

def trimToCap (book : Bookkeeping) (cap : Nat) : Eviction := book.evictOverCap cap none

def indexMagic : List Char := "NIXP2P-NARINFO-INDEX\t1".toList

structure SidecarRow where
  storeHash : List Char
  fetchedAt : UInt64
  token : Option (List Char)

def readRow (line : List Char) : Option SidecarRow :=
  match line.splitOn '\t' with
  | storeHash :: fetchedAt :: token :: _ =>
    (parseU64 fetchedAt).bind fun fetchedAt =>
      (safeKey storeHash).map fun _ => ⟨storeHash, fetchedAt, if token = [] then none else some token⟩
  | _ => none

/-- The rows of the sidecar; a bad row or a hash that came before gives the whole file up. -/
def readRows : List (List Char) → List (List Char) → Option (List SidecarRow)
  | _, [] => some []
  | seen, line :: rest =>
    if line = [] then readRows seen rest
    else
      (readRow line).bind fun row =>
        if row.storeHash ∈ seen then none
        else (readRows (row.storeHash :: seen) rest).map (row :: ·)

def readSidecar (sidecar : Option (List UInt8)) : Option (List SidecarRow) :=
  (sidecar.bind fromUtf8).bind fun text =>
    match lines text with
    | [] => none
    | first :: rest => if first = indexMagic then readRows [] rest else none

def tokenOf (entry : CacheEntry) : Option (List Char) :=
  if entry.kind = .positive then (parseCorrelation entry.body).map Correlation.token else none

structure DirFile where
  name : List Char
  content : Option (List UInt8)

def scanFile (book : Bookkeeping) (file : DirFile) : Bookkeeping :=
  match (file.name.dropSuffix? ".nic".toList).bind safeKey with
  | none => book
  | some storeHash =>
    match file.content.bind CacheEntry.decode with
    | none => book
    | some entry => (book.remove storeHash).insert storeHash entry.fetchedAt (tokenOf entry)

def rebuildFromScan (files : List DirFile) : Bookkeeping := files.foldl scanFile {}

def insertRow (book : Bookkeeping) (row : SidecarRow) : Bookkeeping :=
  book.insert row.storeHash row.fetchedAt row.token

def readIndex (sidecar : Option (List UInt8)) (files : List DirFile) : Bookkeeping :=
  match readSidecar sidecar with
  | some rows => rows.foldl insertRow {}
  | none => rebuildFromScan files

def loadIndex (cap : Nat) (sidecar : Option (List UInt8)) (files : List DirFile) : Eviction :=
  (readIndex sidecar files).trimToCap cap

end Bookkeeping

end NixP2p
