import NixP2p.Allowlist.PublicProof

/-!
# The public allowlist and its file

The allowlist is a file of lines, each with a NarHash, a NarSize and a MAC of the two under a key of the node, and a map in memory that is loaded from it. An append first cuts off what stands behind the last line feed, so that a line that a crash left unfinished is never continued. A crash may cut the line that is being written anywhere.
-/

namespace NixP2p.Allowlist

open Wire HashTable Text

class Blake3Mac where
  keyedHash : Bytes 32 → List UInt8 → Bytes 32

structure PublicNar where
  narHash : NarHashKey
  narSize : UInt64
  deriving DecidableEq

/-- Why a load or an append fails. The file system may fail an operation of either at any time. -/
inductive AllowlistPersistError where
  | io
  | tooLarge (bytes : Nat)
  | notUtf8
  | tooManyRecords
  | missingSize (line : List Char)
  | missingMac (line : List Char)
  | badNarHash (text : List Char) (why : NarHashKeyParseError)
  | badNarSize (text : List Char)
  | badMac (line : List Char)
  deriving DecidableEq

def maxAllowlistFileBytes : Nat := 64 * 1024 * 1024

def maxAllowlistRecords : Nat := 1000000

def recordCanonical (record : PublicNar) : List Char := record.narHash.display ++ ' ' :: showU64 record.narSize

section Mac

variable [Blake3Mac] (macKey : Bytes 32)

def recordMac (record : PublicNar) : List Char :=
  Hex.encode (Blake3Mac.keyedHash macKey (toUtf8 (recordCanonical record))).1

def recordText (record : PublicNar) : List Char := recordCanonical record ++ ' ' :: recordMac macKey record

def parseRecord (line : List Char) : Except AllowlistPersistError PublicNar :=
  match splitOnce ' ' line with
  | none => .error (.missingSize line)
  | some (hashText, rest) =>
    match splitOnce ' ' rest with
    | none => .error (.missingMac line)
    | some (sizeText, mac) =>
      match NarHashKey.fromStr hashText with
      | .error why => .error (.badNarHash hashText why)
      | .ok narHash =>
        match parseU64 sizeText with
        | none => .error (.badNarSize sizeText)
        | some narSize => if mac = recordMac macKey ⟨narHash, narSize⟩ then .ok ⟨narHash, narSize⟩ else .error (.badMac line)

/-- The line loop. The first piece without a line feed is a torn line, and the last one that is looked at. -/
def parseSegments : List (List Char) → List PublicNar → Except AllowlistPersistError (List PublicNar)
  | [], out => .ok out
  | segment :: rest, out =>
    if segment.getLast? ≠ some '\n' then .ok out
    else
      let line := segment.dropLast.rdropWhile (· == '\r')
      if line = [] then parseSegments rest out
      else if maxAllowlistRecords ≤ out.length then .error .tooManyRecords
      else
        match parseRecord macKey line with
        | .error error => .error error
        | .ok record => parseSegments rest (out ++ [record])

def parseCommitted (bytes : List UInt8) : Except AllowlistPersistError (List PublicNar) :=
  match fromUtf8 bytes with
  | none => .error .notUtf8
  | some text => parseSegments macKey (splitInclusive (· == '\n') text) []

/-- Loading a file that can be read; there may be none yet. -/
def load : Option (List UInt8) → Except AllowlistPersistError (List PublicNar)
  | none => .ok []
  | some bytes =>
    if maxAllowlistFileBytes < bytes.length then .error (.tooLarge bytes.length)
    else parseCommitted macKey (bytes.take maxAllowlistFileBytes)

/-- How far an append gets: not to its write, to part or all of its line before a failure or a crash, or to the end. -/
inductive AppendEnd where
  | refused (created : Bool)
  | broken (written : Nat)
  | done
  deriving DecidableEq

def committedLen (bytes : List UInt8) : Nat := (bytes.rdropWhile (· != 0x0a)).length

def writeAt (bytes : List UInt8) (position : Nat) (written : List UInt8) : List UInt8 :=
  bytes.take position ++ written ++ bytes.drop (position + written.length)

/-- The file when the start of a line has been written over the torn tail that is read. -/
def writeLine (bytes line : List UInt8) : List UInt8 :=
  let existing := bytes.take maxAllowlistFileBytes
  let committed := committedLen existing
  writeAt (if committed ≠ existing.length then bytes.take committed else bytes) committed line

structure AppendTurn where
  file : Option (List UInt8)
  result : Except AllowlistPersistError Unit

def recordLine (record : PublicNar) : List UInt8 := toUtf8 (recordText macKey record ++ ['\n'])

def append (file : Option (List UInt8)) (record : PublicNar) : AppendEnd → AppendTurn
  | .refused created => ⟨if created then some (file.getD []) else file, .error .io⟩
  | .broken written => ⟨some (writeLine (file.getD []) ((recordLine macKey record).take written)), .error .io⟩
  | .done => ⟨some (writeLine (file.getD []) (recordLine macKey record)), .ok ()⟩

end Mac

inductive LearnOutcome where
  | appended (record : PublicNar)
  | alreadyPresent (narHash : NarHashKey)
  | rejected (why : PublicProofReject)
  | requestMismatch (requested signed : List Char)
  | persistFailed (error : AllowlistPersistError)
  deriving DecidableEq

abbrev AllowlistEntries := Table NarHashKey UInt64

structure LearnTurn where
  entries : AllowlistEntries
  file : Option (List UInt8)
  outcome : LearnOutcome

section Learn

variable [Ed25519] [Blake3Mac]

/-- What a learn decides before it appends: the record that is to be appended, or what it returns instead. -/
def learnable (trusted : TrustedNarKeys) (entries : AllowlistEntries) (requested : List Char)
    (narinfo : List UInt8) : Except LearnOutcome PublicNar :=
  match provePublic trusted narinfo with
  | .error why => .error (.rejected why)
  | .ok verified =>
    if verified.storeHash ≠ requested then .error (.requestMismatch requested verified.storeHash)
    else if (entries.lookup verified.narHash).isSome then .error (.alreadyPresent verified.narHash)
    else .ok ⟨verified.narHash, verified.narSize⟩

/-- The file is written before the map, and the mutex of the map is held over both. -/
def learn (trusted : TrustedNarKeys) (macKey : Bytes 32) (entries : AllowlistEntries) (file : Option (List UInt8))
    (requested : List Char) (narinfo : List UInt8) (ended : AppendEnd) : LearnTurn :=
  match learnable trusted entries requested narinfo with
  | .error outcome => ⟨entries, file, outcome⟩
  | .ok record =>
    let turn := append macKey file record ended
    match turn.result with
    | .error error => ⟨entries, turn.file, .persistFailed error⟩
    | .ok () => ⟨entries.insert record.narHash record.narSize, turn.file, .appended record⟩

def collectEntries (records : List PublicNar) : AllowlistEntries :=
  records.foldl (fun entries record => entries.insert record.narHash record.narSize) ∅

def openAllowlist (macKey : Bytes 32) (file : Option (List UInt8)) : Except AllowlistPersistError AllowlistEntries :=
  (load macKey file).map collectEntries

end Learn

structure Attempt where
  record : PublicNar
  ended : AppendEnd
  deriving DecidableEq

structure AllowlistSystem where
  file : Option (List UInt8) := none
  entries : Option AllowlistEntries := none
  attempts : List Attempt := []

/-- Appends may also come from another process. A learn that a crash cuts short is one whose append breaks, and then the crash. -/
inductive AllowlistEvent where
  | learn (requested : List Char) (narinfo : List UInt8) (ended : AppendEnd)
  | append (record : PublicNar) (ended : AppendEnd)
  | crash
  | reload
  deriving DecidableEq

namespace AllowlistSystem

variable [Ed25519] [Blake3Mac] (trusted : TrustedNarKeys) (macKey : Bytes 32)

def step (system : AllowlistSystem) : AllowlistEvent → AllowlistSystem
  | .learn requested narinfo ended =>
    match system.entries with
    | none => system
    | some entries =>
      let turn := learn trusted macKey entries system.file requested narinfo ended
      { file := turn.file
        entries := some turn.entries
        attempts := system.attempts ++
          match learnable trusted entries requested narinfo with
          | .error _ => []
          | .ok record => [⟨record, ended⟩] }
  | .append record ended =>
    { system with
      file := (append macKey system.file record ended).file
      attempts := system.attempts ++ [⟨record, ended⟩] }
  | .crash => { system with entries := none }
  | .reload => { system with entries := (openAllowlist macKey system.file).toOption }

def run (events : List AllowlistEvent) : AllowlistSystem := events.foldl (step trusted macKey) {}

end AllowlistSystem

end NixP2p.Allowlist
