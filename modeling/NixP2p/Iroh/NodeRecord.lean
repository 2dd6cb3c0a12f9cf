import Mathlib.Data.List.Sort
import NixP2p.Base.Checked
import NixP2p.Base.Fallible
import NixP2p.Base.Utf8
import NixP2p.Publication.StateStore
import NixP2p.Records.SelfSigned
import NixP2p.Swarm.Multiaddr

/-!
# Signed node records

A node publishes its addresses as signed DNS answers under two names: one attribute for each location, in order and without repetition, and nine about the record itself. The reader refuses whatever the writer would not have written. The DNS library, the URL parser, the text of a socket address and the error texts of the signature library are outside this repository.
-/

namespace NixP2p

open Fallible Wire Checked

namespace IrohRecord

/-! ### Socket addresses -/

inductive SocketAddr where
  | v4 (ip : Ipv4Addr) (port : UInt16)
  | v6 (ip : Ipv6Addr) (port : UInt16) (flowinfo scopeId : UInt32)
  deriving DecidableEq

def segments (ip : Ipv6Addr) : List UInt16 := ip.first :: ip.rest.toList

namespace SocketAddr

def port : SocketAddr → UInt16
  | v4 _ port => port
  | v6 _ port _ _ => port

def withoutFlow : SocketAddr → SocketAddr
  | v4 ip port => v4 ip port
  | v6 ip port _ scopeId => v6 ip port 0 scopeId

end SocketAddr

/-- How the standard library writes a socket address and reads it back, with everything but the flow label. -/
class SocketText where
  text : SocketAddr → List Char
  parse : List Char → Option SocketAddr
  parse_text : ∀ address, parse (text address) = some address.withoutFlow
  text_withoutFlow : ∀ address, text address.withoutFlow = text address
  text_ne_nil : ∀ address, text address ≠ []
  forall_mem_text : ∀ address, ∀ char ∈ text address, char ≠ '=' ∧ char.toNat < 0x80
  length_text_le : ∀ address, (text address).length ≤ 100

def SocketAddr.text [SocketText] (address : SocketAddr) : List Char := SocketText.text address

def toIpv4Mapped (ip : Ipv6Addr) : Option Ipv4Addr :=
  match segments ip with
  | [0, 0, 0, 0, 0, 0xffff, high, low] =>
    some ⟨UInt8.ofNat (high.toNat / 256), UInt8.ofNat (high.toNat % 256), UInt8.ofNat (low.toNat / 256),
      UInt8.ofNat (low.toNat % 256)⟩
  | _ => none

def normalizeSocketAddr : SocketAddr → SocketAddr
  | .v6 ip port flowinfo scopeId =>
    match toIpv4Mapped ip with
    | some ipv4 => .v4 ipv4 port
    | none => .v6 ip port flowinfo scopeId
  | .v4 ip port => .v4 ip port

def ipv4IsForbidden (ip : Ipv4Addr) : Bool :=
  ip == ⟨0, 0, 0, 0⟩ || (224 ≤ ip.octets.1 && ip.octets.1 ≤ 239) || ip == ⟨255, 255, 255, 255⟩

def ipv6IsUnspecified (ip : Ipv6Addr) : Bool := segments ip == List.replicate 8 0

def ipv6IsMulticast (ip : Ipv6Addr) : Bool := ip.first &&& 0xff00 == 0xff00

def ipv6IsUnicastLinkLocal (ip : Ipv6Addr) : Bool := ip.first &&& 0xffc0 == 0xfe80

def newError (message : String) : NodeRecordError := ⟨.malformedOrUntrusted, message⟩

def validateDirectAddress [SocketText] (address : SocketAddr) : Except NodeRecordError Unit :=
  let shown := String.ofList address.text
  if normalizeSocketAddr address ≠ address then
    .error (newError s!"IPv4-mapped address {shown} is not canonical; use its IPv4 socket form")
  else if address.port = 0 then .error (newError "direct publication address uses port zero")
  else
    let notUnicast := newError s!"direct publication address {shown} is not concrete unicast"
    match address with
    | .v4 ip _ => if ipv4IsForbidden ip then .error notUnicast else .ok ()
    | .v6 ip _ _ scopeId =>
      if ipv6IsUnspecified ip || ipv6IsMulticast ip then .error notUnicast
      else if ipv6IsUnicastLinkLocal ip && scopeId == 0 then
        .error (newError s!"link-local publication address {shown} has no interface scope")
      else .ok ()

/-! ### Relays -/

inductive UrlHost where
  | domain (name : List Char)
  | ipv4 (ip : Ipv4Addr)
  | ipv6 (ip : Ipv6Addr)

structure ParsedUrl where
  scheme : List Char
  host : Option UrlHost
  port : Option UInt16
  username : List Char
  password : Option (List Char)
  query : Option (List Char)
  fragment : Option (List Char)
  asStr : List Char

/-- The URL parser, whose serialisation starts with the scheme, and the debug form of a string. -/
class UrlLibrary where
  parse : List Char → Except String ParsedUrl
  debug : List Char → String
  asStr_ne_nil : ∀ raw url, parse raw = .ok url → url.asStr ≠ []

section Relays

variable [SocketText] [UrlLibrary]

def forbiddenIpLiteral : UrlHost → Bool
  | .ipv4 ip => ipv4IsForbidden ip
  | .ipv6 ip =>
    match toIpv4Mapped ip with
    | some ip => ipv4IsForbidden ip
    | none => ipv6IsUnspecified ip || ipv6IsMulticast ip || ipv6IsUnicastLinkLocal ip
  | .domain _ => false

def parseRelay (raw : List Char) : Except NodeRecordError ParsedUrl :=
  let shown := UrlLibrary.debug raw
  (UrlLibrary.parse raw).mapError fun error => newError s!"invalid relay URL {shown}: {error}"

def validateRelayUrl (raw : List Char) : Except NodeRecordError Unit :=
  let shown := UrlLibrary.debug raw
  if raw.contains '=' then
    .error (newError "relay URL contains '=' and cannot be represented canonically as one TXT attribute")
  else do
    let url ← parseRelay raw
    match url.host with
    | none => .error (newError s!"relay URL {shown} must use https with an explicit host")
    | some host =>
      if url.scheme ≠ "https".toList then
        .error (newError s!"relay URL {shown} must use https with an explicit host")
      else if url.port = some 0 then .error (newError s!"relay URL {shown} uses port zero")
      else if url.username ≠ [] ∨ url.password.isSome ∨ url.query.isSome ∨ url.fragment.isSome then
        .error (newError s!"relay URL {shown} must not contain credentials, query, or fragment")
      else if forbiddenIpLiteral host then
        .error (newError s!"relay URL {shown} uses an IP-literal host that is not concretely dialable without ambient interface context")
      else if url.asStr ≠ raw then
        let expected := UrlLibrary.debug url.asStr
        .error (newError s!"relay URL {shown} is not canonical; expected {expected}")
      else .ok ()

/-! ### Locations -/

inductive NodeLocation where
  | direct (address : SocketAddr)
  | relay (url : List Char)
  deriving DecidableEq

namespace NodeLocation

def ofDirect (address : SocketAddr) : Except NodeRecordError NodeLocation := do
  let address := normalizeSocketAddr address
  validateDirectAddress address
  return direct address

def ofRelay (url : List Char) : Except NodeRecordError NodeLocation := do
  let parsed ← parseRelay url
  validateRelayUrl parsed.asStr
  return relay parsed.asStr

def validate : NodeLocation → Except NodeRecordError Unit
  | direct address => validateDirectAddress address
  | relay url => validateRelayUrl url

/-- The fields in the order in which they are compared; texts are compared by their bytes. -/
def sortKey : NodeLocation → List Nat
  | direct (.v4 ⟨first, second, third, fourth⟩ port) =>
    [0, 0, first.toNat, second.toNat, third.toNat, fourth.toNat, port.toNat]
  | direct (.v6 ip port flowinfo scopeId) =>
    0 :: 1 :: (segments ip).map UInt16.toNat ++ [port.toNat, flowinfo.toNat, scopeId.toNat]
  | relay url => 1 :: (Text.toUtf8 url).map UInt8.toNat

def Le (left right : NodeLocation) : Prop := ¬ right.sortKey < left.sortKey

instance (left right : NodeLocation) : Decidable (Le left right) :=
  inferInstanceAs (Decidable (¬ right.sortKey < left.sortKey))

def attributeText : NodeLocation → List Char
  | direct address => "addr=".toList ++ address.text
  | relay url => "relay=".toList ++ url

end NodeLocation

def dedup : List NodeLocation → List NodeLocation
  | [] => []
  | [location] => [location]
  | first :: second :: rest =>
    if first = second then dedup (second :: rest) else first :: dedup (second :: rest)

def canonicalLocations (locations : List NodeLocation) : List NodeLocation :=
  dedup (locations.insertionSort NodeLocation.Le)

end Relays

/-! ### Names, lifetimes and numbers -/

def maxNamespaceBytes : Nat := 128

def maxRecipientBytes : Nat := 192

def maxNodeLocations : Nat := 16

def isAsciiDigit (byte : UInt8) : Bool := 0x30 ≤ byte && byte ≤ 0x39

def isAsciiLowercase (byte : UInt8) : Bool := 0x61 ≤ byte && byte ≤ 0x7a

def isAsciiAlphanumeric (byte : UInt8) : Bool :=
  isAsciiDigit byte || isAsciiLowercase byte || (0x41 ≤ byte && byte ≤ 0x5a)

def validateNamespace (label : List Char) : Except NodeRecordError Unit :=
  let bytes := Text.toUtf8 label
  if bytes = [] ∨ maxNamespaceBytes < bytes.length then
    .error (newError s!"namespace length must be 1..={maxNamespaceBytes} bytes")
  else if (bytes.head?.any isAsciiAlphanumeric && bytes.getLast?.any isAsciiAlphanumeric &&
      bytes.all fun byte => isAsciiLowercase byte || isAsciiDigit byte || byte == 0x2d) = false then
    .error (newError "namespace must be lowercase ASCII alphanumeric/hyphen and start/end alphanumeric")
  else .ok ()

def validateToken (label : String) (value : List Char) (max : Nat) : Except NodeRecordError Unit :=
  let bytes := Text.toUtf8 value
  if bytes = [] ∨ max < bytes.length then .error (newError s!"{label} length must be 1..={max} bytes")
  else if (bytes.all fun byte =>
      isAsciiAlphanumeric byte || [0x2e, 0x5f, 0x3a, 0x2d].contains byte) = false then
    .error (newError s!"{label} contains characters outside [A-Za-z0-9._:-]")
  else .ok ()

def validateRecipient (recipient : List Char) : Except NodeRecordError Unit := do
  validateToken "recipient" recipient maxRecipientBytes
  if recipient = ".".toList ∨ recipient = "..".toList ∨ (Text.findSubslice "..".toList recipient).isSome then
    .error (newError "recipient identifier contains an ambiguous dot traversal")
  else .ok ()

def recordExpiry (sequence : UInt64) (ttlSeconds : UInt32) : Except NodeRecordError UInt64 :=
  match mulU64 ttlSeconds.toUInt64 1000000 with
  | none => .error (newError "record TTL overflows u64 microseconds")
  | some ttlMicros =>
    match addU64 sequence ttlMicros with
    | none => .error (newError "record expiry overflows u64 microseconds")
    | some expiry => .ok expiry

def parseU64 (label : String) (raw : List Char) : Except NodeRecordError UInt64 :=
  if raw = [] ∨ raw.all Char.isDigit = false then
    .error (newError s!"{label} is not canonical unsigned decimal")
  else if 1 < raw.length ∧ raw.head? = some '0' then .error (newError s!"{label} is not canonical decimal")
  else match Text.parseU64 raw with
    | none => .error (newError s!"invalid {label}: number too large to fit in target type")
    | some value => .ok value

def parseU32 (label : String) (raw : List Char) : Except NodeRecordError UInt32 := do
  let value ← parseU64 label raw
  if value.toNat < 2 ^ 32 then .ok value.toUInt32 else .error (newError s!"{label} exceeds u32")

def stateText : PublicationState → List Char
  | .live => "live".toList
  | .withdrawn => "withdrawn".toList

/-! ### DNS packets -/

abbrev CharacterString := {bytes : List UInt8 // bytes.length ≤ 255}

inductive RData where
  | txt (strings : List CharacterString)
  | other (kind : UInt16) (data : List UInt8)
  deriving DecidableEq

inductive DnsClass where
  | internet
  | csnet
  | chaos
  | hesiod
  | noClass
  deriving DecidableEq

structure ResourceRecord (Name : Type) where
  name : Name
  recordClass : DnsClass
  ttl : UInt32
  rdata : RData
  deriving DecidableEq

/-- A packet whose header is that of a standard reply with id zero. -/
structure DnsPacket (Name Question : Type) where
  questions : List Question
  answers : List (ResourceRecord Name)
  nameServers : List (ResourceRecord Name)
  additionalRecords : List (ResourceRecord Name)
  deriving DecidableEq

/-- A name of the letters, digits and marks that need no escape, in labels of at most 63 bytes. -/
def PlainName (text : List Char) : Prop :=
  text.length ≤ 253 ∧ ∀ label ∈ text.splitOn '.', 0 < label.length ∧ label.length ≤ 63 ∧
    ∀ char ∈ label, char.isLower ∨ char.isDigit ∨ char = '-' ∨ char = '_'

section Owners

variable {Name : Type} (nameText : Name → List Char)

def ResourceRecord.txt? (answer : ResourceRecord Name) : Option (List Char × List UInt8) :=
  match answer.rdata with
  | .txt strings => some (nameText answer.name, (strings.map Subtype.val).flatten)
  | .other _ _ => none

end Owners

/-- Whether an answer is written as the codec writes it: one string under a plain name. -/
def ResourceRecord.Single {Name : Type} (newName : List Char → Except String Name) (answer : ResourceRecord Name) :
    Prop :=
  answer.recordClass = .internet ∧ (∃ value, answer.rdata = .txt [value]) ∧
    ∃ text, PlainName text ∧ newName text = .ok answer.name

/-- The DNS library: the builder and the parser are inverse on answers of one string each, and such a packet is built if one with the same texts in several strings is. -/
class SimpleDns where
  Name : Type
  Question : Type
  longString : String
  invalidUtf8 : String
  newName : List Char → Except String Name
  nameText : Name → List Char
  build : DnsPacket Name Question → Except String (List UInt8)
  parse : List UInt8 → Except String (DnsPacket Name Question)
  newName_plain : ∀ text, PlainName text → ∃ name, newName text = .ok name ∧ nameText name = text
  build_header : ∀ answers bytes, (∀ answer ∈ answers, answer.Single newName) →
    build ⟨[], answers, [], []⟩ = .ok bytes → 12 ≤ bytes.length ∧ bytes.take 4 = [0, 0, 0x80, 0]
  parse_build : ∀ answers bytes, (∀ answer ∈ answers, answer.Single newName) →
    build ⟨[], answers, [], []⟩ = .ok bytes → parse bytes = .ok ⟨[], answers, [], []⟩
  build_single : ∀ answers bytes single, build ⟨[], answers, [], []⟩ = .ok bytes →
    (∀ answer ∈ single, answer.Single newName) →
    answers.map (fun answer => (answer.txt? nameText, answer.ttl)) =
      single.map (fun answer => (answer.txt? nameText, answer.ttl)) →
    ∃ shorter, build ⟨[], single, [], []⟩ = .ok shorter ∧ shorter.length ≤ bytes.length

abbrev Packet [SimpleDns] := DnsPacket SimpleDns.Name SimpleDns.Question

abbrev Answer [SimpleDns] := ResourceRecord SimpleDns.Name

/-! ### Signed packets -/

inductive PkarrFault where
  | tooShort
  | tooLong
  | badKey
  | badSignature

class Pkarr where
  describe : PkarrFault → String

structure SignedPacket where
  publicKey : Bytes 32
  signature : Bytes 64
  timestamp : UInt64
  encodedPacket : List UInt8
  deriving DecidableEq

def pkarrHeaderBytes : Nat := 104

def SignedPacket.maxBytes : Nat := 1104

def SignedPacket.asBytes (signed : SignedPacket) : List UInt8 :=
  signed.publicKey.1 ++ signed.signature.1 ++ beBytes 8 signed.timestamp.toNat ++ signed.encodedPacket

def signable (sequence : UInt64) (dnsPacket : List UInt8) : List UInt8 :=
  Text.toUtf8 ("3:seqi".toList ++ Nat.toDigits 10 sequence.toNat ++ "e1:v".toList ++ Nat.toDigits 10 dnsPacket.length ++
    [':']) ++ dnsPacket

variable {bytes : List UInt8}

theorem length_keyBytes (hlong : ¬bytes.length < pkarrHeaderBytes) : (bytes.take 32).length = 32 := by
  rw [List.length_take]
  unfold pkarrHeaderBytes at hlong
  omega

theorem length_signatureBytes (hlong : ¬bytes.length < pkarrHeaderBytes) :
    ((bytes.drop 32).take 64).length = 64 := by
  rw [List.length_take, List.length_drop]
  unfold pkarrHeaderBytes at hlong
  omega

section Signed

variable [Ed25519] [Pkarr]

def SignedPacket.fromBytes (bytes : List UInt8) : Except String SignedPacket :=
  if hshort : bytes.length < pkarrHeaderBytes then .error (Pkarr.describe .tooShort)
  else if maxBytes < bytes.length then .error (Pkarr.describe .tooLong)
  else
    let signed : SignedPacket :=
      { publicKey := ⟨bytes.take 32, length_keyBytes hshort⟩
        signature := ⟨(bytes.drop 32).take 64, length_signatureBytes hshort⟩
        timestamp := UInt64.ofNat (ofBe ((bytes.drop 96).take 8))
        encodedPacket := bytes.drop 104 }
    match Ed25519.fromBytes signed.publicKey with
    | none => .error (Pkarr.describe .badKey)
    | some key =>
      if Ed25519.verifyStrict key (signable signed.timestamp signed.encodedPacket) signed.signature then .ok signed
      else .error (Pkarr.describe .badSignature)

end Signed

def z32Alphabet : List Char := "ybndrfg8ejkmcpqxot1uwisza345h769".toList

/-- Five bits a letter from the front, the last letter filled up with zeros. -/
def toZ32 (key : Bytes 32) : List Char :=
  (List.range 52).map fun index => z32Alphabet.getD (ofBe key.1 * 16 / 32 ^ (51 - index) % 32) 'y'

/-! ### Writing -/

def nodePublicationSchema : List Char := "iroh-node-publication-v1".toList

def irohRecordName : List Char := "_iroh".toList

def metadataRecordName : List Char := "_nix-p2p-iroh".toList

def ownerName (relativeName signer : List Char) : List Char := relativeName ++ '.' :: signer

section Codec

variable [Ed25519] [Ed25519Signer] [SocketText] [UrlLibrary] [SimpleDns] [Pkarr]

def addTxt (relativeName origin : List Char) (ttl : UInt32) (value : List Char) : Except NodeRecordError Answer := do
  let name ← (SimpleDns.newName (ownerName relativeName origin)).mapError fun error =>
    newError s!"building DNS name: {error}"
  if hfits : (Text.toUtf8 value).length ≤ 255 then
    .ok ⟨name, .internet, ttl, .txt [⟨Text.toUtf8 value, hfits⟩]⟩
  else .error (newError s!"building DNS TXT value: {SimpleDns.longString}")

def metadataEntries (publicKey : Bytes 32) (label recipient : List Char) (ttlSeconds : UInt32)
    (sequence expiresUnixMicros : UInt64) (state : PublicationState) : List (List Char × List Char) :=
  [("schema".toList, nodePublicationSchema),
    ("namespace".toList, label),
    ("signer".toList, toZ32 publicKey),
    ("node-id".toList, Hex.encode publicKey.1),
    ("recipient".toList, recipient),
    ("ttl-seconds".toList, Nat.toDigits 10 ttlSeconds.toNat),
    ("sequence".toList, Text.showU64 sequence),
    ("expires-unix-micros".toList, Text.showU64 expiresUnixMicros),
    ("state".toList, stateText state)]

def attributeOf (entry : List Char × List Char) : List Char := entry.1 ++ '=' :: entry.2

def checkState (state : PublicationState) (locations : List NodeLocation) (noLocations : NodeRecordError)
    (someLocations : NodeRecordError) : Except NodeRecordError Unit :=
  match state with
  | .live => if locations = [] then .error noLocations else .ok ()
  | .withdrawn => if locations = [] then .ok () else .error someLocations

def encodeNodeRecord (secretKey : Ed25519Signer.SigningKey) (label recipient : List Char) (ttlSeconds : UInt32)
    (sequence expiresUnixMicros : UInt64) (state : PublicationState) (locations : List NodeLocation) :
    Except NodeRecordError SignedPacket := do
  validateNamespace label
  validateRecipient recipient
  if ttlSeconds = 0 then .error (newError "record TTL must be positive")
  else
    let expectedExpiry ← recordExpiry sequence ttlSeconds
    if expiresUnixMicros ≠ expectedExpiry then
      .error (newError s!"record expiry {expiresUnixMicros} is not exactly sequence plus TTL {expectedExpiry}")
    else
      let canonical := canonicalLocations locations
      if maxNodeLocations < canonical.length then
        let count := canonical.length
        .error (newError s!"node record has {count} locations, maximum is {maxNodeLocations}")
      else
        canonical.forM NodeLocation.validate
        checkState state canonical (newError "live node record requires at least one reachable location")
          (newError "withdrawal record must not contain locations")
        let publicKey := Ed25519Signer.verifyingKey secretKey
        let signer := toZ32 publicKey
        let placed ← canonical.mapM fun location => addTxt irohRecordName signer ttlSeconds location.attributeText
        let described ← (metadataEntries publicKey label recipient ttlSeconds sequence expiresUnixMicros state).mapM
          fun entry => addTxt metadataRecordName signer ttlSeconds (attributeOf entry)
        let encodedDns ← (SimpleDns.build ⟨[], placed ++ described, [], []⟩).mapError fun error =>
          newError s!"encoding DNS packet: {error}"
        if SignedPacket.maxBytes < encodedDns.length + pkarrHeaderBytes then
          let size := encodedDns.length + pkarrHeaderBytes
          .error (newError s!"signed node record is {size} bytes, maximum is {SignedPacket.maxBytes}")
        else
          let signature := Ed25519Signer.sign secretKey (signable sequence encodedDns)
          (SignedPacket.fromBytes (SignedPacket.asBytes ⟨publicKey, signature, sequence, encodedDns⟩)).mapError
            fun error => newError s!"verifying encoded node record: {error}"

/-! ### Reading -/

structure NodeRecord where
  nodeId : NodeId
  label : List Char
  recipient : List Char
  ttlSeconds : UInt32
  sequence : UInt64
  expiresUnixMicros : UInt64
  state : PublicationState
  locations : List NodeLocation
  deriving DecidableEq

def metadataKeys : List (List Char) :=
  ["schema".toList, "namespace".toList, "signer".toList, "node-id".toList, "recipient".toList, "ttl-seconds".toList,
    "sequence".toList, "expires-unix-micros".toList, "state".toList]

def splitAttribute (value : List Char) : Except NodeRecordError (List Char × List Char) :=
  match Text.splitOnce '=' value with
  | none => .error (newError s!"TXT value {UrlLibrary.debug value} is not key=value")
  | some (key, rest) =>
    if key = [] ∨ rest = [] ∨ rest.contains '=' then
      .error (newError s!"TXT value {UrlLibrary.debug rest} is not one canonical key=value pair")
    else .ok (key, rest)

def decodeDirect (raw : List Char) : Except NodeRecordError NodeLocation :=
  let shown := UrlLibrary.debug raw
  match SocketText.parse raw with
  | none => .error (newError s!"invalid direct address {shown}: invalid socket address syntax")
  | some parsed =>
    if parsed.text ≠ raw then .error (newError s!"signed direct address {shown} is not canonical")
    else if normalizeSocketAddr parsed ≠ parsed then
      .error (newError s!"signed direct address {shown} uses noncanonical IPv4-mapped IPv6")
    else NodeLocation.ofDirect parsed

def decodeRelay (raw : List Char) : Except NodeRecordError NodeLocation := do
  let location ← NodeLocation.ofRelay raw
  if location ≠ .relay raw then
    .error (newError s!"signed relay URL {UrlLibrary.debug raw} is not canonical")
  else .ok location

def decodeLocation (key raw : List Char) : Except NodeRecordError NodeLocation :=
  if key = "addr".toList then decodeDirect raw
  else if key = "relay".toList then decodeRelay raw
  else .error (newError s!"unknown interoperable Iroh attribute {UrlLibrary.debug key}")

/-- What the answers read so far have told. -/
structure Reading where
  ttl : Option UInt32
  locations : List NodeLocation
  metadata : List (List Char × List Char)

def takeLocation (reading : Reading) (value : List Char) : Except NodeRecordError Reading :=
  if reading.metadata ≠ [] then .error (newError "node-location answer appears after lifecycle metadata")
  else do
    let (key, raw) ← splitAttribute value
    let location ← decodeLocation key raw
    if reading.locations.contains location then .error (newError "duplicate node location")
    else if reading.locations.getLast?.any (fun previous => decide (location.Le previous)) then
      .error (newError "node locations are not in strict canonical order")
    else if reading.locations.length = maxNodeLocations then
      .error (newError s!"node record has more than {maxNodeLocations} locations")
    else .ok { reading with locations := reading.locations ++ [location] }

/-- The position of an attribute is the number of those before it. -/
def takeMetadata (reading : Reading) (value : List Char) : Except NodeRecordError Reading := do
  let (key, raw) ← splitAttribute value
  let position := reading.metadata.length
  let shown := UrlLibrary.debug key
  if metadataKeys[position]? ≠ some key then
    .error (newError s!"metadata attribute {shown} is not in canonical position {position}")
  else if (reading.metadata.lookup key).isSome then .error (newError s!"duplicate metadata attribute {shown}")
  else .ok { reading with metadata := reading.metadata ++ [(key, raw)] }

def takeTtl (reading : Reading) (ttl : UInt32) : Except NodeRecordError Reading :=
  match reading.ttl with
  | none => .ok { reading with ttl := some ttl }
  | some expected =>
    if expected ≠ ttl then .error (newError "node record TTLs are inconsistent") else .ok reading

def takeAnswer (signer : List Char) (reading : Reading) (answer : Answer) : Except NodeRecordError Reading :=
  if answer.recordClass ≠ .internet then .error (newError "node record contains a non-IN answer")
  else do
    let reading ← takeTtl reading answer.ttl
    match answer.txt? SimpleDns.nameText with
    | none => .error (newError "node record contains a non-TXT answer")
    | some (name, bytes) =>
      match Text.fromUtf8 bytes with
      | none => .error (newError s!"invalid TXT value: {SimpleDns.invalidUtf8}")
      | some value =>
        if name = ownerName irohRecordName signer then takeLocation reading value
        else if name = ownerName metadataRecordName signer then takeMetadata reading value
        else .error (newError s!"unexpected signed DNS answer name {UrlLibrary.debug name}")

def Reading.get (reading : Reading) (key : String) : List Char := (reading.metadata.lookup key.toList).getD []

def decodeState (raw : List Char) : Except NodeRecordError PublicationState :=
  if raw = "live".toList then .ok .live
  else if raw = "withdrawn".toList then .ok .withdrawn
  else .error (newError s!"unknown publication state {UrlLibrary.debug raw}")

/-- The checks on the attributes as a whole. -/
def finishReading (signed : SignedPacket) (reading : Reading) : Except NodeRecordError NodeRecord :=
  if reading.metadata.length ≠ metadataKeys.length ∨
      metadataKeys.any (fun key => (reading.metadata.lookup key).isNone) then
    .error (newError s!"metadata keys are not exactly {metadataKeys.map UrlLibrary.debug}")
  else if reading.get "schema" ≠ nodePublicationSchema then
    let schema := reading.get "schema"
    .error (newError s!"unsupported node-record schema {UrlLibrary.debug schema}")
  else do
    validateNamespace (reading.get "namespace")
    validateRecipient (reading.get "recipient")
    if reading.get "signer" ≠ toZ32 signed.publicKey then
      .error (newError "metadata signer does not match signature")
    else if reading.get "node-id" ≠ Hex.encode signed.publicKey.1 then
      .error (newError "metadata node-id does not match signature")
    else
      let ttlSeconds ← parseU32 "ttl-seconds" (reading.get "ttl-seconds")
      if ttlSeconds = 0 ∨ reading.ttl ≠ some ttlSeconds then
        .error (newError "metadata TTL does not match positive DNS TTL")
      else
        let sequence ← parseU64 "sequence" (reading.get "sequence")
        if sequence ≠ signed.timestamp then
          .error (newError "metadata sequence does not match signed pkarr timestamp")
        else
          let expiresUnixMicros ← parseU64 "expires-unix-micros" (reading.get "expires-unix-micros")
          let expectedExpiry ← recordExpiry sequence ttlSeconds
          if expiresUnixMicros ≠ expectedExpiry then
            .error (newError s!"record expiry {expiresUnixMicros} is not exactly sequence plus TTL {expectedExpiry}")
          else
            let state ← decodeState (reading.get "state")
            checkState state reading.locations ⟨.noDialableCandidate, "live record has no locations"⟩
              (newError "withdrawal record contains locations")
            return {
              nodeId := ⟨signed.publicKey⟩
              label := reading.get "namespace"
              recipient := reading.get "recipient"
              ttlSeconds, sequence, expiresUnixMicros, state
              locations := reading.locations.insertionSort NodeLocation.Le }

/-- The packet inside a signed packet, if it is the one form of itself. -/
def openPacket (signed : SignedPacket) : Except NodeRecordError Packet := do
  if signed.encodedPacket.length < 12 ∨ signed.encodedPacket.take 4 ≠ [0, 0, 0x80, 0] then
    .error (newError "DNS header is not the canonical zero-id standard reply")
  else
    let packet ← (SimpleDns.parse signed.encodedPacket).mapError fun error =>
      newError s!"invalid DNS packet: {error}"
    let canonicalDns ← (SimpleDns.build packet).mapError fun error =>
      newError s!"re-encoding DNS packet: {error}"
    if canonicalDns ≠ signed.encodedPacket then
      .error (newError "DNS packet is not canonical or contains trailing bytes")
    else if packet.questions.isEmpty = false ∨ packet.nameServers.isEmpty = false ∨
        packet.additionalRecords.isEmpty = false then
      .error (newError "node record must contain answers only")
    else .ok packet

def decodeNodeRecord (bytes : List UInt8) : Except NodeRecordError NodeRecord := do
  let signed ← (SignedPacket.fromBytes bytes).mapError fun error => newError s!"invalid signed packet: {error}"
  let packet ← openPacket signed
  let reading ← packet.answers.foldlM (takeAnswer (toZ32 signed.publicKey)) ⟨none, [], []⟩
  finishReading signed reading

end Codec

end IrohRecord

end NixP2p
