import NixP2p.Records.Ids

/-!
# The signed provider assertion on the wire

Encoder, decoder and signing preimage of the opaque value a provider publishes: a fixed header common to both kinds, for a record the content identity and its offers, and the trailing signature. The encoder refuses what the decoder would refuse, the decoder checks in the order the source fixes, and every rejection carries the source's own payload.
-/

namespace NixP2p

open Wire

def providerRecordSchemaVersion : UInt16 := 1

def maxOffersPerRecord : Nat := 4

def maxProviderRecordBytes : Nat := 1024

def providerSignatureLen : Nat := 64

/-- The domain tag of the signing preimage, terminated so that no other domain extends it. -/
def signingDomain : List UInt8 := "nix-p2p/discovery/ProviderRecord/v1\x00".toUTF8.data.toList

def kindProvide : UInt8 := 0

def kindWithdraw : UInt8 := 1

def offerIroh : UInt8 := 0

def offerBitTorrent : UInt8 := 1

def offerLibp2p : UInt8 := 2

def infohashV1 : UInt8 := 1

def infohashV2 : UInt8 := 2

/-- Version, kind, key, provider, sequence, issue time and expiry. -/
def bodyHeaderLen : Nat := 2 + 1 + 32 + 32 + 8 + 8 + 8

inductive OfferFault where
  | irohNodeNotProvider (offerNode provider : NodeId)
  | libp2pNodeNotProvider (offerNode provider : NodeId)
  | libp2pRelayIsProvider (relay provider : NodeId)
  | multipleLibp2pOffers (found : Nat)
  deriving DecidableEq

inductive RecordEncodeError where
  | tooManyOffers (found cap : Nat)
  | oversized (len cap : Nat)
  | offersNotCanonical
  | offer (fault : OfferFault)
  deriving DecidableEq

inductive RecordDecodeError where
  | oversized (len cap : Nat)
  | truncated (need had : Nat)
  | trailingBytes (extra : Nat)
  | unknownVersion (found expected : UInt16)
  | unknownKind (found : UInt8)
  | unknownOffer (tag : UInt8)
  | badInfoHash (version : UInt8)
  | tooManyOffers (found cap : Nat)
  | offersNotCanonical
  | offer (fault : OfferFault)
  | tooManyRelayHints (found cap : Nat)
  | relayHintsNotCanonical
  | badRelayIdentity (relay : NodeId)
  | badProviderKey
  | nonCanonicalSignature
  | badSignature
  | wrongKey (expected found : ContentKey)
  | stale (expiry now : UInt64)
  deriving DecidableEq

instance : ToString OfferFault where
  toString
    | .irohNodeNotProvider offerNode provider =>
      s!"iroh offer node {offerNode} is not the provider {provider} (v1 iroh offers are self-serve; delegation is not permitted)"
    | .libp2pNodeNotProvider offerNode provider =>
      s!"libp2p offer node {offerNode} is not the provider {provider} (libp2p offers are self-serve; delegation is not permitted)"
    | .libp2pRelayIsProvider relay provider =>
      s!"libp2p relay hint {relay} equals provider {provider}; a provider cannot relay through itself"
    | .multipleLibp2pOffers found =>
      s!"provider record carries {found} libp2p offers; at most one is permitted"

instance : ToString RecordEncodeError where
  toString
    | .tooManyOffers found cap => s!"provider record carries {found} offers, exceeds the {cap} cap"
    | .oversized len cap => s!"provider record is {len} bytes, exceeds the {cap}-byte cap"
    | .offersNotCanonical =>
      "provider record offers are not strictly ascending by encoding (non-canonical order or a duplicate offer)"
    | .offer fault => toString fault

instance : ToString RecordDecodeError where
  toString
    | .oversized len cap => s!"provider record is {len} bytes, exceeds the {cap}-byte cap"
    | .truncated need had => s!"provider record truncated: needed {need} more bytes, had {had}"
    | .trailingBytes extra => s!"provider record has {extra} trailing bytes after a complete value"
    | .unknownVersion found expected =>
      s!"unsupported provider-record version {found} (this build speaks {expected})"
    | .unknownKind found => s!"unknown provider-record kind byte {found}"
    | .unknownOffer tag => s!"unknown transport-offer tag {tag}"
    | .badInfoHash version => s!"unknown bittorrent infohash version byte {version}"
    | .tooManyOffers found cap => s!"provider record names {found} offers, exceeds the {cap} cap"
    | .offersNotCanonical =>
      "provider record offers are not strictly ascending by encoding (non-canonical order or a duplicate offer)"
    | .offer fault => toString fault
    | .tooManyRelayHints found cap => s!"libp2p offer carries {found} relay hints, exceeds the {cap} cap"
    | .relayHintsNotCanonical =>
      "libp2p relay hints are not strictly ascending (descending or duplicate)"
    | .badRelayIdentity relay => s!"libp2p relay hint {relay} is not a strict ed25519 identity"
    | .badProviderKey => "provider id is not a valid ed25519 verifying key"
    | .nonCanonicalSignature => "signature scalar S is non-canonical (S >= L; the S+L malleability)"
    | .badSignature => "provider-record signature did not verify against the provider id"
    | .wrongKey expected found =>
      s!"provider record carries key {found} but was stored under {expected} (SSOT violation; possible replay under a different key)"
    | .stale expiry now => s!"provider record expired at {expiry}, now is {now}"

variable [Ed25519]

structure ProviderRecord where
  key : ContentKey
  content : Blake3Digest
  provider : NodeId
  offers : List TransportOffer
  sequence : UInt64
  issuedAt : UInt64
  expiry : UInt64
  signature : Bytes 64
  deriving DecidableEq

structure ProviderWithdrawal where
  key : ContentKey
  provider : NodeId
  sequence : UInt64
  issuedAt : UInt64
  expiry : UInt64
  signature : Bytes 64
  deriving DecidableEq

inductive ProviderAssertion where
  | provide (record : ProviderRecord)
  | withdraw (withdrawal : ProviderWithdrawal)
  deriving DecidableEq

namespace ProviderAssertion

def key : ProviderAssertion → ContentKey
  | provide record => record.key
  | withdraw withdrawal => withdrawal.key

def provider : ProviderAssertion → NodeId
  | provide record => record.provider
  | withdraw withdrawal => withdrawal.provider

def sequence : ProviderAssertion → UInt64
  | provide record => record.sequence
  | withdraw withdrawal => withdrawal.sequence

def expiry : ProviderAssertion → UInt64
  | provide record => record.expiry
  | withdraw withdrawal => withdrawal.expiry

def isWithdrawal : ProviderAssertion → Bool
  | provide _ => false
  | withdraw _ => true

def signature : ProviderAssertion → Bytes 64
  | provide record => record.signature
  | withdraw withdrawal => withdrawal.signature

end ProviderAssertion

def writeInfoHash : InfoHash → List UInt8
  | .v1 hash => infohashV1 :: hash.1
  | .v2 hash => infohashV2 :: hash.1

def writeRelayHints (relayHints : RelayHints) : List UInt8 :=
  UInt8.ofNat relayHints.nodes.length :: relayHints.nodes.flatMap fun relay => relay.bytes.1

def writeOffer : TransportOffer → List UInt8
  | .iroh node => offerIroh :: node.bytes.1
  | .bitTorrent infohash => offerBitTorrent :: writeInfoHash infohash
  | .libp2p node relayHints => offerLibp2p :: node.bytes.1 ++ writeRelayHints relayHints

/-- Strictly ascending by wire encoding, which also forbids duplicates. -/
def offersAreCanonical : List TransportOffer → Bool
  | first :: second :: rest =>
    decide (writeOffer first < writeOffer second) && offersAreCanonical (second :: rest)
  | _ => true

/-- The loop over the offers shared by the encoder and the decoder; it returns the libp2p count. -/
def scanOffers (provider : NodeId) : Nat → List TransportOffer → Except OfferFault Nat
  | count, [] => .ok count
  | count, .iroh node :: offers =>
    if node ≠ provider then .error (.irohNodeNotProvider node provider)
    else scanOffers provider count offers
  | count, .bitTorrent _ :: offers => scanOffers provider count offers
  | count, .libp2p node relayHints :: offers =>
    if node ≠ provider then .error (.libp2pNodeNotProvider node provider)
    else if provider ∈ relayHints.nodes then .error (.libp2pRelayIsProvider provider provider)
    else scanOffers provider (count + 1) offers

def checkSelfServe (provider : NodeId) (offers : List TransportOffer) : Except OfferFault Unit := do
  let count ← scanOffers provider 0 offers
  if 1 < count then .error (.multipleLibp2pOffers count) else .ok ()

def checkProvideInvariants (record : ProviderRecord) : Except RecordEncodeError Unit :=
  if maxOffersPerRecord < record.offers.length then
    .error (.tooManyOffers record.offers.length maxOffersPerRecord)
  else if offersAreCanonical record.offers = false then .error .offersNotCanonical
  else (checkSelfServe record.provider record.offers).mapError .offer

def writeHeader (kind : UInt8) (key : ContentKey) (provider : NodeId)
    (sequence issuedAt expiry : UInt64) : List UInt8 :=
  u16Be providerRecordSchemaVersion ++ [kind] ++ key.bytes.1 ++ provider.bytes.1 ++
    u64Be sequence ++ u64Be issuedAt ++ u64Be expiry

/-- Everything but the signature of a record; over the offer cap the source panics instead. -/
def provideBody (record : ProviderRecord) : List UInt8 :=
  writeHeader kindProvide record.key record.provider record.sequence record.issuedAt record.expiry ++
    record.content.bytes.1 ++ [UInt8.ofNat record.offers.length] ++ record.offers.flatMap writeOffer

def withdrawBody (withdrawal : ProviderWithdrawal) : List UInt8 :=
  writeHeader kindWithdraw withdrawal.key withdrawal.provider withdrawal.sequence
    withdrawal.issuedAt withdrawal.expiry

def ProviderAssertion.body : ProviderAssertion → List UInt8
  | .provide record => provideBody record
  | .withdraw withdrawal => withdrawBody withdrawal

def signingPreimage (body : List UInt8) : List UInt8 := signingDomain ++ body

def providerRecordSigningBytes (record : ProviderRecord) : List UInt8 :=
  signingPreimage (provideBody record)

def providerWithdrawalSigningBytes (withdrawal : ProviderWithdrawal) : List UInt8 :=
  signingPreimage (withdrawBody withdrawal)

def checkEncodedSize (len : Nat) : Except RecordEncodeError Unit :=
  if maxProviderRecordBytes < len then .error (.oversized len maxProviderRecordBytes) else .ok ()

def encodeProviderRecord (record : ProviderRecord) : Except RecordEncodeError (List UInt8) := do
  checkProvideInvariants record
  let out := provideBody record ++ record.signature.1
  checkEncodedSize out.length
  return out

def encodeProviderWithdrawal (withdrawal : ProviderWithdrawal) :
    Except RecordEncodeError (List UInt8) := do
  let out := withdrawBody withdrawal ++ withdrawal.signature.1
  checkEncodedSize out.length
  return out

def encodeProviderAssertion : ProviderAssertion → Except RecordEncodeError (List UInt8)
  | .provide record => encodeProviderRecord record
  | .withdraw withdrawal => encodeProviderWithdrawal withdrawal

def readNode : Reader RecordDecodeError NodeId := do
  let bytes ← take .truncated 32
  return ⟨bytes⟩

def RelayHintsError.toDecodeError : RelayHintsError → RecordDecodeError
  | .tooMany found cap => .tooManyRelayHints found cap
  | .invalidIdentity relay => .badRelayIdentity relay
  | .notCanonical _ _ => .relayHintsNotCanonical

def readRelayHints : Reader RecordDecodeError RelayHints := do
  let hintCount ← u8 .truncated
  if maxLibp2pRelayHints < hintCount.toNat then
    throw (.tooManyRelayHints hintCount.toNat maxLibp2pRelayHints)
  else
    let nodes ← times readNode hintCount.toNat
    lift RelayHintsError.toDecodeError (RelayHints.tryFromNodes nodes)

def readInfoHash : Reader RecordDecodeError InfoHash := do
  let version ← u8 .truncated
  if version = infohashV1 then return .v1 (← take .truncated 20)
  else if version = infohashV2 then return .v2 (← take .truncated 32)
  else throw (.badInfoHash version)

def readOffer : Reader RecordDecodeError TransportOffer := do
  let tag ← u8 .truncated
  if tag = offerIroh then return .iroh (← readNode)
  else if tag = offerBitTorrent then return .bitTorrent (← readInfoHash)
  else if tag = offerLibp2p then
    let node ← readNode
    let relayHints ← readRelayHints
    return .libp2p node relayHints
  else throw (.unknownOffer tag)

def ed25519OrderLe : List UInt8 :=
  [0xed, 0xd3, 0xf5, 0x5c, 0x1a, 0x63, 0x12, 0x58, 0xd6, 0x9c, 0xf7, 0xa2, 0xde, 0xf9, 0xde, 0x14,
   0x00, 0x00, 0x00, 0x00, 0x00, 0x00, 0x00, 0x00, 0x00, 0x00, 0x00, 0x00, 0x00, 0x00, 0x00, 0x10]

/-- The comparison loop, most significant byte first; equal strings are not below. -/
def scanBelow : List (UInt8 × UInt8) → Bool
  | [] => false
  | (s, l) :: rest => if s < l then true else if l < s then false else scanBelow rest

def signatureScalarIsCanonical (signature : Bytes 64) : Bool :=
  scanBelow ((signature.1.drop 32).zip ed25519OrderLe).reverse

def verify (provider : NodeId) (body : List UInt8) (signature : Bytes 64) :
    Except RecordDecodeError Unit :=
  if signatureScalarIsCanonical signature = false then .error .nonCanonicalSignature
  else match Ed25519.fromBytes provider.bytes with
    | none => .error .badProviderKey
    | some key =>
      if Ed25519.verifyStrict key (signingPreimage body) signature then .ok () else .error .badSignature

/-- The part of a record after the header: content, offers and the checks on them. -/
def readProvide (key : ContentKey) (provider : NodeId) (sequence issuedAt expiry : UInt64)
    (signature : Bytes 64) : Reader RecordDecodeError ProviderAssertion := do
  let content ← take .truncated 32
  let offersLen ← u8 .truncated
  if maxOffersPerRecord < offersLen.toNat then
    throw (.tooManyOffers offersLen.toNat maxOffersPerRecord)
  else
    let offers ← times readOffer offersLen.toNat
    lift .offer (checkSelfServe provider offers)
    if offersAreCanonical offers = false then throw .offersNotCanonical
    else return .provide ⟨key, ⟨content⟩, provider, offers, sequence, issuedAt, expiry, signature⟩

def readAssertion (signature : Bytes 64) : Reader RecordDecodeError ProviderAssertion := do
  let version ← u16 .truncated
  if version ≠ providerRecordSchemaVersion then
    throw (.unknownVersion version providerRecordSchemaVersion)
  else
    let kind ← u8 .truncated
    let key ← take .truncated 32
    let provider ← readNode
    let sequence ← u64 .truncated
    let issuedAt ← u64 .truncated
    let expiry ← u64 .truncated
    if kind = kindProvide then readProvide ⟨key⟩ provider sequence issuedAt expiry signature
    else if kind = kindWithdraw then
      return .withdraw ⟨⟨key⟩, provider, sequence, issuedAt, expiry, signature⟩
    else throw (.unknownKind kind)

/-- Parse, then authenticate over the received body, then match the storage key, then the expiry. -/
def decodeProviderAssertion (bytes : List UInt8) (expectedKey : ContentKey) (now : UInt64) :
    Except RecordDecodeError ProviderAssertion :=
  if maxProviderRecordBytes < bytes.length then
    .error (.oversized bytes.length maxProviderRecordBytes)
  else if hlen : bytes.length < bodyHeaderLen + providerSignatureLen then
    .error (.truncated (bodyHeaderLen + providerSignatureLen) bytes.length)
  else
    let sigStart := bytes.length - providerSignatureLen
    let body := bytes.take sigStart
    let signature : Bytes 64 := ⟨bytes.drop sigStart, by
      simp only [List.length_drop, sigStart, bodyHeaderLen, providerSignatureLen] at hlen ⊢
      omega⟩
    do
      let (assertion, rest) ← readAssertion signature body
      if rest ≠ [] then .error (.trailingBytes rest.length)
      else
        verify assertion.provider body signature
        if assertion.key ≠ expectedKey then .error (.wrongKey expectedKey assertion.key)
        else if assertion.expiry ≤ now then .error (.stale assertion.expiry now)
        else .ok assertion

end NixP2p
