import NixP2p.Base.Hex
import NixP2p.Base.Reader

/-!
# Identities, locators and the signature scheme

The value types a provider record is made of. The elliptic-curve library is not part of this repository: what the code asks of it, parsing a verifying key, telling a weak key and strict verification, are the fields of `Ed25519`, and everything below is stated for every such scheme.
-/

namespace NixP2p

open Wire

/-- The three questions the code puts to its ed25519 library. -/
class Ed25519 where
  VerifyingKey : Type
  fromBytes : Bytes 32 → Option VerifyingKey
  isWeak : VerifyingKey → Bool
  verifyStrict : VerifyingKey → List UInt8 → Bytes 64 → Bool

class Blake3Kdf where
  deriveKey : (context : String) → List UInt8 → Bytes 32

structure ContentKey where
  bytes : Bytes 32
  deriving DecidableEq

def contentKeyContext : String := "nix-p2p/discovery/ContentKey/v1"

def ContentKey.deriveFromSignedNarHash [Blake3Kdf] (narHashSha256 : Bytes 32) : ContentKey :=
  ⟨Blake3Kdf.deriveKey contentKeyContext narHashSha256.1⟩

structure NodeId where
  bytes : Bytes 32
  deriving DecidableEq

structure Blake3Digest where
  bytes : Bytes 32
  deriving DecidableEq

instance : ToString ContentKey where
  toString key := "contentkey:" ++ String.ofList (Hex.encode key.bytes.1)

instance : ToString NodeId where
  toString node := String.ofList (Hex.encode node.bytes.1)

instance : ToString Blake3Digest where
  toString digest := "blake3:" ++ String.ofList (Hex.encode digest.bytes.1)

/-- The libp2p peer id of an ed25519 identity, if its bytes are a curve point. -/
class Libp2pKeys where
  PeerId : Type
  decEq : DecidableEq PeerId
  peerIdOfProvider : NodeId → Option PeerId

instance : LT NodeId where
  lt left right := left.bytes.1 < right.bytes.1

instance (left right : NodeId) : Decidable (left < right) :=
  inferInstanceAs (Decidable (left.bytes.1 < right.bytes.1))

inductive InfoHash where
  | v1 (hash : Bytes 20)
  | v2 (hash : Bytes 32)
  deriving DecidableEq

def maxLibp2pRelayHints : Nat := 2

inductive RelayHintsError where
  | tooMany (found cap : Nat)
  | invalidIdentity (relay : NodeId)
  | notCanonical (previous found : NodeId)
  deriving DecidableEq

section Relays

variable [Ed25519]

/-- The bytes name a curve point and the point is not of small order. -/
def strictIdentity (relay : NodeId) : Bool :=
  match Ed25519.fromBytes relay.bytes with
  | none => false
  | some key => !Ed25519.isWeak key

def checkRelays (previous : Option NodeId) : List NodeId → Except RelayHintsError Unit
  | [] => .ok ()
  | relay :: relays =>
    if strictIdentity relay = false then .error (.invalidIdentity relay)
    else match previous with
      | none => checkRelays (some relay) relays
      | some last =>
        if last < relay then checkRelays (some relay) relays
        else .error (.notCanonical last relay)

/-- The relays follow `previous` in strictly ascending order and are all strict identities. -/
def RelaysOk (previous : Option NodeId) (relays : List NodeId) : Prop :=
  (∀ relay ∈ relays, strictIdentity relay = true) ∧ List.IsChain (· < ·) (previous.toList ++ relays)

theorem checkRelays_ok_iff (previous : Option NodeId) (relays : List NodeId) :
    checkRelays previous relays = .ok () ↔ RelaysOk previous relays := by
  induction relays generalizing previous with
  | nil => cases previous <;> simp [checkRelays, RelaysOk]
  | cons relay relays ih =>
    cases hstrict : strictIdentity relay with
    | false => simp [checkRelays, RelaysOk, hstrict]
    | true =>
      cases previous with
      | none => simp [checkRelays, hstrict, ih, RelaysOk]
      | some last =>
        by_cases hlt : last < relay <;>
          simp [checkRelays, hstrict, hlt, ih, RelaysOk, List.isChain_cons_cons]

instance (previous : Option NodeId) (relays : List NodeId) : Decidable (RelaysOk previous relays) :=
  decidable_of_iff _ (checkRelays_ok_iff previous relays)

/-- The relay identities of one libp2p offer: at most two, strictly ascending, each a strict key. -/
structure RelayHints where
  nodes : List NodeId
  len_le : nodes.length ≤ maxLibp2pRelayHints
  canonical : RelaysOk none nodes

instance : DecidableEq RelayHints := fun left right =>
  decidable_of_iff (left.nodes = right.nodes) (by cases left; cases right; simp)

def RelayHints.empty : RelayHints := ⟨[], by decide, by simp [RelaysOk]⟩

def RelayHints.tryFromNodes (nodes : List NodeId) : Except RelayHintsError RelayHints :=
  if hlen : maxLibp2pRelayHints < nodes.length then
    .error (.tooMany nodes.length maxLibp2pRelayHints)
  else match hcheck : checkRelays none nodes with
    | .error fault => .error fault
    | .ok () => .ok ⟨nodes, by omega, (checkRelays_ok_iff none nodes).mp hcheck⟩

theorem RelayHints.tryFromNodes_ok_iff {nodes : List NodeId} {hints : RelayHints} :
    RelayHints.tryFromNodes nodes = .ok hints ↔ hints.nodes = nodes := by
  constructor
  · intro h
    unfold tryFromNodes at h
    split at h
    · cases h
    · split at h <;> cases h
      rfl
  · rintro rfl
    unfold tryFromNodes
    rw [dif_neg (by have := hints.len_le; omega)]
    split
    · rename_i fault hcheck
      rw [(checkRelays_ok_iff none hints.nodes).mpr hints.canonical] at hcheck
      cases hcheck
    · rfl

/-- A pure locator: how to reach a holder, never what the content is. -/
inductive TransportOffer where
  | iroh (node : NodeId)
  | bitTorrent (infohash : InfoHash)
  | libp2p (node : NodeId) (relayHints : RelayHints)
  deriving DecidableEq

inductive TransportTag where
  | iroh
  | bitTorrent
  | libp2p
  deriving DecidableEq

instance : ToString TransportTag where
  toString
    | .iroh => "iroh"
    | .bitTorrent => "bittorrent"
    | .libp2p => "libp2p"

def TransportOffer.tag : TransportOffer → TransportTag
  | .iroh _ => .iroh
  | .bitTorrent _ => .bitTorrent
  | .libp2p _ _ => .libp2p

end Relays

end NixP2p
