import NixP2p.Base.Fallible
import NixP2p.Base.SortedSet
import NixP2p.Swarm.Multiaddr

/-!
# Relay hints from the live listeners

The hints of a signed record are derived from the addresses the swarm listens on: the peer right before each `/p2p-circuit` component is a relay. The scan stops at the first fault it meets, so which error it reports depends on the order of the listeners; whether it reports one does not, and the hints are the ascending list of the relays that the addresses name.
-/

namespace NixP2p

/-- What libp2p finds in a peer id: the ed25519 key that an identity multihash embeds. -/
class PeerIdKeys [Libp2pKeys] where
  embeddedKey : Libp2pKeys.PeerId → Option (Wire.Bytes 32)

section Identities

variable [Ed25519]

theorem tryFromNodes_singleton (relay : NodeId) :
    (∃ hints, RelayHints.tryFromNodes [relay] = .ok hints) ↔ strictIdentity relay = true := by
  refine ⟨?_, fun hstrict => ?_⟩
  · rintro ⟨hints, hok⟩
    have hnodes := RelayHints.tryFromNodes_ok_iff.mp hok
    exact hints.canonical.1 relay (hnodes ▸ List.mem_singleton_self relay)
  · refine ⟨⟨[relay], Nat.le_succ 1, ?_⟩, RelayHints.tryFromNodes_ok_iff.mpr rfl⟩
    exact ⟨fun other hother => List.mem_singleton.mp hother ▸ hstrict, .singleton relay⟩

instance : IsStrictTotalOrder NodeId (· < ·) where
  irrefl node := List.lt_irrefl node.bytes.1
  trans _ _ _ := List.lt_trans
  trichotomous left right hleft hright := by
    have hbytes : left.bytes.1 = right.bytes.1 := List.le_antisymm hright hleft
    exact congrArg NodeId.mk (Subtype.ext hbytes)

end Identities

section Derivation

variable [Ed25519] [Libp2pKeys] [PeerIdKeys]

open Libp2pKeys (PeerId)

/-- The embedded key, if the peer id is the one that the key derives to. -/
def nodeIdOfPeerId (peer : PeerId) : Option NodeId := do
  have := Libp2pKeys.decEq
  let node : NodeId := ⟨← PeerIdKeys.embeddedKey peer⟩
  if Libp2pKeys.peerIdOfProvider node = some peer then some node else none

inductive RelayHintDerivationError where
  | circuitMissingRelayPeer (address : Multiaddr PeerId)
  | relayPeerNotEd25519 (peer : PeerId) (address : Multiaddr PeerId)
  | relayIdentityRejected (relay : NodeId) (reason : RelayHintsError)
  | canonicalizationFailed (reason : RelayHintsError)
  | providerIsRelay (found : NodeId)
  | tooMany (found cap : Nat)

/-- The components of one address, from the peer id just passed and the hints found before. -/
def scanCircuits (provider : NodeId) (address : Multiaddr PeerId) :
    Option PeerId → Multiaddr PeerId → List NodeId → Except RelayHintDerivationError (List NodeId)
  | _, [], hints => .ok hints
  | _, .p2p peer :: rest, hints => scanCircuits provider address (some peer) rest hints
  | preceding, .p2pCircuit :: rest, hints =>
    match preceding with
    | none => .error (.circuitMissingRelayPeer address)
    | some peer =>
      match nodeIdOfPeerId peer with
      | none => .error (.relayPeerNotEd25519 peer address)
      | some relay =>
        if relay = provider then .error (.providerIsRelay relay)
        else match RelayHints.tryFromNodes [relay] with
          | .error reason => .error (.relayIdentityRejected relay reason)
          | .ok _ => scanCircuits provider address none rest (SortedSet.insert (· < ·) relay hints)
  | _, _ :: rest, hints => scanCircuits provider address none rest hints

def scanListeners (provider : NodeId) :
    List (Multiaddr PeerId) → List NodeId → Except RelayHintDerivationError (List NodeId)
  | [], hints => .ok hints
  | address :: listeners, hints =>
    match scanCircuits provider address none address hints with
    | .error fault => .error fault
    | .ok hints => scanListeners provider listeners hints

def relayHintsFromCircuitAddresses (provider : NodeId) (listeners : List (Multiaddr PeerId)) :
    Except RelayHintDerivationError RelayHints :=
  match scanListeners provider listeners [] with
  | .error fault => .error fault
  | .ok hints =>
    if maxLibp2pRelayHints < hints.length then .error (.tooMany hints.length maxLibp2pRelayHints)
    else match RelayHints.tryFromNodes hints with
      | .error reason => .error (.canonicalizationFailed reason)
      | .ok hints => .ok hints

/-- The relay that a peer before a circuit stands for, if it may be a hint of the provider. -/
def liveRelay (provider : NodeId) (preceding : Option PeerId) : Option NodeId :=
  (preceding.bind nodeIdOfPeerId).filter fun relay => decide (relay ≠ provider) && strictIdentity relay

variable {provider : NodeId} {preceding : Option PeerId} {hints : List NodeId}

variable {address : Multiaddr PeerId} {out : List NodeId}

variable {rest : Multiaddr PeerId}

theorem scanCircuits_circuit :
    scanCircuits provider address preceding (.p2pCircuit :: rest) hints = .ok out ↔
      ∃ relay, liveRelay provider preceding = some relay ∧
        scanCircuits provider address none rest (SortedSet.insert (· < ·) relay hints) = .ok out := by
  simp only [scanCircuits, liveRelay]
  cases preceding with
  | none => simp
  | some peer =>
    simp only [Option.bind_some]
    cases hnode : nodeIdOfPeerId peer with
    | none => simp
    | some relay =>
      dsimp only
      by_cases hself : relay = provider
      · simp [hself]
      have hstrict := tryFromNodes_singleton relay
      rw [if_neg hself]
      cases htry : RelayHints.tryFromNodes [relay] with
      | error reason =>
        rw [htry] at hstrict
        have hweak : strictIdentity relay = false := by simpa using hstrict
        simp [hweak]
      | ok single =>
        rw [htry] at hstrict
        simp [hself, hstrict.mp ⟨single, rfl⟩]

theorem scanCircuits_cons_of_ne {protocol : Protocol PeerId} (hne : protocol ≠ .p2pCircuit) (provider : NodeId)
    (address rest : Multiaddr PeerId) (preceding : Option PeerId) (hints : List NodeId) :
    scanCircuits provider address preceding (protocol :: rest) hints =
      scanCircuits provider address protocol.peer? rest hints := by
  cases protocol with
  | p2pCircuit => exact absurd rfl hne
  | _ => rfl

def enterRelays (provider : NodeId) (entries : List (Option PeerId)) (hints : List NodeId) : List NodeId :=
  (entries.filterMap (liveRelay provider)).foldl (fun hints relay => SortedSet.insert (· < ·) relay hints) hints

theorem scanCircuits_ok_iff :
    scanCircuits provider address preceding rest hints = .ok out ↔
      (∀ entry ∈ circuitPeers preceding rest, liveRelay provider entry ≠ none) ∧
      out = enterRelays provider (circuitPeers preceding rest) hints := by
  induction rest generalizing preceding hints with
  | nil => simp [scanCircuits, circuitPeers, enterRelays, eq_comm]
  | cons protocol rest ih =>
    by_cases hcircuit : protocol = .p2pCircuit
    · subst hcircuit
      rw [scanCircuits_circuit, circuitPeers, List.forall_mem_cons, enterRelays]
      cases hrelay : liveRelay provider preceding with
      | none => simp
      | some relay =>
        rw [List.filterMap_cons_some hrelay, List.foldl_cons]
        simp only [Option.some.injEq, exists_eq_left', ih, ne_eq, reduceCtorEq, not_false_eq_true, true_and]
        rfl
    · rw [scanCircuits_cons_of_ne hcircuit, circuitPeers_cons_of_ne hcircuit]
      exact ih

variable {listeners : List (Multiaddr PeerId)}

theorem scanListeners_ok_iff :
    scanListeners provider listeners hints = .ok out ↔
      (∀ entry ∈ listeners.flatMap (circuitPeers none), liveRelay provider entry ≠ none) ∧
      out = enterRelays provider (listeners.flatMap (circuitPeers none)) hints := by
  induction listeners generalizing hints with
  | nil => simp [scanListeners, enterRelays, eq_comm]
  | cons address listeners ih =>
    have hcons : scanListeners provider (address :: listeners) hints = .ok out ↔
        ∃ next, scanCircuits provider address none address hints = .ok next ∧
          scanListeners provider listeners next = .ok out := by
      rw [scanListeners]
      cases scanCircuits provider address none address hints <;> simp
    rw [hcons, List.flatMap_cons, enterRelays, List.filterMap_append, List.foldl_append]
    simp only [scanCircuits_ok_iff, ih, List.forall_mem_append]
    refine ⟨?_, ?_⟩
    · rintro ⟨next, ⟨hfirst, rfl⟩, hrest, rfl⟩
      exact ⟨⟨hfirst, hrest⟩, rfl⟩
    · rintro ⟨⟨hfirst, hrest⟩, rfl⟩
      exact ⟨_, ⟨hfirst, rfl⟩, hrest, rfl⟩

variable {entries : List (Option PeerId)}

theorem enterRelays_ascending (hhints : SortedSet.Ascending (· < ·) hints) :
    SortedSet.Ascending (· < ·) (enterRelays provider entries hints) := by
  rw [enterRelays]
  induction entries.filterMap (liveRelay provider) generalizing hints with
  | nil => exact hhints
  | cons relay relays ih => exact ih (hhints.insert relay)

variable {relay : NodeId}

theorem mem_enterRelays :
    relay ∈ enterRelays provider entries hints ↔
      relay ∈ hints ∨ ∃ entry ∈ entries, liveRelay provider entry = some relay := by
  rw [enterRelays, ← List.mem_filterMap]
  induction entries.filterMap (liveRelay provider) generalizing hints with
  | nil => exact (or_iff_left List.not_mem_nil).symm
  | cons first relays ih =>
    rw [List.foldl_cons, ih, SortedSet.mem_insert, List.mem_cons, or_assoc]
    exact or_left_comm

/-- The derivation succeeds exactly when each circuit component has a live relay before it and the hints are the ascending list of those relays. -/
theorem relayHints_ok_iff {hints : RelayHints} :
    relayHintsFromCircuitAddresses provider listeners = .ok hints ↔
      (∀ entry ∈ listeners.flatMap (circuitPeers none), liveRelay provider entry ≠ none) ∧
      ∀ relay, relay ∈ hints.nodes ↔
        ∃ entry ∈ listeners.flatMap (circuitPeers none), liveRelay provider entry = some relay := by
  have hascending : SortedSet.Ascending (· < ·) hints.nodes := List.isChain_iff_pairwise.mp hints.canonical.2
  have hderive : relayHintsFromCircuitAddresses provider listeners = .ok hints ↔
      scanListeners provider listeners [] = .ok hints.nodes := by
    rw [relayHintsFromCircuitAddresses]
    cases hscan : scanListeners provider listeners [] with
    | error fault => simp
    | ok found =>
      rw [Except.ok.injEq]
      refine ⟨fun hok => ?_, ?_⟩
      · dsimp only at hok
        split at hok
        · exact absurd hok (by simp)
        cases htry : RelayHints.tryFromNodes found with
        | error reason =>
          rw [htry] at hok
          exact absurd hok (by simp)
        | ok built =>
          rw [htry] at hok
          obtain rfl := Except.ok.inj hok
          exact (RelayHints.tryFromNodes_ok_iff.mp htry).symm
      · rintro rfl
        dsimp only
        rw [if_neg (Nat.not_lt.mpr hints.len_le), RelayHints.tryFromNodes_ok_iff.mpr rfl]
  rw [hderive, scanListeners_ok_iff]
  refine and_congr_right fun _ => ⟨?_, fun hmem => ?_⟩
  · intro hnodes relay
    rw [hnodes, mem_enterRelays, or_iff_right List.not_mem_nil]
  · refine hascending.eq_of_mem_iff (enterRelays_ascending List.Pairwise.nil) fun relay => ?_
    rw [hmem, mem_enterRelays, or_iff_right List.not_mem_nil]

theorem liveRelay_eq_some_iff :
    liveRelay provider preceding = some relay ↔
      ∃ peer, preceding = some peer ∧ nodeIdOfPeerId peer = some relay ∧ relay ≠ provider ∧ strictIdentity relay = true := by
  rw [liveRelay, Option.filter_eq_some_iff, Option.bind_eq_some_iff, Bool.and_eq_true, decide_eq_true_iff]
  refine ⟨?_, ?_⟩
  · rintro ⟨⟨peer, hpeer, hnode⟩, hother, hstrict⟩
    exact ⟨peer, hpeer, hnode, hother, hstrict⟩
  · rintro ⟨peer, hpeer, hnode, hother, hstrict⟩
    exact ⟨⟨peer, hpeer, hnode⟩, hother, hstrict⟩

/-- The relay is named right before a circuit component of one of the addresses. -/
def NamedRelay (listeners : List (Multiaddr PeerId)) (relay : NodeId) : Prop :=
  ∃ address ∈ listeners, ∃ before peer after,
    address = before ++ .p2p peer :: .p2pCircuit :: after ∧ nodeIdOfPeerId peer = some relay

theorem namedRelay_iff (hlive : ∀ entry ∈ listeners.flatMap (circuitPeers none), liveRelay provider entry ≠ none) :
    (∃ entry ∈ listeners.flatMap (circuitPeers none), liveRelay provider entry = some relay) ↔
      NamedRelay listeners relay := by
  refine ⟨?_, ?_⟩
  · rintro ⟨entry, hentry, hrelay⟩
    obtain ⟨address, haddress, before, after, rfl, rfl⟩ := mem_flatMap_circuitPeers.mp hentry
    obtain ⟨peer, hpeer, hnode, _⟩ := liveRelay_eq_some_iff.mp hrelay
    obtain ⟨front, rfl⟩ := lastPeer_eq_some_iff.mp hpeer
    exact ⟨_, haddress, front, peer, after, by rw [List.append_assoc]; rfl, hnode⟩
  · rintro ⟨address, haddress, front, peer, after, rfl, hnode⟩
    have hentry : some peer ∈ listeners.flatMap (circuitPeers none) := by
      refine mem_flatMap_circuitPeers.mpr ⟨_, haddress, front ++ [.p2p peer], after, by rw [List.append_assoc]; rfl, ?_⟩
      exact (lastPeer_eq_some_iff.mpr ⟨front, rfl⟩).symm
    obtain ⟨found, hfound⟩ := Option.ne_none_iff_exists'.mp (hlive _ hentry)
    obtain ⟨other, hother, hsame, _⟩ := liveRelay_eq_some_iff.mp hfound
    obtain rfl := Option.some.inj hother
    obtain rfl := Option.some.inj (hnode.symm.trans hsame)
    exact ⟨some peer, hentry, hfound⟩

/-- The result depends on the set of addresses only, up to which error is reported. Hints are the ascending list of all relays right before a circuit component, at most two and not the provider; every circuit component has one. -/
theorem relay_hints_of_relay_set (provider : NodeId) (listeners : List (Multiaddr PeerId)) :
    (∀ other, (∀ address, address ∈ other ↔ address ∈ listeners) →
      (relayHintsFromCircuitAddresses provider other).toOption =
        (relayHintsFromCircuitAddresses provider listeners).toOption) ∧
    (∀ hints, relayHintsFromCircuitAddresses provider listeners = .ok hints →
      hints.nodes.Pairwise (· < ·) ∧ hints.nodes.length ≤ 2 ∧ provider ∉ hints.nodes ∧
      (∀ relay, relay ∈ hints.nodes ↔ NamedRelay listeners relay) ∧
      ∀ address ∈ listeners, ∀ before after, address = before ++ .p2pCircuit :: after →
        ∃ front peer relay, before = front ++ [.p2p peer] ∧ nodeIdOfPeerId peer = some relay ∧ relay ∈ hints.nodes) ∧
    ∀ relays : List NodeId, relays.Nodup → 2 < relays.length → (∀ relay ∈ relays, NamedRelay listeners relay) →
      ∃ error, relayHintsFromCircuitAddresses provider listeners = .error error := by
  refine ⟨fun other hsame => ?_, fun hints hok => ?_, fun relays hnodup hmany hnamed => ?_⟩
  · have hentries : ∀ entry, entry ∈ other.flatMap (circuitPeers none) ↔
        entry ∈ listeners.flatMap (circuitPeers none) := by
      simp only [List.mem_flatMap, hsame, implies_true]
    refine Fallible.toOption_eq_of_ok_iff fun hints => ?_
    simp only [relayHints_ok_iff, hentries]
  · have hascending := List.isChain_iff_pairwise.mp hints.canonical.2
    obtain ⟨hlive, hnodes⟩ := relayHints_ok_iff.mp hok
    refine ⟨hascending, hints.len_le, fun hself => ?_, fun relay => ?_, ?_⟩
    · obtain ⟨entry, _, hentry⟩ := (hnodes provider).mp hself
      obtain ⟨_, _, _, hother, _⟩ := liveRelay_eq_some_iff.mp hentry
      exact hother rfl
    · rw [hnodes, namedRelay_iff hlive]
    · rintro address haddress before after rfl
      have hentry : lastPeer none before ∈ listeners.flatMap (circuitPeers none) :=
        mem_flatMap_circuitPeers.mpr ⟨_, haddress, before, after, rfl, rfl⟩
      obtain ⟨relay, hrelay⟩ := Option.ne_none_iff_exists'.mp (hlive _ hentry)
      obtain ⟨peer, hpeer, hnode, _⟩ := liveRelay_eq_some_iff.mp hrelay
      obtain ⟨front, rfl⟩ := lastPeer_eq_some_iff.mp hpeer
      exact ⟨front, peer, relay, rfl, hnode, (hnodes relay).mpr ⟨_, hentry, hrelay⟩⟩
  · cases hresult : relayHintsFromCircuitAddresses provider listeners with
    | error error => exact ⟨error, rfl⟩
    | ok hints =>
      obtain ⟨hlive, hnodes⟩ := relayHints_ok_iff.mp hresult
      have hsubset : relays ⊆ hints.nodes := fun relay hrelay =>
        (hnodes relay).mpr ((namedRelay_iff hlive).mpr (hnamed relay hrelay))
      have hle : relays.length ≤ 2 := ((List.subperm_of_subset hnodup hsubset).length_le).trans hints.len_le
      exact absurd hmany (Nat.not_lt.mpr hle)

end Derivation

end NixP2p
