import NixP2p.Records.Ids

/-!
# Multiaddresses

A multiaddress is a sequence of protocol components. The components that this repository looks at have constructors of their own; the rest, which no function here tells apart, share one.
-/

namespace NixP2p

structure Ipv4Addr where
  octets : UInt8 × UInt8 × UInt8 × UInt8
  deriving DecidableEq

structure Ipv6Addr where
  first : UInt16
  rest : Vector UInt16 7
  deriving DecidableEq

inductive IpAddr where
  | v4 (addr : Ipv4Addr)
  | v6 (addr : Ipv6Addr)
  deriving DecidableEq

inductive Protocol (PeerId : Type) where
  | ip4 (addr : Ipv4Addr)
  | ip6 (addr : Ipv6Addr)
  | tcp (port : UInt16)
  | udp (port : UInt16)
  | quicV1
  | p2p (peer : PeerId)
  | p2pCircuit
  /-- Names, proxies, paths, other transports and whatever else the library knows. -/
  | other (code : Nat) (data : List UInt8)
  deriving DecidableEq

abbrev Multiaddr (PeerId : Type) := List (Protocol PeerId)

section Circuits

variable {PeerId : Type}

def Protocol.peer? : Protocol PeerId → Option PeerId
  | .p2p peer => some peer
  | _ => none

def lastPeer : Option PeerId → Multiaddr PeerId → Option PeerId
  | preceding, [] => preceding
  | _, protocol :: rest => lastPeer protocol.peer? rest

/-- The peer ids that stand right before the circuit components, or none where none does. -/
def circuitPeers : Option PeerId → Multiaddr PeerId → List (Option PeerId)
  | _, [] => []
  | preceding, .p2pCircuit :: rest => preceding :: circuitPeers none rest
  | _, protocol :: rest => circuitPeers protocol.peer? rest

theorem lastPeer_concat (preceding : Option PeerId) (front : Multiaddr PeerId) (protocol : Protocol PeerId) :
    lastPeer preceding (front ++ [protocol]) = protocol.peer? := by
  induction front generalizing preceding with
  | nil => rfl
  | cons first front ih => exact ih first.peer?

theorem lastPeer_eq_some_iff {before : Multiaddr PeerId} {peer : PeerId} :
    lastPeer none before = some peer ↔ ∃ front, before = front ++ [.p2p peer] := by
  refine ⟨fun h => ?_, ?_⟩
  · rcases List.eq_nil_or_concat' before with rfl | ⟨front, last, rfl⟩
    · exact absurd h.symm (Option.some_ne_none peer)
    rw [lastPeer_concat] at h
    cases last with
    | p2p found =>
      obtain rfl : found = peer := Option.some.inj h
      exact ⟨front, rfl⟩
    | _ => exact absurd h.symm (Option.some_ne_none peer)
  · rintro ⟨front, rfl⟩
    exact lastPeer_concat none front (.p2p peer)

theorem circuitPeers_cons_of_ne {protocol : Protocol PeerId} (hne : protocol ≠ .p2pCircuit) (preceding : Option PeerId)
    (rest : Multiaddr PeerId) : circuitPeers preceding (protocol :: rest) = circuitPeers protocol.peer? rest := by
  cases protocol with
  | p2pCircuit => exact absurd rfl hne
  | _ => rfl

theorem mem_circuitPeers {preceding entry : Option PeerId} {address : Multiaddr PeerId} :
    entry ∈ circuitPeers preceding address ↔
      ∃ before after, address = before ++ .p2pCircuit :: after ∧ entry = lastPeer preceding before := by
  induction address generalizing preceding with
  | nil =>
    refine ⟨fun h => absurd h List.not_mem_nil, ?_⟩
    rintro ⟨before, after, h, _⟩
    exact absurd h (by simp)
  | cons protocol address ih =>
    have hsplit : (∃ before after, protocol :: address = before ++ .p2pCircuit :: after ∧ entry = lastPeer preceding before) ↔
        (protocol = .p2pCircuit ∧ entry = preceding) ∨ entry ∈ circuitPeers protocol.peer? address := by
      rw [ih]
      refine ⟨?_, ?_⟩
      · rintro ⟨before, after, h, rfl⟩
        rcases List.cons_eq_append_iff.mp h with ⟨rfl, hhead⟩ | ⟨before, rfl, rfl⟩
        · exact .inl ⟨(List.cons.inj hhead).1.symm, rfl⟩
        · exact .inr ⟨before, after, rfl, rfl⟩
      · rintro (⟨rfl, rfl⟩ | ⟨before, after, rfl, rfl⟩)
        · exact ⟨[], address, rfl, rfl⟩
        · exact ⟨protocol :: before, after, rfl, rfl⟩
    rw [hsplit]
    by_cases hcircuit : protocol = .p2pCircuit
    · subst hcircuit
      rw [circuitPeers, List.mem_cons]
      simp only [true_and]
      rfl
    · rw [circuitPeers_cons_of_ne hcircuit]
      simp only [hcircuit, false_and, false_or]

theorem mem_flatMap_circuitPeers {listeners : List (Multiaddr PeerId)} {entry : Option PeerId} :
    entry ∈ listeners.flatMap (circuitPeers none) ↔
      ∃ address ∈ listeners, ∃ before after, address = before ++ .p2pCircuit :: after ∧ entry = lastPeer none before := by
  simp only [List.mem_flatMap, mem_circuitPeers]

end Circuits

end NixP2p
