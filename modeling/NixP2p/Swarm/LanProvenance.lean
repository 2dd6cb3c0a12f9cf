import NixP2p.Swarm.Multiaddr

/-!
# Addresses of the local network

Two functions decide whether an address is one of the local network: the fabric scans the components of an address one after another, the daemon matches the whole shape of an address to listen on. Both accept one literal and one direct transport, and the scanner a peer id after it.
-/

namespace NixP2p

namespace Ipv4Addr

def isLoopback (self : Ipv4Addr) : Bool := self.octets.1 == 127

def isLinkLocal (self : Ipv4Addr) : Bool := self.octets.1 == 169 && self.octets.2.1 == 254

def isPrivate (self : Ipv4Addr) : Bool :=
  match self.octets with
  | (10, _, _, _) => true
  | (172, second, _, _) => 16 ≤ second && second ≤ 31
  | (192, 168, _, _) => true
  | _ => false

end Ipv4Addr

def Ipv6Addr.isLoopback (self : Ipv6Addr) : Bool :=
  self.first == 0 && self.rest == #v[0, 0, 0, 0, 0, 0, 1]

def ipIsProvablyPrivate : IpAddr → Bool
  | .v4 v4 => v4.isPrivate
  | .v6 v6 => v6.first &&& 0xfe00 == 0xfc00

def ipIsLanLiteral : IpAddr → Bool
  | .v4 v4 => v4.isLoopback || v4.isLinkLocal || ipIsProvablyPrivate (.v4 v4)
  | .v6 v6 =>
    let linkLocal := v6.first &&& 0xffc0 == 0xfe80
    v6.isLoopback || linkLocal || ipIsProvablyPrivate (.v6 v6)

def Ipv4Addr.toNat (self : Ipv4Addr) : Nat :=
  ((self.octets.1.toNat * 256 + self.octets.2.1.toNat) * 256 + self.octets.2.2.1.toNat) * 256 +
    self.octets.2.2.2.toNat

/-- Loopback, link-local and private addresses. -/
def LanLiteral : IpAddr → Prop
  | .v4 v4 =>
    (0x7f000000 ≤ v4.toNat ∧ v4.toNat ≤ 0x7fffffff) ∨ (0xa9fe0000 ≤ v4.toNat ∧ v4.toNat ≤ 0xa9feffff) ∨
    (0x0a000000 ≤ v4.toNat ∧ v4.toNat ≤ 0x0affffff) ∨ (0xac100000 ≤ v4.toNat ∧ v4.toNat ≤ 0xac1fffff) ∨
    (0xc0a80000 ≤ v4.toNat ∧ v4.toNat ≤ 0xc0a8ffff)
  | .v6 v6 =>
    v6 = ⟨0, #v[0, 0, 0, 0, 0, 0, 1]⟩ ∨ (0xfe80 ≤ v6.first.toNat ∧ v6.first.toNat ≤ 0xfebf) ∨
    (0xfc00 ≤ v6.first.toNat ∧ v6.first.toNat ≤ 0xfdff)

theorem Ipv4Addr.isPrivate_iff {first second third fourth : UInt8} :
    (Ipv4Addr.mk (first, second, third, fourth)).isPrivate = true ↔
      first = 10 ∨ (first = 172 ∧ 16 ≤ second ∧ second ≤ 31) ∨ (first = 192 ∧ second = 168) := by
  simp only [isPrivate]
  split
  · simp_all
  · simp_all
  · simp_all
  · rename_i hten hmiddle hlast
    refine iff_of_false Bool.false_ne_true ?_
    rintro (rfl | ⟨rfl, _⟩ | ⟨rfl, rfl⟩)
    · exact hten _ _ _ rfl
    · exact hmiddle _ _ _ rfl
    · exact hlast _ _ rfl

theorem and_highMask {value : Nat} (low width : Nat) (hvalue : value < 2 ^ (low + width)) :
    value &&& (2 ^ width - 1) <<< low = value / 2 ^ low * 2 ^ low := by
  rw [← Nat.shiftRight_eq_div_pow, ← Nat.shiftLeft_eq]
  refine Nat.eq_of_testBit_eq fun bit => ?_
  rw [Nat.testBit_and, Nat.testBit_shiftLeft, Nat.testBit_two_pow_sub_one, Nat.testBit_shiftLeft,
    Nat.testBit_shiftRight]
  by_cases hbit : low ≤ bit
  · rw [decide_eq_true hbit, Bool.true_and, Bool.true_and, Nat.add_sub_cancel' hbit]
    by_cases hwidth : bit - low < width
    · rw [decide_eq_true hwidth, Bool.and_true]
    have hhigh : value.testBit bit = false :=
      Nat.testBit_lt_two_pow (hvalue.trans_le (Nat.pow_le_pow_right Nat.two_pos (by omega)))
    rw [hhigh, Bool.false_and]
  · rw [decide_eq_false hbit, Bool.false_and, Bool.and_false, Bool.false_and]

/-- A masked segment has some value exactly when the segment is in the range that begins there. -/
theorem masked_iff (segment mask base : UInt16) (low width : Nat) (hwidth : low + width = 16)
    (hmask : mask.toNat = (2 ^ width - 1) <<< low) (hbase : base.toNat % 2 ^ low = 0) :
    (segment &&& mask == base) = true ↔ base.toNat ≤ segment.toNat ∧ segment.toNat < base.toNat + 2 ^ low := by
  have hsegment : segment.toNat < 2 ^ (low + width) := hwidth ▸ segment.toNat_lt
  rw [beq_iff_eq, ← UInt16.toNat_inj, UInt16.toNat_and, hmask, and_highMask low width hsegment]
  have hbaseSplit : base.toNat / 2 ^ low * 2 ^ low = base.toNat := Nat.div_mul_cancel (Nat.dvd_of_mod_eq_zero hbase)
  refine ⟨fun h => ?_, fun ⟨hle, hlt⟩ => ?_⟩
  · have hfloor := Nat.div_add_mod' segment.toNat (2 ^ low)
    have hrest := Nat.mod_lt segment.toNat (Nat.two_pow_pos low)
    omega
  · have hdiv : segment.toNat / 2 ^ low = base.toNat / 2 ^ low := by
      refine Nat.div_eq_of_lt_le (hbaseSplit.symm ▸ hle) ?_
      rw [Nat.succ_mul, hbaseSplit]
      exact hlt
    rw [hdiv, hbaseSplit]

theorem ipIsLanLiteral_iff (ip : IpAddr) : ipIsLanLiteral ip = true ↔ LanLiteral ip := by
  cases ip with
  | v4 v4 =>
    obtain ⟨first, second, third, fourth⟩ := v4
    have hsecond := second.toNat_lt
    have hthird := third.toNat_lt
    have hfourth := fourth.toNat_lt
    simp only [ipIsLanLiteral, ipIsProvablyPrivate, Bool.or_eq_true, Ipv4Addr.isLoopback, Ipv4Addr.isLinkLocal,
      Ipv4Addr.isPrivate_iff, LanLiteral, Ipv4Addr.toNat, Bool.and_eq_true, beq_iff_eq, ← UInt8.toNat_inj,
      UInt8.le_iff_toNat_le, UInt8.reduceToNat]
    omega
  | v6 v6 =>
    obtain ⟨first, rest⟩ := v6
    have hloopback : (Ipv6Addr.mk first rest).isLoopback = true ↔
        Ipv6Addr.mk first rest = ⟨0, #v[0, 0, 0, 0, 0, 0, 1]⟩ := by
      rw [Ipv6Addr.isLoopback, Bool.and_eq_true, beq_iff_eq, beq_iff_eq, Ipv6Addr.mk.injEq]
    have hlink := masked_iff first 0xffc0 0xfe80 6 10 rfl rfl rfl
    have hlocal := masked_iff first 0xfe00 0xfc00 9 7 rfl rfl rfl
    simp only [ipIsLanLiteral, ipIsProvablyPrivate, Bool.or_eq_true, hloopback, hlink, hlocal, LanLiteral, or_assoc]
    refine or_congr Iff.rfl (or_congr (and_congr Iff.rfl ?_) (and_congr Iff.rfl ?_))
    · exact Nat.lt_succ_iff
    · exact Nat.lt_succ_iff

section Grammars

variable {PeerId : Type}

def Protocol.ip? : Protocol PeerId → Option IpAddr
  | .ip4 v4 => some (.v4 v4)
  | .ip6 v6 => some (.v6 v6)
  | _ => none

def transportEnd (comps : Multiaddr PeerId) : Option Nat :=
  match (comps[1]? : Option (Protocol PeerId)) with
  | some (.tcp _) => some 2
  | some (.udp _) =>
    match (comps[2]? : Option (Protocol PeerId)) with
    | some Protocol.quicV1 => some 3
    | _ => none
  | _ => none

def peerEnd (comps : Multiaddr PeerId) (i : Nat) : Nat :=
  match (comps[i]? : Option (Protocol PeerId)) with
  | some (.p2p _) => i + 1
  | _ => i

/-- The scan of the fabric, with an index into the components. -/
def multiaddrLanProvenance (addr : Multiaddr PeerId) : Bool :=
  match addr[0]?.bind Protocol.ip? with
  | none => false
  | some ip =>
    if ipIsLanLiteral ip = false then false
    else match transportEnd addr with
      | none => false
      | some i => peerEnd addr i == addr.length

def listenLiteral : IpAddr → Bool
  | .v4 v4 => v4.isLoopback || v4.isLinkLocal || ipIsProvablyPrivate (.v4 v4)
  | .v6 v6 =>
    let linkLocal := v6.first &&& 0xffc0 == 0xfe80
    v6.isLoopback || linkLocal || ipIsProvablyPrivate (.v6 v6)

/-- The literal of an address that has the shape to listen on. -/
def listenIp? : Multiaddr PeerId → Option IpAddr
  | [.ip4 ip, .tcp _] => some (.v4 ip)
  | [.ip6 ip, .tcp _] => some (.v6 ip)
  | [.ip4 ip, .udp _, .quicV1] => some (.v4 ip)
  | [.ip6 ip, .udp _, .quicV1] => some (.v6 ip)
  | _ => none

def multiaddrIsLanOnly (addr : Multiaddr PeerId) : Bool :=
  match listenIp? addr with
  | none => false
  | some ip => listenLiteral ip

/-- One direct transport: TCP, or QUIC over UDP. -/
inductive DirectTransport : Multiaddr PeerId → Prop where
  | tcp (port : UInt16) : DirectTransport [.tcp port]
  | quic (port : UInt16) : DirectTransport [.udp port, .quicV1]

def withoutPeer (addr : Multiaddr PeerId) : Multiaddr PeerId :=
  match addr.getLast? with
  | some (.p2p _) => addr.dropLast
  | _ => addr

variable {addr : Multiaddr PeerId}

theorem lanOnly_iff :
    multiaddrIsLanOnly addr = true ↔
      ∃ first ip transport, addr = first :: transport ∧ first.ip? = some ip ∧ listenLiteral ip = true ∧
        DirectTransport transport := by
  refine ⟨fun h => ?_, ?_⟩
  · rw [multiaddrIsLanOnly] at h
    cases hip : listenIp? addr with
    | none =>
      rw [hip] at h
      exact absurd h Bool.false_ne_true
    | some ip =>
      rw [hip] at h
      rw [listenIp?.eq_def] at hip
      split at hip
      · exact ⟨_, _, _, rfl, hip, h, .tcp _⟩
      · exact ⟨_, _, _, rfl, hip, h, .tcp _⟩
      · exact ⟨_, _, _, rfl, hip, h, .quic _⟩
      · exact ⟨_, _, _, rfl, hip, h, .quic _⟩
      · exact absurd hip.symm (Option.some_ne_none ip)
  · rintro ⟨first, ip, transport, rfl, hip, hliteral, htransport⟩
    cases first with
    | ip4 v4 =>
      obtain rfl := Option.some.inj hip
      cases htransport <;> exact hliteral
    | ip6 v6 =>
      obtain rfl := Option.some.inj hip
      cases htransport <;> exact hliteral
    | _ => exact absurd hip.symm (Option.some_ne_none ip)

variable {first : Protocol PeerId}

theorem transportEnd_cons {rest : Multiaddr PeerId} {i : Nat} :
    transportEnd (first :: rest) = some i ↔
      ∃ transport tail, rest = transport ++ tail ∧ DirectTransport transport ∧ i = transport.length + 1 := by
  refine ⟨fun h => ?_, ?_⟩
  · cases rest with
    | nil => exact absurd h.symm (Option.some_ne_none i)
    | cons second rest =>
      cases second with
      | tcp port => exact ⟨[.tcp port], rest, rfl, .tcp port, (Option.some.inj h).symm⟩
      | udp port =>
        cases rest with
        | nil => exact absurd h.symm (Option.some_ne_none i)
        | cons third rest =>
          cases third with
          | quicV1 => exact ⟨[.udp port, .quicV1], rest, rfl, .quic port, (Option.some.inj h).symm⟩
          | _ => exact absurd h.symm (Option.some_ne_none i)
      | _ => exact absurd h.symm (Option.some_ne_none i)
  · rintro ⟨transport, tail, rfl, htransport, rfl⟩
    cases htransport <;> rfl

/-- The scan ends with the address exactly where nothing or one peer id is left. -/
theorem peerEnd_eq_length_iff (front tail : Multiaddr PeerId) :
    peerEnd (front ++ tail) front.length = (front ++ tail).length ↔
      ∃ peer? : Option PeerId, tail = peer?.toList.map .p2p := by
  rw [peerEnd, List.getElem?_append_right (Nat.le_refl _), Nat.sub_self, List.length_append]
  refine ⟨fun h => ?_, ?_⟩
  · cases tail with
    | nil => exact ⟨none, rfl⟩
    | cons next tail =>
      cases next with
      | p2p peer =>
        have hlength : front.length + 1 = front.length + (tail.length + 1) := h
        have hnil : tail = [] := List.length_eq_zero_iff.mp (by omega)
        exact ⟨some peer, by rw [hnil]; rfl⟩
      | _ =>
        have hlength : front.length = front.length + (tail.length + 1) := h
        omega
  · rintro ⟨peer?, rfl⟩
    cases peer? <;> rfl

theorem lanProvenance_iff :
    multiaddrLanProvenance addr = true ↔
      ∃ first ip transport, ∃ peer? : Option PeerId, addr = first :: transport ++ peer?.toList.map .p2p ∧
        first.ip? = some ip ∧ ipIsLanLiteral ip = true ∧ DirectTransport transport := by
  cases addr with
  | nil =>
    refine ⟨fun h => absurd h Bool.false_ne_true, ?_⟩
    rintro ⟨first, ip, transport, peer?, h, _⟩
    exact absurd h.symm (List.cons_ne_nil _ _)
  | cons first rest =>
    have hscan : multiaddrLanProvenance (first :: rest) = true ↔
        ∃ ip i, first.ip? = some ip ∧ ipIsLanLiteral ip = true ∧ transportEnd (first :: rest) = some i ∧
          peerEnd (first :: rest) i = (first :: rest).length := by
      rw [multiaddrLanProvenance, List.getElem?_cons_zero, Option.bind_some]
      cases first.ip? with
      | none => simp
      | some ip =>
        cases hliteral : ipIsLanLiteral ip with
        | false => simp [hliteral]
        | true => cases transportEnd (first :: rest) <;> simp [hliteral]
    rw [hscan]
    refine ⟨?_, ?_⟩
    · rintro ⟨ip, i, hip, hliteral, hend, hlength⟩
      obtain ⟨transport, tail, rfl, htransport, rfl⟩ := transportEnd_cons.mp hend
      obtain ⟨peer?, rfl⟩ := (peerEnd_eq_length_iff (first :: transport) tail).mp hlength
      exact ⟨first, ip, transport, peer?, rfl, hip, hliteral, htransport⟩
    · rintro ⟨_, ip, transport, peer?, h, hip, hliteral, htransport⟩
      obtain ⟨rfl, rfl⟩ := List.cons.inj h
      exact ⟨ip, transport.length + 1, hip, hliteral, transportEnd_cons.mpr ⟨transport, _, rfl, htransport, rfl⟩,
        (peerEnd_eq_length_iff (first :: transport) _).mpr ⟨peer?, rfl⟩⟩

theorem listenLiteral_eq (ip : IpAddr) : listenLiteral ip = ipIsLanLiteral ip := by
  cases ip <;> rfl

theorem withoutPeer_concat (addr : Multiaddr PeerId) (peer : PeerId) : withoutPeer (addr ++ [.p2p peer]) = addr := by
  rw [withoutPeer, List.getLast?_concat]
  exact List.dropLast_concat

theorem withoutPeer_cases (addr : Multiaddr PeerId) :
    ∃ peer? : Option PeerId, addr = withoutPeer addr ++ peer?.toList.map .p2p := by
  rw [withoutPeer]
  split
  · rename_i peer hlast
    refine ⟨some peer, ?_⟩
    exact (List.dropLast_append_getLast? _ hlast).symm
  · exact ⟨none, (List.append_nil addr).symm⟩

theorem withoutPeer_transport {transport : Multiaddr PeerId} (htransport : DirectTransport transport) :
    withoutPeer (first :: transport) = first :: transport := by
  cases htransport <;> rfl

/-- The scanner accepts one local literal, one direct transport and at most one peer id, and so the addresses that the daemon would listen on once a trailing peer id is removed. -/
theorem lan_grammars_agree (addr : Multiaddr PeerId) :
    (multiaddrLanProvenance addr = true ↔
      ∃ first ip transport, ∃ peer? : Option PeerId, addr = first :: transport ++ peer?.toList.map .p2p ∧
        first.ip? = some ip ∧ LanLiteral ip ∧ DirectTransport transport) ∧
    multiaddrLanProvenance addr = multiaddrIsLanOnly (withoutPeer addr) := by
  refine ⟨?_, Bool.eq_iff_iff.mpr ⟨fun h => ?_, fun h => ?_⟩⟩
  · simp only [lanProvenance_iff, ipIsLanLiteral_iff]
  · obtain ⟨first, ip, transport, peer?, rfl, hip, hliteral, htransport⟩ := lanProvenance_iff.mp h
    refine lanOnly_iff.mpr ⟨first, ip, transport, ?_, hip, (listenLiteral_eq ip).trans hliteral, htransport⟩
    cases peer? with
    | none => exact (congrArg withoutPeer (List.append_nil _)).trans (withoutPeer_transport htransport)
    | some peer => exact withoutPeer_concat (first :: transport) peer
  · obtain ⟨first, ip, transport, haddr, hip, hliteral, htransport⟩ := lanOnly_iff.mp h
    obtain ⟨peer?, hpeer⟩ := withoutPeer_cases addr
    rw [haddr] at hpeer
    exact lanProvenance_iff.mpr ⟨first, ip, transport, peer?, hpeer, hip, (listenLiteral_eq ip).symm.trans hliteral, htransport⟩

end Grammars

end NixP2p
