import NixP2p.Records.Canonical
import NixP2p.Serving.PeerSource

/-!
# The composed source

The peer source in front of the upstream: an open transfer is served, a size abort is final, and everything else falls back. So the answer is decided by the first offer, in record and offer order, that opens or declares more than the signed size; offers that fail in any other way have no influence.
-/

namespace NixP2p

open Wire

def FallbackNarSource.resolveWithin (primary secondary : NarSource) : NarSource :=
  fun key expectedSize =>
    match primary key expectedSize with
    | .ok response => .ok response
    | .error (.tooLarge limit declared) => .error (.tooLarge limit declared)
    | .error (.unreachable _) | .error (.upstream _) => secondary key expectedSize

section Composed

variable [Ed25519] [Blake3Kdf]

def composedSource (fabric : PeerFabric) (upstream : NarSource) : NarSource :=
  FallbackNarSource.resolveWithin (PeerFabricNarSource.resolve fabric) upstream

theorem composedSource_signed (fabric : PeerFabric) (upstream : NarSource) (hash : NarHash)
    (hint : NarPathToken) (compression : NarCompression) (expectedSize : Option UInt64) :
    composedSource fabric upstream (.signedNarHash hash hint compression) expectedSize =
      match (fabric.attempts hash expectedSize).findSome? decision with
      | some ended => ended.answer expectedSize
      | none => upstream (.signedNarHash hash hint compression) expectedSize := by
  unfold composedSource FallbackNarSource.resolveWithin
  cases hended : (fabric.attempts hash expectedSize).findSome? decision with
  | none =>
    obtain ⟨why, hresolve⟩ := PeerFabricNarSource.resolve_of_no_decision hended hint compression
    rw [hresolve]
  | some ended =>
    rw [PeerFabricNarSource.resolve_of_decision hended hint compression]
    cases ended <;> rfl

theorem composedSource_upstreamPath (fabric : PeerFabric) (upstream : NarSource)
    (token : NarPathToken) (expectedSize : Option UInt64) :
    composedSource fabric upstream (.upstreamPath token) expectedSize =
      upstream (.upstreamPath token) expectedSize := rfl

variable [Libp2pKeys]

def libp2pFabric (directory : Option ProviderDirectory) (net : Network) : PeerFabric :=
  ⟨directory, transfer net⟩

/-- The first offer that opens or declares more than the signed size decides; the others have no influence. -/
theorem composed_source_first_decision (directory : Option ProviderDirectory) (net : Network)
    (upstream : NarSource) (hash : NarHash) (hint : NarPathToken) (compression : NarCompression)
    (size : UInt64) :
    let key := NarKey.signedNarHash hash hint compression
    let attempts := (libp2pFabric directory net).attempts hash (some size)
    (composedSource (libp2pFabric directory net) upstream key (some size) =
      match attempts.findSome? decision with
      | some (.serve stream) => .ok (streamingResponse stream (some size))
      | some (.abort limit declared) => .error (.tooLarge limit declared)
      | none => upstream key (some size)) ∧
    (∀ otherDirectory otherNet,
      ((libp2pFabric otherDirectory otherNet).attempts hash (some size)).filterMap decision =
        attempts.filterMap decision →
      composedSource (libp2pFabric otherDirectory otherNet) upstream key (some size) =
        composedSource (libp2pFabric directory net) upstream key (some size)) ∧
    (∀ attempt content node hints stream,
      Libp2pTransport.fetchStream net attempt content (.libp2p node hints) (some size) = .ok stream ↔
        (Libp2pKeys.peerIdOfProvider node).isSome ∧ ∃ codec rest ending,
          net.reply attempt node hints content =
            .wire (narResponse (WireCodec.wire codec) size ++ rest) ending ∧
          stream = .live content ⟨codec, size⟩ rest ending) ∧
    ∀ attempt content offer fetchStream, transfer net attempt offer.tag = some fetchStream →
      ∀ limit declared, fetchStream content offer (some size) = .error (.tooLarge limit declared) ↔
        limit = size ∧ size < declared ∧ ∃ node hints, offer.dialled = some (node, hints) ∧
          (Libp2pKeys.peerIdOfProvider node).isSome ∧
          ∃ codec rest ending, net.reply attempt node hints content =
            .wire (narResponse (WireCodec.wire codec) declared ++ rest) ending := by
  intro key attempts
  refine ⟨?_, ?_, fun _ _ _ _ _ => Libp2pTransport.fetchStream_ok_iff,
    fun _ _ _ _ hbackend _ _ => transfer_tooLarge_iff hbackend⟩
  · rw [composedSource_signed]
    change (match attempts.findSome? decision with
      | some ended => ended.answer (some size)
      | none => upstream key (some size)) = _
    cases attempts.findSome? decision with
    | none => rfl
    | some ended => cases ended <;> rfl
  · intro otherDirectory otherNet hsame
    have hfirst : ((libp2pFabric otherDirectory otherNet).attempts hash (some size)).findSome?
        decision = attempts.findSome? decision := by
      rw [← List.head?_filterMap, hsame, List.head?_filterMap]
    rw [composedSource_signed, composedSource_signed, hfirst]

end Composed

section Golden

attribute [local instance] goldenScheme

@[reducible] def goldenKdf : Blake3Kdf where
  deriveKey context material :=
    if context = contentKeyContext ∧ material = List.replicate 32 0x11 then goldenKey.bytes
    else goldenContent.bytes

attribute [local instance] goldenKeys goldenKdf

def goldenNarHash : NarHash := "sha256:048i248i248i248i248i248i248i248i248i248i248i248i248i".toList

def goldenNarKey : NarKey := .signedNarHash goldenNarHash "1abc.nar.xz".toList .compressed

def replying (replies : List Reply) : Network where
  reply attempt _ _ _ := replies.getD attempt (.notOpened "no route")
  collectBody _ _ _ _ := .error (.unavailable "no body")

def goldenFabric (replies : List Reply) : PeerFabric :=
  libp2pFabric (some fun _ => .found (replies.map fun _ => goldenHolder)) (replying replies)

def goldenUpstream : NarSource := fun _ _ => .ok ⟨200, [], .upstream ⟨ascii "xz", true⟩⟩

def announcing (size : UInt64) : Reply := .wire (narResponse 0 size) "unexpected end of file"

/-- A holder that answers not-held and one that declares too little, before the one that opens. -/
theorem composed_source_first_decision_golden :
    composedSource (goldenFabric [.wire [0] "", announcing 4095, announcing 4096]) goldenUpstream
        goldenNarKey (some 4096) =
      composedSource (goldenFabric [announcing 4096]) goldenUpstream goldenNarKey (some 4096) := by
  apply (composed_source_first_decision _ _ goldenUpstream goldenNarHash _ _ 4096).2.1
  decide +kernel

/-- One provider that declares a byte too many: no offer opens, and the upstream is not asked. -/
theorem composed_source_denied_by_oversize :
    (goldenFabric [announcing 4097]).attempts goldenNarHash (some 4096) =
        [.error (.tooLarge 4096 4097)] ∧
      composedSource (goldenFabric [announcing 4097]) goldenUpstream goldenNarKey (some 4096) ≠
        goldenUpstream goldenNarKey (some 4096) ∧
      composedSource (goldenFabric []) goldenUpstream goldenNarKey (some 4096) =
        goldenUpstream goldenNarKey (some 4096) := by
  decide +kernel

end Golden

end NixP2p
