import Mathlib.Algebra.Order.BigOperators.Group.List
import NixP2p.Transfer.NarV4

/-!
# An unfinished transfer stays short

The decoder passes a leaf on at once unless it completes the declared size; that one waits for the marker and a clean end. So whatever is on the wire, the bytes a consumer took before a failed decode are fewer than the declared size, and a decode of size zero never calls its consumer with a byte.
-/

namespace NixP2p

open Wire Fallible

def takenBytes (calls : List LeafCall) : Nat :=
  ((calls.filter (·.answer.isNone)).map (·.leaf.length)).sum

theorem takenBytes_concat (calls : List LeafCall) (leaf : List UInt8) (answer : Option IoError) :
    takenBytes (calls ++ [⟨leaf, answer⟩]) =
      takenBytes calls + if answer.isNone then leaf.length else 0 := by
  cases answer <;> simp [takenBytes]

/-- Calls that leave a transfer of `rawSize` bytes visibly incomplete. -/
structure Unfinished (rawSize : Nat) (calls : List LeafCall) : Prop where
  short : 0 < rawSize → takenBytes calls < rawSize
  within : ∀ call ∈ calls, call.leaf.length ≤ rawSize

theorem Unfinished.refused {rawSize : Nat} {calls : List LeafCall} (hcalls : Unfinished rawSize calls)
    {leaf : List UInt8} (hleaf : leaf.length ≤ rawSize) (error : IoError) :
    Unfinished rawSize (calls ++ [⟨leaf, some error⟩]) where
  short hpos := by
    rw [takenBytes_concat]
    exact hcalls.short hpos
  within := List.forall_mem_append.mpr ⟨hcalls.within, by simpa using hleaf⟩

structure Delivery.Unfinished (rawSize : Nat) (delivery : Delivery) : Prop where
  calls : NixP2p.Unfinished rawSize delivery.calls
  taken : takenBytes delivery.calls ≤ delivery.rawBytes
  held : ∀ leaf ∈ delivery.finalLeaf, leaf.length ≤ rawSize

section Steps

variable {onLeaf : OnLeaf} {rawSize : Nat} {delivery : Delivery}

theorem Delivery.Unfinished.call {leaf : List UInt8} (hcalls : NixP2p.Unfinished rawSize delivery.calls)
    (htaken : takenBytes delivery.calls + leaf.length ≤ delivery.rawBytes) (hshort : delivery.rawBytes < rawSize)
    (hheld : ∀ leaf ∈ delivery.finalLeaf, leaf.length ≤ rawSize) :
    Fallible.Ends (Delivery.Unfinished rawSize) (fun stopped => NixP2p.Unfinished rawSize stopped.calls)
      (delivery.call onLeaf leaf) := by
  have hbytes := takenBytes_concat delivery.calls leaf none
  rw [Option.isNone_none, if_pos rfl] at hbytes
  refine Delivery.call_ends ⟨⟨fun _ => ?_, ?_⟩, ?_, hheld⟩ (hcalls.refused (by omega))
  · change takenBytes (delivery.calls ++ [⟨leaf, none⟩]) < rawSize
    omega
  · exact List.forall_mem_append.mpr ⟨hcalls.within, by simp; omega⟩
  · change takenBytes (delivery.calls ++ [⟨leaf, none⟩]) ≤ delivery.rawBytes
    omega

theorem Delivery.Unfinished.accept (hdelivery : delivery.Unfinished rawSize) (leaf : List UInt8) :
    Fallible.Ends (Delivery.Unfinished rawSize) (fun stopped => NixP2p.Unfinished rawSize stopped.calls)
      (delivery.accept onLeaf rawSize leaf) := by
  have htaken := hdelivery.taken
  refine Delivery.accept_ends (fun _ => hdelivery.calls) (fun hfull => ?_) fun hshort => ?_
  · refine ⟨hdelivery.calls, ?_, ?_⟩
    · change takenBytes delivery.calls ≤ rawSize
      omega
    · rintro _ ⟨⟩
      omega
  · refine Delivery.Unfinished.call hdelivery.calls ?_ hshort hdelivery.held
    change takenBytes delivery.calls + leaf.length ≤ delivery.rawBytes + leaf.length
    omega

theorem Delivery.Unfinished.finish (hdelivery : delivery.Unfinished rawSize) :
    Fallible.Ends (fun _ => True) (fun stopped => NixP2p.Unfinished rawSize stopped.calls)
      (delivery.finish onLeaf rawSize) :=
  Delivery.finish_ends (fun _ => hdelivery.calls) (fun _ _ => trivial) fun leaf _ hheld =>
    ⟨trivial, hdelivery.calls.refused (hdelivery.held leaf hheld)⟩

section Decode

variable [Blake3] [Zstd] [BaoDebug] {codec : WireCodec}

theorem decodeItem_unfinished {decoder : Decoder} (hdecoder : decoder.delivery.Unfinished rawSize)
    (item : BaoChunk) :
    Fallible.Ends (fun next : Decoder => next.delivery.Unfinished rawSize)
      (fun stopped => NixP2p.Unfinished rawSize stopped.calls)
      (decodeItem onLeaf rawSize codec decoder item) := by
  cases item with
  | parent node isRoot left right =>
    refine ends_mapError (fun next hparent => ?_) fun _ => hdecoder.calls
    obtain ⟨_, _, _, _, _, rfl⟩ := decodeParent_ok hparent
    exact hdecoder
  | leaf startChunk size isRoot =>
    refine Fallible.Ends.bind (m := fun verified : List UInt8 × Decoder =>
        verified.2.delivery.Unfinished rawSize) (ends_mapError ?_ fun _ => hdecoder.calls) ?_
    · rintro ⟨leaf, next⟩ hleaf
      obtain ⟨_, _, _, _, rfl⟩ := verifyLeaf_ok hleaf
      exact hdecoder
    · rintro ⟨leaf, next⟩ hnext
      exact (hnext.accept leaf).bind fun _ hdelivery => hdelivery

/-- **A failed decode leaves the transfer short.** -/
theorem failed_decode_unfinished {source : Source} {root : Hash} {onLeaf : OnLeaf} {stopped : Stopped}
    (hfailed : decodeVerified source root rawSize codec onLeaf = .error stopped) :
    (0 < rawSize → takenBytes stopped.calls < rawSize) ∧
      (rawSize = 0 → ∀ call ∈ stopped.calls, call.leaf = []) := by
  have hends : Fallible.Ends (fun _ => True) (fun stopped => NixP2p.Unfinished rawSize stopped.calls)
      (decodeVerified source root rawSize codec onLeaf) := by
    have hstart : Delivery.Unfinished rawSize ⟨0, none, []⟩ :=
      ⟨⟨id, List.forall_mem_nil _⟩, le_rfl, fun _ hnone => nomatch hnone⟩
    have hloop : Fallible.Ends (fun next : Decoder => next.delivery.Unfinished rawSize)
        (fun stopped => NixP2p.Unfinished rawSize stopped.calls)
        ((responseIter rawSize).foldlM (decodeItem onLeaf rawSize codec)
          ⟨source, [root], ⟨0, none, []⟩⟩) :=
      Fallible.Ends.foldlM (fun _ item hdecoder => decodeItem_unfinished hdecoder item) _ hstart
    refine hloop.bind fun decoder hdecoder => ?_
    by_cases hleft : (!decoder.expected.isEmpty) = true
    · rw [if_pos hleft]
      exact hdecoder.calls
    rw [if_neg hleft]
    refine Fallible.Ends.bind (m := fun _ : Unit => True) (ends_mapError (fun _ _ => trivial)
      fun _ => hdecoder.calls) fun _ _ => hdecoder.finish
  rw [hfailed] at hends
  refine ⟨hends.short, ?_⟩
  rintro rfl call hcall
  exact List.eq_nil_of_length_eq_zero (Nat.le_zero.mp (hends.within call hcall))

end Decode

end Steps

section Golden

attribute [local instance] goldenBlake3 goldenZstd goldenDebug

/-- A body that ends one byte before its marker does: its only leaf was verified and never passed on. -/
theorem failed_decode_unfinished_golden :
    decodeVerified ⟨goldenNar ++ [0x4E, 0x34, 0x4F], none⟩ (Blake3.hash goldenNar) 3 .raw
        (fun _ _ => none) = .error ⟨.shortRead, []⟩ ∧ takenBytes [] < 3 := by
  have hfailed : decodeVerified ⟨goldenNar ++ [0x4E, 0x34, 0x4F], none⟩ (Blake3.hash goldenNar) 3 .raw
      (fun _ _ => none) = .error ⟨.shortRead, []⟩ := by rfl
  exact ⟨hfailed, (failed_decode_unfinished hfailed).1 (by decide)⟩

end Golden

end NixP2p
