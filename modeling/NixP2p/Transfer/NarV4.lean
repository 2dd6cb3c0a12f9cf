import NixP2p.Transfer.Bao
import NixP2p.Transfer.BoundedZstd
import NixP2p.Transfer.Fetch

/-!
# The body of a `/nar/4` response

The body is the pre-order walk of the Bao tree: the pair of hashes at each inner node, the bytes of each leaf framed by the link codec, then a marker. The encoder checks what it sends against the outboard it was given. The decoder keeps a stack of the hashes it still expects, authenticates each item against the top, and holds the last leaf back until the marker and a clean end were seen.
-/

namespace NixP2p

open Wire Merkle

class ReadAt (D : Type) where
  readExactAt : (position size : Nat) → D → Except IoError (Bytes size × D)

instance : ReadAt (List UInt8) where
  readExactAt position size data := do
    let (bytes, _) ← Source.readExact size ⟨data.drop position, none⟩
    return (bytes, data)

class OwnedWireSink (W : Type) where
  writeOwned : W → List UInt8 → Except IoError W
  flush : W → Except IoError W

instance : OwnedWireSink (List UInt8) where
  writeOwned writer bytes := .ok (writer ++ bytes)
  flush writer := .ok writer

def checkedAddBytes (total increment : Nat) (context : String) : Except IoError Nat :=
  if total + increment < 2 ^ 64 then .ok (total + increment)
  else .error (.invalidData s!"{context} overflow: {total} B + {increment} B")

variable {increment : Nat}

theorem checkedAddBytes_of_lt {total : Nat} (context : String) (hfits : total + increment < 2 ^ 64) :
    checkedAddBytes total increment context = .ok (total + increment) :=
  if_pos hfits

variable {context : String}

theorem eq_add_of_checkedAddBytes {total next : Nat} (hadd : checkedAddBytes total increment context = .ok next) :
    next = total + increment := by
  by_cases hfits : total + increment < 2 ^ 64
  · rw [checkedAddBytes_of_lt context hfits] at hadd
    exact (Except.ok.inj hadd).symm
  · rw [checkedAddBytes, if_neg hfits] at hadd
    cases hadd

def maxEncodedLeafBytes : Nat := 64 * 1024 + 64 * 1024 / 128 + 512 + 64

def encodedLeaf [Zstd] (level : Int) (raw : List UInt8) : Except IoError (List UInt8) := do
  let frame ← Zstd.compress level raw
  let encodedLen := frame.length
  if maxEncodedLeafBytes < encodedLen then
    throw ⟨.other, s!"zstd encoded leaf was {encodedLen} B, over fixed {maxEncodedLeafBytes} B bound"⟩
  else return leBytes 4 encodedLen ++ frame

/-- The state of the encoder's loop; the head of `expected` is the top of the stack. -/
structure Encoder (D W : Type) where
  data : D
  writer : W
  expected : List Hash
  rawBytes : Nat
  wireBytes : Nat

/-- Write one owned item, counted before it is written. -/
def Encoder.write {D W : Type} [OwnedWireSink W] (encoder : Encoder D W) (bytes : List UInt8)
    (context : String) : Except IoError (Encoder D W) := do
  let wireBytes ← checkedAddBytes encoder.wireBytes bytes.length context
  let writer ← OwnedWireSink.writeOwned encoder.writer bytes
  return { encoder with writer, wireBytes }

theorem Encoder.write_of_lt {D : Type} {encoder : Encoder D (List UInt8)} {bytes : List UInt8}
    (hfits : encoder.wireBytes + bytes.length < 2 ^ 64) :
    encoder.write bytes context = .ok { encoder with
      writer := encoder.writer ++ bytes, wireBytes := encoder.wireBytes + bytes.length } := by
  rw [write, checkedAddBytes_of_lt context hfits]
  rfl

section Encode

variable [Blake3] [Zstd] [BaoDebug] {D O W : Type} [ReadAt D] [Outboard O] [OwnedWireSink W]

def encodeParent (outboard : O) (encoder : Encoder D W) (node : Nat) (isRoot left right : Bool) :
    Except IoError (Encoder D W) := do
  let name := BaoDebug.node (Outboard.size outboard) node
  let some (leftHash, rightHash) ← Outboard.load outboard node
    | throw (.invalidData s!"Bao outboard omitted parent {name}")
  let wanted :: expected := encoder.expected
    | throw (.invalidData "Bao proof stack underflow")
  if parentHash leftHash rightHash isRoot ≠ wanted then
    throw (.invalidData s!"Bao parent hash mismatch at {name}")
  else
    let expected := if right then rightHash :: expected else expected
    let expected := if left then leftHash :: expected else expected
    Encoder.write { encoder with expected } (hashPair (leftHash, rightHash)).1
      "Bao proof wire byte count"

def encodeLeaf (codec : WireCodec) (level : Int) (encoder : Encoder D W) (startChunk size : Nat)
    (isRoot : Bool) : Except IoError (Encoder D W) := do
  let startByte := startChunk * 1024
  let (raw, data) ← ReadAt.readExactAt startByte size encoder.data
  let wanted :: expected := encoder.expected
    | throw (.invalidData "Bao leaf stack underflow")
  if hashSubtree startByte raw.1 isRoot ≠ wanted then
    throw (.invalidData s!"Bao leaf hash mismatch at byte {startByte}")
  else
    let rawBytes ← checkedAddBytes encoder.rawBytes raw.1.length "Bao authenticated raw byte count"
    let encoder := { encoder with data, expected, rawBytes }
    match codec with
    | .raw => encoder.write raw.1 "raw leaf wire byte count"
    | .zstd =>
      let framed ← encodedLeaf level raw.1
      encoder.write framed "zstd leaf wire byte count"

def encodeItem (outboard : O) (codec : WireCodec) (level : Int) (encoder : Encoder D W) :
    BaoChunk → Except IoError (Encoder D W)
  | .parent node isRoot left right => encodeParent outboard encoder node isRoot left right
  | .leaf startChunk size isRoot => encodeLeaf codec level encoder startChunk size isRoot

def encodeValidated (data : D) (outboard : O) (writer : W) (codec : WireCodec) (level : Int) :
    Except IoError (W × Nat × Nat) := do
  let encoder ← (responseIter (Outboard.size outboard)).foldlM (encodeItem outboard codec level)
    ⟨data, writer, [Outboard.root outboard], 0, 0⟩
  if !encoder.expected.isEmpty then
    throw (.invalidData "Bao traversal ended with unconsumed authentication hashes")
  else
    let writer ← OwnedWireSink.flush encoder.writer
    return (writer, encoder.rawBytes, encoder.wireBytes)

end Encode

def leafWindowLogMax (rawSize : Nat) : Nat :=
  let geometryLog := if rawSize ≤ 1 then 0 else Nat.log2 (rawSize - 1) + 1
  min (max geometryLog 10) 16

def decodeErrorToIo (error : DecodeError) : IoError := .invalidData (toString error)

def isSkippable (encoded : List UInt8) : Bool :=
  4 ≤ encoded.length && 0x184D2A50 ≤ ofLe (encoded.take 4) && ofLe (encoded.take 4) ≤ 0x184D2A5F

section Decode

variable [Blake3] [Zstd] [BaoDebug]

/-- One whole frame through a fresh bounded decoder; only an empty leaf may decode to nothing. -/
def decodeFrame (size : Nat) (encoded : List UInt8) : Except IoError (List UInt8) := do
  let decoder ← (BoundedZstdDecoder.withWindowLogMax size (leafWindowLogMax size)).mapError
    decodeErrorToIo
  let (pushed, decoder) := decoder.push encoded
  pushed.mapError decodeErrorToIo
  match decoder.finish with
  | .ok raw => return raw
  | .error .emptyNar => if size = 0 then return [] else throw (decodeErrorToIo .emptyNar)
  | .error error => throw (decodeErrorToIo error)

def readLeaf (source : Source) (size : Nat) (codec : WireCodec) :
    Except IoError (List UInt8 × Source) :=
  match codec with
  | .raw => do
    let (raw, source) ← (source.readExact size).mapError
      (.within s!"Bao verification: reading {size}-byte raw leaf")
    return (raw.1, source)
  | .zstd => do
    let (len, source) ← (source.readExact 4).mapError
      (.within "Bao verification: reading zstd leaf length")
    let encodedLen := ofLe len.1
    if maxEncodedLeafBytes < encodedLen then
      throw (.invalidData
        s!"encoded leaf length {encodedLen} exceeds fixed bound {maxEncodedLeafBytes}")
    else
      let (encoded, source) ← (source.readExact encodedLen).mapError
        (.within s!"Bao verification: reading {encodedLen}-byte encoded leaf")
      if isSkippable encoded.1 then throw (.invalidData "zstd skippable frame is not a NAR leaf")
      else
        let raw ← decodeFrame size encoded.1
        let length := raw.length
        if length ≠ size then
          throw (.invalidData s!"zstd leaf decoded to {length} B, geometry requires {size} B")
        else return (raw, source)

end Decode

/-- A call of the consumer: the leaf, and its error unless it took the leaf. -/
structure LeafCall where
  leaf : List UInt8
  answer : Option IoError
  deriving DecidableEq

/-- The consumer: whether it fails on a leaf may depend on every call before. -/
abbrev OnLeaf := List LeafCall → List UInt8 → Option IoError

/-- A decode that failed, with the calls it had made. -/
structure Stopped where
  error : IoError
  calls : List LeafCall
  deriving DecidableEq

/-- What was verified so far, the leaf held back, and the calls made. -/
structure Delivery where
  rawBytes : Nat
  finalLeaf : Option (List UInt8)
  calls : List LeafCall

namespace Delivery

variable (onLeaf : OnLeaf)

def call (delivery : Delivery) (leaf : List UInt8) : Except Stopped Delivery :=
  let calls := delivery.calls ++ [⟨leaf, onLeaf delivery.calls leaf⟩]
  match onLeaf delivery.calls leaf with
  | some error => .error ⟨error, calls⟩
  | none => .ok { delivery with calls }

variable {delivery : Delivery} {fail : Stopped → Prop} {leaf : List UInt8} {post : Delivery → Prop}

theorem call_ends {onLeaf : OnLeaf} (htaken : post { delivery with calls := delivery.calls ++ [⟨leaf, none⟩] })
    (hrefused : ∀ error, fail ⟨error, delivery.calls ++ [⟨leaf, some error⟩]⟩) :
    Fallible.Ends post fail (delivery.call onLeaf leaf) := by
  rw [call]
  cases onLeaf delivery.calls leaf with
  | none => exact htaken
  | some error => exact hrefused error

/-- Count a verified leaf, and pass it on unless it completes the declared size. -/
def accept (rawSize : Nat) (delivery : Delivery) (leaf : List UInt8) : Except Stopped Delivery := do
  let rawBytes ← (checkedAddBytes delivery.rawBytes leaf.length "Bao verified raw byte count").mapError
    (⟨·, delivery.calls⟩)
  if rawSize < rawBytes then
    throw ⟨.invalidData
      s!"Bao verified raw byte count {rawBytes} B exceeds declared raw_size {rawSize} B",
      delivery.calls⟩
  else if rawBytes = rawSize then return { delivery with rawBytes, finalLeaf := some leaf }
  else call onLeaf { delivery with rawBytes } leaf

/-- After the marker: the size is checked and the leaf held back is passed on. -/
def finish (rawSize : Nat) (delivery : Delivery) : Except Stopped (Nat × List LeafCall) :=
  let rawBytes := delivery.rawBytes
  if rawBytes ≠ rawSize then
    throw ⟨.invalidData s!"verified {rawBytes} raw bytes, header declared {rawSize}", delivery.calls⟩
  else match delivery.finalLeaf with
    | none => return (rawBytes, delivery.calls)
    | some leaf => do
      let delivery ← call onLeaf delivery leaf
      return (rawBytes, delivery.calls)

variable {rawSize : Nat}

theorem accept_ends {onLeaf : OnLeaf} (hover : ∀ error, fail ⟨error, delivery.calls⟩)
    (hheld : delivery.rawBytes + leaf.length = rawSize → post { delivery with rawBytes := rawSize, finalLeaf := some leaf })
    (hpassed : delivery.rawBytes + leaf.length < rawSize → Fallible.Ends post fail (call onLeaf { delivery with rawBytes := delivery.rawBytes + leaf.length } leaf)) :
    Fallible.Ends post fail (delivery.accept onLeaf rawSize leaf) := by
  rw [accept]
  refine Fallible.Ends.bind (m := fun next : Nat => next = delivery.rawBytes + leaf.length)
    (Fallible.ends_mapError (fun _ hadd => eq_add_of_checkedAddBytes hadd) hover) ?_
  rintro _ rfl
  by_cases hlarge : rawSize < delivery.rawBytes + leaf.length
  · rw [if_pos hlarge]
    exact hover _
  rw [if_neg hlarge]
  by_cases hfull : delivery.rawBytes + leaf.length = rawSize
  · rw [if_pos hfull, hfull]
    exact hheld hfull
  · rw [if_neg hfull]
    exact hpassed (by omega)

theorem finish_ends {onLeaf : OnLeaf} {post : Nat × List LeafCall → Prop}
    (hshort : ∀ error, fail ⟨error, delivery.calls⟩)
    (hnone : delivery.rawBytes = rawSize → delivery.finalLeaf = none → post (rawSize, delivery.calls))
    (hsome : ∀ leaf, delivery.rawBytes = rawSize → delivery.finalLeaf = some leaf → post (rawSize, delivery.calls ++ [⟨leaf, none⟩]) ∧ ∀ error, fail ⟨error, delivery.calls ++ [⟨leaf, some error⟩]⟩) :
    Fallible.Ends post fail (delivery.finish onLeaf rawSize) := by
  rw [finish]
  by_cases hsize : delivery.rawBytes ≠ rawSize
  · rw [if_pos hsize]
    exact hshort _
  rw [if_neg hsize]
  have hbytes := not_not.mp hsize
  cases hfinal : delivery.finalLeaf with
  | none =>
    have hpost := hnone hbytes hfinal
    rw [← hbytes] at hpost
    exact hpost
  | some leaf =>
    obtain ⟨htaken, hrefused⟩ := hsome leaf hbytes hfinal
    rw [← hbytes] at htaken
    exact Fallible.Ends.bind
      (m := fun next : Delivery => next.calls = delivery.calls ++ [⟨leaf, none⟩])
      (call_ends rfl hrefused) fun next hnext => by
        change post (delivery.rawBytes, next.calls)
        rw [hnext]
        exact htaken

end Delivery

/-- The state of the decoder's loop; the head of `expected` is the top of the stack. -/
structure Decoder where
  source : Source
  expected : List Hash
  delivery : Delivery

def completeMarker : List UInt8 := [0x4E, 0x34, 0x4F, 0x4B]

section Parent

variable [Blake3] [BaoDebug]

def decodeParent (rawSize : Nat) (decoder : Decoder) (node : Nat) (isRoot left right : Bool) :
    Except IoError Decoder := do
  let name := BaoDebug.node rawSize node
  let (pair, source) ← (decoder.source.readExact 64).mapError
    (.within s!"Bao verification: reading parent pair at {name}")
  let (leftHash, rightHash) := parseHashPair pair
  let wanted :: expected := decoder.expected
    | throw (.invalidData "Bao proof stack underflow")
  if parentHash leftHash rightHash isRoot ≠ wanted then
    throw (.invalidData s!"Bao verification: parent hash mismatch at {name}")
  else
    let expected := if right then rightHash :: expected else expected
    let expected := if left then leftHash :: expected else expected
    return { decoder with source, expected }

theorem decodeParent_ok {rawSize node : Nat} {decoder next : Decoder} {isRoot left right : Bool}
    (hparent : decodeParent rawSize decoder node isRoot left right = .ok next) :
    ∃ pair source rest, decoder.source.readExact 64 = .ok (pair, source) ∧
      decoder.expected = parentHash (parseHashPair pair).1 (parseHashPair pair).2 isRoot :: rest ∧
      next = { decoder with
        source
        expected := (if left then [(parseHashPair pair).1] else []) ++
          ((if right then [(parseHashPair pair).2] else []) ++ rest) } := by
  rw [decodeParent, Fallible.bind_eq_ok_iff] at hparent
  obtain ⟨⟨pair, source⟩, hread, hparent⟩ := hparent
  rw [Fallible.mapError_eq_ok_iff] at hread
  cases hexpected : decoder.expected with
  | nil =>
    simp only [hexpected] at hparent
    cases hparent
  | cons wanted rest =>
    simp only [hexpected] at hparent
    by_cases hwanted : parentHash (parseHashPair pair).1 (parseHashPair pair).2 isRoot ≠ wanted
    · rw [if_pos hwanted] at hparent
      cases hparent
    rw [if_neg hwanted] at hparent
    refine ⟨pair, source, rest, hread, by rw [not_not.mp hwanted], ?_⟩
    rw [← Except.ok.inj hparent]
    cases left <;> cases right <;> rfl

end Parent

section Leaf

variable [Blake3] [Zstd]

def verifyLeaf (codec : WireCodec) (decoder : Decoder) (startChunk size : Nat) (isRoot : Bool) :
    Except IoError (List UInt8 × Decoder) := do
  let (raw, source) ← readLeaf decoder.source size codec
  let startByte := startChunk * 1024
  let wanted :: expected := decoder.expected
    | throw (.invalidData "Bao leaf stack underflow")
  if hashSubtree startByte raw isRoot ≠ wanted then
    throw (.invalidData s!"Bao verification: leaf hash mismatch at byte {startByte}")
  else return (raw, { decoder with source, expected })

theorem verifyLeaf_ok {codec : WireCodec} {decoder next : Decoder} {startChunk size : Nat}
    {isRoot : Bool} {leaf : List UInt8}
    (hleaf : verifyLeaf codec decoder startChunk size isRoot = .ok (leaf, next)) :
    ∃ source rest, readLeaf decoder.source size codec = .ok (leaf, source) ∧
      decoder.expected = hashSubtree (startChunk * 1024) leaf isRoot :: rest ∧
      next = { decoder with source, expected := rest } := by
  rw [verifyLeaf, Fallible.bind_eq_ok_iff] at hleaf
  obtain ⟨⟨raw, source⟩, hread, hleaf⟩ := hleaf
  cases hexpected : decoder.expected with
  | nil =>
    simp only [hexpected] at hleaf
    cases hleaf
  | cons wanted rest =>
    simp only [hexpected] at hleaf
    by_cases hwanted : hashSubtree (startChunk * 1024) raw isRoot ≠ wanted
    · rw [if_pos hwanted] at hleaf
      cases hleaf
    rw [if_neg hwanted] at hleaf
    obtain ⟨rfl, rfl⟩ := Prod.mk.inj (Except.ok.inj hleaf)
    exact ⟨source, rest, hread, by rw [not_not.mp hwanted], rfl⟩

end Leaf

section Verify

variable [Blake3] [Zstd] [BaoDebug]

def decodeItem (onLeaf : OnLeaf) (rawSize : Nat) (codec : WireCodec) (decoder : Decoder) :
    BaoChunk → Except Stopped Decoder
  | .parent node isRoot left right =>
    (decodeParent rawSize decoder node isRoot left right).mapError (⟨·, decoder.delivery.calls⟩)
  | .leaf startChunk size isRoot => do
    let (leaf, decoder) ← (verifyLeaf codec decoder startChunk size isRoot).mapError
      (⟨·, decoder.delivery.calls⟩)
    let delivery ← decoder.delivery.accept onLeaf rawSize leaf
    return { decoder with delivery }

/-- What has to follow the last item: the marker and a clean end. -/
def readTrailer (source : Source) : Except IoError Unit := do
  let (marker, source) ← source.readExact 4
  let marker := marker.1
  if marker ≠ completeMarker then throw (.invalidData s!"invalid /nar/4 COMPLETE marker {marker}")
  else
    let (trailing, _) ← source.readByte
    if trailing.isSome then throw (.invalidData "trailing byte after /nar/4 COMPLETE marker")
    else return ()

def decodeVerified (source : Source) (root : Hash) (rawSize : Nat) (codec : WireCodec)
    (onLeaf : OnLeaf) : Except Stopped (Nat × List LeafCall) := do
  let decoder ← (responseIter rawSize).foldlM (decodeItem onLeaf rawSize codec)
    ⟨source, [root], ⟨0, none, []⟩⟩
  if !decoder.expected.isEmpty then
    throw ⟨.invalidData "Bao traversal ended with unconsumed authentication hashes",
      decoder.delivery.calls⟩
  else
    (readTrailer decoder.source).mapError (⟨·, decoder.delivery.calls⟩)
    decoder.delivery.finish onLeaf rawSize

end Verify

def goldenNar : List UInt8 := [0x6E, 0x69, 0x78]

@[reducible] def goldenBlake3 : Blake3 where
  hash raw := if raw = goldenNar then
      ⟨beBytes 32 0x3bf6cd2a25ea08e48b62711ef9f0cee702bbae3b7f273cfd4b4f2506231e8832, by simp⟩
    else ⟨beBytes 32 0, by simp⟩
  finalizeNonRoot _ _ := ⟨beBytes 32 0, by simp⟩
  mergeSubtreesRoot _ _ := ⟨beBytes 32 0, by simp⟩
  mergeSubtreesNonRoot _ _ := ⟨beBytes 32 0, by simp⟩

/-- The frame of a short content: one segment of known size, holding one raw block. -/
def goldenFrame (raw : List UInt8) : List UInt8 :=
  [0x28, 0xB5, 0x2F, 0xFD, 0x20, UInt8.ofNat raw.length] ++ leBytes 3 (raw.length * 8 + 1) ++ raw

/-- A zstd that keeps to raw blocks. -/
@[reducible] def goldenZstd : Zstd where
  Decoder := Unit
  newDecoder _ := .ok ()
  runOnBuffers _ input room :=
    if h : (input.drop 9).length ≤ room then
      .ok (⟨input.length, input.drop 9, 0, Nat.le_refl _, h⟩, ())
    else .error "Unknown frame descriptor"
  compress _ raw := .ok (goldenFrame raw)

@[reducible] def goldenDebug : BaoDebug where
  node _ index := s!"TreeNode({index})"

end NixP2p
