import NixP2p.Base.JsonText
import NixP2p.Records.Ids

/-!
# Batched hold responses

A batched hold response answers each key of a query in order, and every positive answer names its locators by index into one dictionary of offers. The decoder holds the indices against the raw slots the peer sent, and only then drops the transports it does not know and rewrites the indices. The JSON reader is a field of `ClaimJson`.
-/

namespace NixP2p

def maxClaimWireBytes : Nat := 64 * 1024

def querySchemaVersion : UInt16 := 1

def maxBatchHoldKeys : Nat := 256

def maxBatchHoldOffers : Nat := 2 * maxBatchHoldKeys

def maxOffersPerAnswer : Nat := 4

inductive KnownTransport where
  | iroh (node : NodeId)
  | bitTorrent (infohash : InfoHash)
  deriving DecidableEq

def KnownTransport.wireTag : KnownTransport → String
  | .iroh _ => "iroh"
  | .bitTorrent _ => "bittorrent"

/-- One position of a decoded dictionary before compaction; an unknown transport keeps its tag. -/
inductive OfferSlot where
  | known (offer : KnownTransport)
  | unknown (tag : String)
  deriving DecidableEq

def OfferSlot.wireTag : OfferSlot → String
  | .known offer => offer.wireTag
  | .unknown tag => tag

def asOfferSlots (offers : List KnownTransport) : List OfferSlot := offers.map .known

abbrev OfferIndex := UInt16

/-- The answer to one key: `Have`, with its content identity and its locators, or `Absent`. -/
inductive BatchHoldAnswer where
  | holds (blake3 : Blake3Digest) (offerIndices : List OfferIndex)
  | absent
  deriving DecidableEq

structure BatchHoldResponse where
  schemaVersion : UInt16
  offers : List KnownTransport
  answers : List BatchHoldAnswer
  deriving DecidableEq

structure BatchHoldResponseWire where
  schemaVersion : UInt16
  offers : List OfferSlot
  answers : List BatchHoldAnswer

inductive ClaimCodecError where
  | malformed (why : String)
  | unsupportedVersion (found expected : UInt16)
  | batchTooLarge (found cap : Nat)
  | batchAnswerCount (expected found : Nat)
  deriving DecidableEq

structure IndexScan where
  seen : List Nat
  kinds : List String
  referenced : List Bool

def scanIndex (offers : List OfferSlot) (position : Nat) (scan : IndexScan) (index : OfferIndex) :
    Except ClaimCodecError IndexScan :=
  let slot := index.toNat
  match offers[slot]? with
  | none =>
    .error (.malformed
      s!"batch answer {position} names offer {slot}, but the response carries {offers.length} offers")
  | some offer =>
    let kind := offer.wireTag
    if slot ∈ scan.seen then
      .error (.malformed
        s!"batch answer {position} names offer {slot} twice (ambiguous response is rejected)")
    else if kind ∈ scan.kinds then
      .error (.malformed
        s!"batch answer {position} names two `{kind}` offers; the content behind one key has ONE identity per transport, so the second names a different blob")
    else
      .ok { seen := slot :: scan.seen, kinds := kind :: scan.kinds,
            referenced := scan.referenced.set slot true }

def scanAnswer (offers : List OfferSlot) (referenced : List Bool) :
    BatchHoldAnswer × Nat → Except ClaimCodecError (List Bool)
  | (.absent, _) => .ok referenced
  | (.holds _ offerIndices, position) =>
    if maxOffersPerAnswer < offerIndices.length then
      .error (.malformed
        s!"batch answer {position} names {offerIndices.length} offers; at most {maxOffersPerAnswer} locators can describe one key")
    else (offerIndices.foldlM (scanIndex offers position) ⟨[], [], referenced⟩).map (·.referenced)

def checkBatchOfferBindings (offers : List OfferSlot) (answers : List BatchHoldAnswer) :
    Except ClaimCodecError Unit :=
  if answers = [] then
    .error (.malformed "a batch hold-response must answer at least one key")
  else if maxBatchHoldKeys < answers.length then
    .error (.batchTooLarge answers.length maxBatchHoldKeys)
  else if maxBatchHoldOffers < offers.length then
    .error (.batchTooLarge offers.length maxBatchHoldOffers)
  else do
    let referenced ← answers.zipIdx.foldlM (scanAnswer offers) (List.replicate offers.length false)
    match referenced.findIdx? (!·) with
    | some orphan =>
      .error (.malformed
        s!"batch response offer {orphan} is referenced by no answer - a locator must bind to a key the asker named")
    | none => .ok ()

/-- The two vectors the compaction loop fills: where each old slot goes, and the offers it keeps. -/
structure SlotRemap where
  remap : List (Option OfferIndex)
  kept : List KnownTransport

def SlotRemap.push (self : SlotRemap) : OfferSlot → SlotRemap
  -- The cast to the index type truncates, as `as` does.
  | .known offer =>
    { remap := self.remap ++ [some (UInt16.ofNat self.kept.length)], kept := self.kept ++ [offer] }
  | .unknown _ => { self with remap := self.remap ++ [none] }

/-- An index that is out of range or points at a dropped slot is left out. -/
def reindexAnswer (remap : List (Option OfferIndex)) : BatchHoldAnswer → BatchHoldAnswer
  | .holds blake3 offerIndices =>
    .holds blake3 (offerIndices.filterMap fun index => remap[index.toNat]?.join)
  | .absent => .absent

def compactOfferSlots (slots : List OfferSlot) (answers : List BatchHoldAnswer) :
    List KnownTransport × List BatchHoldAnswer :=
  let table := slots.foldl SlotRemap.push ⟨[], []⟩
  (table.kept, answers.map (reindexAnswer table.remap))

def InfoHash.asBytes : InfoHash → List UInt8
  | .v1 hash => hash.1
  | .v2 hash => hash.1

open JsonText

def KnownTransport.toJson (offer : KnownTransport) : List UInt8 :=
  let tag := quote offer.wireTag.toList
  match offer with
  | .iroh node => object [("transport", tag), ("node", quote (Hex.encode node.bytes.1))]
  | .bitTorrent infohash =>
    object [("transport", tag), ("infohash", quote (Hex.encode infohash.asBytes))]

def BatchHoldAnswer.toJson : BatchHoldAnswer → List UInt8
  | .holds blake3 offerIndices =>
    object [("answer", quote "have".toList), ("blake3", quote (toString blake3).toList),
      ("offer_indices", array (offerIndices.map fun index => decimal index.toNat))]
  | .absent => object [("answer", quote "absent".toList)]

def responseText (schemaVersion : UInt16) (offers : List (List UInt8))
    (answers : List BatchHoldAnswer) : List UInt8 :=
  object [("schema_version", decimal schemaVersion.toNat), ("offers", array offers),
    ("answers", array (answers.map (·.toJson)))]

def BatchHoldResponse.toJson (response : BatchHoldResponse) : List UInt8 :=
  responseText response.schemaVersion (response.offers.map (·.toJson)) response.answers

def checkSize (len : Nat) : Except ClaimCodecError Unit :=
  if maxClaimWireBytes < len then
    .error (.malformed s!"wire input is {len} bytes, exceeds the {maxClaimWireBytes}-byte cap")
  else .ok ()

def checkVersion (found expected : UInt16) : Except ClaimCodecError Unit :=
  if found = expected then .ok () else .error (.unsupportedVersion found expected)

def encodeChecked (bytes : List UInt8) : Except ClaimCodecError (List UInt8) := do
  checkSize bytes.length
  return bytes

def encodeBatchHoldResponse (response : BatchHoldResponse) : Except ClaimCodecError (List UInt8) := do
  checkBatchOfferBindings (asOfferSlots response.offers) response.answers
  encodeChecked response.toJson

/-- What the JSON library answers on a byte string: whether no object repeats a key, and the typed value. -/
class ClaimJson where
  noDuplicateKeys : List UInt8 → Except String Unit
  fromSlice : List UInt8 → Except String BatchHoldResponseWire

def decodeBatchHoldResponse [ClaimJson] (bytes : List UInt8) (keysAsked : Nat) :
    Except ClaimCodecError BatchHoldResponse := do
  checkSize bytes.length
  if keysAsked = 0 then
    .error (.malformed "a batch hold-response was awaited for zero keys; no legal query asks none")
  else if maxBatchHoldKeys < keysAsked then
    .error (.batchTooLarge keysAsked maxBatchHoldKeys)
  else
    (ClaimJson.noDuplicateKeys bytes).mapError .malformed
    let wire ← (ClaimJson.fromSlice bytes).mapError .malformed
    checkVersion wire.schemaVersion querySchemaVersion
    if wire.answers.length ≠ keysAsked then
      .error (.batchAnswerCount keysAsked wire.answers.length)
    else
      checkBatchOfferBindings wire.offers wire.answers
      let (offers, answers) := compactOfferSlots wire.offers wire.answers
      return { schemaVersion := wire.schemaVersion, offers, answers }

end NixP2p
