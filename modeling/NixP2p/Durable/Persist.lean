import NixP2p.Base.Text
import NixP2p.Records.Canonical
import NixP2p.Records.Store

/-!
# The two state files

A provider keeps the last sequence it published for each key in one text file, and a consumer the slots of its directory in another. A reader passes over every line it cannot make sense of, and a written file reads back to the entries it was written from.
-/

namespace NixP2p

open Wire Text

def hex32 (text : List Char) : Option (Bytes 32) := do
  let bytes ← Hex.decode text
  if hlen : bytes.length = 32 then some ⟨bytes, hlen⟩ else none

theorem hex32_encode (bytes : Bytes 32) : hex32 (Hex.encode bytes.1) = some bytes := by
  simp [hex32, Hex.decode_encode, bytes.2]

theorem plain_hex {bytes : List UInt8} (hne : bytes ≠ []) : Plain (Hex.encode bytes) := by
  obtain ⟨byte, rest, rfl⟩ := List.exists_cons_of_ne_nil hne
  have hdigits : "0123456789abcdef".toList.all (fun char => !isWhitespace char) = true := by decide
  refine ⟨by simp [Hex.encode], fun char hchar => ?_⟩
  simpa using List.all_eq_true.mp hdigits char (Hex.mem_encode hchar)

theorem plain_hex32 (bytes : Bytes 32) : Plain (Hex.encode bytes.1) := by
  apply plain_hex
  intro hnil
  have hlen := bytes.2
  rw [hnil] at hlen
  cases hlen

theorem plain_char {char : Char} (hchar : isWhitespace char = false) : Plain [char] :=
  ⟨by simp, by simpa using hchar⟩

def seqHeader : List Char := "# nix-p2p fabric-libp2p announce-seq v1".toList

structure LastPublished where
  sequence : UInt64
  expiry : UInt64
  deriving DecidableEq

def seqFields (entry : ContentKey × LastPublished) : List (List Char) :=
  [Hex.encode entry.1.bytes.1, showU64 entry.2.sequence, showU64 entry.2.expiry]

def serializeSeqs (seqs : List (ContentKey × LastPublished)) : List Char :=
  unlines (seqHeader :: seqs.map fun entry => fieldLine (seqFields entry))

def parseSeqFields : List (List Char) → Option (ContentKey × LastPublished)
  | [key, sequence, expiry] => do
    let key ← hex32 key
    let sequence ← parseU64 sequence
    let expiry ← parseU64 expiry
    return (⟨key⟩, ⟨sequence, expiry⟩)
  | _ => none

def parseSeqLine (line : List Char) : Option (ContentKey × LastPublished) :=
  parseSeqFields (line.splitOn ' ')

def deserializeSeqs (text : List Char) : List (ContentKey × LastPublished) :=
  readEntries seqHeader parseSeqLine text

theorem plain_seqFields (entry : ContentKey × LastPublished) :
    ∀ field ∈ seqFields entry, Plain field := by
  intro field hfield
  simp only [seqFields, List.mem_cons, List.not_mem_nil, or_false] at hfield
  rcases hfield with rfl | rfl | rfl
  · exact plain_hex32 _
  · exact plain_showU64 _
  · exact plain_showU64 _

theorem parseSeqFields_seqFields (entry : ContentKey × LastPublished) :
    parseSeqFields (seqFields entry) = some entry := by
  simp [parseSeqFields, seqFields, hex32_encode, parseU64_showU64]

theorem deserializeSeqs_serializeSeqs (seqs : List (ContentKey × LastPublished)) :
    deserializeSeqs (serializeSeqs seqs) = seqs := by
  apply readEntries_unlines
  · decide
  · intro entry _
    exact fieldLine_oneLine (plain_seqFields entry)
  · intro entry _
    exact trim_fieldLine_ne_nil (plain_seqFields entry) (by simp [seqFields])
  · intro entry _
    rw [parseSeqLine, splitOn_fieldLine (plain_seqFields entry) (by simp [seqFields])]
    exact parseSeqFields_seqFields entry

section Floors

variable [Ed25519]

def floorHeader : List Char := "# nix-p2p fabric-libp2p directory-floor v1".toList

abbrev Floor := ContentKey × NodeId × Slot

/-- The fields of one line; a record that does not encode has none and is left out. -/
def floorFields : Floor → Option (List (List Char))
  | (key, _, .active record) =>
    match encodeProviderRecord record with
    | .ok bytes => some [['A'], Hex.encode key.bytes.1, Hex.encode bytes]
    | .error _ => none
  | (key, provider, .withdrawn sequence expiry) =>
    some [['W'], Hex.encode key.bytes.1, Hex.encode provider.bytes.1, showU64 sequence, showU64 expiry]

def serializeFloors (floors : List Floor) : List Char :=
  unlines (floorHeader :: floors.filterMap fun floor => (floorFields floor).map fieldLine)

def parseFloorFields : List (List Char) → Option Floor
  | [['A'], key, bytes] => do
    let key := ContentKey.mk (← hex32 key)
    let bytes ← Hex.decode bytes
    -- the record was live when it was saved, so the reader's clock is not consulted
    match decodeProviderAssertion bytes key 0 with
    | .ok (.provide record) => some (key, record.provider, .active record)
    | _ => none
  | [['W'], key, provider, sequence, expiry] => do
    let key ← hex32 key
    let provider ← hex32 provider
    let sequence ← parseU64 sequence
    let expiry ← parseU64 expiry
    return (⟨key⟩, ⟨provider⟩, .withdrawn sequence expiry)
  | _ => none

def parseFloorLine (line : List Char) : Option Floor := parseFloorFields (line.splitOn ' ')

def deserializeFloors (text : List Char) : List Floor := readEntries floorHeader parseFloorLine text

/-- An active slot stands under its own key and provider and is accepted by the decoder at time zero. -/
def Reloadable : Floor → Prop
  | (key, provider, .active record) =>
    record.provider = provider ∧
      ∃ bytes, decodeProviderAssertion bytes key 0 = .ok (.provide record)
  | (_, _, .withdrawn _ _) => True

theorem encode_ne_nil {assertion : ProviderAssertion} {bytes : List UInt8}
    (hencode : encodeProviderAssertion assertion = .ok bytes) : bytes ≠ [] := by
  obtain ⟨-, rfl, -⟩ := encodeProviderAssertion_ok_iff.mp hencode
  have hbody := header_le_body assertion
  intro hnil
  rw [(List.append_eq_nil_iff.mp hnil).1] at hbody
  exact absurd hbody (by decide)

theorem floorFields_read {floor : Floor} (hreload : Reloadable floor) :
    ∃ fields, floorFields floor = some fields ∧ fields ≠ [] ∧ (∀ field ∈ fields, Plain field) ∧
      parseFloorFields fields = some floor := by
  obtain ⟨key, provider, slot⟩ := floor
  cases slot with
  | active record =>
    obtain ⟨rfl, bytes, hdecode⟩ := hreload
    have hencode := (decodeProviderAssertion_ok_iff.mp hdecode).1
    have hrecord : encodeProviderRecord record = .ok bytes := hencode
    refine ⟨[['A'], Hex.encode key.bytes.1, Hex.encode bytes], by simp [floorFields, hrecord],
      by simp, ?_, ?_⟩
    · intro field hfield
      simp only [List.mem_cons, List.not_mem_nil, or_false] at hfield
      rcases hfield with rfl | rfl | rfl
      · exact plain_char (by decide)
      · exact plain_hex32 _
      · exact plain_hex (encode_ne_nil hencode)
    · simp [parseFloorFields, hex32_encode, Hex.decode_encode, hdecode]
  | withdrawn sequence expiry =>
    refine ⟨_, rfl, by simp, ?_, ?_⟩
    · intro field hfield
      simp only [List.mem_cons, List.not_mem_nil, or_false] at hfield
      rcases hfield with rfl | rfl | rfl | rfl | rfl
      · exact plain_char (by decide)
      · exact plain_hex32 _
      · exact plain_hex32 _
      · exact plain_showU64 _
      · exact plain_showU64 _
    · simp [parseFloorFields, hex32_encode, parseU64_showU64]

theorem deserializeFloors_serializeFloors {floors : List Floor}
    (hreload : ∀ floor ∈ floors, Reloadable floor) :
    deserializeFloors (serializeFloors floors) = floors := by
  have hlines : (floors.filterMap fun floor => (floorFields floor).map fieldLine) =
      floors.map fun floor => fieldLine ((floorFields floor).getD []) := by
    rw [← List.filterMap_eq_map]
    apply List.filterMap_congr
    intro floor hfloor
    obtain ⟨fields, hfields, -⟩ := floorFields_read (hreload floor hfloor)
    simp [hfields]
  rw [deserializeFloors, serializeFloors, hlines]
  apply readEntries_unlines
  · decide
  all_goals
    intro floor hfloor
    obtain ⟨fields, hfields, hne, hplain, hparse⟩ := floorFields_read (hreload floor hfloor)
    rw [hfields, Option.getD_some]
  · exact fieldLine_oneLine hplain
  · exact trim_fieldLine_ne_nil hplain hne
  · rw [parseFloorLine, splitOn_fieldLine hplain hne]
    exact hparse

end Floors

end NixP2p
