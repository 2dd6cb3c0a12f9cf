import NixP2p.Base.Checked
import NixP2p.Transfer.Completeness

/-!
# The accounting of a `/nar/4` exchange

From the size of a content, the codec and the number of bytes between the header and the marker, the accounting derives how many of them are proofs, length prefixes and leaves, by a closed form in checked 64-bit arithmetic. The encoder counts what it writes while it walks the tree, and both give the same numbers.
-/

namespace NixP2p

open Wire Merkle Fallible

/-! ### The accounting -/

structure NarV4WireAccounting where
  requestProtocolBytes : UInt64
  responseHeaderBytes : UInt64
  proofBytes : UInt64
  leafCount : UInt64
  leafLengthPrefixBytes : UInt64
  encodedLeafBytes : UInt64
  completeMarkerBytes : UInt64
  responseBodyBytes : UInt64
  responseProtocolBytes : UInt64
  exchangeProtocolBytes : UInt64
  deriving DecidableEq

namespace NarV4WireAccounting

def requestBytes : UInt64 := 33

def headerBytes : UInt64 := 10

def markerBytes : UInt64 := 4

def divCeil (left right : UInt64) : UInt64 := if 0 < left % right then left / right + 1 else left / right

def validate (accounting : NarV4WireAccounting) : Except IoError Unit :=
  let framed := (Checked.addU64 accounting.proofBytes accounting.leafLengthPrefixBytes).bind fun n =>
    Checked.addU64 n accounting.encodedLeafBytes
  let body := framed.bind fun n => Checked.addU64 n accounting.completeMarkerBytes
  let response := body.bind fun n => Checked.addU64 n accounting.responseHeaderBytes
  let exchange := response.bind fun n => Checked.addU64 n accounting.requestProtocolBytes
  if body ≠ some accounting.responseBodyBytes ∨ response ≠ some accounting.responseProtocolBytes ∨
      exchange ≠ some accounting.exchangeProtocolBytes ∨ accounting.requestProtocolBytes ≠ requestBytes ∨
      accounting.responseHeaderBytes ≠ headerBytes ∨ accounting.completeMarkerBytes ≠ markerBytes then
    .error (.invalidData "inconsistent /nar/4 protocol-byte accounting")
  else .ok ()

def fromFramedBaoBytes (rawSize : UInt64) (codec : WireCodec) (framedBaoBytes : UInt64) :
    Except IoError NarV4WireAccounting := do
  let proofBytes := UInt64.ofNat (outboardSize rawSize.toNat)
  let leafCount := max (divCeil rawSize (64 * 1024)) 1
  let leafLengthPrefixBytes ← match codec with
    | .raw => .ok 0
    | .zstd => (Checked.mulU64 leafCount 4).elim (.error (.invalidData "v4 leaf-prefix bytes overflow u64")) .ok
  let fixedBody ← (Checked.addU64 proofBytes leafLengthPrefixBytes).elim
    (.error (.invalidData "v4 proof bytes overflow u64")) .ok
  let encodedLeafBytes ← (Checked.subU64 framedBaoBytes fixedBody).elim
    (.error (.invalidData
      s!"framed Bao body {framedBaoBytes} B is shorter than proof+prefix geometry {fixedBody} B")) .ok
  if codec = .raw ∧ encodedLeafBytes ≠ rawSize then
    .error (.invalidData s!"raw /nar/4 encoded-leaf bytes {encodedLeafBytes} differ from raw_size {rawSize}")
  else
    let responseBodyBytes ← (Checked.addU64 framedBaoBytes markerBytes).elim
      (.error (.invalidData "v4 body bytes overflow u64")) .ok
    let responseProtocolBytes ← (Checked.addU64 headerBytes responseBodyBytes).elim
      (.error (.invalidData "v4 response bytes overflow u64")) .ok
    let exchangeProtocolBytes ← (Checked.addU64 requestBytes responseProtocolBytes).elim
      (.error (.invalidData "v4 exchange bytes overflow u64")) .ok
    let accounting : NarV4WireAccounting :=
      ⟨requestBytes, headerBytes, proofBytes, leafCount, leafLengthPrefixBytes, encodedLeafBytes, markerBytes,
        responseBodyBytes, responseProtocolBytes, exchangeProtocolBytes⟩
    accounting.validate
    return accounting

def fromResponseProtocolBytes (rawSize : UInt64) (codec : WireCodec) (responseProtocolBytes : UInt64) :
    Except IoError NarV4WireAccounting := do
  let fixed := headerBytes + markerBytes
  let framedBaoBytes ← (Checked.subU64 responseProtocolBytes fixed).elim
    (.error (.invalidData
      s!"successful /nar/4 response was {responseProtocolBytes} B, shorter than fixed {fixed} B framing")) .ok
  fromFramedBaoBytes rawSize codec framedBaoBytes

/-! ### Its numbers -/

def prefixBytes (codec : WireCodec) (size : Nat) : Nat :=
  match codec with
  | .raw => 0
  | .zstd => 4 * NixP2p.leafCount size

theorem toNat_divCeil (rawSize : UInt64) :
    (max (divCeil rawSize (64 * 1024)) 1).toNat = NixP2p.leafCount rawSize.toNat := by
  have hsize := rawSize.toNat_lt
  have hwidth : (64 * 1024 : UInt64).toNat = 65536 := rfl
  have hdiv : (rawSize / (64 * 1024)).toNat = rawSize.toNat / 65536 := by rw [UInt64.toNat_div, hwidth]
  have hceil : (divCeil rawSize (64 * 1024)).toNat = (rawSize.toNat + 65535) / 65536 := by
    unfold divCeil
    split_ifs with hrest
    · rw [UInt64.lt_iff_toNat_lt, UInt64.toNat_mod, hwidth] at hrest
      have hzero : (0 : UInt64).toNat = 0 := rfl
      have hone : (1 : UInt64).toNat = 1 := rfl
      rw [Checked.toNat_add_of_lt (by rw [hdiv, hone]; omega), hdiv, hone]
      omega
    · rw [UInt64.lt_iff_toNat_lt, UInt64.toNat_mod, hwidth] at hrest
      have hzero : (0 : UInt64).toNat = 0 := rfl
      rw [hdiv]
      omega
  have hmax : ∀ left right : UInt64, (max left right).toNat = max left.toNat right.toNat := by
    intro left right
    change (if left ≤ right then right else left).toNat = _
    split_ifs with hle
    · rw [UInt64.le_iff_toNat_le] at hle
      omega
    · rw [UInt64.le_iff_toNat_le] at hle
      omega
  have hone : (1 : UInt64).toNat = 1 := rfl
  rw [hmax, hceil, hone]
  rfl

theorem outboardSize_lt {size : Nat} (h : size < 2 ^ 64) : outboardSize size < 2 ^ 55 := by
  simp only [outboardSize, NixP2p.leafCount, baoBlockSize]
  omega

theorem toNat_outboardSize (rawSize : UInt64) :
    (UInt64.ofNat (outboardSize rawSize.toNat)).toNat = outboardSize rawSize.toNat := by
  have hlt := outboardSize_lt rawSize.toNat_lt
  exact UInt64.toNat_ofNat_of_lt' (show outboardSize rawSize.toNat < 2 ^ 64 by omega)

/-- The numbers of an accounting, as sums that did not wrap. -/
structure Exact (rawSize : Nat) (codec : WireCodec) (framed : Nat) (accounting : NarV4WireAccounting) : Prop where
  proofs : accounting.proofBytes.toNat = outboardSize rawSize
  leaves : accounting.leafCount.toNat = NixP2p.leafCount rawSize
  prefixes : accounting.leafLengthPrefixBytes.toNat = prefixBytes codec rawSize
  total : framed =
    accounting.proofBytes.toNat + accounting.leafLengthPrefixBytes.toNat + accounting.encodedLeafBytes.toNat
  body : accounting.responseBodyBytes.toNat = framed + 4
  response : accounting.responseProtocolBytes.toNat = 10 + (framed + 4)
  exchange : accounting.exchangeProtocolBytes.toNat = 33 + (10 + (framed + 4))
  valid : accounting.validate = .ok ()

def prefixCount (codec : WireCodec) (leafCount : UInt64) : Option UInt64 :=
  match codec with
  | .raw => some 0
  | .zstd => Checked.mulU64 leafCount 4

theorem prefixCount_raw (leafCount : UInt64) : prefixCount .raw leafCount = some 0 := rfl

variable {rawSize framed : UInt64} {codec : WireCodec} {accounting : NarV4WireAccounting}

theorem fromFramedBaoBytes_eq_ok :
    fromFramedBaoBytes rawSize codec framed = .ok accounting ↔
      ∃ prefixes fixed encoded body response exchange,
        prefixCount codec (max (divCeil rawSize (64 * 1024)) 1) = some prefixes ∧
        Checked.addU64 (UInt64.ofNat (outboardSize rawSize.toNat)) prefixes = some fixed ∧
        Checked.subU64 framed fixed = some encoded ∧ (codec = .raw → encoded = rawSize) ∧
        Checked.addU64 framed markerBytes = some body ∧ Checked.addU64 headerBytes body = some response ∧
        Checked.addU64 requestBytes response = some exchange ∧
        accounting = ⟨requestBytes, headerBytes, UInt64.ofNat (outboardSize rawSize.toNat),
          max (divCeil rawSize (64 * 1024)) 1, prefixes, encoded, markerBytes, body, response, exchange⟩ ∧
        accounting.validate = .ok () := by
  constructor
  · intro h
    cases codec with
    | raw =>
      simp only [fromFramedBaoBytes, bind_eq_ok_iff, Except.ok.injEq, exists_eq_left', elim_eq_ok_iff,
        guard_eq_ok_iff, pure_eq_ok_iff, true_and, not_not] at h
      obtain ⟨fixed, hfixed, encoded, hencoded, hraw, body, hbody, response, hresponse, exchange, hexchange, _,
        hvalid, rfl⟩ := h
      exact ⟨0, fixed, encoded, body, response, exchange, prefixCount_raw _, hfixed, hencoded, fun _ => hraw, hbody, hresponse,
        hexchange, rfl, hvalid⟩
    | zstd =>
      simp only [fromFramedBaoBytes, bind_eq_ok_iff, elim_eq_ok_iff, guard_eq_ok_iff, pure_eq_ok_iff] at h
      obtain ⟨prefixes, hprefixes, fixed, hfixed, encoded, hencoded, _, body, hbody, response, hresponse, exchange,
        hexchange, _, hvalid, rfl⟩ := h
      exact ⟨prefixes, fixed, encoded, body, response, exchange, hprefixes, hfixed, hencoded, fun hraw => absurd hraw (by decide), hbody, hresponse,
        hexchange, rfl, hvalid⟩
  · intro h
    obtain ⟨prefixes, fixed, encoded, body, response, exchange, hprefixes, hfixed, hencoded, hraw, hbody, hresponse,
      hexchange, rfl, hvalid⟩ := h
    cases codec with
    | raw =>
      rw [prefixCount_raw] at hprefixes
      obtain rfl := Option.some.inj hprefixes
      simp only [fromFramedBaoBytes, bind_eq_ok_iff, Except.ok.injEq, exists_eq_left', elim_eq_ok_iff,
        guard_eq_ok_iff, pure_eq_ok_iff, true_and, not_not]
      exact ⟨fixed, hfixed, encoded, hencoded, hraw rfl, body, hbody, response, hresponse, exchange, hexchange, (),
        hvalid, rfl⟩
    | zstd =>
      simp only [fromFramedBaoBytes, bind_eq_ok_iff, elim_eq_ok_iff, guard_eq_ok_iff, pure_eq_ok_iff]
      exact ⟨prefixes, hprefixes, fixed, hfixed, encoded, hencoded, fun hraw => absurd hraw.1 (by decide), body, hbody, response, hresponse, exchange,
        hexchange, (), hvalid, rfl⟩

theorem toNat_prefixCount {prefixes : UInt64}
    (h : prefixCount codec (max (divCeil rawSize (64 * 1024)) 1) = some prefixes) :
    prefixes.toNat = prefixBytes codec rawSize.toNat := by
  cases codec with
  | raw =>
    rw [prefixCount_raw] at h
    rw [← Option.some.inj h]
    rfl
  | zstd =>
    have hfour : (4 : UInt64).toNat = 4 := rfl
    rw [Checked.toNat_of_mulU64 h, toNat_divCeil, hfour, prefixBytes, Nat.mul_comm]

theorem exact_of_fromFramedBaoBytes (h : fromFramedBaoBytes rawSize codec framed = .ok accounting) :
    Exact rawSize.toNat codec framed.toNat accounting := by
  obtain ⟨prefixes, fixed, encoded, body, response, exchange, hprefixes, hfixed, hencoded, _, hbody, hresponse,
    hexchange, rfl, hvalid⟩ := fromFramedBaoBytes_eq_ok.mp h
  have hproofs := toNat_outboardSize rawSize
  have hfixed := Checked.toNat_of_addU64 hfixed
  have hencoded := Checked.toNat_of_subU64 hencoded
  have hbody : body.toNat = framed.toNat + 4 := Checked.toNat_of_addU64 hbody
  have hresponse : response.toNat = 10 + body.toNat := Checked.toNat_of_addU64 hresponse
  have hexchange : exchange.toNat = 33 + response.toNat := Checked.toNat_of_addU64 hexchange
  exact {
    proofs := hproofs
    leaves := toNat_divCeil rawSize
    prefixes := toNat_prefixCount hprefixes
    total := by dsimp only; omega
    body := hbody
    response := by rw [hresponse, hbody]
    exchange := by rw [hexchange, hresponse, hbody]
    valid := hvalid }

theorem exists_prefixCount (codec : WireCodec) (rawSize : UInt64) :
    ∃ prefixes, prefixCount codec (max (divCeil rawSize (64 * 1024)) 1) = some prefixes := by
  cases codec with
  | raw => exact ⟨0, prefixCount_raw _⟩
  | zstd =>
    have hsize := rawSize.toNat_lt
    have hfour : (4 : UInt64).toNat = 4 := rfl
    refine ⟨max (divCeil rawSize (64 * 1024)) 1 * 4, if_pos ?_⟩
    rw [toNat_divCeil, hfour, NixP2p.leafCount, baoBlockSize]
    omega

theorem validate_of_sums {fixed : UInt64}
    (hfixed : Checked.addU64 accounting.proofBytes accounting.leafLengthPrefixBytes = some fixed)
    (hframed : Checked.addU64 fixed accounting.encodedLeafBytes = some framed)
    (hbody : Checked.addU64 framed accounting.completeMarkerBytes = some accounting.responseBodyBytes)
    (hresponse : Checked.addU64 accounting.responseBodyBytes accounting.responseHeaderBytes =
      some accounting.responseProtocolBytes)
    (hexchange : Checked.addU64 accounting.responseProtocolBytes accounting.requestProtocolBytes =
      some accounting.exchangeProtocolBytes)
    (hsizes : accounting.requestProtocolBytes = requestBytes ∧ accounting.responseHeaderBytes = headerBytes ∧
      accounting.completeMarkerBytes = markerBytes) :
    accounting.validate = .ok () := by
  simp only [validate, hfixed, hframed, hbody, hresponse, hexchange, Option.bind_some]
  refine if_neg ?_
  rw [hsizes.1, hsizes.2.1, hsizes.2.2]
  simp

/-- Totals that are made of the geometry's proofs and prefixes and some leaves are accepted. -/
theorem fromFramedBaoBytes_accepts {payload : Nat}
    (htotal : framed.toNat = outboardSize rawSize.toNat + prefixBytes codec rawSize.toNat + payload)
    (hraw : codec = .raw → payload = rawSize.toNat) (hfits : framed.toNat + 47 < 2 ^ 64) :
    ∃ accounting, fromFramedBaoBytes rawSize codec framed = .ok accounting ∧
      accounting.encodedLeafBytes.toNat = payload := by
  obtain ⟨prefixes, hprefixes⟩ := exists_prefixCount codec rawSize
  have hcount := toNat_prefixCount hprefixes
  have hproofs := toNat_outboardSize rawSize
  have hfixed : (UInt64.ofNat (outboardSize rawSize.toNat)).toNat + prefixes.toNat < 2 ^ 64 := by omega
  have hfixed' := Checked.toNat_add_of_lt hfixed
  obtain ⟨encoded, hencoded⟩ := Checked.exists_subU64
    (show (UInt64.ofNat (outboardSize rawSize.toNat) + prefixes).toNat ≤ framed.toNat by omega)
  have hpayload := Checked.toNat_of_subU64 hencoded
  have hmarker : framed.toNat + markerBytes.toNat < 2 ^ 64 := by
    change framed.toNat + 4 < 2 ^ 64
    omega
  have hbody : (framed + markerBytes).toNat = framed.toNat + 4 := Checked.toNat_add_of_lt hmarker
  have hheader : headerBytes.toNat + (framed + markerBytes).toNat < 2 ^ 64 := by
    change 10 + (framed + markerBytes).toNat < 2 ^ 64
    omega
  have hresponse : (headerBytes + (framed + markerBytes)).toNat = 10 + (framed + markerBytes).toNat :=
    Checked.toNat_add_of_lt hheader
  have hrequest : requestBytes.toNat + (headerBytes + (framed + markerBytes)).toNat < 2 ^ 64 := by
    change 33 + (headerBytes + (framed + markerBytes)).toNat < 2 ^ 64
    omega
  refine ⟨_, fromFramedBaoBytes_eq_ok.mpr ⟨prefixes, _, encoded, _, _, _, hprefixes, Checked.addU64_eq_some hfixed,
    hencoded, fun hcodec => UInt64.toNat_inj.mp ?_, Checked.addU64_eq_some hmarker, Checked.addU64_eq_some hheader,
    Checked.addU64_eq_some hrequest, rfl, ?_⟩, ?_⟩
  · have hsize := hraw hcodec
    omega
  · have hframed : Checked.addU64 (UInt64.ofNat (outboardSize rawSize.toNat) + prefixes) encoded = some framed :=
      Checked.addU64_of_toNat (by omega)
    exact validate_of_sums (Checked.addU64_eq_some hfixed) hframed (Checked.addU64_eq_some hmarker)
      ((Checked.addU64_comm _ _).trans (Checked.addU64_eq_some hheader))
      ((Checked.addU64_comm _ _).trans (Checked.addU64_eq_some hrequest)) ⟨rfl, rfl, rfl⟩
  · dsimp only
    omega

end NarV4WireAccounting

/-! ### What the encoder counts -/

section Counting

variable [Zstd]

def encodedLength (level : Int) (leaf : List UInt8) : Nat :=
  match Zstd.compress level leaf with
  | .ok frame => frame.length
  | .error _ => 0

def leafBytes (codec : WireCodec) (level : Int) (leaf : List UInt8) : Nat :=
  match codec with
  | .raw => leaf.length
  | .zstd => 4 + encodedLength level leaf

def payloadBytes (codec : WireCodec) (level : Int) (raw : List UInt8) : Nat :=
  match codec with
  | .raw => raw.length
  | .zstd => ((baoTree raw.length).leaves.map fun leaf => encodedLength level (leaf.content raw)).sum

/-- A leaf that was encoded is within its bound. -/
def LeafFits (codec : WireCodec) (level : Int) (leaf : List UInt8) : Prop :=
  codec = .zstd → encodedLength level leaf ≤ maxEncodedLeafBytes

variable {level : Int}

theorem encodedLeaf_eq_ok {leaf framed : List UInt8} (h : encodedLeaf level leaf = .ok framed) :
    framed.length = 4 + encodedLength level leaf ∧ encodedLength level leaf ≤ maxEncodedLeafBytes := by
  simp only [encodedLeaf, bind_eq_ok_iff] at h
  obtain ⟨frame, hframe, h⟩ := h
  rw [encodedLength, hframe]
  by_cases hlarge : maxEncodedLeafBytes < frame.length
  · rw [if_pos hlarge] at h
    cases h
  rw [if_neg hlarge] at h
  obtain rfl := pure_eq_ok_iff.mp h
  rw [List.length_append, length_leBytes]
  exact ⟨rfl, not_lt.mp hlarge⟩

variable [Blake3] [BaoDebug] {O : Type} [Outboard O] {context : String}

omit [Zstd] [Blake3] [BaoDebug] in
theorem lt_of_checkedAddBytes {total increment next : Nat}
    (hadd : checkedAddBytes total increment context = .ok next) : next < 2 ^ 64 := by
  unfold checkedAddBytes at hadd
  split_ifs at hadd with hfits
  rwa [← Except.ok.inj hadd]

/-- An encoder after some items: what was written is what was counted. -/
structure Counts (raw start : List UInt8) (wire size : Nat) (encoder : Encoder (List UInt8) (List UInt8)) : Prop where
  data : encoder.data = raw
  written : encoder.writer.length = start.length + wire
  wireBytes : encoder.wireBytes = wire
  rawBytes : encoder.rawBytes = size
  fits : size < 2 ^ 64

variable {raw start : List UInt8} {encoder : Encoder (List UInt8) (List UInt8)}

variable {size : Nat} {after : Encoder (List UInt8) (List UInt8)}

variable {wire : Nat}

omit [Zstd] [Blake3] [BaoDebug] in
theorem Counts.write {bytes : List UInt8} (h : Counts raw start wire size encoder)
    (hwrite : encoder.write bytes context = .ok after) : Counts raw start (wire + bytes.length) size after := by
  simp only [Encoder.write, bind_eq_ok_iff, pure_eq_ok_iff] at hwrite
  obtain ⟨wireBytes, hadd, writer, hwriter, rfl⟩ := hwrite
  have hwriter : encoder.writer ++ bytes = writer := Except.ok.inj hwriter
  refine ⟨h.data, ?_, ?_, h.rawBytes, h.fits⟩
  · dsimp only
    rw [← hwriter, List.length_append, h.written]
    omega
  · dsimp only
    rw [eq_add_of_checkedAddBytes hadd, h.wireBytes]

omit [Zstd] [Blake3] [BaoDebug] in
theorem Counts.expect (h : Counts raw start wire size encoder) (expected : List Hash) :
    Counts raw start wire size { encoder with expected } :=
  ⟨h.data, h.written, h.wireBytes, h.rawBytes, h.fits⟩

omit [Zstd] [Blake3] [BaoDebug] in
theorem readExactAt_eq_ok {position : Nat} {data rest : List UInt8} {bytes : Bytes size}
    (h : ReadAt.readExactAt position size data = .ok (bytes, rest)) :
    bytes.1 = (data.drop position).take size ∧ rest = data := by
  change ((Source.readExact size ⟨data.drop position, none⟩) >>= fun read => pure (read.1, data)) = _ at h
  simp only [bind_eq_ok_iff, pure_eq_ok_iff] at h
  obtain ⟨⟨read, source⟩, hread, heq⟩ := h
  obtain ⟨rfl, rfl⟩ := Prod.mk.inj heq
  unfold Source.readExact at hread
  split_ifs at hread
  obtain ⟨rfl, _⟩ := Prod.mk.inj (Except.ok.inj hread)
  exact ⟨rfl, rfl⟩

variable {codec : WireCodec} {outboard : O}

theorem Counts.encodeItem (h : Counts raw start wire size encoder) (visit : Visit BaoLeaf)
    (hitem : NixP2p.encodeItem outboard codec level encoder (.ofVisit visit) = .ok after) :
    match visit with
    | .node _ _ => Counts raw start (wire + 64) size after
    | .leaf leaf _ => Counts raw start (wire + leafBytes codec level (leaf.content raw)) (size + leaf.size) after ∧
        LeafFits codec level (leaf.content raw) := by
  cases visit with
  | node index isRoot =>
    simp only [NixP2p.encodeItem, BaoChunk.ofVisit, encodeParent, bind_eq_ok_iff] at hitem
    obtain ⟨loaded, -, hitem⟩ := hitem
    split at hitem
    · split at hitem
      · split_ifs at hitem
        have hwritten := (h.expect _).write hitem
        rwa [(hashPair _).2] at hwritten
      · cases hitem
    · cases hitem
  | leaf leaf isRoot =>
    simp only [NixP2p.encodeItem, BaoChunk.ofVisit, encodeLeaf, bind_eq_ok_iff] at hitem
    obtain ⟨⟨bytes, data⟩, hread, hitem⟩ := hitem
    obtain ⟨hbytes, hdata⟩ := readExactAt_eq_ok hread
    have hcontent : bytes.1 = leaf.content raw := by rw [hbytes, h.data, BaoLeaf.content, BaoLeaf.startByte]
    split at hitem
    · split_ifs at hitem
      simp only [bind_eq_ok_iff] at hitem
      obtain ⟨rawBytes, hadd, hitem⟩ := hitem
      have hsize : rawBytes = size + leaf.size := by rw [eq_add_of_checkedAddBytes hadd, h.rawBytes, bytes.2]
      have hnext : ∀ expected, Counts raw start wire (size + leaf.size) { encoder with data, expected, rawBytes } :=
        fun _ => ⟨hdata.trans h.data, h.written, h.wireBytes, hsize, hsize ▸ lt_of_checkedAddBytes hadd⟩
      cases codec with
      | raw =>
        have hwritten := (hnext _).write hitem
        rw [hcontent] at hwritten
        exact ⟨hwritten, fun hzstd => absurd hzstd (by decide)⟩
      | zstd =>
        simp only [bind_eq_ok_iff] at hitem
        obtain ⟨framed, hframed, hitem⟩ := hitem
        rw [hcontent] at hframed
        obtain ⟨hlength, hbound⟩ := encodedLeaf_eq_ok hframed
        have hwritten := (hnext _).write hitem
        rw [hlength] at hwritten
        exact ⟨hwritten, fun _ => hbound⟩
    · cases hitem

theorem Counts.foldlM :
    ∀ (visits : List (Visit BaoLeaf)) {wire size : Nat} {encoder after : Encoder (List UInt8) (List UInt8)},
      Counts raw start wire size encoder →
      visits.foldlM (fun encoder visit => NixP2p.encodeItem outboard codec level encoder (.ofVisit visit)) encoder =
        .ok after →
      Counts raw start
          (wire + (visits.map (HashTree.weigh 64 fun leaf => leafBytes codec level (leaf.content raw))).sum)
          (size + (visits.map (HashTree.weigh 0 BaoLeaf.size)).sum) after ∧
        ∀ leaf isRoot, .leaf leaf isRoot ∈ visits → LeafFits codec level (leaf.content raw) := by
  intro visits
  induction visits with
  | nil =>
    intro wire size encoder after h hfold
    obtain rfl := Except.ok.inj hfold
    exact ⟨h, fun _ _ hmem => absurd hmem List.not_mem_nil⟩
  | cons visit visits ih =>
    intro wire size encoder after h hfold
    rw [List.foldlM_cons, bind_eq_ok_iff] at hfold
    obtain ⟨next, hitem, hfold⟩ := hfold
    have hcounted := h.encodeItem visit hitem
    cases visit with
    | node index isRoot =>
      obtain ⟨hcounts, hfits⟩ := ih hcounted hfold
      rw [List.map_cons, List.sum_cons, List.map_cons, List.sum_cons, ← Nat.add_assoc, HashTree.weigh, HashTree.weigh, Nat.zero_add]
      refine ⟨hcounts, fun leaf isRoot' hmem => hfits leaf isRoot' ?_⟩
      exact (List.mem_cons.mp hmem).resolve_left (by simp)
    | leaf leaf isRoot =>
      obtain ⟨hcounts, hfits⟩ := ih hcounted.1 hfold
      rw [List.map_cons, List.sum_cons, List.map_cons, List.sum_cons, ← Nat.add_assoc, ← Nat.add_assoc]
      refine ⟨hcounts, fun other isRoot' hmem => ?_⟩
      rcases List.mem_cons.mp hmem with heq | hrest
      · cases heq
        exact hcounted.2
      · exact hfits other isRoot' hrest

omit [Blake3] [BaoDebug] in
theorem sum_leafBytes (codec : WireCodec) (level : Int) (raw : List UInt8) :
    ((baoTree raw.length).leaves.map fun leaf => leafBytes codec level (leaf.content raw)).sum =
      NarV4WireAccounting.prefixBytes codec raw.length + payloadBytes codec level raw := by
  cases codec with
  | raw =>
    have hlengths := congrArg List.length (flatten_content_baoTree raw)
    rw [List.length_flatten, List.map_map] at hlengths
    exact hlengths.trans (Nat.zero_add _).symm
  | zstd =>
    have hsplit : ∀ leaves : List BaoLeaf, (leaves.map fun leaf => leafBytes .zstd level (leaf.content raw)).sum =
        4 * leaves.length + (leaves.map fun leaf => encodedLength level (leaf.content raw)).sum := by
      intro leaves
      induction leaves with
      | nil => rfl
      | cons leaf leaves ih =>
        rw [List.map_cons, List.sum_cons, ih, List.map_cons, List.sum_cons, leafBytes, List.length_cons]
        omega
    rw [hsplit, leaves_baoTree, List.length_map, List.length_range]
    rw [NarV4WireAccounting.prefixBytes, payloadBytes, leaves_baoTree]

theorem encodeValidated_eq_ok {writer body : List UInt8} {rawBytes wireBytes : Nat}
    (h : encodeValidated raw (outboardOf raw) writer codec level = .ok (body, rawBytes, wireBytes)) :
    rawBytes = raw.length ∧ raw.length < 2 ^ 64 ∧ body.length = writer.length + wireBytes ∧
      wireBytes = outboardSize raw.length + NarV4WireAccounting.prefixBytes codec raw.length +
        payloadBytes codec level raw ∧
      ∀ leaf ∈ (baoTree raw.length).leaves, LeafFits codec level (leaf.content raw) := by
  simp only [encodeValidated, responseIter, List.foldlM_map, size_outboardOf, bind_eq_ok_iff] at h
  obtain ⟨encoder, hfold, h⟩ := h
  split_ifs at h
  simp only [bind_eq_ok_iff, pure_eq_ok_iff] at h
  obtain ⟨flushed, hflush, hresult⟩ := h
  obtain ⟨hbody, hcounters⟩ := Prod.mk.inj hresult
  obtain ⟨rfl, rfl⟩ := Prod.mk.inj hcounters
  have hwriter : encoder.writer = flushed := Except.ok.inj hflush
  have hstart : Counts raw writer 0 0 (⟨raw, writer, [Outboard.root (outboardOf raw)], 0, 0⟩ : Encoder _ _) :=
    ⟨rfl, rfl, rfl, rfl, by decide⟩
  obtain ⟨hcounts, hfits⟩ := hstart.foldlM _ hfold
  rw [HashTree.sum_walk, HashTree.sum_walk, nodeCount_baoTree, sum_leafBytes, Nat.zero_add, Nat.zero_add, Nat.mul_zero,
    Nat.zero_add] at hcounts
  refine ⟨hcounts.rawBytes.trans (treeSize_baoTree raw), ?_, ?_, ?_, fun leaf hleaf => ?_⟩
  · exact (treeSize_baoTree raw).symm.trans_lt hcounts.fits
  · rw [← hbody, ← hwriter, hcounts.written, hcounts.wireBytes]
  · rw [hcounts.wireBytes, outboardSize, Nat.add_assoc]
  · obtain ⟨isRoot, hmem⟩ := HashTree.exists_mem_walk hleaf 0 true
    exact hfits leaf isRoot hmem

omit [Blake3] [BaoDebug] in
/-- The encoded leaves of a content of a size that a machine can hold are far from a 64-bit bound. -/
theorem payloadBytes_le (hfits : ∀ leaf ∈ (baoTree raw.length).leaves, LeafFits codec level (leaf.content raw)) :
    payloadBytes codec level raw ≤ leafCount raw.length * maxEncodedLeafBytes := by
  cases codec with
  | raw =>
    simp only [payloadBytes, leafCount, baoBlockSize, maxEncodedLeafBytes]
    omega
  | zstd =>
    have hsum : ∀ leaves : List BaoLeaf, (∀ leaf ∈ leaves, LeafFits .zstd level (leaf.content raw)) →
        (leaves.map fun leaf => encodedLength level (leaf.content raw)).sum ≤ leaves.length * maxEncodedLeafBytes := by
      intro leaves hleaves
      induction leaves with
      | nil => exact Nat.zero_le _
      | cons leaf leaves ih =>
        have hleaf := hleaves leaf List.mem_cons_self rfl
        have hrest := ih fun other hother => hleaves other (List.mem_cons_of_mem _ hother)
        rw [List.map_cons, List.sum_cons, List.length_cons, Nat.add_mul, Nat.one_mul]
        omega
    have hlength : (baoTree raw.length).leaves.length = leafCount raw.length := by
      rw [leaves_baoTree, List.length_map, List.length_range]
    rw [← hlength]
    exact hsum _ hfits

/-- The encoder's count is the number of bytes it writes and follows from the geometry, and the accounting takes it apart into the same numbers. -/
theorem wire_accounting_exact (raw : List UInt8) (codec : WireCodec) (level : Int) :
    (∀ (writer body : List UInt8) (rawBytes wireBytes : Nat),
      encodeValidated raw (outboardOf raw) writer codec level = .ok (body, rawBytes, wireBytes) →
      rawBytes = raw.length ∧ body.length = writer.length + wireBytes ∧
      wireBytes = outboardSize raw.length + NarV4WireAccounting.prefixBytes codec raw.length +
        payloadBytes codec level raw ∧
      (raw.length < 2 ^ 63 → wireBytes + 47 < 2 ^ 64) ∧
      (wireBytes + 47 < 2 ^ 64 → ∃ accounting,
        NarV4WireAccounting.fromFramedBaoBytes (UInt64.ofNat raw.length) codec (UInt64.ofNat wireBytes) = .ok accounting ∧
        accounting.leafCount.toNat = leafCount raw.length ∧
        accounting.proofBytes.toNat = outboardSize raw.length ∧
        accounting.leafLengthPrefixBytes.toNat = NarV4WireAccounting.prefixBytes codec raw.length ∧
        accounting.encodedLeafBytes.toNat = payloadBytes codec level raw ∧
        accounting.validate = .ok ())) ∧
    ((codec = .zstd → Zstd.FramesLeaves level) → raw.length < 2 ^ 63 → ∃ outboard body wireBytes,
      createOutboard ⟨raw, none⟩ raw.length = .ok outboard ∧ outboard = outboardOf raw ∧
      encodeValidated raw outboard ([] : List UInt8) codec level = .ok (body, raw.length, wireBytes)) ∧
    ∀ rawSize framed accounting,
      NarV4WireAccounting.fromFramedBaoBytes rawSize codec framed = .ok accounting →
      NarV4WireAccounting.Exact rawSize.toNat codec framed.toNat accounting := by
  refine ⟨fun writer body rawBytes wireBytes hencode => ?_, fun hzstd hraw => ?_,
    fun rawSize framed accounting => NarV4WireAccounting.exact_of_fromFramedBaoBytes⟩
  · obtain ⟨hsize, hcontent, hwritten, hwire, hfits⟩ := encodeValidated_eq_ok hencode
    refine ⟨hsize, hwritten, hwire, fun hraw => ?_, fun hroom => ?_⟩
    · have hpayload := payloadBytes_le hfits
      have hprefixes : NarV4WireAccounting.prefixBytes codec raw.length ≤ 4 * leafCount raw.length := by
        cases codec with
        | raw => exact Nat.zero_le _
        | zstd => exact le_rfl
      simp only [outboardSize, leafCount, baoBlockSize, maxEncodedLeafBytes] at hwire hpayload hprefixes
      omega
    have hraw' : (UInt64.ofNat raw.length).toNat = raw.length :=
      UInt64.toNat_ofNat_of_lt' hcontent
    have hwire' : (UInt64.ofNat wireBytes).toNat = wireBytes :=
      UInt64.toNat_ofNat_of_lt' (show wireBytes < 2 ^ 64 by omega)
    have htotal : (UInt64.ofNat wireBytes).toNat = outboardSize (UInt64.ofNat raw.length).toNat +
        NarV4WireAccounting.prefixBytes codec (UInt64.ofNat raw.length).toNat + payloadBytes codec level raw := by
      rw [hwire', hraw', hwire]
    obtain ⟨accounting, haccepts, hencoded⟩ := NarV4WireAccounting.fromFramedBaoBytes_accepts htotal
      (fun hcodec => by rw [hraw', hcodec]; rfl) (by rw [hwire']; exact hroom)
    have hexact := NarV4WireAccounting.exact_of_fromFramedBaoBytes haccepts
    rw [hraw'] at hexact
    exact ⟨accounting, haccepts, hexact.leaves, hexact.proofs, hexact.prefixes, hencoded, hexact.valid⟩
  · exact ⟨outboardOf raw, _, _, createOutboard_exact raw, rfl,
      encodeValidated_outboardOf (leavesFramed_baoTree hzstd raw) hraw []⟩

end Counting

end NixP2p
