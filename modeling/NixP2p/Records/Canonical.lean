import NixP2p.Records.Codec

/-!
# One wire form for each assertion

Each reader is the inverse of its writer, from a relay list up to a whole assertion, so a byte string is accepted exactly when it is the encoding of an assertion that is authentic, stored under its own key and unexpired.
-/

namespace NixP2p

open Wire Fallible

theorem readNode_inverts : Inverts readNode (fun node => node.bytes.1) fun _ => True := by
  intro input node rest
  simp only [readNode, bind_ok_iff, pure_ok_iff, take_inverts _ _ _ _ _, true_and]
  refine ⟨fun h => ?_, fun h => ⟨node.bytes, rest, h, rfl, rfl⟩⟩
  obtain ⟨bytes, _, hinput, rfl, rfl⟩ := h
  exact hinput

theorem readInfoHash_inverts : Inverts readInfoHash writeInfoHash fun _ => True := by
  intro input infohash rest
  simp only [readInfoHash, bind_ok_iff, branch_ok_iff, throw_ok_iff, and_false, or_false, pure_ok_iff,
    u8_inverts _ _ _ _, take_inverts _ _ _ _ _, true_and]
  refine ⟨fun h => ?_, fun h => ?_⟩
  · obtain ⟨version, _, rfl, h | ⟨-, h⟩⟩ := h
    · obtain ⟨rfl, hash, _, rfl, rfl, rfl⟩ := h
      rfl
    · obtain ⟨rfl, hash, _, rfl, rfl, rfl⟩ := h
      rfl
  · subst h
    cases infohash with
    | v1 hash => exact ⟨infohashV1, hash.1 ++ rest, rfl, .inl ⟨rfl, hash, rest, rfl, rfl, rfl⟩⟩
    | v2 hash =>
      exact ⟨infohashV2, hash.1 ++ rest, rfl, .inr ⟨by decide, rfl, hash, rest, rfl, rfl, rfl⟩⟩

theorem length_header (kind : UInt8) (key : ContentKey) (provider : NodeId)
    (sequence issuedAt expiry : UInt64) :
    (writeHeader kind key provider sequence issuedAt expiry).length = bodyHeaderLen := by
  have hkey := key.bytes.2
  have hprovider := provider.bytes.2
  simp only [writeHeader, List.length_append, length_u16Be, length_u64Be, hkey, hprovider,
    List.length_singleton, bodyHeaderLen]

def ed25519Order : Nat := 2 ^ 252 + 27742317777372353535851937790883648493

/-- The scan is the order of the numbers: at the first byte that differs, what follows is below one unit of its place. -/
theorem scanBelow_zip {scalar order : List UInt8} (hlength : scalar.length = order.length) :
    scanBelow (scalar.zip order) = true ↔ ofBe scalar < ofBe order := by
  induction scalar generalizing order with
  | nil =>
    cases order with
    | nil => simp [scanBelow]
    | cons byte order => cases hlength
  | cons high scalar ih =>
    cases order with
    | nil => cases hlength
    | cons low order =>
      have htail : scalar.length = order.length := Nat.succ.inj hlength
      have hscalar := ofBe_lt scalar
      have horder := ofBe_lt order
      rw [List.zip_cons_cons, scanBelow, ofBe_cons, ofBe_cons, htail]
      rw [htail] at hscalar
      split
      · rename_i hbelow
        have hplace := Nat.mul_le_mul_left (256 ^ order.length) (Nat.succ_le_of_lt (UInt8.lt_iff_toNat_lt.mp hbelow))
        rw [Nat.mul_succ] at hplace
        simp only [true_iff]
        omega
      split
      · rename_i habove
        have hplace := Nat.mul_le_mul_left (256 ^ order.length) (Nat.succ_le_of_lt (UInt8.lt_iff_toNat_lt.mp habove))
        rw [Nat.mul_succ] at hplace
        simp only [Bool.false_eq_true, false_iff, Nat.not_lt]
        omega
      rename_i hnotBelow hnotAbove
      obtain rfl := UInt8.le_antisymm (UInt8.not_lt.mp hnotAbove) (UInt8.not_lt.mp hnotBelow)
      rw [ih htail, Nat.add_lt_add_iff_left]

/-- A signature's scalar is taken for canonical exactly if its number, least significant byte first, is below the group order. -/
theorem signature_scalar_canonical_iff (signature : Bytes 64) :
    signatureScalarIsCanonical signature = true ↔ ofLe (signature.1.drop 32) < ed25519Order := by
  have hlength : (signature.1.drop 32).length = ed25519OrderLe.length := by
    rw [List.length_drop, signature.2]
    rfl
  have horder : ofLe ed25519OrderLe = ed25519Order := by decide
  rw [signatureScalarIsCanonical, List.zip, List.reverse_zipWith hlength]
  refine (scanBelow_zip (by rw [List.length_reverse, List.length_reverse, hlength])).trans ?_
  rw [ofBe, ofBe, List.reverse_reverse, List.reverse_reverse, horder]

section Laws

variable [Ed25519]

theorem relayHints_len_toNat (hints : RelayHints) :
    (UInt8.ofNat hints.nodes.length).toNat = hints.nodes.length :=
  UInt8.toNat_ofNat_of_lt' (lt_of_le_of_lt hints.len_le (by decide))

theorem readRelayHints_inverts : Inverts readRelayHints writeRelayHints fun _ => True := by
  intro input hints rest
  simp only [readRelayHints, bind_ok_iff, branch_ok_iff, throw_ok_iff, and_false, false_or,
    lift_ok_iff, u8_inverts _ _ _ _, times_inverts readNode_inverts _ _ _ _, RelayHints.tryFromNodes_ok_iff, true_and]
  refine ⟨fun h => ?_, fun h => ?_⟩
  · obtain ⟨count, _, rfl, -, nodes, _, ⟨⟨hlength, -⟩, rfl⟩, rfl, rfl⟩ := h
    simp [writeRelayHints, hlength]
  · subst h
    refine ⟨UInt8.ofNat hints.nodes.length, _, rfl, ?_, hints.nodes, rest, ⟨⟨?_, ?_⟩, rfl⟩, rfl, rfl⟩
    · rw [relayHints_len_toNat]
      exact Nat.not_lt.mpr hints.len_le
    · exact (relayHints_len_toNat hints).symm
    · exact fun _ _ => trivial

theorem readOffer_inverts : Inverts readOffer writeOffer fun _ => True := by
  intro input offer rest
  simp only [readOffer, bind_ok_iff, branch_ok_iff, throw_ok_iff, and_false, or_false, pure_ok_iff,
    u8_inverts _ _ _ _, readNode_inverts _ _ _, readInfoHash_inverts _ _ _, readRelayHints_inverts _ _ _, true_and]
  refine ⟨fun h => ?_, fun h => ?_⟩
  · obtain ⟨tag, _, rfl, h | ⟨-, h | ⟨-, h⟩⟩⟩ := h
    · obtain ⟨rfl, node, _, rfl, rfl, rfl⟩ := h
      rfl
    · obtain ⟨rfl, infohash, _, rfl, rfl, rfl⟩ := h
      rfl
    · obtain ⟨rfl, node, _, rfl, hints, _, rfl, rfl, rfl⟩ := h
      simp [writeOffer]
  · subst h
    cases offer with
    | iroh node => exact ⟨offerIroh, _, rfl, .inl ⟨rfl, node, rest, rfl, rfl, rfl⟩⟩
    | bitTorrent infohash =>
      exact ⟨offerBitTorrent, _, rfl, .inr ⟨by decide, .inl ⟨rfl, infohash, rest, rfl, rfl, rfl⟩⟩⟩
    | libp2p node hints =>
      refine ⟨offerLibp2p, _, rfl, .inr ⟨by decide, .inr ⟨by decide, rfl, ?_⟩⟩⟩
      exact ⟨node, writeRelayHints hints ++ rest, by simp, hints, rest, rfl, rfl, rfl⟩

theorem checkProvideInvariants_ok_iff {record : ProviderRecord} :
    checkProvideInvariants record = .ok () ↔
      record.offers.length ≤ maxOffersPerRecord ∧ offersAreCanonical record.offers = true ∧
        checkSelfServe record.provider record.offers = .ok () := by
  simp only [checkProvideInvariants, guard_eq_ok_iff, mapError_eq_ok_iff, Nat.not_lt,
    Bool.not_eq_false]

theorem offers_len_toNat {offers : List TransportOffer} (hcap : offers.length ≤ maxOffersPerRecord) :
    (UInt8.ofNat offers.length).toNat = offers.length :=
  UInt8.toNat_ofNat_of_lt' (lt_of_le_of_lt hcap (by decide))

variable {assertion : ProviderAssertion} {key : ContentKey} {provider : NodeId} {signature : Bytes 64}

theorem readProvide_ok_iff {sequence issuedAt expiry : UInt64} {input rest : List UInt8} :
    readProvide key provider sequence issuedAt expiry signature input = .ok (assertion, rest) ↔
      ∃ content offers, assertion =
          .provide ⟨key, content, provider, offers, sequence, issuedAt, expiry, signature⟩ ∧
        offers.length ≤ maxOffersPerRecord ∧ offersAreCanonical offers = true ∧
        checkSelfServe provider offers = .ok () ∧
        input = content.bytes.1 ++ UInt8.ofNat offers.length :: offers.flatMap writeOffer ++ rest := by
  simp only [readProvide, bind_ok_iff, branch_ok_iff, throw_ok_iff, and_false, false_or,
    lift_ok_iff, pure_ok_iff, u8_inverts _ _ _ _, take_inverts _ _ _ _ _,
    times_inverts readOffer_inverts _ _ _ _, true_and, Bool.not_eq_false]
  refine ⟨fun h => ?_, fun h => ?_⟩
  · obtain ⟨content, _, rfl, count, _, rfl, hcount, offers, _, ⟨⟨hlength, -⟩, rfl⟩, _, _,
      ⟨hserve, rfl⟩, hcanonical, rfl, rfl⟩ := h
    refine ⟨⟨content⟩, offers, rfl, ?_, hcanonical, hserve, ?_⟩
    · rw [hlength]
      exact Nat.not_lt.mp hcount
    · simp [hlength]
  · obtain ⟨content, offers, rfl, hcap, hcanonical, hserve, rfl⟩ := h
    have hcount := offers_len_toNat hcap
    refine ⟨content.bytes, _, List.append_assoc .., UInt8.ofNat offers.length, _, rfl, ?_, offers, rest,
      ⟨⟨hcount.symm, fun _ _ => trivial⟩, rfl⟩, (), rest, ⟨hserve, rfl⟩, hcanonical, rfl, rfl⟩
    rw [hcount]
    exact Nat.not_lt.mpr hcap

def Encodable : ProviderAssertion → Prop
  | .provide record => checkProvideInvariants record = .ok ()
  | .withdraw _ => True

theorem readAssertion_inverts (signature : Bytes 64) :
    Inverts (readAssertion signature) ProviderAssertion.body
      fun assertion => Encodable assertion ∧ assertion.signature = signature := by
  intro input assertion rest
  simp only [readAssertion, bind_ok_iff, branch_ok_iff, throw_ok_iff, and_false, or_false, false_or,
    pure_ok_iff, u16_inverts _ _ _ _, u8_inverts _ _ _ _, u64_inverts _ _ _ _, take_inverts _ _ _ _ _,
    readNode_inverts _ _ _, true_and, ne_eq, Decidable.not_not]
  refine ⟨fun h => ?_, fun h => ?_⟩
  · obtain ⟨version, _, rfl, rfl, kind, _, rfl, key, _, rfl, provider, _, rfl, sequence, _, rfl,
      issuedAt, _, rfl, expiry, _, rfl, h | ⟨-, h⟩⟩ := h
    · obtain ⟨rfl, hprovide⟩ := h
      obtain ⟨content, offers, rfl, hcap, hcanonical, hserve, rfl⟩ := readProvide_ok_iff.mp hprovide
      refine ⟨⟨checkProvideInvariants_ok_iff.mpr ⟨hcap, hcanonical, hserve⟩, rfl⟩, ?_⟩
      simp [ProviderAssertion.body, provideBody, writeHeader]
    obtain ⟨rfl, rfl, rfl⟩ := h
    refine ⟨⟨trivial, rfl⟩, ?_⟩
    simp [ProviderAssertion.body, withdrawBody, writeHeader]
  · obtain ⟨⟨hvalid, rfl⟩, rfl⟩ := h
    cases assertion with
    | provide record =>
      have hchecks := checkProvideInvariants_ok_iff.mp hvalid
      refine ⟨providerRecordSchemaVersion, _, ?_, rfl, kindProvide, _, rfl, record.key.bytes, _, rfl,
        record.provider, _, rfl, record.sequence, _, rfl, record.issuedAt, _, rfl, record.expiry, _,
        rfl, .inl ⟨rfl, readProvide_ok_iff.mpr ⟨record.content, record.offers, rfl, hchecks.1,
          hchecks.2.1, hchecks.2.2, rfl⟩⟩⟩
      simp [ProviderAssertion.body, provideBody, writeHeader]
    | withdraw withdrawal =>
      refine ⟨providerRecordSchemaVersion, _, ?_, rfl, kindWithdraw, _, rfl, withdrawal.key.bytes, _,
        rfl, withdrawal.provider, _, rfl, withdrawal.sequence, _, rfl, withdrawal.issuedAt, _, rfl,
        withdrawal.expiry, rest, rfl, .inr ⟨by decide, rfl, rfl, rfl⟩⟩
      simp [ProviderAssertion.body, withdrawBody, writeHeader]

variable {bytes : List UInt8}

theorem encodeProviderAssertion_ok_iff :
    encodeProviderAssertion assertion = .ok bytes ↔
      Encodable assertion ∧ bytes = assertion.body ++ assertion.signature.1 ∧
        bytes.length ≤ maxProviderRecordBytes := by
  cases assertion with
  | provide record =>
    simp only [encodeProviderAssertion, encodeProviderRecord, bind_eq_ok_iff, pure_eq_ok_iff,
      checkEncodedSize, guard_eq_ok_iff, and_true, Nat.not_lt, Encodable]
    refine ⟨fun h => ?_, fun h => ?_⟩
    · obtain ⟨_, hchecks, _, hsize, rfl⟩ := h
      exact ⟨hchecks, rfl, hsize⟩
    · obtain ⟨hchecks, rfl, hsize⟩ := h
      exact ⟨(), hchecks, (), hsize, rfl⟩
  | withdraw withdrawal =>
    simp only [encodeProviderAssertion, encodeProviderWithdrawal, bind_eq_ok_iff, pure_eq_ok_iff,
      checkEncodedSize, guard_eq_ok_iff, and_true, Nat.not_lt, Encodable, true_and]
    refine ⟨fun h => ?_, fun h => ?_⟩
    · obtain ⟨_, hsize, rfl⟩ := h
      exact ⟨rfl, hsize⟩
    · obtain ⟨rfl, hsize⟩ := h
      exact ⟨(), hsize, rfl⟩

/-- The named provider signed exactly these bytes, with a canonical scalar. -/
def Authentic (assertion : ProviderAssertion) : Prop :=
  signatureScalarIsCanonical assertion.signature = true ∧
    ∃ key, Ed25519.fromBytes assertion.provider.bytes = some key ∧
      Ed25519.verifyStrict key (signingPreimage assertion.body) assertion.signature = true

theorem verify_ok_iff {body : List UInt8} :
    verify provider body signature = .ok () ↔
      signatureScalarIsCanonical signature = true ∧
        ∃ key, Ed25519.fromBytes provider.bytes = some key ∧
          Ed25519.verifyStrict key (signingPreimage body) signature = true := by
  unfold verify
  rw [guard_eq_ok_iff, Bool.not_eq_false]
  cases hkey : Ed25519.fromBytes provider.bytes with
  | none => simp
  | some key => simp

theorem header_le_body (assertion : ProviderAssertion) : bodyHeaderLen ≤ assertion.body.length := by
  cases assertion with
  | provide record =>
    simp only [ProviderAssertion.body, provideBody, List.length_append, length_header]
    omega
  | withdraw withdrawal =>
    simp only [ProviderAssertion.body, withdrawBody, length_header, le_refl]

/-- A byte string is accepted exactly when it encodes an authentic, unexpired assertion about the key. -/
theorem decodeProviderAssertion_ok_iff {now : UInt64} :
    decodeProviderAssertion bytes key now = .ok assertion ↔
      encodeProviderAssertion assertion = .ok bytes ∧ Authentic assertion ∧
        assertion.key = key ∧ now < assertion.expiry := by
  rw [encodeProviderAssertion_ok_iff]
  unfold decodeProviderAssertion
  rw [guard_eq_ok_iff, Nat.not_lt]
  by_cases hlen : bytes.length < bodyHeaderLen + providerSignatureLen
  · rw [dif_pos hlen]
    refine ⟨fun h => (nomatch h.2), fun h => ?_⟩
    have hbody := header_le_body assertion
    have hsignature := assertion.signature.2
    have hbytes := congrArg List.length h.1.2.1
    rw [List.length_append, hsignature] at hbytes
    simp only [providerSignatureLen] at hlen
    omega
  rw [dif_neg hlen]
  simp only [bind_eq_ok_iff, Prod.exists, guard_eq_ok_iff, ne_eq, Decidable.not_not,
    readAssertion_inverts _ _ _ _, Except.ok.injEq, UInt64.not_le]
  refine ⟨fun h => ?_, fun h => ?_⟩
  · obtain ⟨hsize, decoded, _, ⟨⟨hencodable, hsignature⟩, hbody⟩, rfl, ⟨⟩, hverify, hkey, hfresh,
      rfl⟩ := h
    rw [List.append_nil] at hbody
    rw [hbody, ← hsignature] at hverify
    refine ⟨⟨hencodable, ?_, hsize⟩, verify_ok_iff.mp hverify, hkey, hfresh⟩
    rw [← hbody, hsignature]
    exact (List.take_append_drop _ _).symm
  · obtain ⟨⟨hencodable, hbytes, hsize⟩, hauthentic, hkey, hfresh⟩ := h
    have hstart : bytes.length - providerSignatureLen = assertion.body.length := by
      have hsignature := assertion.signature.2
      rw [hbytes, List.length_append, hsignature]
      exact Nat.add_sub_cancel assertion.body.length 64
    have hbody : bytes.take (bytes.length - providerSignatureLen) = assertion.body := by
      rw [hstart, hbytes, List.take_left']
      rfl
    have hsignature : bytes.drop (bytes.length - providerSignatureLen) = assertion.signature.1 := by
      rw [hstart, hbytes, List.drop_left']
      rfl
    refine ⟨hsize, assertion, [], ⟨⟨hencodable, Subtype.ext hsignature.symm⟩, ?_⟩, rfl, (), ?_, hkey,
      hfresh, rfl⟩
    · rw [hbody, List.append_nil]
    · rw [hbody, verify_ok_iff]
      have heq : (⟨bytes.drop (bytes.length - providerSignatureLen), by
          rw [hsignature]; exact assertion.signature.2⟩ : Bytes 64) = assertion.signature :=
        Subtype.ext hsignature
      rw [heq]
      exact hauthentic

/-- The wire form is a bijection between accepted byte strings and authentic assertions. -/
theorem wire_form_canonical :
    (∀ bytes key now assertion, decodeProviderAssertion bytes key now = .ok assertion →
      encodeProviderAssertion assertion = .ok bytes) ∧
    (∀ bytes bytes' key key' now now' assertion,
      decodeProviderAssertion bytes key now = .ok assertion →
      decodeProviderAssertion bytes' key' now' = .ok assertion → bytes = bytes') ∧
    (∀ assertion bytes key now, encodeProviderAssertion assertion = .ok bytes →
      Authentic assertion → assertion.key = key → now < assertion.expiry →
      decodeProviderAssertion bytes key now = .ok assertion) := by
  refine ⟨fun bytes key now assertion h => (decodeProviderAssertion_ok_iff.mp h).1, ?_, ?_⟩
  · intro bytes bytes' key key' now now' assertion h h'
    have hfirst := (decodeProviderAssertion_ok_iff.mp h).1
    have hsecond := (decodeProviderAssertion_ok_iff.mp h').1
    exact Except.ok.inj (hfirst.symm.trans hsecond)
  · intro assertion bytes key now hencode hauthentic hkey hfresh
    exact decodeProviderAssertion_ok_iff.mpr ⟨hencode, hauthentic, hkey, hfresh⟩

end Laws

/-! ### A published vector

The repository's golden vector of a record with two relay hints, under the answers its ed25519 library gives for the keys and the signature in it.
-/

section Golden

def goldenProvider : NodeId :=
  ⟨beBytes 32 0x2152f8d19b791d24453242e15f2eab6cb7cffa7b6a5ed30097960e069881db12, by simp⟩

def goldenRelays : List NodeId :=
  [⟨beBytes 32 0x204040e364c10f2bec9c1fe500a1cd4c247c89d650a01ed7e82caba867877c21, by simp⟩,
   ⟨beBytes 32 0xd04ab232742bb4ab3a1368bd4615e4e6d0224ab71a016baf8520a332c9778737, by simp⟩]

def goldenKey : ContentKey :=
  ⟨beBytes 32 0x4e61db15d59529f33ad8f264c93302500233a84605dc58cb2ac3b8f4a2ed007c, by simp⟩

def goldenSignature : Bytes 64 :=
  ⟨beBytes 64 0x2177f404109fd3c4bd1fd6a992cff4b07b36e868910e4b5859fdc1ba8ebf9841c757741edaae36065ee91ed4124eda31b41d2d42ffe459edddb0a78d2a167902, by simp⟩

def goldenPreimageBody : List UInt8 :=
  beBytes 222
    0x0001004e61db15d59529f33ad8f264c93302500233a84605dc58cb2ac3b8f4a2ed007c2152f8d19b791d24453242e15f2eab6cb7cffa7b6a5ed30097960e069881db120000000000000016000000000000006400000000000003e8aaaaaaaaaaaaaaaaaaaaaaaaaaaaaaaaaaaaaaaaaaaaaaaaaaaaaaaaaaaaaaaa01022152f8d19b791d24453242e15f2eab6cb7cffa7b6a5ed30097960e069881db1202204040e364c10f2bec9c1fe500a1cd4c247c89d650a01ed7e82caba867877c21d04ab232742bb4ab3a1368bd4615e4e6d0224ab71a016baf8520a332c9778737

@[reducible] def goldenScheme : Ed25519 where
  VerifyingKey := NodeId
  fromBytes bytes := if ⟨bytes⟩ ∈ goldenProvider :: goldenRelays then some ⟨bytes⟩ else none
  isWeak _ := false
  verifyStrict key message signature :=
    decide (key = goldenProvider ∧ message = signingPreimage goldenPreimageBody ∧
      signature = goldenSignature)

@[reducible] def goldenKeys : Libp2pKeys where
  PeerId := NodeId
  decEq := inferInstance
  peerIdOfProvider node := if node ∈ goldenProvider :: goldenRelays then some node else none

attribute [local instance] goldenScheme

def goldenHints : RelayHints := ⟨goldenRelays, by decide, by decide +kernel⟩

def goldenContent : Blake3Digest :=
  ⟨beBytes 32 0xaaaaaaaaaaaaaaaaaaaaaaaaaaaaaaaaaaaaaaaaaaaaaaaaaaaaaaaaaaaaaaaa, by simp⟩

def goldenHolder : ProviderRecord :=
  ⟨goldenKey, goldenContent, goldenProvider, [.libp2p goldenProvider goldenHints], 22, 100, 1000,
    goldenSignature⟩

def goldenAssertion : ProviderAssertion := .provide goldenHolder

theorem wire_form_canonical_golden :
    decodeProviderAssertion (goldenPreimageBody ++ goldenSignature.1) goldenKey 999 =
        .ok goldenAssertion ∧
      encodeProviderAssertion goldenAssertion = .ok (goldenPreimageBody ++ goldenSignature.1) := by
  have hdecode : decodeProviderAssertion (goldenPreimageBody ++ goldenSignature.1) goldenKey 999 =
      .ok goldenAssertion := by
    refine wire_form_canonical.2.2 goldenAssertion _ goldenKey 999 (by decide +kernel) ?_ rfl (by decide)
    exact ⟨by decide +kernel, goldenProvider, if_pos List.mem_cons_self, by decide +kernel⟩
  exact ⟨hdecode, wire_form_canonical.1 _ _ _ _ hdecode⟩

end Golden

end NixP2p
