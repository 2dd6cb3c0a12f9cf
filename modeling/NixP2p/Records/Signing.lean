import NixP2p.Records.Canonical

/-!
# What a signature covers

The bytes a provider signs are the domain tag and the body. They determine the assertion: the header has a fixed width and carries the kind, the count byte says how many offers follow, and each offer is self-delimiting. None of this needs the offers to be in canonical order.
-/

namespace NixP2p

open Wire

section Injectivity

variable [Ed25519]

namespace ProviderAssertion

def signingBytes : ProviderAssertion → List UInt8
  | provide record => providerRecordSigningBytes record
  | withdraw withdrawal => providerWithdrawalSigningBytes withdrawal

def withSignature (signature : Bytes 64) : ProviderAssertion → ProviderAssertion
  | provide record => provide { record with signature }
  | withdraw withdrawal => withdraw { withdrawal with signature }

def WithinOfferCap : ProviderAssertion → Prop
  | provide record => record.offers.length ≤ maxOffersPerRecord
  | withdraw _ => True

theorem withSignature_signature (assertion : ProviderAssertion) :
    assertion.withSignature assertion.signature = assertion := by
  cases assertion <;> rfl

theorem signingBytes_eq (assertion : ProviderAssertion) :
    assertion.signingBytes = signingPreimage assertion.body := by
  cases assertion <;> rfl

end ProviderAssertion

theorem withinOfferCap_of_encodable {assertion : ProviderAssertion} (h : Encodable assertion) :
    assertion.WithinOfferCap := by
  cases assertion with
  | provide record => exact (checkProvideInvariants_ok_iff.mp h).1
  | withdraw withdrawal => trivial

variable {rest rest' : List UInt8}

omit [Ed25519] in
theorem bytes_append_inj {n : Nat} {left right : Bytes n} (h : left.1 ++ rest = right.1 ++ rest') :
    left = right ∧ rest = rest' :=
  (take_inverts RecordDecodeError.truncated n).append_inj trivial trivial h

omit [Ed25519] in
theorem u64Be_append_inj {left right : UInt64} (h : u64Be left ++ rest = u64Be right ++ rest') :
    left = right ∧ rest = rest' :=
  (u64_inverts RecordDecodeError.truncated).append_inj trivial trivial h

omit [Ed25519] in
/-- The header has a fixed layout, so what follows it starts at the same place for both kinds. -/
theorem writeHeader_append_inj {kind kind' : UInt8} {key key' : ContentKey} {provider provider' : NodeId}
    {sequence sequence' issuedAt issuedAt' expiry expiry' : UInt64}
    (h : writeHeader kind key provider sequence issuedAt expiry ++ rest = writeHeader kind' key' provider' sequence' issuedAt' expiry' ++ rest') :
    kind = kind' ∧ key = key' ∧ provider = provider' ∧ sequence = sequence' ∧
      issuedAt = issuedAt' ∧ expiry = expiry' ∧ rest = rest' := by
  obtain ⟨key⟩ := key
  obtain ⟨key'⟩ := key'
  obtain ⟨provider⟩ := provider
  obtain ⟨provider'⟩ := provider'
  simp only [writeHeader, List.append_assoc] at h
  obtain ⟨hkind, h⟩ := List.cons.inj (List.append_cancel_left h)
  obtain ⟨hkey, h⟩ := bytes_append_inj h
  obtain ⟨hprovider, h⟩ := bytes_append_inj h
  obtain ⟨hsequence, h⟩ := u64Be_append_inj h
  obtain ⟨hissuedAt, h⟩ := u64Be_append_inj h
  obtain ⟨hexpiry, h⟩ := u64Be_append_inj h
  exact ⟨hkind, congrArg _ hkey, congrArg _ hprovider, hsequence, hissuedAt, hexpiry, h⟩

/-- A counted list of offers is determined by its bytes, in whatever order the offers stand. -/
theorem writeOffers_inj {offers offers' : List TransportOffer} (hcap : offers.length ≤ maxOffersPerRecord)
    (hcap' : offers'.length ≤ maxOffersPerRecord)
    (h : UInt8.ofNat offers.length :: offers.flatMap writeOffer =
      UInt8.ofNat offers'.length :: offers'.flatMap writeOffer) : offers = offers' := by
  obtain ⟨hcount, hoffers⟩ := List.cons.inj h
  have hlength : offers.length = offers'.length := by
    rw [← offers_len_toNat hcap, hcount, offers_len_toNat hcap']
  have hwritten : offers.flatMap writeOffer ++ [] = offers'.flatMap writeOffer ++ [] := by
    rw [hoffers]
  exact ((times_inverts readOffer_inverts offers'.length).append_inj ⟨hlength, fun _ _ => trivial⟩
    ⟨rfl, fun _ _ => trivial⟩ hwritten).1

theorem provideBody_inj {record record' : ProviderRecord}
    (hcap : record.offers.length ≤ maxOffersPerRecord)
    (hcap' : record'.offers.length ≤ maxOffersPerRecord)
    (h : provideBody record = provideBody record') :
    { record with signature := record'.signature } = record' := by
  obtain ⟨key, ⟨content⟩, provider, offers, sequence, issuedAt, expiry, signature⟩ := record
  obtain ⟨key', ⟨content'⟩, provider', offers', sequence', issuedAt', expiry', signature'⟩ := record'
  simp only [provideBody, List.append_assoc] at h
  obtain ⟨-, hkey, hprovider, hsequence, hissuedAt, hexpiry, hpayload⟩ := writeHeader_append_inj h
  obtain ⟨hcontent, hcounted⟩ := bytes_append_inj hpayload
  have hoffers := writeOffers_inj hcap hcap' hcounted
  subst hkey hprovider hsequence hissuedAt hexpiry hcontent hoffers
  rfl

omit [Ed25519] in
theorem withdrawBody_inj {withdrawal withdrawal' : ProviderWithdrawal}
    (h : withdrawBody withdrawal = withdrawBody withdrawal') :
    { withdrawal with signature := withdrawal'.signature } = withdrawal' := by
  obtain ⟨key, provider, sequence, issuedAt, expiry, signature⟩ := withdrawal
  obtain ⟨key', provider', sequence', issuedAt', expiry', signature'⟩ := withdrawal'
  obtain ⟨-, rfl, rfl, rfl, rfl, rfl, -⟩ :=
    writeHeader_append_inj (congrArg (· ++ ([] : List UInt8)) h)
  rfl

theorem provideBody_ne_withdrawBody (record : ProviderRecord) (withdrawal : ProviderWithdrawal) :
    provideBody record ≠ withdrawBody withdrawal := by
  intro h
  have hheaders : writeHeader kindProvide record.key record.provider record.sequence record.issuedAt
      record.expiry ++ (record.content.bytes.1 ++
        UInt8.ofNat record.offers.length :: record.offers.flatMap writeOffer) =
      withdrawBody withdrawal ++ [] := by
    rw [List.append_nil, ← h]
    simp only [provideBody, List.append_assoc, List.singleton_append]
  exact absurd (writeHeader_append_inj hheaders).1 (by decide)

theorem withSignature_eq_of_signingBytes_eq {left right : ProviderAssertion}
    (hleft : left.WithinOfferCap) (hright : right.WithinOfferCap)
    (h : left.signingBytes = right.signingBytes) : left.withSignature right.signature = right := by
  rw [ProviderAssertion.signingBytes_eq, ProviderAssertion.signingBytes_eq] at h
  have hbody := List.append_cancel_left h
  cases left with
  | provide record =>
    cases right with
    | provide record' => exact congrArg ProviderAssertion.provide (provideBody_inj hleft hright hbody)
    | withdraw withdrawal => exact absurd hbody (provideBody_ne_withdrawBody record withdrawal)
  | withdraw withdrawal =>
    cases right with
    | provide record => exact absurd hbody.symm (provideBody_ne_withdrawBody record withdrawal)
    | withdraw withdrawal' => exact congrArg ProviderAssertion.withdraw (withdrawBody_inj hbody)

/-- Signing bytes determine the kind and every field but the signature, so a signature is accepted with no other assertion. -/
theorem signing_bytes_injective :
    (∀ left right : ProviderAssertion, left.WithinOfferCap → right.WithinOfferCap →
      left.signingBytes = right.signingBytes → left.withSignature right.signature = right) ∧
    (∀ (signed replayed : ProviderAssertion) bytes key now, signed.WithinOfferCap →
      (∀ verifyingKey message, Ed25519.verifyStrict verifyingKey message signed.signature = true →
        message = signed.signingBytes) →
      decodeProviderAssertion bytes key now = .ok replayed →
      replayed.signature = signed.signature → replayed = signed) := by
  refine ⟨fun left right => withSignature_eq_of_signingBytes_eq, ?_⟩
  intro signed replayed bytes key now hcap hover hdecode hsignature
  obtain ⟨hencode, ⟨-, verifyingKey, -, hverify⟩, -⟩ := decodeProviderAssertion_ok_iff.mp hdecode
  rw [hsignature] at hverify
  have hbytes : signed.signingBytes = replayed.signingBytes := by
    rw [replayed.signingBytes_eq]
    exact (hover verifyingKey _ hverify).symm
  have hreplayed :=
    withinOfferCap_of_encodable (encodeProviderAssertion_ok_iff.mp hencode).1
  rw [← withSignature_eq_of_signingBytes_eq hcap hreplayed hbytes, hsignature]
  exact signed.withSignature_signature

end Injectivity

/-! ### Offers out of order

The published vector again, and a record that lists an iroh offer after the libp2p one, which the decoder refuses.
-/

section Unsorted

attribute [local instance] goldenScheme

def unsortedHolder (signature : Bytes 64) : ProviderRecord :=
  { goldenHolder with
    offers := [.libp2p goldenProvider goldenHints, .iroh goldenProvider]
    signature }

theorem signing_bytes_injective_unsorted :
    offersAreCanonical (unsortedHolder goldenSignature).offers = false ∧
      (ProviderAssertion.provide (unsortedHolder ⟨List.replicate 64 0, by simp⟩)).withSignature
        goldenSignature = .provide (unsortedHolder goldenSignature) ∧
      ∀ replayed, decodeProviderAssertion (goldenPreimageBody ++ goldenSignature.1) goldenKey 999 =
        .ok replayed → replayed.signature = goldenSignature → replayed = goldenAssertion := by
  refine ⟨by decide +kernel, ?_, ?_⟩
  · exact signing_bytes_injective.1 _ (.provide (unsortedHolder goldenSignature)) (by decide : 2 ≤ 4)
      (by decide : 2 ≤ 4) rfl
  · intro replayed hdecode hsignature
    refine signing_bytes_injective.2 goldenAssertion replayed _ _ _ (by decide : 1 ≤ 4) ?_ hdecode
      hsignature
    intro verifyingKey message hverify
    have hmessage := (of_decide_eq_true hverify).2.1
    rw [hmessage]
    decide +kernel

end Unsorted

end NixP2p
