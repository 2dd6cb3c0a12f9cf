import Mathlib.Data.List.Sort
import NixP2p.Records.Signing

/-!
# Signing a record

The signer puts its own identity into a record, sorts the offers by their wire encoding and signs the result, and panics where the decoder would refuse. Since an offer is determined by its encoding, what the signer returns is decoded to the same record, and the same for every order of the input.
-/

namespace NixP2p

open Wire Fallible

section Signer

variable [Ed25519]

/-- A deterministic signer whose signatures its own verifying key accepts. -/
class Ed25519Signer where
  SigningKey : Type
  verifyingKey : SigningKey → Bytes 32
  sign : SigningKey → List UInt8 → Bytes 64
  canonical : ∀ key message, signatureScalarIsCanonical (sign key message) = true
  verifies : ∀ key message, ∃ parsed, Ed25519.fromBytes (verifyingKey key) = some parsed ∧
    Ed25519.verifyStrict parsed message (sign key message) = true

def unsetProvider : NodeId := ⟨beArray 32 0⟩

/-- The assertions about single offers; they count the libp2p offers, and there is no result where one fails. -/
def assertOffers (provider : NodeId) : Nat → List TransportOffer → Option Nat
  | count, [] => some count
  | count, .iroh node :: offers => if node = provider then assertOffers provider count offers else none
  | count, .libp2p node relayHints :: offers =>
    if node = provider ∧ provider ∉ relayHints.nodes then assertOffers provider (count + 1) offers else none
  | count, .bitTorrent _ :: offers => assertOffers provider count offers

def OfferLe (left right : TransportOffer) : Prop := ¬ writeOffer right < writeOffer left

instance (left right : TransportOffer) : Decidable (OfferLe left right) :=
  inferInstanceAs (Decidable (¬ writeOffer right < writeOffer left))

/-- There is no result where the source panics. A release build leaves the first assertion out. -/
def signProviderRecord [Ed25519Signer] (debugAssertions : Bool) (signingKey : Ed25519Signer.SigningKey)
    (record : ProviderRecord) : Option ProviderRecord :=
  let provider : NodeId := ⟨Ed25519Signer.verifyingKey signingKey⟩
  if debugAssertions = true ∧ record.provider ≠ unsetProvider ∧ record.provider ≠ provider then none
  else
    match assertOffers provider 0 record.offers with
    | none => none
    | some libp2pOffers =>
      if 1 < libp2pOffers then none
      else
        let offers := record.offers.insertionSort OfferLe
        if offersAreCanonical offers = false then none
        -- The count of the offers has to fit its byte in the signing bytes.
        else if maxOffersPerRecord < offers.length then none
        else
          let signed : ProviderRecord :=
            { record with provider, offers, signature := beArray 64 0 }
          some { signed with signature := Ed25519Signer.sign signingKey (providerRecordSigningBytes signed) }

theorem writeOffer_injective {left right : TransportOffer} (h : writeOffer left = writeOffer right) : left = right :=
  (readOffer_inverts.append_inj trivial trivial (congrArg (· ++ ([] : List UInt8)) h)).1

instance : Std.Total OfferLe where
  total left right := (List.le_total (writeOffer left) (writeOffer right))

instance : IsTrans TransportOffer OfferLe where
  trans _ _ _ h h' := List.le_trans h h'

instance : Std.Antisymm OfferLe where
  antisymm _ _ h h' := writeOffer_injective (List.le_antisymm h h')

variable {offers offers' : List TransportOffer}

theorem insertionSort_eq_of_perm (h : offers.Perm offers') :
    offers.insertionSort OfferLe = offers'.insertionSort OfferLe := by
  have hperm := ((List.perm_insertionSort OfferLe offers).trans h).trans (List.perm_insertionSort OfferLe offers').symm
  exact hperm.eq_of_pairwise' (List.pairwise_insertionSort OfferLe offers) (List.pairwise_insertionSort OfferLe offers')

def selfServed (provider : NodeId) : TransportOffer → Bool
  | .iroh node => decide (node = provider)
  | .bitTorrent _ => true
  | .libp2p node relayHints => decide (node = provider ∧ provider ∉ relayHints.nodes)

theorem assertOffers_eq (provider : NodeId) (count : Nat) (offers : List TransportOffer) :
    assertOffers provider count offers =
      if offers.all (selfServed provider) then
        some (count + offers.countP fun offer => decide (offer.tag = .libp2p)) else none := by
  induction offers generalizing count with
  | nil => rfl
  | cons offer offers ih =>
    rw [List.all_cons, List.countP_cons]
    cases offer with
    | iroh node =>
      by_cases hnode : node = provider
      · simp [assertOffers, selfServed, hnode, ih, TransportOffer.tag]
      · simp [assertOffers, selfServed, hnode]
    | bitTorrent infohash => simp [assertOffers, selfServed, ih, TransportOffer.tag]
    | libp2p node relayHints =>
      by_cases hself : node = provider ∧ provider ∉ relayHints.nodes
      · have hserved : selfServed provider (.libp2p node relayHints) = true := decide_eq_true hself
        rw [assertOffers, if_pos hself, ih, hserved, Bool.true_and, Nat.add_assoc, Nat.add_comm 1]
        rfl
      · simp [assertOffers, selfServed, hself]

theorem scanOffers_of_assertOffers {provider : NodeId} {count total : Nat}
    (h : assertOffers provider count offers = some total) : scanOffers provider count offers = .ok total := by
  induction offers generalizing count with
  | nil => exact congrArg Except.ok (Option.some.inj h)
  | cons offer offers ih =>
    cases offer with
    | iroh node =>
      unfold assertOffers at h
      split_ifs at h with hnode
      rw [scanOffers, if_neg (not_not.mpr hnode)]
      exact ih h
    | bitTorrent infohash => exact ih h
    | libp2p node relayHints =>
      unfold assertOffers at h
      split_ifs at h with hself
      rw [scanOffers, if_neg (not_not.mpr hself.1), if_neg hself.2]
      exact ih h

theorem assertOffers_perm {provider : NodeId} (h : offers.Perm offers') (count : Nat) :
    assertOffers provider count offers = assertOffers provider count offers' := by
  rw [assertOffers_eq, assertOffers_eq, h.all_eq, h.countP_eq]

theorem length_writeOffer (offer : TransportOffer) :
    (writeOffer offer).length ≤ 34 + if offer.tag = .libp2p then 64 else 0 := by
  cases offer with
  | iroh node =>
    have hnode := node.bytes.2
    simp [writeOffer, TransportOffer.tag, hnode]
  | bitTorrent infohash =>
    cases infohash with
    | v1 hash => simp [writeOffer, writeInfoHash, TransportOffer.tag, hash.2]
    | v2 hash => simp [writeOffer, writeInfoHash, TransportOffer.tag, hash.2]
  | libp2p node relayHints =>
    have hnode := node.bytes.2
    have hlen := relayHints.len_le
    have hrelays : (relayHints.nodes.flatMap fun relay => relay.bytes.1).length = relayHints.nodes.length * 32 := by
      induction relayHints.nodes with
      | nil => rfl
      | cons relay relays ih =>
        have hrelay := relay.bytes.2
        rw [List.flatMap_cons, List.length_append, hrelay, ih, List.length_cons]
        omega
    simp only [writeOffer, writeRelayHints, TransportOffer.tag, List.length_cons, List.length_append, hnode, hrelays,
      if_true]
    simp only [maxLibp2pRelayHints] at hlen
    omega

theorem length_flatMap_writeOffer (offers : List TransportOffer) :
    (offers.flatMap writeOffer).length ≤
      34 * offers.length + 64 * offers.countP fun offer => decide (offer.tag = .libp2p) := by
  induction offers with
  | nil => exact Nat.zero_le _
  | cons offer offers ih =>
    have hoffer := length_writeOffer offer
    rw [List.flatMap_cons, List.length_append, List.length_cons, List.countP_cons]
    by_cases htag : offer.tag = .libp2p
    · simp only [htag, if_true, decide_true] at hoffer ⊢
      omega
    simp only [htag, if_false, decide_false] at hoffer ⊢
    simp only [Bool.false_eq_true, if_false]
    omega

variable [Ed25519Signer] {debugAssertions : Bool} {signingKey : Ed25519Signer.SigningKey} {record signed : ProviderRecord}

/-- What the signer returns passes the encoder's checks and carries a signature over its own bytes. -/
theorem signProviderRecord_eq_some (h : signProviderRecord debugAssertions signingKey record = some signed) :
    checkProvideInvariants signed = .ok () ∧ Authentic (.provide signed) ∧
      (provideBody signed).length + 64 ≤ maxProviderRecordBytes := by
  unfold signProviderRecord at h
  dsimp only at h
  split at h
  · cases h
  split at h
  · cases h
  rename_i libp2pOffers hassert
  split_ifs at h with hcount hcanonical hcap
  obtain rfl := Option.some.inj h
  have hperm := List.perm_insertionSort OfferLe record.offers
  rw [← assertOffers_perm hperm] at hassert
  have hserve : checkSelfServe ⟨Ed25519Signer.verifyingKey signingKey⟩ (record.offers.insertionSort OfferLe) = .ok () := by
    simp only [checkSelfServe, scanOffers_of_assertOffers hassert]
    exact if_neg hcount
  have hlibp2p : (record.offers.insertionSort OfferLe).countP (fun offer => decide (offer.tag = .libp2p)) ≤ 1 := by
    rw [assertOffers_eq] at hassert
    split_ifs at hassert
    have htotal := Option.some.inj hassert
    omega
  refine ⟨checkProvideInvariants_ok_iff.mpr ⟨not_lt.mp hcap, Bool.eq_true_of_not_eq_false hcanonical, hserve⟩,
    ⟨Ed25519Signer.canonical signingKey _, Ed25519Signer.verifies signingKey _⟩, ?_⟩
  have hoffers := length_flatMap_writeOffer (record.offers.insertionSort OfferLe)
  have hcontent := record.content.bytes.2
  simp only [provideBody, List.length_append, length_header, List.length_singleton, bodyHeaderLen, hcontent,
    maxProviderRecordBytes, maxOffersPerRecord] at hcap ⊢
  omega

/-- The signer, the encoder and the decoder agree, and the order of the offers given to the signer does not matter. -/
theorem signed_record_round_trip (debugAssertions : Bool) (signingKey : Ed25519Signer.SigningKey)
    (record : ProviderRecord) :
    (∀ signed, signProviderRecord debugAssertions signingKey record = some signed →
      ∃ bytes, encodeProviderRecord signed = .ok bytes ∧
        ∀ now, now < signed.expiry → decodeProviderAssertion bytes signed.key now = .ok (.provide signed)) ∧
    ∀ offers, offers.Perm record.offers →
      signProviderRecord debugAssertions signingKey { record with offers } =
        signProviderRecord debugAssertions signingKey record := by
  refine ⟨fun signed hsigned => ?_, fun offers hperm => ?_⟩
  · obtain ⟨hchecks, hauthentic, hsize⟩ := signProviderRecord_eq_some hsigned
    have hencode : encodeProviderAssertion (.provide signed) = .ok (provideBody signed ++ signed.signature.1) := by
      refine encodeProviderAssertion_ok_iff.mpr ⟨hchecks, rfl, ?_⟩
      rw [List.length_append, signed.signature.2]
      exact hsize
    exact ⟨_, hencode, fun now hfresh => decodeProviderAssertion_ok_iff.mpr ⟨hencode, hauthentic, rfl, hfresh⟩⟩
  · simp only [signProviderRecord, assertOffers_perm hperm, insertionSort_eq_of_perm hperm]

end Signer

end NixP2p
