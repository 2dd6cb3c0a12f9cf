import NixP2p.Iroh.RecordAnswers

/-!
# Node records round trip

The packet of a record is read as that record, and a record that was read makes the same attributes again, but for two things. The text of an address leaves out the flow label, so an address with one comes back without it. And the reader joins the strings of an answer, so that it accepts a relay that is too long for the one string the writer can use.
-/

namespace NixP2p.IrohRecord

open Fallible Wire

section Signed

variable [Ed25519] [Pkarr] {signed : SignedPacket}

theorem length_of_fromBytes {bytes : List UInt8} (h : SignedPacket.fromBytes bytes = .ok signed) :
    signed.encodedPacket.length + pkarrHeaderBytes ≤ SignedPacket.maxBytes := by
  unfold SignedPacket.fromBytes at h
  split_ifs at h with hshort hlong
  simp only at h
  split at h
  · cases h
  split_ifs at h
  obtain rfl := Except.ok.inj h
  have hheader : pkarrHeaderBytes = 104 := rfl
  rw [List.length_drop]
  omega

theorem fromBytes_asBytes {parsed : Ed25519.VerifyingKey}
    (hlength : signed.encodedPacket.length + pkarrHeaderBytes ≤ SignedPacket.maxBytes)
    (hkey : Ed25519.fromBytes signed.publicKey = some parsed)
    (hverifies : Ed25519.verifyStrict parsed (signable signed.timestamp signed.encodedPacket) signed.signature = true) :
    SignedPacket.fromBytes signed.asBytes = .ok signed := by
  obtain ⟨⟨key, hkeyLength⟩, ⟨signature, hsignatureLength⟩, timestamp, dns⟩ := signed
  have hbytes : SignedPacket.asBytes ⟨⟨key, hkeyLength⟩, ⟨signature, hsignatureLength⟩, timestamp, dns⟩ =
      key ++ (signature ++ (beBytes 8 timestamp.toNat ++ dns)) := by
    simp only [SignedPacket.asBytes, List.append_assoc]
  have htimestamp : (beBytes 8 timestamp.toNat).length = 8 := length_beBytes 8 _
  have hafterKey : (key ++ (signature ++ (beBytes 8 timestamp.toNat ++ dns))).drop 32 =
      signature ++ (beBytes 8 timestamp.toNat ++ dns) := List.drop_left' hkeyLength
  have hafterSignature : (key ++ (signature ++ (beBytes 8 timestamp.toNat ++ dns))).drop 96 =
      beBytes 8 timestamp.toNat ++ dns := by
    rw [← List.append_assoc]
    exact List.drop_left' (by rw [List.length_append, hkeyLength, hsignatureLength])
  have hafterTimestamp : (key ++ (signature ++ (beBytes 8 timestamp.toNat ++ dns))).drop 104 = dns := by
    rw [← List.append_assoc, ← List.append_assoc]
    exact List.drop_left' (by rw [List.length_append, List.length_append, hkeyLength, hsignatureLength, htimestamp])
  have hnumber : UInt64.ofNat (ofBe (beBytes 8 timestamp.toNat)) = timestamp := by
    rw [ofBe_beBytes timestamp.toNat_lt, UInt64.ofNat_toNat]
  have htotal : (key ++ (signature ++ (beBytes 8 timestamp.toNat ++ dns))).length = dns.length + pkarrHeaderBytes := by
    simp only [List.length_append, hkeyLength, hsignatureLength, htimestamp, pkarrHeaderBytes]
    omega
  change dns.length + pkarrHeaderBytes ≤ SignedPacket.maxBytes at hlength
  rw [hbytes, SignedPacket.fromBytes, dif_neg (by omega), if_neg (by omega)]
  simp only [List.take_left' hkeyLength, hafterKey, List.take_left' hsignatureLength, hafterSignature,
    List.take_left' htimestamp, hafterTimestamp, hnumber, hkey]
  exact if_pos hverifies

variable [Ed25519Signer]

def signedBy (secretKey : Ed25519Signer.SigningKey) (sequence : UInt64) (dns : List UInt8) : SignedPacket :=
  ⟨Ed25519Signer.verifyingKey secretKey, Ed25519Signer.sign secretKey (signable sequence dns), sequence, dns⟩

theorem fromBytes_signedBy {secretKey : Ed25519Signer.SigningKey} {sequence : UInt64} {dns : List UInt8}
    (hlength : dns.length + pkarrHeaderBytes ≤ SignedPacket.maxBytes) :
    SignedPacket.fromBytes (signedBy secretKey sequence dns).asBytes = .ok (signedBy secretKey sequence dns) := by
  obtain ⟨parsed, hkey, hverifies⟩ := Ed25519Signer.verifies secretKey (signable sequence dns)
  exact fromBytes_asBytes hlength hkey hverifies

end Signed

def requested [Ed25519] [Ed25519Signer] (secretKey : Ed25519Signer.SigningKey) (label recipient : List Char) (ttlSeconds : UInt32)
    (sequence expiresUnixMicros : UInt64) (state : PublicationState) (locations : List NodeLocation) : NodeRecord :=
  ⟨⟨Ed25519Signer.verifyingKey secretKey⟩, label, recipient, ttlSeconds, sequence, expiresUnixMicros, state,
    canonicalLocations locations⟩

theorem requested_of_proper [Ed25519] [Ed25519Signer] [SocketText] [UrlLibrary] {record : NodeRecord}
    {secretKey : Ed25519Signer.SigningKey} (h : record.Proper)
    (hkey : record.nodeId = ⟨Ed25519Signer.verifyingKey secretKey⟩) :
    requested secretKey record.label record.recipient record.ttlSeconds record.sequence record.expiresUnixMicros
      record.state record.locations = record := by
  rw [requested, canonicalLocations_of_ascending h.ascending, ← hkey]

section Codec

variable [SimpleDns] {signed : SignedPacket}

theorem openPacket_eq_ok_iff {packet : Packet} :
    openPacket signed = .ok packet ↔
      12 ≤ signed.encodedPacket.length ∧ signed.encodedPacket.take 4 = [0, 0, 0x80, 0] ∧
        SimpleDns.parse signed.encodedPacket = .ok packet ∧ SimpleDns.build packet = .ok signed.encodedPacket ∧
        packet = ⟨[], packet.answers, [], []⟩ := by
  obtain ⟨questions, answers, nameServers, additionalRecords⟩ := packet
  simp only [openPacket, guard_eq_ok_iff, bind_eq_ok_iff, mapError_eq_ok_iff, not_or, Nat.not_lt, not_not,
    Except.ok.injEq, Bool.not_eq_false, List.isEmpty_iff, DnsPacket.mk.injEq, true_and]
  constructor
  · rintro ⟨⟨hlong, hheader⟩, packet, hparse, _, hbuild, rfl, ⟨hquestions, hservers, hadditional⟩, rfl⟩
    exact ⟨hlong, hheader, hparse, hbuild, hquestions, hservers, hadditional⟩
  · rintro ⟨hlong, hheader, hparse, hbuild, rfl, rfl, rfl⟩
    exact ⟨⟨hlong, hheader⟩, _, hparse, _, hbuild, rfl, ⟨rfl, rfl, rfl⟩, rfl⟩

variable {record : NodeRecord} {sequence : UInt64}

theorem openPacket_signedBy [SocketText] [Ed25519] [Ed25519Signer] {answers : List Answer}
    (hwrites : Writes record answers) {secretKey : Ed25519Signer.SigningKey} {dns : List UInt8}
    (hbuild : SimpleDns.build ⟨[], answers, [], []⟩ = .ok dns) :
    openPacket (signedBy secretKey sequence dns) = .ok ⟨[], answers, [], []⟩ := by
  have hsingle := hwrites.spec.2.1
  obtain ⟨hlong, hheader⟩ := SimpleDns.build_header answers dns hsingle hbuild
  exact openPacket_eq_ok_iff.mpr ⟨hlong, hheader, SimpleDns.parse_build answers dns hsingle hbuild, hbuild, rfl⟩

variable [SocketText] [UrlLibrary] [Ed25519] [Pkarr]

theorem decodeNodeRecord_eq_ok_iff {bytes : List UInt8} :
    decodeNodeRecord bytes = .ok record ↔
      ∃ signed answers, SignedPacket.fromBytes bytes = .ok signed ∧ openPacket signed = .ok ⟨[], answers, [], []⟩ ∧
        record.Proper ∧ record.Flowless ∧ record.nodeId = ⟨signed.publicKey⟩ ∧ record.sequence = signed.timestamp ∧
        Shows record answers := by
  simp only [decodeNodeRecord, bind_eq_ok_iff, mapError_eq_ok_iff, foldlM_takeAnswer_eq_ok_iff]
  constructor
  · rintro ⟨signed, hsigned, packet, hpacket, hreading⟩
    have hanswers := (openPacket_eq_ok_iff.mp hpacket).2.2.2.2
    rw [hanswers] at hpacket
    exact ⟨signed, packet.answers, hsigned, hpacket, exists_reading_iff.mp hreading⟩
  · rintro ⟨signed, answers, hsigned, hpacket, hreads⟩
    exact ⟨signed, hsigned, _, hpacket, exists_reading_iff.mpr hreads⟩

variable [Ed25519Signer]

theorem encodeNodeRecord_eq_ok_iff {secretKey : Ed25519Signer.SigningKey} {label recipient : List Char}
    {ttlSeconds : UInt32} {expiresUnixMicros : UInt64} {state : PublicationState} {locations : List NodeLocation} :
    encodeNodeRecord secretKey label recipient ttlSeconds sequence expiresUnixMicros state locations = .ok signed ↔
      (requested secretKey label recipient ttlSeconds sequence expiresUnixMicros state locations).Proper ∧
        ∃ answers dns,
          Writes (requested secretKey label recipient ttlSeconds sequence expiresUnixMicros state locations) answers ∧
          SimpleDns.build ⟨[], answers, [], []⟩ = .ok dns ∧
          dns.length + pkarrHeaderBytes ≤ SignedPacket.maxBytes ∧ signed = signedBy secretKey sequence dns := by
  simp only [encodeNodeRecord, guard_eq_ok_iff, bind_eq_ok_iff, mapError_eq_ok_iff, not_not, Nat.not_lt, writes_iff]
  constructor
  · rintro ⟨_, hlabel, _, hrecipient, httl, expected, hexpiry, rfl, hfew, _, hvalid, _, hstate, placed, hplaced, described,
      hdescribed, dns, hbuild, hlength, hsigned⟩
    have hascending := ascending_canonicalLocations locations
    refine ⟨⟨hlabel, hrecipient, httl, hexpiry, hascending, hfew, forM_eq_ok_iff.mp hvalid,
      checkState_eq_ok_iff.mp hstate⟩, _, dns, ⟨placed, described, hplaced, hdescribed, rfl⟩, hbuild, hlength, ?_⟩
    have hself : SignedPacket.fromBytes (signedBy secretKey sequence dns).asBytes = _ := fromBytes_signedBy hlength
    exact Except.ok.inj (hsigned.symm.trans hself)
  · rintro ⟨hproper, _, dns, ⟨placed, described, hplaced, hdescribed, rfl⟩, hbuild, hlength, rfl⟩
    exact ⟨(), hproper.label, (), hproper.recipient, hproper.ttl, _, hproper.expiry, rfl, hproper.few, (),
      forM_eq_ok_iff.mpr hproper.valid, (), checkState_eq_ok_iff.mpr hproper.state, placed, hplaced, described, hdescribed,
      dns, hbuild, hlength, fromBytes_signedBy hlength⟩

def attributeStrings (signed : SignedPacket) : Except String (List (Option (List Char × List UInt8))) :=
  (SimpleDns.parse signed.encodedPacket).map fun packet =>
    packet.answers.map fun answer => answer.txt? SimpleDns.nameText

/-- The packet of an accepted record is read as that record with its locations in order, if no address has a flow label, and a record that was read is accepted again, if no relay is too long for one string. -/
theorem node_record_round_trip :
    (∀ (secretKey : Ed25519Signer.SigningKey) (label recipient : List Char) (ttlSeconds : UInt32)
      (sequence expiresUnixMicros : UInt64) (state : PublicationState) (locations : List NodeLocation)
      (packet : SignedPacket),
      encodeNodeRecord secretKey label recipient ttlSeconds sequence expiresUnixMicros state locations = .ok packet →
      (decodeNodeRecord packet.asBytes = .ok
          { nodeId := ⟨Ed25519Signer.verifyingKey secretKey⟩
            label, recipient, ttlSeconds, sequence, expiresUnixMicros, state
            locations := canonicalLocations locations } ↔
        ∀ ip port flowinfo scopeId, .direct (.v6 ip port flowinfo scopeId) ∈ locations → flowinfo = 0)) ∧
    ∀ (bytes : List UInt8) (signed : SignedPacket) (record : NodeRecord) (secretKey : Ed25519Signer.SigningKey),
      SignedPacket.fromBytes bytes = .ok signed → decodeNodeRecord bytes = .ok record →
      record.nodeId = ⟨Ed25519Signer.verifyingKey secretKey⟩ →
      ((∃ again, encodeNodeRecord secretKey record.label record.recipient record.ttlSeconds record.sequence
            record.expiresUnixMicros record.state record.locations = .ok again ∧
          attributeStrings again = attributeStrings signed) ↔
        ∀ url, .relay url ∈ record.locations → (Text.toUtf8 url).length ≤ 249) := by
  constructor
  · intro secretKey label recipient ttlSeconds sequence expiresUnixMicros state locations packet hencode
    obtain ⟨hproper, answers, dns, hwrites, hbuild, hlength, rfl⟩ := encodeNodeRecord_eq_ok_iff.mp hencode
    have hflowless :
        (requested secretKey label recipient ttlSeconds sequence expiresUnixMicros state locations).Flowless ↔ _ :=
      NodeRecord.flowless_iff
    simp only [requested, mem_canonicalLocations] at hflowless
    rw [← hflowless]
    constructor
    · intro hdecode
      obtain ⟨-, -, -, -, -, hflow, -⟩ := decodeNodeRecord_eq_ok_iff.mp hdecode
      exact hflow
    · intro hflow
      exact decodeNodeRecord_eq_ok_iff.mpr ⟨signedBy secretKey sequence dns, answers, fromBytes_signedBy hlength,
        openPacket_signedBy hwrites hbuild, hproper, hflow, rfl, rfl, hwrites.spec.1⟩
  · intro bytes signed record secretKey hsigned hdecode hkey
    obtain ⟨packet, answers, hpacket, hopen, hproper, -, -, -, hshows⟩ := decodeNodeRecord_eq_ok_iff.mp hdecode
    obtain rfl := Except.ok.inj (hpacket.symm.trans hsigned)
    obtain ⟨-, -, hparse, hbuild, -⟩ := openPacket_eq_ok_iff.mp hopen
    simp only [encodeNodeRecord_eq_ok_iff, requested_of_proper hproper hkey]
    rw [← hproper.fits_iff, ← exists_writes_iff]
    constructor
    · rintro ⟨again, ⟨-, single, -, hwrites, -⟩, -⟩
      exact ⟨single, hwrites⟩
    · rintro ⟨single, hwrites⟩
      obtain ⟨hshows', hsingle, -⟩ := hwrites.spec
      have hviews : answers.map view = single.map view := hshows.trans hshows'.symm
      have htexts := congrArg (List.map fun seen => (seen.2.2, seen.2.1)) hviews
      have hstrings := congrArg (List.map fun seen => seen.2.2) hviews
      simp only [List.map_map] at htexts hstrings
      obtain ⟨dns, hdns, hshorter⟩ := SimpleDns.build_single answers _ single hbuild hsingle htexts
      have hroom := length_of_fromBytes hsigned
      refine ⟨signedBy secretKey record.sequence dns, ⟨hproper, single, dns, hwrites, hdns, by omega, rfl⟩, ?_⟩
      have hparse' : SimpleDns.parse (signedBy secretKey record.sequence dns).encodedPacket = _ :=
        SimpleDns.parse_build single dns hsingle hdns
      rw [attributeStrings, attributeStrings, hparse, hparse']
      exact congrArg Except.ok hstrings.symm

end Codec

section Golden

@[reducible] def acceptingScheme : Ed25519 where
  VerifyingKey := Bytes 32
  fromBytes bytes := some bytes
  isWeak _ := false
  verifyStrict _ _ _ := true

attribute [local instance] acceptingScheme

@[reducible] def blankSigner : Ed25519Signer where
  SigningKey := Bytes 32
  verifyingKey key := key
  sign _ _ := beArray 64 0
  canonical _ _ := by decide +kernel
  verifies key _ := ⟨key, rfl, rfl⟩

@[reducible] def plainUrls : UrlLibrary where
  parse raw :=
    if "https://".toList.isPrefixOf raw then
      .ok ⟨"https".toList, some (.domain (raw.drop 8)), none, [], none, none, none, raw⟩
    else .error "relative URL without a base"
  debug := String.ofList
  asStr_ne_nil raw url h := by
    split_ifs at h with hscheme
    obtain rfl := Except.ok.inj h
    rintro rfl
    exact absurd hscheme (by decide)

/-- The numbers of an address, for a text that writes each of them in four bytes. -/
def addressWords : SocketAddr → List Nat
  | .v4 ip port => [4, ip.octets.1.toNat, ip.octets.2.1.toNat, ip.octets.2.2.1.toNat, ip.octets.2.2.2.toNat, port.toNat]
  | .v6 ip port _ scopeId => 6 :: (segments ip).map UInt16.toNat ++ [port.toNat, scopeId.toNat]

def ofAddressWords : List Nat → Option SocketAddr
  | [4, a, b, c, d, port] => some (.v4 ⟨.ofNat a, .ofNat b, .ofNat c, .ofNat d⟩ (.ofNat port))
  | [6, a, b, c, d, e, f, g, h, port, scopeId] =>
    some (.v6 ⟨.ofNat a, #v[.ofNat b, .ofNat c, .ofNat d, .ofNat e, .ofNat f, .ofNat g, .ofNat h]⟩ (.ofNat port) 0
      (.ofNat scopeId))
  | _ => none

def readWords : List UInt8 → List Nat
  | a :: b :: c :: d :: rest => ofBe [a, b, c, d] :: readWords rest
  | _ => []

theorem readWords_flatMap {words : List Nat} (h : ∀ word ∈ words, word < 2 ^ 32) :
    readWords (words.flatMap (beBytes 4)) = words := by
  induction words with
  | nil => rfl
  | cons word words ih =>
    obtain ⟨hword, hwords⟩ := List.forall_mem_cons.mp h
    have hvalue : ofBe (beBytes 4 word) = word := ofBe_beBytes hword
    rw [List.flatMap_cons]
    exact congrArg₂ List.cons hvalue (ih hwords)

theorem addressWords_lt (address : SocketAddr) : ∀ word ∈ addressWords address, word < 2 ^ 32 := by
  have hshort : ∀ group : UInt16, group.toNat < 2 ^ 32 := fun group => Nat.lt_trans group.toNat_lt (by decide)
  have hoctet : ∀ octet : UInt8, octet.toNat < 2 ^ 32 := fun octet => Nat.lt_trans octet.toNat_lt (by decide)
  cases address with
  | v4 ip port =>
    simp only [addressWords, List.forall_mem_cons, hshort, hoctet, true_and]
    exact ⟨by decide, fun _ hmem => absurd hmem List.not_mem_nil⟩
  | v6 ip port flowinfo scopeId =>
    simp only [addressWords, List.cons_append, List.forall_mem_cons, List.forall_mem_append, List.forall_mem_map, hshort,
      scopeId.toNat_lt]
    exact ⟨by decide, fun _ _ => trivial, trivial, trivial, fun _ hmem => absurd hmem List.not_mem_nil⟩

theorem ofAddressWords_addressWords (address : SocketAddr) :
    ofAddressWords (addressWords address) = some address.withoutFlow := by
  cases address with
  | v4 ip port => simp [addressWords, ofAddressWords, SocketAddr.withoutFlow]
  | v6 ip port flowinfo scopeId =>
    obtain ⟨first, ⟨⟨rest⟩, hrest⟩⟩ := ip
    rcases rest with _ | ⟨b, _ | ⟨c, _ | ⟨d, _ | ⟨e, _ | ⟨f, _ | ⟨g, _ | ⟨h, _ | ⟨i, rest⟩⟩⟩⟩⟩⟩⟩⟩
    on_goal 8 => simp [addressWords, ofAddressWords, segments, SocketAddr.withoutFlow]
    all_goals simp at hrest

@[reducible] def hexSockets : SocketText where
  text address := Hex.encode ((addressWords address).flatMap (beBytes 4))
  parse raw := (Hex.decode raw).bind fun bytes => ofAddressWords (readWords bytes)
  parse_text address := by
    rw [Hex.decode_encode, Option.bind_some, readWords_flatMap (addressWords_lt address),
      ofAddressWords_addressWords]
  text_withoutFlow address := by cases address <;> rfl
  text_ne_nil address := by cases address <;> exact List.cons_ne_nil _ _
  forall_mem_text address char hchar := by
    have hletters : ∀ letter ∈ "0123456789abcdef".toList, letter ≠ '=' ∧ letter.toNat < 0x80 :=
      List.all_iff_forall_prop.mp (by decide)
    exact hletters char (Hex.mem_encode hchar)
  length_text_le address := by
    have hwords : (addressWords address).length ≤ 11 := by
      cases address <;> simp [addressWords, length_segments]
    have hbytes : ∀ words : List Nat, (words.flatMap (beBytes 4)).length = 4 * words.length := by
      intro words
      induction words with
      | nil => rfl
      | cons word words ih => rw [List.flatMap_cons, List.length_append, ih, length_beBytes, List.length_cons]; omega
    rw [Hex.length_encode, hbytes]
    omega

@[reducible] def silentPkarr : Pkarr where
  describe _ := "invalid packet"

attribute [local instance] blankSigner plainUrls hexSockets silentPkarr

def goldenNode : Bytes 32 := beArray 32 0

def flowing (flowinfo : UInt32) : NodeLocation :=
  .direct (.v6 ⟨0x2001, #v[0xdb8, 0, 0, 0, 0, 0, 1]⟩ 4433 flowinfo 0)

def longUrl : List Char := "https://relay.example/".toList ++ List.replicate 240 'a'

def goldenRecord (locations : List NodeLocation) : NodeRecord :=
  ⟨⟨goldenNode⟩, "default".toList, "peers".toList, 60, 1000, 60001000, .live, locations⟩

def firstString (bytes : List UInt8) : CharacterString := ⟨bytes.take 255, List.length_take_le 255 bytes⟩

/-- An answer whose text is cut in two where it has to be. -/
def cutAnswer (line : List Char × List Char) : ResourceRecord (List Char) :=
  let bytes := Text.toUtf8 line.2
  ⟨ownerName line.1 (toZ32 goldenNode), .internet, 60,
    .txt (if bytes.length ≤ 255 then [firstString bytes] else [firstString bytes, firstString (bytes.drop 255)])⟩

def goldenPacket (locations : List NodeLocation) : DnsPacket (List Char) Empty :=
  ⟨[], (goldenRecord locations).answers.map cutAnswer, [], []⟩

def twinPacket : DnsPacket (List Char) Empty := goldenPacket [flowing 1, flowing 2]

def relayPacket : DnsPacket (List Char) Empty := goldenPacket [.relay longUrl]

def packetBytes (mark : UInt8) : List UInt8 := [0, 0, 0x80, 0, 0, 0, 0, 0, 0, 0, 0, 0, mark]

/-- Whether an answer is one string under a plain name, as the writer makes it. -/
abbrev IsSingle (answer : ResourceRecord (List Char)) : Prop := answer.Single Except.ok

theorem IsSingle.eq_of_txt {left right : ResourceRecord (List Char)} (hleft : IsSingle left) (hright : IsSingle right)
    (h : (left.txt? id, left.ttl) = (right.txt? id, right.ttl)) : left = right := by
  obtain ⟨name, recordClass, ttl, rdata⟩ := left
  obtain ⟨name', recordClass', ttl', rdata'⟩ := right
  obtain ⟨rfl, ⟨value, rfl⟩, -⟩ := hleft
  obtain ⟨rfl, ⟨value', rfl⟩, -⟩ := hright
  simp only [ResourceRecord.txt?, List.map_cons, List.map_nil, List.flatten_cons, List.flatten_nil, List.append_nil,
    Prod.mk.injEq, Option.some.injEq, id_eq] at h
  obtain ⟨⟨rfl, hvalue⟩, rfl⟩ := h
  rw [Subtype.ext hvalue]

theorem eq_of_txt_eq {left right : List (ResourceRecord (List Char))} (hleft : ∀ answer ∈ left, IsSingle answer)
    (hright : ∀ answer ∈ right, IsSingle answer)
    (h : left.map (fun answer => (answer.txt? id, answer.ttl)) = right.map fun answer => (answer.txt? id, answer.ttl)) :
    left = right := by
  induction left generalizing right with
  | nil => exact (List.map_eq_nil_iff.mp h.symm).symm
  | cons first left ih =>
    obtain ⟨other, rest, rfl, hother, hrest⟩ := List.map_eq_cons_iff.mp h.symm
    obtain ⟨hsingle, hleft⟩ := List.forall_mem_cons.mp hleft
    obtain ⟨hsingle', hright⟩ := List.forall_mem_cons.mp hright
    rw [hsingle.eq_of_txt hsingle' hother.symm, ih hleft hright hrest.symm]

theorem isSingle_twin {answer : ResourceRecord (List Char)} (h : answer ∈ twinPacket.answers) : IsSingle answer := by
  obtain ⟨line, hline, rfl⟩ := List.mem_map.mp h
  have hshort : ∀ line ∈ (goldenRecord [flowing 1, flowing 2]).answers, (Text.toUtf8 line.2).length ≤ 255 := by
    decide +kernel
  have hstrings : (cutAnswer line).rdata = .txt [firstString (Text.toUtf8 line.2)] := by
    simp only [cutAnswer, if_pos (hshort line hline)]
  exact ⟨rfl, ⟨_, hstrings⟩, _, plainName_of_mem hline, rfl⟩

theorem not_isSingle_relay {single : List (ResourceRecord (List Char))} (hsingle : ∀ answer ∈ single, IsSingle answer) :
    relayPacket.answers.map (fun answer => (answer.txt? id, answer.ttl)) ≠
      single.map fun answer => (answer.txt? id, answer.ttl) := by
  intro h
  have hlong : ∃ owner bytes rest, relayPacket.answers.map (fun answer => (answer.txt? id, answer.ttl)) =
      (some (owner, bytes), 60) :: rest ∧ 255 < bytes.length :=
    ⟨_, _, _, rfl, by decide +kernel⟩
  obtain ⟨owner, bytes, rest, hrelay, hlong⟩ := hlong
  obtain ⟨first, others, rfl, hfirst, -⟩ := List.map_eq_cons_iff.mp (h.symm.trans hrelay)
  obtain ⟨-, ⟨value, hvalue⟩, -⟩ := hsingle first List.mem_cons_self
  simp only [ResourceRecord.txt?, hvalue, List.map_cons, List.map_nil, List.flatten_cons, List.flatten_nil,
    List.append_nil, Prod.mk.injEq, Option.some.injEq] at hfirst
  have hshort := value.2
  rw [hfirst.1.2] at hshort
  omega

def buildKnown (packet : DnsPacket (List Char) Empty) : Except String (List UInt8) :=
  if packet = twinPacket then .ok (packetBytes 1)
  else if packet = relayPacket then .ok (packetBytes 2)
  else .error "unknown packet"

def parseKnown (bytes : List UInt8) : Except String (DnsPacket (List Char) Empty) :=
  if bytes = packetBytes 1 then .ok twinPacket
  else if bytes = packetBytes 2 then .ok relayPacket
  else .error "unknown packet"

theorem buildKnown_cases {packet : DnsPacket (List Char) Empty} {bytes : List UInt8} (h : buildKnown packet = .ok bytes) :
    (packet = twinPacket ∧ bytes = packetBytes 1) ∨ (packet = relayPacket ∧ bytes = packetBytes 2) := by
  unfold buildKnown at h
  split_ifs at h with htwin hrelay
  · exact .inl ⟨htwin, (Except.ok.inj h).symm⟩
  · exact .inr ⟨hrelay, (Except.ok.inj h).symm⟩

@[reducible] def knownDns : SimpleDns where
  Name := List Char
  Question := Empty
  longString := "the string is too long"
  invalidUtf8 := "the string is no text"
  newName := Except.ok
  nameText := id
  build := buildKnown
  parse := parseKnown
  newName_plain text _ := ⟨text, rfl, rfl⟩
  build_header answers bytes _ h := by
    rcases buildKnown_cases h with ⟨-, rfl⟩ | ⟨-, rfl⟩
    · decide
    · decide
  parse_build answers bytes _ h := by
    rcases buildKnown_cases h with ⟨hpacket, rfl⟩ | ⟨hpacket, rfl⟩
    · rw [hpacket]
      rfl
    · rw [hpacket]
      rfl
  build_single answers bytes single h hsingle htexts := by
    rcases buildKnown_cases h with ⟨hpacket, rfl⟩ | ⟨hpacket, rfl⟩
    · obtain rfl : answers = twinPacket.answers := congrArg DnsPacket.answers hpacket
      rw [← eq_of_txt_eq (fun answer hanswer => isSingle_twin hanswer) hsingle htexts]
      exact ⟨_, h, Nat.le_refl _⟩
    · obtain rfl : answers = relayPacket.answers := congrArg DnsPacket.answers hpacket
      exact absurd htexts (not_isSingle_relay hsingle)

attribute [local instance] knownDns

/-- Two addresses that differ in their flow labels are accepted and then refused as one location; a packet with a long relay is read and the record refused. -/
theorem round_trip_breaks :
    encodeNodeRecord goldenNode "default".toList "peers".toList 60 1000 60001000 .live [flowing 1, flowing 2] =
        .ok (signedBy goldenNode 1000 (packetBytes 1)) ∧
      decodeNodeRecord (signedBy goldenNode 1000 (packetBytes 1)).asBytes =
        .error (newError "duplicate node location") ∧
      decodeNodeRecord (signedBy goldenNode 1000 (packetBytes 2)).asBytes = .ok (goldenRecord [.relay longUrl]) ∧
      encodeNodeRecord goldenNode "default".toList "peers".toList 60 1000 60001000 .live [.relay longUrl] =
        .error (newError "building DNS TXT value: the string is too long") := by
  exact ⟨by decide +kernel, by decide +kernel, by decide +kernel, by decide +kernel⟩

end Golden

end NixP2p.IrohRecord
