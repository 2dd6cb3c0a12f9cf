import NixP2p.Records.Ids

/-!
# Opening a NAR transfer

A fetch dials the provider of an offer, sends its request and reads the `/nar/4` response header. Every outcome decided before a body byte is read is decided here. The network is what the environment makes it: for the `n`-th attempt of a request it either fails before the substream opens or delivers some bytes and then ends.
-/

namespace NixP2p

open Wire

inductive WireCodec where
  | raw
  | zstd
  deriving DecidableEq

instance : ToString WireCodec where
  toString
    | .raw => "Raw"
    | .zstd => "Zstd"

def WireCodec.wire : WireCodec → UInt8
  | .raw => 0
  | .zstd => 1

def WireCodec.fromWire (byte : UInt8) : Option WireCodec :=
  if byte = 0 then some .raw else if byte = 1 then some .zstd else none

def WireCodec.acceptBit : WireCodec → UInt8
  | .raw => 1
  | .zstd => 2

def acceptRawAndZstd : UInt8 := 3

inductive DeclineReason where
  | tooLarge
  | busy
  | supplyFailed
  | noCommonCodec
  deriving DecidableEq

instance : ToString DeclineReason where
  toString
    | .tooLarge => "declared NAR exceeds the serve per-NAR budget"
    | .busy => "serve in-flight budget is full"
    | .supplyFailed => "supplier could not produce the NAR"
    | .noCommonCodec => "no common NAR codec in the fetcher's accept set"

def DeclineReason.fromWire (byte : UInt8) : DeclineReason :=
  if byte = 0 then .tooLarge else if byte = 1 then .busy
  else if byte = 3 then .noCommonCodec else .supplyFailed

inductive TransferError where
  | notHeld (content : Blake3Digest)
  | integrityMismatch (expected actual : Blake3Digest)
  | authenticationFailed (expected : Blake3Digest) (reason : String)
  | wrongOffer (expected got : TransportTag)
  | unavailable (why : String)
  | tooLarge (limit streamed : UInt64)
  deriving DecidableEq

instance : ToString TransferError where
  toString
    | .notHeld id => s!"holder does not hold {id}"
    | .integrityMismatch expected actual =>
      s!"transport-integrity gate failed: got bytes hashing to {actual}, expected {expected}"
    | .authenticationFailed expected reason =>
      s!"transport Bao authentication failed against {expected}: {reason}"
    | .wrongOffer expected got => s!"offer is a {got} locator but this transport services {expected}"
    | .unavailable why => s!"transport unavailable: {why}"
    | .tooLarge limit streamed =>
      s!"size abort: transfer reported {streamed} raw bytes, over the signed NarSize bound {limit}"

structure NarHeader where
  codec : WireCodec
  rawSize : UInt64
  deriving DecidableEq

def statusNotHeld : UInt8 := 0

def statusNar : UInt8 := 1

def statusDeclined : UInt8 := 2

def maxNarResponseBytes : UInt64 := 256 * 1024 * 1024

/-- The checks on a complete header: a known codec, one the request accepted, and the signed size. -/
def checkNarHeader (content : Blake3Digest) (expectedSize : Option UInt64) (accept codecByte : UInt8)
    (rawSize : UInt64) : Except TransferError NarHeader :=
  match WireCodec.fromWire codecByte with
  | none => .error (.unavailable s!"provider chose unknown NAR codec byte {codecByte} for {content}")
  | some codec =>
    if accept &&& codec.acceptBit = 0 then
      let mask := String.ofList (Hex.encode [accept])
      .error (.unavailable
        s!"provider selected {codec} for {content}, but request accept mask 0x{mask} did not offer it")
    else if expectedSize.getD maxNarResponseBytes < rawSize then
      .error (.tooLarge (expectedSize.getD maxNarResponseBytes) rawSize)
    else match expectedSize with
      | none => .ok ⟨codec, rawSize⟩
      | some expected =>
        if rawSize ≠ expected then
          .error (.unavailable
            s!"provider declared raw_size {rawSize} for {content}, signed NarSize is {expected}")
        else .ok ⟨codec, rawSize⟩

/-- The rest of the header by its status byte; `ending` is the text of the error that a read past the last byte gets. -/
def readByStatus (content : Blake3Digest) (ending : String) (expectedSize : Option UInt64)
    (accept status : UInt8) : Reader TransferError NarHeader :=
  if status = statusNotHeld then throw (.notHeld content)
  else if status = statusDeclined then do
    let reason := match ← get with
      | [] => DeclineReason.supplyFailed
      | byte :: _ => DeclineReason.fromWire byte
    throw (.unavailable s!"provider declined to serve {content}: {reason}")
  else if status = statusNar then do
    let header ← take (fun _ _ =>
      .unavailable s!"NAR stream for {content} closed before its codec/size header: {ending}") 9
    lift id (checkNarHeader content expectedSize accept (header.1.headD 0)
      (UInt64.ofNat (ofLe header.1.tail)))
  else throw (.unavailable
    s!"unknown NAR response status byte {status} from the provider for {content}")

def readNarHeader (content : Blake3Digest) (ending : String) (expectedSize : Option UInt64)
    (accept : UInt8) : Reader TransferError NarHeader := do
  let status ← u8 fun _ _ =>
    .unavailable s!"NAR stream for {content} closed before its status byte: {ending}"
  readByStatus content ending expectedSize accept status

def narResponse (codecByte : UInt8) (rawSize : UInt64) : List UInt8 :=
  statusNar :: codecByte :: leBytes 8 rawSize.toNat

def TransferError.IsTooLarge : TransferError → Prop
  | .tooLarge _ _ => True
  | _ => False

variable {input : List UInt8}

theorem exists_narResponse (hlen : 9 ≤ input.length) :
    ∃ codecByte rawSize rest, statusNar :: input = narResponse codecByte rawSize ++ rest := by
  obtain ⟨codecByte, tail, rfl⟩ := List.exists_cons_of_length_pos (show 0 < input.length by omega)
  have hsize : (tail.take 8).length = 8 := by
    rw [List.length_cons] at hlen
    rw [List.length_take]
    omega
  have hlt := ofLe_lt (tail.take 8)
  have hbytes := leBytes_ofLe (tail.take 8)
  rw [hsize] at hlt hbytes
  refine ⟨codecByte, UInt64.ofNat (ofLe (tail.take 8)), tail.drop 8, ?_⟩
  rw [narResponse, UInt64.toNat_ofNat_of_lt' hlt, hbytes]
  simp

section Header

variable (content : Blake3Digest) (ending : String) (expectedSize : Option UInt64) (accept : UInt8)

theorem readNarHeader_cons (status : UInt8) (input : List UInt8) :
    readNarHeader content ending expectedSize accept (status :: input) =
      readByStatus content ending expectedSize accept status input :=
  bind_of_ok ((u8_inverts _).read_write (a := status) trivial input)

theorem readNarHeader_narResponse (codecByte : UInt8) (rawSize : UInt64) (rest : List UInt8) :
    readNarHeader content ending expectedSize accept (narResponse codecByte rawSize ++ rest) =
      (checkNarHeader content expectedSize accept codecByte rawSize).map (·, rest) := by
  have hsize : UInt64.ofNat (ofLe (leBytes 8 rawSize.toNat)) = rawSize := by
    rw [ofLe_leBytes, Nat.mod_eq_of_lt (by simpa using rawSize.toNat_lt), UInt64.ofNat_toNat]
  have hheader : (codecByte :: leBytes 8 rawSize.toNat).length = 9 := by simp
  rw [narResponse, List.cons_append, readNarHeader_cons, readByStatus, if_neg (by decide),
    if_neg (by decide), if_pos rfl,
    bind_of_ok ((take_inverts _ 9).read_write (a := ⟨_, hheader⟩) trivial rest)]
  change lift id (checkNarHeader content expectedSize accept codecByte
    (UInt64.ofNat (ofLe (leBytes 8 rawSize.toNat)))) rest = _
  rw [hsize]
  cases checkNarHeader content expectedSize accept codecByte rawSize <;> rfl

theorem readNarHeader_of_ne {input : List UInt8}
    (hne : ∀ codecByte rawSize rest, input ≠ narResponse codecByte rawSize ++ rest) :
    ∃ fault, readNarHeader content ending expectedSize accept input = .error fault ∧
      ¬fault.IsTooLarge := by
  match input with
  | [] => exact ⟨_, rfl, id⟩
  | status :: input =>
    rw [readNarHeader_cons, readByStatus]
    split
    · exact ⟨_, rfl, id⟩
    split
    · exact ⟨_, rfl, id⟩
    split
    · rename_i hnar
      subst hnar
      have hshort : input.length < 9 := by
        by_contra hlen
        obtain ⟨codecByte, rawSize, rest, heq⟩ := exists_narResponse (Nat.not_lt.mp hlen)
        exact hne _ _ _ heq
      exact ⟨_, bind_of_error (take_of_lt _ hshort), id⟩
    · exact ⟨_, rfl, id⟩

end Header

theorem WireCodec.fromWire_eq_some_iff {byte : UInt8} {codec : WireCodec} :
    WireCodec.fromWire byte = some codec ↔ byte = codec.wire := by
  unfold fromWire
  cases codec <;> split_ifs <;> simp_all [wire]

theorem WireCodec.accepted (codec : WireCodec) : acceptRawAndZstd &&& codec.acceptBit ≠ 0 := by
  cases codec <;> decide

variable {content : Blake3Digest} {size rawSize : UInt64} {codecByte : UInt8} {header : NarHeader}

/-- With a signed size and both codecs accepted, a header passes exactly when it declares that size. -/
theorem checkNarHeader_ok_iff :
    checkNarHeader content (some size) acceptRawAndZstd codecByte rawSize = .ok header ↔
      rawSize = size ∧ header.rawSize = size ∧ codecByte = header.codec.wire := by
  rw [← WireCodec.fromWire_eq_some_iff]
  cases hcodec : WireCodec.fromWire codecByte with
  | none => simp [checkNarHeader, hcodec]
  | some codec =>
    obtain ⟨headerCodec, headerSize⟩ := header
    by_cases hsize : rawSize = size
    · subst hsize
      simp [checkNarHeader, hcodec, codec.accepted, eq_comm, and_comm]
    · simp only [checkNarHeader, hcodec, if_neg codec.accepted]
      split_ifs <;> simp [hsize]

variable {limit streamed : UInt64}

theorem checkNarHeader_tooLarge_iff :
    checkNarHeader content (some size) acceptRawAndZstd codecByte rawSize =
        .error (.tooLarge limit streamed) ↔
      limit = size ∧ streamed = rawSize ∧ size < rawSize ∧ ∃ codec, codecByte = WireCodec.wire codec := by
  simp only [← WireCodec.fromWire_eq_some_iff]
  cases hcodec : WireCodec.fromWire codecByte with
  | none => simp [checkNarHeader, hcodec]
  | some codec =>
    simp only [checkNarHeader, hcodec, if_neg codec.accepted, Option.getD_some, Option.some.injEq,
      exists_eq', and_true]
    by_cases hlt : size < rawSize
    · simp [hlt, eq_comm]
    · rw [if_neg hlt]
      split_ifs <;> simp [hlt]

variable {ending : String}

theorem readNarHeader_ok_iff {rest : List UInt8} :
    readNarHeader content ending (some size) acceptRawAndZstd input = .ok (header, rest) ↔
      header.rawSize = size ∧ input = narResponse header.codec.wire size ++ rest := by
  constructor
  · intro hread
    by_cases hwhole : ∃ codecByte rawSize tail, input = narResponse codecByte rawSize ++ tail
    · obtain ⟨codecByte, rawSize, tail, rfl⟩ := hwhole
      rw [readNarHeader_narResponse, Fallible.map_eq_ok_iff] at hread
      obtain ⟨found, hcheck, hfound⟩ := hread
      cases hfound
      obtain ⟨rfl, hsize, rfl⟩ := checkNarHeader_ok_iff.mp hcheck
      exact ⟨hsize, rfl⟩
    obtain ⟨fault, hfault, -⟩ := readNarHeader_of_ne content ending (some size) acceptRawAndZstd
      (fun codecByte rawSize tail heq => hwhole ⟨codecByte, rawSize, tail, heq⟩)
    cases hfault.symm.trans hread
  · intro h
    obtain ⟨hsize, rfl⟩ := h
    rw [readNarHeader_narResponse, checkNarHeader_ok_iff.mpr ⟨rfl, hsize, rfl⟩]
    rfl

theorem readNarHeader_tooLarge_iff :
    readNarHeader content ending (some size) acceptRawAndZstd input =
        .error (.tooLarge limit streamed) ↔
      limit = size ∧ size < streamed ∧
        ∃ codec rest, input = narResponse (WireCodec.wire codec) streamed ++ rest := by
  constructor
  · intro hread
    by_cases hwhole : ∃ codecByte rawSize tail, input = narResponse codecByte rawSize ++ tail
    · obtain ⟨codecByte, rawSize, tail, rfl⟩ := hwhole
      rw [readNarHeader_narResponse, Fallible.map_eq_error_iff] at hread
      obtain ⟨hlimit, rfl, hlt, codec, rfl⟩ := checkNarHeader_tooLarge_iff.mp hread
      exact ⟨hlimit, hlt, codec, tail, rfl⟩
    obtain ⟨fault, hfault, hother⟩ := readNarHeader_of_ne content ending (some size)
      acceptRawAndZstd (fun codecByte rawSize tail heq => hwhole ⟨codecByte, rawSize, tail, heq⟩)
    rw [hfault] at hread
    cases hread
    exact absurd trivial hother
  · intro h
    obtain ⟨hlimit, hlt, codec, rest, rfl⟩ := h
    rw [readNarHeader_narResponse, checkNarHeader_tooLarge_iff.mpr ⟨hlimit, rfl, hlt, codec, rfl⟩]
    rfl

/-- An open transfer: a live `/nar/4` body whose leaves are still to be authenticated, or bytes already collected. -/
inductive NarStream where
  | live (content : Blake3Digest) (header : NarHeader) (rest : List UInt8) (ending : String)
  | collected (raw : List UInt8)
  deriving DecidableEq

inductive Reply where
  | notOpened (why : String)
  | wire (bytes : List UInt8) (ending : String)
  deriving DecidableEq

inductive BodyFault where
  | unavailable (why : String)
  | authenticationFailed (reason : String)
  deriving DecidableEq

def BodyFault.toTransferError (content : Blake3Digest) : BodyFault → TransferError
  | .unavailable why => .unavailable why
  | .authenticationFailed reason => .authenticationFailed content reason

section Transports

variable [Ed25519] [Libp2pKeys]

/-- The peers as one request meets them: the reply to its `n`-th attempt, and what the body phase makes of a response body. -/
structure Network where
  reply : Nat → NodeId → RelayHints → Blake3Digest → Reply
  collectBody : Blake3Digest → NarHeader → List UInt8 → String → Except BodyFault (List UInt8)

/-- The route and header phase both fetches of the libp2p transport share. -/
def openResponse (net : Network) (attempt : Nat) (content : Blake3Digest) (offer : TransportOffer)
    (expectedSize : Option UInt64) : Except TransferError (NarHeader × List UInt8 × String) :=
  match offer with
  | .libp2p node relayHints =>
    if (Libp2pKeys.peerIdOfProvider node).isNone then
      .error (.unavailable
        s!"provider {node} is not a valid ed25519 peer id, cannot dial over libp2p")
    else match net.reply attempt node relayHints content with
      | .notOpened why => .error (.unavailable why)
      | .wire bytes ending =>
        (readNarHeader content ending expectedSize acceptRawAndZstd bytes).map fun (header, rest) =>
          (header, rest, ending)
  | other => .error (.wrongOffer .libp2p other.tag)

def Libp2pTransport.fetchStream (net : Network) (attempt : Nat) (content : Blake3Digest)
    (offer : TransportOffer) (expectedSize : Option UInt64) : Except TransferError NarStream :=
  (openResponse net attempt content offer expectedSize).map fun (header, rest, ending) =>
    .live content header rest ending

def Libp2pTransport.fetch (net : Network) (attempt : Nat) (content : Blake3Digest)
    (offer : TransportOffer) (expectedSize : Option UInt64) : Except TransferError (List UInt8) := do
  let (header, rest, ending) ← openResponse net attempt content offer expectedSize
  (net.collectBody content header rest ending).mapError (BodyFault.toTransferError content)

/-- Historical records name a libp2p provider under the iroh tag; the adapter collects the whole body. -/
def LegacyIrohTagLibp2pAdapter.fetchStream (net : Network) (attempt : Nat) (content : Blake3Digest)
    (offer : TransportOffer) (expectedSize : Option UInt64) : Except TransferError NarStream :=
  match offer with
  | .iroh node =>
    (Libp2pTransport.fetch net attempt content (.libp2p node .empty) expectedSize).map .collected
  | other => .error (.wrongOffer .iroh other.tag)

abbrev FetchStream := Blake3Digest → TransportOffer → Option UInt64 → Except TransferError NarStream

def transfer (net : Network) (attempt : Nat) : TransportTag → Option FetchStream
  | .libp2p => some (Libp2pTransport.fetchStream net attempt)
  | .iroh => some (LegacyIrohTagLibp2pAdapter.fetchStream net attempt)
  | .bitTorrent => none

variable {net : Network} {attempt : Nat} {content : Blake3Digest}

variable {node : NodeId} {hints : RelayHints} {expectedSize : Option UInt64}

/-- Any outcome but unavailability comes from the response header of a provider that was reached. -/
theorem openResponse_libp2p_iff {result : Except TransferError (NarHeader × List UInt8 × String)}
    (hresult : ∀ why, .error (.unavailable why) ≠ result) :
    openResponse net attempt content (.libp2p node hints) expectedSize = result ↔
      (Libp2pKeys.peerIdOfProvider node).isSome ∧ ∃ bytes ending,
        net.reply attempt node hints content = .wire bytes ending ∧
        (readNarHeader content ending expectedSize acceptRawAndZstd bytes).map
          (fun p => (p.1, p.2, ending)) = result := by
  cases hpeer : Libp2pKeys.peerIdOfProvider node with
  | none => simpa [openResponse, hpeer] using hresult _
  | some peer =>
    cases hreply : net.reply attempt node hints content with
    | notOpened why => simpa [openResponse, hpeer, hreply] using hresult _
    | wire bytes ending => simp [openResponse, hpeer, hreply]

variable {size : UInt64}

/-- A libp2p offer opens exactly when its provider announces a NAR of the signed size. -/
theorem Libp2pTransport.fetchStream_ok_iff {stream : NarStream} :
    fetchStream net attempt content (.libp2p node hints) (some size) = .ok stream ↔
      (Libp2pKeys.peerIdOfProvider node).isSome ∧ ∃ codec rest ending,
        net.reply attempt node hints content =
          .wire (narResponse (WireCodec.wire codec) size ++ rest) ending ∧
        stream = .live content ⟨codec, size⟩ rest ending := by
  rw [fetchStream, Fallible.map_eq_ok_iff]
  constructor
  · intro h
    obtain ⟨response, hopen, rfl⟩ := h
    obtain ⟨hpeer, bytes, ending, hreply, hread⟩ := (openResponse_libp2p_iff (by simp)).mp hopen
    obtain ⟨⟨header, rest⟩, hheader, rfl⟩ := Fallible.map_eq_ok_iff.mp hread
    obtain ⟨rfl, rfl⟩ := readNarHeader_ok_iff.mp hheader
    exact ⟨hpeer, header.codec, rest, ending, hreply, rfl⟩
  · intro h
    obtain ⟨hpeer, codec, rest, ending, hreply, rfl⟩ := h
    have hread : readNarHeader content ending (some size) acceptRawAndZstd
        (narResponse codec.wire size ++ rest) = .ok (⟨codec, size⟩, rest) :=
      readNarHeader_ok_iff.mpr ⟨rfl, rfl⟩
    refine ⟨(⟨codec, size⟩, rest, ending), ?_, rfl⟩
    exact (openResponse_libp2p_iff (by simp)).mpr ⟨hpeer, _, _, hreply, Fallible.map_eq_ok_iff.mpr ⟨_, hread, rfl⟩⟩

variable {limit streamed : UInt64}

theorem openResponse_tooLarge_iff :
    openResponse net attempt content (.libp2p node hints) (some size) =
        .error (.tooLarge limit streamed) ↔
      limit = size ∧ size < streamed ∧ (Libp2pKeys.peerIdOfProvider node).isSome ∧
        ∃ codec rest ending, net.reply attempt node hints content =
          .wire (narResponse (WireCodec.wire codec) streamed ++ rest) ending := by
  rw [openResponse_libp2p_iff (by simp)]
  constructor
  · intro h
    obtain ⟨hpeer, bytes, ending, hreply, hread⟩ := h
    obtain ⟨hlimit, hlt, codec, rest, rfl⟩ :=
      readNarHeader_tooLarge_iff.mp (Fallible.map_eq_error_iff.mp hread)
    exact ⟨hlimit, hlt, hpeer, codec, rest, ending, hreply⟩
  · intro h
    obtain ⟨hlimit, hlt, hpeer, codec, rest, ending, hreply⟩ := h
    refine ⟨hpeer, _, ending, hreply, Fallible.map_eq_error_iff.mpr ?_⟩
    exact readNarHeader_tooLarge_iff.mpr ⟨hlimit, hlt, codec, rest, rfl⟩

variable {offer : TransportOffer}

/-- The body phase of a collecting fetch never ends in a size abort. -/
theorem Libp2pTransport.fetch_tooLarge_iff :
    fetch net attempt content offer expectedSize = .error (.tooLarge limit streamed) ↔
      openResponse net attempt content offer expectedSize = .error (.tooLarge limit streamed) := by
  unfold fetch
  cases openResponse net attempt content offer expectedSize with
  | error fault => simp [bind, Except.bind]
  | ok response =>
    obtain ⟨header, rest, ending⟩ := response
    change Except.mapError _ (net.collectBody content header rest ending) = _ ↔ _
    match net.collectBody content header rest ending with
    | .ok raw => simp
    | .error (.unavailable why) => simp [BodyFault.toTransferError]
    | .error (.authenticationFailed reason) => simp [BodyFault.toTransferError]

def TransportOffer.dialled : TransportOffer → Option (NodeId × RelayHints)
  | .libp2p node hints => some (node, hints)
  | .iroh node => some (node, .empty)
  | .bitTorrent _ => none

/-- An attempt is a size abort exactly when the provider it dials announces more than the signed size. -/
theorem transfer_tooLarge_iff {fetchStream : FetchStream}
    (hbackend : transfer net attempt offer.tag = some fetchStream) :
    fetchStream content offer (some size) = .error (.tooLarge limit streamed) ↔
      limit = size ∧ size < streamed ∧ ∃ node hints, offer.dialled = some (node, hints) ∧
        (Libp2pKeys.peerIdOfProvider node).isSome ∧
        ∃ codec rest ending, net.reply attempt node hints content =
          .wire (narResponse (WireCodec.wire codec) streamed ++ rest) ending := by
  cases offer with
  | libp2p node hints =>
    cases hbackend
    simp [Libp2pTransport.fetchStream, openResponse_tooLarge_iff, TransportOffer.dialled]
  | iroh node =>
    cases hbackend
    simp [LegacyIrohTagLibp2pAdapter.fetchStream, Libp2pTransport.fetch_tooLarge_iff,
      openResponse_tooLarge_iff, TransportOffer.dialled]
  | bitTorrent infohash => cases hbackend

end Transports

end NixP2p
