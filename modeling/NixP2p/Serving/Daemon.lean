import NixP2p.Base.HashTable
import NixP2p.Base.Run
import NixP2p.Serving.Fallback

/-!
# The daemon across requests

A narinfo request decides whether the client is told of the raw NAR or of the compressed file, and notes the URL token it handed out. A later NAR request goes by that note, or by the narinfo cache, and consults the directory afresh. A run is any sequence of such requests and of restarts, which lose the notes.
-/

namespace NixP2p

open HashTable

structure NarMeta where
  narHash : NarHash
  narSize : UInt64
  compression : NarCompression
  storePath : Option (List Char)
  deriving DecidableEq

abbrev NarCatalog := Table NarPathToken NarMeta

def NarCatalog.record (catalog : NarCatalog) (correlation : Correlation) : NarCatalog :=
  catalog.insert correlation.token
    ⟨correlation.narHash, correlation.narSize, correlation.compression, correlation.storePath⟩

def persistedMeta (token : NarPathToken) (entryBody : Option (List UInt8)) : Option NarMeta := do
  let correlation ← entryBody >>= parseCorrelation
  if correlation.token = token then
    return ⟨correlation.narHash, correlation.narSize, correlation.compression, correlation.storePath⟩
  else none

section Daemon

variable [Ed25519] [Blake3Kdf]

def PeerFabricRawServe.willServeRaw (directory : Option ProviderDirectory) (narHash : NarHash) : Bool :=
  match NarHashKey.fromStr narHash, directory with
  | .ok canonical, some directory =>
    match findProvidersBound directory (.deriveFromSignedNarHash canonical.bytes) with
    | .found records => !records.isEmpty
    | .miss | .unavailable _ => false
  | _, _ => false

/-- The narinfo body that goes out, whether it was rewritten, and the catalog after it. -/
def emitNarinfo (directory : Option ProviderDirectory) (catalog : NarCatalog) (bytes : List UInt8) :
    List UInt8 × Bool × NarCatalog :=
  match parseCorrelation bytes with
  | none => (bytes, false, catalog)
  | some correlation =>
    if PeerFabricRawServe.willServeRaw directory correlation.narHash then
      match toRaw bytes with
      | .ok rewritten =>
        (rewritten.body, true, catalog.record
          ⟨rewritten.urlToken, rewritten.narHash, rewritten.narSize, .raw, correlation.storePath⟩)
      | .error _ => (bytes, false, catalog)
    else (bytes, false, catalog.record correlation)

def respondNarinfo (directory : Option ProviderDirectory) (catalog : NarCatalog)
    (result : Except SourceError (UpstreamResponse UpstreamBody)) : Response × NarCatalog :=
  match result with
  | .error _ => (gatewayError, catalog)
  | .ok response =>
    if response.status ≠ 200 then
      (forward (.ok { response with body := .upstream response.body }), catalog)
    else if mustFailClosed response.headers then (gatewayError, catalog)
    else if response.body.clean = false ∨ maxNarinfoBytes < response.body.bytes.length then
      (gatewayError, catalog)
    else
      let (body, rewrote, catalog) := emitNarinfo directory catalog response.body.bytes
      let dropped := if rewrote then ["etag", "last-modified", "content-length"] else ["content-length"]
      let kept := (forwardHeaders response.headers).filter fun (name, _) => !dropped.contains name
      ({ status := 200
         headers := kept ++ [("content-length", decimal body.length)]
         body := .upstream ⟨body, true⟩ }, catalog)

def correlated (catalog : NarCatalog) (token : NarPathToken) (entryBody : Option (List UInt8)) :
    Option NarMeta :=
  match catalog.lookup token with
  | some narMeta => some narMeta
  | none => persistedMeta token entryBody

abbrev HttpUpstream := NarKey → Option UInt64 → Except SourceError (UpstreamResponse UpstreamBody)

def HttpUpstream.source (upstream : HttpUpstream) : NarSource := fun key expectedSize =>
  (upstream key expectedSize).map fun response => { response with body := .upstream response.body }

def respondNar (catalog : NarCatalog) (token : NarPathToken) (entryBody : Option (List UInt8))
    (fabric : PeerFabric) (upstream : HttpUpstream) : Response :=
  match correlated catalog token entryBody with
  | some narMeta =>
    forward (composedSource fabric upstream.source
      (.signedNarHash narMeta.narHash token narMeta.compression) (some narMeta.narSize))
  | none => forward (composedSource fabric upstream.source (.upstreamPath token) none)

variable {stream : NarStream}

omit [Ed25519] [Blake3Kdf] in
theorem forward_peer_iff {result : Except SourceError (UpstreamResponse NarBody)} :
    (forward result).status = 200 ∧ (forward result).body = .peer stream ↔
      ∃ response, result = .ok response ∧ mustFailClosed response.headers = false ∧
        response.status = 200 ∧ response.body = .peer stream := by
  cases result with
  | error fault => simp [forward, gatewayError, textStatus]
  | ok response =>
    cases hclosed : mustFailClosed response.headers with
    | true => simp [forward, hclosed, gatewayError, textStatus]
    | false =>
      by_cases hstatus : 100 ≤ response.status ∧ response.status < 1000
      · simp [forward, hclosed, hstatus]
      · have hother : response.status ≠ 200 := by omega
        simp [forward, hclosed, hstatus, hother, badGateway]

omit [Ed25519] [Blake3Kdf] in
theorem mustFailClosed_streamingResponse (stream : NarStream) (expectedSize : Option UInt64) :
    mustFailClosed (streamingResponse stream expectedSize).headers = false := by
  cases expectedSize <;>
    simp [streamingResponse, mustFailClosed, hasUnsupportedTransferCoding, hasAmbiguousFraming,
      connectionHeaderIsMalformed, HeaderMap.getAll, headerTokens]

variable {upstream : HttpUpstream} {expectedSize : Option UInt64}

omit [Ed25519] [Blake3Kdf] in
theorem HttpUpstream.source_not_peer {key : NarKey} {response : UpstreamResponse NarBody}
    (hsource : upstream.source key expectedSize = .ok response) (stream : NarStream) :
    response.body ≠ .peer stream := by
  obtain ⟨answer, -, rfl⟩ := Fallible.map_eq_ok_iff.mp hsource
  simp

theorem willServeRaw_eq (fabric : PeerFabric) (hash : NarHash) :
    PeerFabricRawServe.willServeRaw fabric.directory hash = !(fabric.discovered hash).isEmpty := by
  unfold PeerFabricRawServe.willServeRaw PeerFabric.discovered
  cases NarHashKey.fromStr hash with
  | error why => rfl
  | ok canonical =>
    cases fabric.directory with
    | none => rfl
    | some directory =>
      dsimp only
      cases findProvidersBound directory (.deriveFromSignedNarHash canonical.bytes) <;> rfl

variable {fabric : PeerFabric}

theorem willServeRaw_of_attempts {hash : NarHash} (hattempts : fabric.attempts hash expectedSize ≠ []) :
    PeerFabricRawServe.willServeRaw fabric.directory hash = true := by
  rw [willServeRaw_eq]
  cases hrecords : fabric.discovered hash with
  | nil =>
    rw [PeerFabric.attempts, hrecords] at hattempts
    exact absurd rfl hattempts
  | cons record records => rfl

/-- A peer answers exactly when the token is correlated and the first deciding offer for its hash opens. -/
theorem respondNar_peer_iff {catalog : NarCatalog} {token : NarPathToken} {entryBody : Option (List UInt8)} :
    (respondNar catalog token entryBody fabric upstream).status = 200 ∧
        (respondNar catalog token entryBody fabric upstream).body = .peer stream ↔
      ∃ narMeta, correlated catalog token entryBody = some narMeta ∧
        (fabric.attempts narMeta.narHash (some narMeta.narSize)).findSome? decision =
          some (.serve stream) := by
  unfold respondNar
  cases hmeta : correlated catalog token entryBody with
  | none =>
    rw [composedSource_upstreamPath, forward_peer_iff]
    constructor
    · intro h
      obtain ⟨response, hsource, -, -, hpeer⟩ := h
      exact absurd hpeer (HttpUpstream.source_not_peer hsource stream)
    · intro h
      obtain ⟨narMeta, hnone, -⟩ := h
      cases hnone
  | some narMeta =>
    simp only [forward_peer_iff, composedSource_signed, Option.some.injEq, exists_eq_left']
    cases hended : (fabric.attempts narMeta.narHash (some narMeta.narSize)).findSome? decision with
    | none =>
      simp only [reduceCtorEq, iff_false, not_exists, not_and]
      intro response hsource _ _ hpeer
      exact HttpUpstream.source_not_peer hsource stream hpeer
    | some ended =>
      cases ended with
      | abort limit streamed => simp [Decision.answer]
      | serve opened =>
        have hopen := mustFailClosed_streamingResponse opened (some narMeta.narSize)
        simp only [Decision.answer, Except.ok.injEq, exists_eq_left', hopen, true_and,
          Option.some.injEq, Decision.serve.injEq]
        simp [streamingResponse]

/-- One request with all that the environment answers while it is served. -/
inductive Request where
  | narinfo (fetched : Except SourceError (UpstreamResponse UpstreamBody))
      (directory : Option ProviderDirectory)
  | nar (token : NarPathToken) (entryBody : Option (List UInt8)) (fabric : PeerFabric)
      (upstream : HttpUpstream)
  | restart

/-- The catalog, and beside it what the client was last told of each token. -/
structure Session where
  catalog : NarCatalog
  told : NarPathToken → Option NarCompression

def Session.start : Session := ⟨∅, fun _ => none⟩

def Response.tells (response : Response) : Option (NarPathToken × NarCompression) :=
  match response.status, response.body with
  | 200, .upstream body =>
    (parseCorrelation body.bytes).map fun correlation => (correlation.token, correlation.compression)
  | _, _ => none

def Session.hear (session : Session) (response : Response) : NarPathToken → Option NarCompression :=
  match response.tells with
  | some (token, compression) => Function.update session.told token (some compression)
  | none => session.told

def Session.serve (session : Session) : Request → Session × Option Response
  | .narinfo fetched directory =>
    let (response, catalog) := respondNarinfo directory session.catalog fetched
    (⟨catalog, session.hear response⟩, some response)
  | .nar token entryBody fabric upstream =>
    (session, some (respondNar session.catalog token entryBody fabric upstream))
  | .restart => (⟨∅, session.told⟩, none)

def Session.next (session : Session) (request : Request) : Session := (session.serve request).1

/-- A 200 for a NAR last described as compressed does not carry the raw NAR of a peer. -/
def EncodingAsTold (session : Session) (request : Request) : Prop :=
  ∀ token entryBody fabric upstream response stream,
    request = .nar token entryBody fabric upstream → session.told token = some .compressed →
    (session.serve request).2 = some response → response.status = 200 → response.body ≠ .peer stream

/-- The directory now has holders for a NAR last described as compressed, and the first offer of theirs that decides opens. -/
def Session.FindsOpenHolder (session : Session) : Request → Prop
  | .nar token entryBody fabric _ =>
    session.told token = some .compressed ∧
      ∃ narMeta stream, correlated session.catalog token entryBody = some narMeta ∧
        PeerFabricRawServe.willServeRaw fabric.directory narMeta.narHash = true ∧
        (fabric.attempts narMeta.narHash (some narMeta.narSize)).findSome? decision =
          some (.serve stream)
  | _ => False

theorem encodingAsTold_iff (session : Session) (request : Request) :
    EncodingAsTold session request ↔ ¬session.FindsOpenHolder request := by
  cases request with
  | narinfo fetched directory => simp [EncodingAsTold, Session.FindsOpenHolder]
  | restart => simp [EncodingAsTold, Session.FindsOpenHolder]
  | nar token entryBody fabric upstream =>
    constructor
    · intro hhonest hfinds
      obtain ⟨htold, narMeta, stream, hmeta, -, hserve⟩ := hfinds
      obtain ⟨hstatus, hbody⟩ := respondNar_peer_iff.mpr ⟨narMeta, hmeta, hserve⟩
      exact hhonest token entryBody fabric upstream _ stream rfl htold rfl hstatus hbody
    · intro hclear _ _ _ _ response stream hrequest htold hresponse hstatus hbody
      cases hrequest
      cases hresponse
      obtain ⟨narMeta, hmeta, hserve⟩ := respondNar_peer_iff.mp ⟨hstatus, hbody⟩
      have htried : fabric.attempts narMeta.narHash (some narMeta.narSize) ≠ [] := by
        intro hnone
        rw [hnone] at hserve
        cases hserve
      exact hclear ⟨htold, narMeta, stream, hmeta, willServeRaw_of_attempts htried, hserve⟩

end Daemon

section Golden

attribute [local instance] goldenScheme goldenKeys goldenKdf

/-- The narinfo of a compressed file whose signed hash has a holder among the peers. -/
def goldenNarinfo : UpstreamResponse UpstreamBody :=
  ⟨200, [], ⟨ascii "StorePath: /nix/store/0a0lslqb6gbqnj6xqjlaljjqg6kgb3wz-lib\nURL: nar/1abc.nar.xz\nCompression: xz\nFileHash: sha256:0123\nFileSize: 1024\nNarHash: sha256:048i248i248i248i248i248i248i248i248i248i248i248i248i\nNarSize: 4096\nReferences: \nSig: k:AAAA\n", true⟩⟩

def goldenHttpUpstream : HttpUpstream := fun _ _ => .ok ⟨200, [], ⟨ascii "xz", true⟩⟩

/-- The directory misses while the narinfo is served; the NAR request then meets `fabric`. -/
def goldenRequests (fabric : PeerFabric) : List Request :=
  [.narinfo (.ok goldenNarinfo) (some fun _ => .miss),
    .nar "1abc.nar.xz".toList none fabric goldenHttpUpstream]

def goldenSession : Session := Session.start.next (.narinfo (.ok goldenNarinfo) (some fun _ => .miss))

end Golden

end NixP2p
