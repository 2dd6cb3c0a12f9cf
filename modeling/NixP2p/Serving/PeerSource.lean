import NixP2p.Records.Codec
import NixP2p.Serving.Http
import NixP2p.Serving.NarHashKey

/-!
# The peer source

The peer source derives the discovery key of a signed NarHash, asks the provider directory for its holders and tries their offers in order. `tryRecords_ends` says what its two loops come to: the first offer whose attempt decides, in record and offer order, ends the search.
-/

namespace NixP2p

inductive Unavailable where
  | bootstrapOutage
  | networkPartition
  | deadlineExceeded
  | insufficientRouting
  | backend (why : String)
  deriving DecidableEq

instance : ToString Unavailable where
  toString
    | .bootstrapOutage => "bootstrap infrastructure unreachable"
    | .networkPartition => "network partition from the answering keyspace"
    | .deadlineExceeded => "consultation deadline exceeded"
    | .insufficientRouting => "too few reachable peers near the key to be authoritative"
    | .backend why => s!"backend failure: {why}"

inductive Lookup (α : Type) where
  | found (answer : α)
  | miss
  | unavailable (why : Unavailable)
  deriving DecidableEq

/-- What ends the search: a transfer that opened, or a deliberate size abort. -/
inductive Decision where
  | serve (stream : NarStream)
  | abort (limit streamed : UInt64)
  deriving DecidableEq

def decision : Except TransferError NarStream → Option Decision
  | .ok stream => some (.serve stream)
  | .error (.tooLarge limit streamed) => some (.abort limit streamed)
  | .error _ => none

structure Progress where
  attempt : Nat := 0
  lastFailure : Option String := none

/-- The state of the search between two offers; it leaves the loops early with a decision. -/
abbrev Search := Except Decision Progress

/-- A search over `attempts` ended with their first decision, or it made them all and goes on at `next`. -/
def Ends (attempts : List (Except TransferError NarStream)) (next : Nat) : Search → Prop
  | .error ended => attempts.findSome? decision = some ended
  | .ok progress => attempts.findSome? decision = none ∧ progress.attempt = next

theorem Ends.bind {first second : List (Except TransferError NarStream)} {middle next : Nat}
    {search : Search} {rest : Progress → Search} (hfirst : Ends first middle search)
    (hrest : ∀ progress : Progress, progress.attempt = middle → Ends second next (rest progress)) :
    Ends (first ++ second) next (search >>= rest) := by
  cases search with
  | error ended =>
    change (first ++ second).findSome? decision = some ended
    rw [List.findSome?_append, hfirst]
    rfl
  | ok progress =>
    obtain ⟨hnone, hattempt⟩ := hfirst
    have hskip : (first ++ second).findSome? decision = second.findSome? decision := by
      rw [List.findSome?_append, hnone]
      rfl
    have hlast := hrest progress hattempt
    change Ends (first ++ second) next (rest progress)
    cases hresult : rest progress <;> simpa only [Ends, hresult, hskip] using hlast

variable [Ed25519]

abbrev ProviderDirectory := ContentKey → Lookup (List ProviderRecord)

/-- A directory answer keeps only records of the key that was asked for; an answer left empty is a fault. -/
def classifyLookup (key : ContentKey) : Lookup (List ProviderRecord) → Lookup (List ProviderRecord)
  | .found records =>
    let bound := records.filter fun record => record.key = key
    if bound ≠ [] then .found bound
    else if records ≠ [] then
      .unavailable (.backend "directory returned holders for un-asked key(s) only (wrong-key answer)")
    else .unavailable (.backend "directory returned an empty Found (Found is never empty)")
  | .miss => .miss
  | .unavailable why => .unavailable why

def findProvidersBound (directory : ProviderDirectory) (key : ContentKey) :
    Lookup (List ProviderRecord) :=
  classifyLookup key (directory key)

structure PeerFabric where
  directory : Option ProviderDirectory
  transfer : Nat → TransportTag → Option FetchStream

/-- The body of the inner loop: the offer ends the search, or it is noted and passed over. -/
def tryOffer (fabric : PeerFabric) (expectedSize : Option UInt64) (content : Blake3Digest)
    (progress : Progress) (offer : TransportOffer) : Search :=
  let tag := offer.tag
  match fabric.transfer progress.attempt tag with
  | none => .ok ⟨progress.attempt + 1, some s!"no transfer backend for offer tag {tag}"⟩
  | some fetchStream =>
    match fetchStream content offer expectedSize with
    | .ok stream => .error (.serve stream)
    | .error (.tooLarge limit streamed) => .error (.abort limit streamed)
    | .error fault => .ok ⟨progress.attempt + 1, some (toString fault)⟩

def tryOffers (fabric : PeerFabric) (expectedSize : Option UInt64) (content : Blake3Digest)
    (progress : Progress) (offers : List TransportOffer) : Search :=
  offers.foldlM (tryOffer fabric expectedSize content) progress

def tryRecords (fabric : PeerFabric) (expectedSize : Option UInt64) (progress : Progress)
    (records : List ProviderRecord) : Search :=
  records.foldlM (fun progress record =>
    tryOffers fabric expectedSize record.content progress record.offers) progress

/-- The discovered offers with the content each is for, in record and offer order. -/
def offersInOrder (records : List ProviderRecord) : List (Blake3Digest × TransportOffer) :=
  records.flatMap fun record => record.offers.map (record.content, ·)

/-- The outcomes of trying every offer that has a backend, the first under the number `first`. -/
def attemptsFrom (fabric : PeerFabric) (expectedSize : Option UInt64) (first : Nat)
    (offers : List (Blake3Digest × TransportOffer)) : List (Except TransferError NarStream) :=
  (offers.zipIdx first).filterMap fun ((content, offer), attempt) =>
    (fabric.transfer attempt offer.tag).map fun fetchStream => fetchStream content offer expectedSize

section Search

variable (fabric : PeerFabric) (expectedSize : Option UInt64)

theorem attemptsFrom_append (first : Nat) (left right : List (Blake3Digest × TransportOffer)) :
    attemptsFrom fabric expectedSize first (left ++ right) =
      attemptsFrom fabric expectedSize first left ++
        attemptsFrom fabric expectedSize (first + left.length) right := by
  simp [attemptsFrom, List.zipIdx_append]

theorem tryOffer_ends (content : Blake3Digest) (progress : Progress) (offer : TransportOffer) :
    Ends (attemptsFrom fabric expectedSize progress.attempt [(content, offer)]) (progress.attempt + 1)
      (tryOffer fabric expectedSize content progress offer) := by
  simp only [tryOffer, attemptsFrom, List.zipIdx_singleton]
  cases hbackend : fabric.transfer progress.attempt offer.tag with
  | none => simp [hbackend, Ends]
  | some fetchStream =>
    simp only [List.filterMap_cons, hbackend, Option.map_some, List.filterMap_nil]
    match fetchStream content offer expectedSize with
    | .ok stream => simp [Ends, decision]
    | .error (.tooLarge limit streamed) => simp [Ends, decision]
    | .error (.notHeld _) | .error (.integrityMismatch _ _) | .error (.authenticationFailed _ _)
    | .error (.wrongOffer _ _) | .error (.unavailable _) => simp [Ends, decision]

theorem tryOffers_ends (content : Blake3Digest) (progress : Progress) (offers : List TransportOffer) :
    Ends (attemptsFrom fabric expectedSize progress.attempt (offers.map (content, ·)))
      (progress.attempt + offers.length)
      (tryOffers fabric expectedSize content progress offers) := by
  induction offers generalizing progress with
  | nil => exact ⟨rfl, rfl⟩
  | cons offer offers ih =>
    have hsplit := attemptsFrom_append fabric expectedSize progress.attempt [(content, offer)]
      (offers.map (content, ·))
    have hnext : progress.attempt + (offer :: offers).length =
        progress.attempt + 1 + offers.length := by
      rw [List.length_cons]
      omega
    rw [List.map_cons, ← List.singleton_append, hsplit, hnext, tryOffers, List.foldlM_cons]
    apply (tryOffer_ends fabric expectedSize content progress offer).bind
    intro after hafter
    rw [List.length_singleton, ← hafter]
    exact ih after

theorem tryRecords_ends (progress : Progress) (records : List ProviderRecord) :
    Ends (attemptsFrom fabric expectedSize progress.attempt (offersInOrder records))
      (progress.attempt + (offersInOrder records).length)
      (tryRecords fabric expectedSize progress records) := by
  induction records generalizing progress with
  | nil => exact ⟨rfl, rfl⟩
  | cons record records ih =>
    have hoffers : offersInOrder (record :: records) =
        record.offers.map (record.content, ·) ++ offersInOrder records := rfl
    rw [hoffers, attemptsFrom_append, List.length_append, ← Nat.add_assoc, List.length_map,
      tryRecords, List.foldlM_cons]
    apply (tryOffers_ends fabric expectedSize record.content progress record.offers).bind
    intro after hafter
    rw [← hafter]
    exact ih after

end Search

/-- A committed 200 over the stream; the length header is the signed size when there is one. -/
def streamingResponse (stream : NarStream) (expectedSize : Option UInt64) : UpstreamResponse NarBody where
  status := 200
  headers := match expectedSize with
    | some signedSize => [("content-length", decimal signedSize.toNat)]
    | none => []
  body := .peer stream

def Decision.answer (expectedSize : Option UInt64) : Decision → Except SourceError (UpstreamResponse NarBody)
  | .serve stream => .ok (streamingResponse stream expectedSize)
  | .abort limit streamed => .error (.tooLarge limit streamed)

variable [Blake3Kdf]

def PeerFabricNarSource.resolve (fabric : PeerFabric) : NarSource := fun key expectedSize =>
  match key with
  | .upstreamPath _ => .error (.unreachable "a p2p source cannot resolve an UpstreamPath (no URL)")
  | .signedNarHash hash _ _ =>
    let text := String.ofList hash
    match NarHashKey.fromStr hash with
    | .error why => .error (.unreachable s!"NarHash {text} is not a canonical p2p key: {why}")
    | .ok canonical =>
      let contentKey := ContentKey.deriveFromSignedNarHash canonical.bytes
      match fabric.directory with
      | none => .error
        (.unreachable "fabric exposes no provider directory (discovery axis disabled)")
      | some directory =>
        match findProvidersBound directory contentKey with
        | .miss => .error (.unreachable s!"no provider holds {contentKey} (directory miss)")
        | .unavailable why =>
          .error (.unreachable s!"directory unavailable for {contentKey}: {why}")
        | .found records =>
          let count := records.length
          match tryRecords fabric expectedSize {} records with
          | .error ended => ended.answer expectedSize
          | .ok progress =>
            let why := progress.lastFailure.getD "no usable offer"
            .error (.unreachable
              s!"discovered {count} provider record(s) for {contentKey} but none yielded verified bytes (unlocatable provider or offer failure): {why}")

/-- The records the source goes through: none unless the hash is a key and the directory found holders. -/
def PeerFabric.discovered (fabric : PeerFabric) (hash : NarHash) : List ProviderRecord :=
  match NarHashKey.fromStr hash, fabric.directory with
  | .ok canonical, some directory =>
    match findProvidersBound directory (.deriveFromSignedNarHash canonical.bytes) with
    | .found records => records
    | _ => []
  | _, _ => []

def PeerFabric.attempts (fabric : PeerFabric) (hash : NarHash) (expectedSize : Option UInt64) :
    List (Except TransferError NarStream) :=
  attemptsFrom fabric expectedSize 0 (offersInOrder (fabric.discovered hash))

variable {fabric : PeerFabric} {hash : NarHash} {expectedSize : Option UInt64}

theorem PeerFabricNarSource.resolve_of_decision {ended : Decision}
    (hended : (fabric.attempts hash expectedSize).findSome? decision = some ended) (hint : NarPathToken)
    (compression : NarCompression) :
    resolve fabric (.signedNarHash hash hint compression) expectedSize = ended.answer expectedSize := by
  unfold PeerFabric.attempts PeerFabric.discovered at hended
  split at hended
  · rename_i canonical directory hkey hdirectory
    split at hended
    · rename_i records hfound
      have hends := tryRecords_ends fabric expectedSize {} records
      simp only [resolve, hkey, hdirectory, hfound]
      cases hsearch : tryRecords fabric expectedSize {} records with
      | error other =>
        rw [hsearch] at hends
        rw [Option.some.inj (hends.symm.trans hended)]
      | ok progress =>
        rw [hsearch] at hends
        cases hends.1.symm.trans hended
    · cases hended
  · cases hended

theorem PeerFabricNarSource.resolve_of_no_decision
    (hnone : (fabric.attempts hash expectedSize).findSome? decision = none) (hint : NarPathToken)
    (compression : NarCompression) :
    ∃ why, resolve fabric (.signedNarHash hash hint compression) expectedSize =
      .error (.unreachable why) := by
  cases hkey : NarHashKey.fromStr hash with
  | error why => exact ⟨_, by simp only [resolve, hkey]; rfl⟩
  | ok canonical =>
    cases hdirectory : fabric.directory with
    | none => exact ⟨_, by simp only [resolve, hkey, hdirectory]; rfl⟩
    | some directory =>
      simp only [PeerFabric.attempts, PeerFabric.discovered, hkey, hdirectory] at hnone
      simp only [resolve, hkey, hdirectory]
      cases hfound : findProvidersBound directory (.deriveFromSignedNarHash canonical.bytes) with
      | miss => exact ⟨_, rfl⟩
      | unavailable why => exact ⟨_, rfl⟩
      | found records =>
        rw [hfound] at hnone
        have hends := tryRecords_ends fabric expectedSize {} records
        cases hsearch : tryRecords fabric expectedSize {} records with
        | error ended =>
          rw [hsearch] at hends
          cases hnone.symm.trans hends
        | ok progress =>
          simp only [hsearch]
          exact ⟨_, rfl⟩

end NixP2p
