import Mathlib.Data.Finset.Sort
import Mathlib.Data.Prod.Lex
import NixP2p.Base.Run
import NixP2p.Base.Smallest
import NixP2p.Directory.FloorStore
import NixP2p.Serving.PeerSource

/-!
# The bounded provider fan-out

The walk of a provider index may name any number of providers. The worker keeps the `maxPeers` of them that rank lowest under the salt of the query, fetches their records and classifies what it got.
-/

namespace NixP2p

open HashTable Smallest
open Libp2pKeys (PeerId)

/-- The multihash bytes of a peer id. -/
class PeerIdBytes [Libp2pKeys] where
  toBytes : PeerId → List UInt8

abbrev FanOutSalt := UInt64

def fnvOffset : UInt64 := 0xcbf29ce484222325

def fnvPrime : UInt64 := 0x100000001b3

/-- FNV-1a over the bytes of the peer, seeded by the salt, then the splitmix64 finalizer. -/
def providerRank [Libp2pKeys] [PeerIdBytes] (salt : FanOutSalt) (peer : PeerId) : UInt64 :=
  let fnv := (PeerIdBytes.toBytes peer).foldl (fun hash byte => (hash ^^^ byte.toUInt64) * fnvPrime)
    (fnvOffset ^^^ salt)
  let first := (fnv ^^^ (fnv >>> 30)) * 0xbf58476d1ce4e5b9
  let second := (first ^^^ (first >>> 27)) * 0x94d049bb133111eb
  second ^^^ (second >>> 31)

def rankedPeer [Libp2pKeys] (rank : PeerId → UInt64) (peer : PeerId) : Nat ×ₗ PeerId :=
  toLex ((rank peer).toNat, peer)

theorem rankedPeer_injective [Libp2pKeys] (rank : PeerId → UInt64) :
    Function.Injective (rankedPeer rank) :=
  fun _ _ h => congrArg (fun ranked => (ofLex ranked).2) h

section Query

variable [Libp2pKeys] [LinearOrder PeerId]

def retainBoundedProvider (maxPeers : Nat) (rank : PeerId → UInt64)
    (found : Selection (Nat ×ₗ PeerId)) (peer : PeerId) : Selection (Nat ×ₗ PeerId) :=
  found.retain maxPeers (rankedPeer rank peer)

/-- A query in progress; its `rank` is `providerRank` at the salt drawn when it started. -/
structure PendingProviders where
  found : Selection (Nat ×ₗ PeerId)
  maxPeers : Nat
  rank : PeerId → UInt64

namespace PendingProviders

def start (rank : PeerId → UInt64) (maxPeers : Nat) : PendingProviders := ⟨.empty, maxPeers, rank⟩

def absorb (query : PendingProviders) (providers : List PeerId) : PendingProviders :=
  { query with found := providers.foldl (retainBoundedProvider query.maxPeers query.rank) query.found }

def peers (query : PendingProviders) : Finset PeerId :=
  query.found.found.image fun ranked => (ofLex ranked).2

end PendingProviders

structure QueryReach where
  answered : UInt32

structure ProviderFanOut where
  providers : List PeerId
  truncated : Bool
  reach : QueryReach

inductive QueryFail where
  | timeout
  | backend (why : String)

inductive GetProvidersOk where
  | foundProviders (providers : List PeerId)
  | finishedWithNoAdditionalRecord

def GetProvidersOk.providers : GetProvidersOk → List PeerId
  | .foundProviders providers => providers
  | .finishedWithNoAdditionalRecord => []

/-- One result of the walk; an error is a timeout. `replyClosed` tells whether the caller is gone. -/
structure QueryEvent where
  result : Option GetProvidersOk
  answered : UInt32
  last : Bool
  replyClosed : Bool

def QueryEvent.found (providers : List PeerId) : QueryEvent :=
  ⟨some (.foundProviders providers), 0, false, false⟩

inductive QueryState where
  | pending (query : PendingProviders)
  | replied (outcome : Except QueryFail ProviderFanOut)

def PendingProviders.reply (query : PendingProviders) (answered : UInt32) : ProviderFanOut :=
  ⟨query.peers.sort, query.found.discarded, ⟨answered⟩⟩

def onQuery : QueryState → QueryEvent → QueryState
  | .replied outcome, _ => .replied outcome
  | .pending query, event =>
    -- the cancelled query drops its sender, which a caller reads as a worker that is gone
    if event.replyClosed then .replied (.error (.backend "worker gone"))
    else
      match event.result with
      | none => .replied (.error .timeout)
      | some found =>
        if event.last then .replied (.ok ((query.absorb found.providers).reply event.answered))
        else .pending (query.absorb found.providers)

def runQuery (state : QueryState) (events : List QueryEvent) : QueryState := events.foldl onQuery state

def namedPeers : List QueryEvent → List PeerId
  | [] => []
  | event :: events =>
    (event.result.elim [] GetProvidersOk.providers) ++
      if event.replyClosed || event.last || event.result.isNone then [] else namedPeers events

/-- `kept` are the `maxPeers` lowest ranked of the peers `named`, and `truncated` says whether some were left out. -/
structure ExactFanOut (rank : PeerId → UInt64) (maxPeers : Nat) (named kept : Finset PeerId)
    (truncated : Bool) : Prop where
  subset : kept ⊆ named
  card : kept.card = min maxPeers named.card
  below : ∀ peer ∈ kept, ∀ other ∈ named, other ∉ kept →
    rank peer < rank other ∨ rank peer = rank other ∧ peer < other
  truncated_iff : truncated = true ↔ maxPeers < named.card

variable {named : Finset PeerId} {rank : PeerId → UInt64}

theorem ExactFanOut.eq_of_not_truncated {maxPeers : Nat} {kept : Finset PeerId}
    (h : ExactFanOut rank maxPeers named kept false) : kept = named := by
  refine Finset.eq_of_subset_of_card_le h.subset ?_
  have hcard := h.card
  have hfits : ¬ maxPeers < named.card := fun hmore => Bool.noConfusion (h.truncated_iff.mpr hmore)
  omega

variable {peer : PeerId}

theorem rankedPeer_lt {other : PeerId} (h : rankedPeer rank peer < rankedPeer rank other) :
    rank peer < rank other ∨ rank peer = rank other ∧ peer < other := by
  obtain hlt | ⟨heq, hlt⟩ := Prod.Lex.toLex_lt_toLex.mp h
  · exact .inl (UInt64.lt_iff_toNat_lt.mpr hlt)
  · exact .inr ⟨UInt64.toNat_inj.mp heq, hlt⟩

/-- The selection of a query holds the ranked peers of those named to it. -/
def PendingProviders.Holds (query : PendingProviders) (named : Finset PeerId) : Prop :=
  Selects query.maxPeers (named.image (rankedPeer query.rank)) query.found

theorem PendingProviders.holds_start (rank : PeerId → UInt64) (maxPeers : Nat) :
    (PendingProviders.start rank maxPeers).Holds ∅ := by
  unfold Holds
  rw [Finset.image_empty]
  exact selects_empty maxPeers

variable {query : PendingProviders}

theorem PendingProviders.Holds.absorb (h : query.Holds named) (providers : List PeerId) :
    (query.absorb providers).Holds (named ∪ providers.toFinset) := by
  have hfold := Selects.foldl_retain h (providers.map (rankedPeer query.rank))
  have himage : (providers.map (rankedPeer query.rank)).toFinset =
      providers.toFinset.image (rankedPeer query.rank) := by
    ext ranked
    simp only [List.mem_toFinset, List.mem_map, Finset.mem_image]
  rw [List.foldl_map, himage, ← Finset.image_union] at hfold
  exact hfold

theorem PendingProviders.Holds.mem_peers (h : query.Holds named) :
    peer ∈ query.peers ↔ rankedPeer query.rank peer ∈ query.found.found := by
  refine ⟨fun hpeer => ?_, fun hranked => Finset.mem_image.mpr ⟨_, hranked, rfl⟩⟩
  obtain ⟨ranked, hranked, rfl⟩ := Finset.mem_image.mp hpeer
  obtain ⟨other, -, rfl⟩ := Finset.mem_image.mp (h.least.subset hranked)
  exact hranked

theorem PendingProviders.Holds.card_peers (h : query.Holds named) : query.peers.card = query.found.found.card := by
  refine Finset.card_image_of_injOn fun left hleft right hright heq => ?_
  obtain ⟨peer, -, rfl⟩ := Finset.mem_image.mp (h.least.subset hleft)
  obtain ⟨other, -, rfl⟩ := Finset.mem_image.mp (h.least.subset hright)
  exact congrArg (rankedPeer query.rank) heq

theorem PendingProviders.Holds.exact (h : query.Holds named) :
    ExactFanOut query.rank query.maxPeers named query.peers query.found.discarded := by
  have hinj := rankedPeer_injective query.rank
  have hcard : (named.image (rankedPeer query.rank)).card = named.card :=
    Finset.card_image_of_injective named hinj
  refine ⟨fun peer hpeer => ?_, ?_, fun peer hpeer other hother hout => ?_, ?_⟩
  · exact hinj.mem_finset_image.mp (h.least.subset (h.mem_peers.mp hpeer))
  · rw [h.card_peers, h.least.card, hcard]
  · refine rankedPeer_lt (h.least.below _ (h.mem_peers.mp hpeer) _ ?_ (mt h.mem_peers.mpr hout))
    exact Finset.mem_image_of_mem _ hother
  · rw [h.discarded_iff, hcard]

/-- What a query in each of its states owes to the peers it was named. -/
def QueryState.Honest (rank : PeerId → UInt64) (maxPeers : Nat) (named : Finset PeerId) :
    QueryState → Prop
  | .pending query => query.rank = rank ∧ query.maxPeers = maxPeers ∧ query.Holds named
  | .replied (.ok fanOut) => ExactFanOut rank maxPeers named fanOut.providers.toFinset fanOut.truncated
  | .replied (.error _) => True

theorem runQuery_replied (outcome : Except QueryFail ProviderFanOut) (events : List QueryEvent) :
    runQuery (.replied outcome) events = .replied outcome := by
  induction events with
  | nil => rfl
  | cons event events ih => exact ih

theorem runQuery_honest {before : Finset PeerId} (h : query.Holds before) (events : List QueryEvent) :
    (runQuery (.pending query) events).Honest query.rank query.maxPeers
      (before ∪ (namedPeers events).toFinset) := by
  induction events generalizing query before with
  | nil =>
    rw [namedPeers, List.toFinset_nil, Finset.union_empty]
    exact ⟨rfl, rfl, h⟩
  | cons event events ih =>
    obtain ⟨result, answered, last, closed⟩ := event
    change (runQuery (onQuery (.pending query) _) events).Honest _ _ _
    cases closed with
    | true => rw [onQuery, if_pos rfl, runQuery_replied]; trivial
    | false =>
      rw [onQuery, if_neg Bool.false_ne_true]
      cases result with
      | none => rw [runQuery_replied]; trivial
      | some found =>
        have habsorb := h.absorb found.providers
        cases last with
        | true =>
          change (runQuery (.replied _) events).Honest _ _
            (before ∪ (found.providers ++ []).toFinset)
          rw [runQuery_replied, List.append_nil]
          change ExactFanOut _ _ _ (Finset.sort _).toFinset _
          rw [Finset.sort_toFinset]
          exact habsorb.exact
        | false =>
          change (runQuery (.pending (query.absorb found.providers)) events).Honest _ _
            (before ∪ (found.providers ++ namedPeers events).toFinset)
          rw [List.toFinset_append, ← Finset.union_assoc]
          exact ih habsorb

theorem runQuery_found (query : PendingProviders) (batches : List (List PeerId)) :
    runQuery (.pending query) (batches.map .found) = .pending (query.absorb batches.flatten) := by
  induction batches generalizing query with
  | nil => rfl
  | cons providers batches ih =>
    change runQuery (.pending (query.absorb providers)) (batches.map .found) = _
    rw [ih, List.flatten_cons]
    simp only [PendingProviders.absorb, List.foldl_append]

theorem runQuery_found_comm (rank : PeerId → UInt64) (maxPeers : Nat) {batches batches' : List (List PeerId)}
    (h : batches.flatten.toFinset = batches'.flatten.toFinset) :
    runQuery (.pending (.start rank maxPeers)) (batches.map .found) =
      runQuery (.pending (.start rank maxPeers)) (batches'.map .found) := by
  have hleft := (PendingProviders.holds_start rank maxPeers).absorb batches.flatten
  have hright := (PendingProviders.holds_start rank maxPeers).absorb batches'.flatten
  rw [← h] at hright
  have hfound := Selects.unique hleft hright
  rw [runQuery_found, runQuery_found]
  exact congrArg (fun found => QueryState.pending ⟨found, maxPeers, rank⟩) hfound

end Query

def QueryReach.reachedNeighborhood (reach : QueryReach) : Bool := decide (0 < reach.answered)

def absenceFromReach {α : Type} (reach : QueryReach) : Lookup α :=
  if reach.reachedNeighborhood then .miss else .unavailable .insufficientRouting

def truncatedUnavailable : Unavailable :=
  .backend ("provider index named more providers than the max_peers fan-out budget; the consulted " ++
    "subset held no live record but a discarded provider may be valid - retry with a larger " ++
    "budget (not an authoritative absence)")

def classifyEmptyIndex {α : Type} (reach : QueryReach) (truncated : Bool) : Lookup α :=
  if truncated then .unavailable truncatedUnavailable else absenceFromReach reach

variable {truncated : Bool}

theorem classifyEmptyIndex_eq_miss {α : Type} {reach : QueryReach}
    (h : (classifyEmptyIndex reach truncated : Lookup α) = .miss) : truncated = false := by
  cases truncated with
  | false => rfl
  | true => cases h

def classify [Ed25519] (records : List ProviderRecord) (consultFailed truncated : Bool) :
    Lookup (List ProviderRecord) :=
  if records ≠ [] then .found records
  else if consultFailed then
    .unavailable (.backend
      "provider index named providers but their value records could not be consulted")
  else if truncated then .unavailable truncatedUnavailable
  else .miss

theorem classify_eq_miss [Ed25519] {records : List ProviderRecord} {consultFailed : Bool}
    (h : classify records consultFailed truncated = .miss) : consultFailed = false ∧ truncated = false := by
  unfold classify at h
  split at h
  · cases h
  split at h
  · cases h
  split at h
  · cases h
  · exact ⟨Bool.eq_false_of_not_eq_true ‹_›, Bool.eq_false_of_not_eq_true ‹_›⟩

section Consult

variable [Ed25519] [Libp2pKeys]

structure Consultation where
  routingPeers : Nat
  salt : FanOutSalt
  events : List QueryEvent
  record : PeerId → Except QueryFail (Option (List UInt8))
  now : UInt64
  walk : PeerId → IterOrder Floor
  landed : PeerId → Bool

structure Consulted where
  store : FloorStore
  records : List ProviderRecord
  consultFailed : Bool

def Consulted.step (key : ContentKey) (net : Consultation) (state : Consulted) (peer : PeerId) :
    Consulted :=
  match net.record peer with
  | .ok (some bytes) =>
    match decodeProviderAssertion bytes key net.now with
    | .ok assertion =>
      let admitted := state.store.admitAssertion
        ⟨peer, assertion, net.now, net.walk peer, net.landed peer⟩
      { state with store := admitted.1, records := state.records ++ admitted.2.toList }
    | .error _ => state
  | .ok none => state
  | .error _ => { state with consultFailed := true }

theorem Consulted.consultFailed_step (key : ContentKey) (net : Consultation) (state : Consulted)
    (peer : PeerId) : (state.step key net peer).consultFailed = false ↔
      state.consultFailed = false ∧ ∃ value, net.record peer = .ok value := by
  unfold Consulted.step
  cases hrecord : net.record peer with
  | error fail => exact ⟨fun h => Bool.noConfusion h, fun ⟨_, _, h⟩ => nomatch h⟩
  | ok value =>
    have hvalue : ∃ other, (Except.ok value : Except QueryFail _) = .ok other := ⟨value, rfl⟩
    cases value with
    | none => exact ⟨fun h => ⟨h, hvalue⟩, And.left⟩
    | some bytes => dsimp only; split <;> exact ⟨fun h => ⟨h, hvalue⟩, And.left⟩

variable {key : ContentKey} {net : Consultation}

theorem Consulted.consultFailed_foldl {state : Consulted} {peers : List PeerId}
    (h : (peers.foldl (Consulted.step key net) state).consultFailed = false) :
    state.consultFailed = false ∧ ∀ peer ∈ peers, ∃ value, net.record peer = .ok value := by
  induction peers generalizing state with
  | nil => exact ⟨h, fun _ hpeer => absurd hpeer List.not_mem_nil⟩
  | cons peer peers ih =>
    obtain ⟨hstep, hrest⟩ := ih h
    obtain ⟨hstate, hpeer⟩ := (consultFailed_step key net state peer).mp hstep
    exact ⟨hstate, List.forall_mem_cons.mpr ⟨hpeer, hrest⟩⟩

variable [LinearOrder PeerId] [PeerIdBytes]

def Consultation.query (net : Consultation) (maxPeers : UInt32) : QueryState :=
  runQuery (.pending (.start (providerRank net.salt) maxPeers.toNat)) net.events

def resolve (store : FloorStore) (key : ContentKey) (maxPeers : UInt32) (net : Consultation) :
    Option (FloorStore × Lookup (List ProviderRecord)) :=
  if net.routingPeers = 0 then some (store, .unavailable .insufficientRouting)
  else
    match net.query maxPeers with
    | .pending _ => none
    | .replied (.error .timeout) => some (store, .unavailable .deadlineExceeded)
    | .replied (.error (.backend why)) => some (store, .unavailable (.backend why))
    | .replied (.ok fanOut) =>
      if fanOut.providers = [] then some (store, classifyEmptyIndex fanOut.reach fanOut.truncated)
      else
        let consulted := fanOut.providers.foldl (Consulted.step key net) ⟨store, [], false⟩
        some (consulted.store, classify consulted.records consulted.consultFailed fanOut.truncated)

/-- An absence is reported over a complete fan-out, each of whose values could be fetched. -/
theorem resolve_eq_miss {store after : FloorStore} {maxPeers : UInt32}
    (h : resolve store key maxPeers net = some (after, .miss)) :
    ∃ fanOut, net.query maxPeers = .replied (.ok fanOut) ∧ fanOut.truncated = false ∧
      ∀ peer ∈ fanOut.providers, ∃ value, net.record peer = .ok value := by
  unfold resolve at h
  split at h
  · cases h
  split at h
  · cases h
  · cases h
  · cases h
  · rename_i fanOut hquery
    refine ⟨fanOut, hquery, ?_⟩
    split at h
    · rename_i hempty
      refine ⟨classifyEmptyIndex_eq_miss (Prod.mk.inj (Option.some.inj h)).2, fun peer hpeer => ?_⟩
      rw [hempty] at hpeer
      exact absurd hpeer List.not_mem_nil
    · obtain ⟨hconsult, htruncated⟩ := classify_eq_miss (Prod.mk.inj (Option.some.inj h)).2
      exact ⟨htruncated, (Consulted.consultFailed_foldl hconsult).2⟩

def Consultation.consulted (net : Consultation) (maxPeers : UInt32) : List PeerId :=
  match net.query maxPeers with
  | .replied (.ok fanOut) => fanOut.providers
  | _ => []

/-- The fan-out of a walk depends only on which providers were named, is exact, and never holds more than the budget; a lookup that discarded a provider or could not fetch its value does not report an absence. -/
theorem fan_out_exact :
    (∀ (rank : PeerId → UInt64) (maxPeers : Nat) (batches : List (List PeerId)),
      (∃ query, runQuery (.pending (.start rank maxPeers)) (batches.map .found) = .pending query ∧
        ExactFanOut rank maxPeers batches.flatten.toFinset query.peers query.found.discarded) ∧
      ∀ seen, seen <+: batches.flatten →
        ((PendingProviders.start rank maxPeers).absorb seen).found.found.card ≤ maxPeers) ∧
    (∀ (rank : PeerId → UInt64) (maxPeers : Nat) (batches batches' : List (List PeerId)),
      batches.flatten.toFinset = batches'.flatten.toFinset →
      runQuery (.pending (.start rank maxPeers)) (batches.map .found) =
        runQuery (.pending (.start rank maxPeers)) (batches'.map .found)) ∧
    (∀ (rank : PeerId → UInt64) (maxPeers : Nat) (events : List QueryEvent) (fanOut : ProviderFanOut),
      runQuery (.pending (.start rank maxPeers)) events = .replied (.ok fanOut) →
      ExactFanOut rank maxPeers (namedPeers events).toFinset fanOut.providers.toFinset
        fanOut.truncated) ∧
    ∀ (store : FloorStore) (key : ContentKey) (maxPeers : UInt32) (net : Consultation) (peer : PeerId),
      peer ∈ namedPeers net.events →
      (peer ∉ net.consulted maxPeers ∨ ∃ fail, net.record peer = .error fail) →
      ∀ after, resolve store key maxPeers net ≠ some (after, .miss) := by
  have hreply : ∀ (rank : PeerId → UInt64) (maxPeers : Nat) (events : List QueryEvent)
      (fanOut : ProviderFanOut),
      runQuery (.pending (.start rank maxPeers)) events = .replied (.ok fanOut) →
      ExactFanOut rank maxPeers (namedPeers events).toFinset fanOut.providers.toFinset
        fanOut.truncated := by
    intro rank maxPeers events fanOut hrun
    have := runQuery_honest (PendingProviders.holds_start rank maxPeers) events
    rw [hrun, Finset.empty_union] at this
    exact this
  refine ⟨fun rank maxPeers batches => ⟨⟨_, runQuery_found _ batches, ?_⟩, fun seen _ => ?_⟩,
    fun rank maxPeers batches batches' => runQuery_found_comm rank maxPeers, hreply,
    fun store key maxPeers net peer hnamed hlost after hmiss => ?_⟩
  · have := (PendingProviders.holds_start rank maxPeers).absorb batches.flatten
    rw [Finset.empty_union] at this
    exact this.exact
  · exact ((PendingProviders.holds_start rank maxPeers).absorb seen).least.card_le
  · obtain ⟨fanOut, hquery, htruncated, hfetched⟩ := resolve_eq_miss hmiss
    have hexact := hreply _ _ _ _ hquery
    rw [htruncated] at hexact
    have hkept : peer ∈ fanOut.providers := by
      rw [← List.mem_toFinset, hexact.eq_of_not_truncated, List.mem_toFinset]
      exact hnamed
    obtain hdiscarded | ⟨fail, hfail⟩ := hlost
    · apply hdiscarded
      rw [Consultation.consulted, hquery]
      exact hkept
    obtain ⟨value, hvalue⟩ := hfetched peer hkept
    rw [hfail] at hvalue
    cases hvalue

end Consult

section Golden

@[reducible] def goldenPeers : Libp2pKeys := ⟨UInt8, inferInstance, fun _ => none⟩

@[reducible] def goldenPeerOrder : LinearOrder goldenPeers.PeerId :=
  LinearOrder.lift' UInt8.toNat fun _ _ => UInt8.toNat_inj.mp

attribute [local instance] goldenScheme goldenPeers goldenPeerOrder

@[reducible] def goldenPeerBytes : PeerIdBytes := ⟨fun peer : UInt8 => [peer]⟩

attribute [local instance] goldenPeerBytes

/-- Three providers are named, one of them twice, and none can be reached. -/
def goldenConsultation : Consultation where
  routingPeers := 1
  salt := 7
  events :=
    [.found [(3 : UInt8), (5 : UInt8)], .found [(5 : UInt8), (4 : UInt8)],
      ⟨some .finishedWithNoAdditionalRecord, 1, true, false⟩]
  record := fun _ => .error .timeout
  now := 100
  walk := fun _ => .id _
  landed := fun _ => true

theorem fan_out_exact_golden :
    (4 : UInt8) ∈ namedPeers goldenConsultation.events ∧
      ∀ after, resolve (.withCap 4) goldenKey 2 goldenConsultation ≠ some (after, .miss) :=
  have hnamed : (4 : UInt8) ∈ namedPeers goldenConsultation.events := by decide
  ⟨hnamed, fan_out_exact.2.2.2 (.withCap 4) goldenKey 2 goldenConsultation _ hnamed
    (.inr ⟨.timeout, rfl⟩)⟩

end Golden

end NixP2p
