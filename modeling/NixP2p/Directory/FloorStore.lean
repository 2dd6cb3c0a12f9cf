import NixP2p.Records.Retention

/-!
# The bounded floor store

A consumer keeps the slots of the records it has seen, so that an older record cannot be played back to it, and keeps at most `cap` of them. `order` lists the slots from the least recently touched, and when a call leaves too many, expired slots are dropped and then slots from the front of `order`. A durable store is loaded from its file and writes it again whenever a call changed a slot.
-/

namespace NixP2p

open HashTable ProviderRecordSet

variable [Ed25519] [Libp2pKeys]

structure Admitted where
  record : Option ProviderRecord
  floorAdvanced : Bool

def ProviderAssertion.positive : ProviderAssertion → Option ProviderRecord
  | .provide record => some record
  | .withdraw _ => none

def Admitted.of (assertion : ProviderAssertion) : ApplyOutcome → Admitted
  | .applied => ⟨assertion.positive, true⟩
  | .idempotent => ⟨assertion.positive, false⟩
  | .withdrawn => ⟨none, true⟩
  | .rejectedStale _ _ | .rejectedExpired _ _ => ⟨none, false⟩

/-- An assertion fetched from a peer that is not its provider never reaches the set. -/
def directoryAdmit (set : ProviderRecordSet) (peer : Libp2pKeys.PeerId) (assertion : ProviderAssertion)
    (now : UInt64) : ProviderRecordSet × Admitted :=
  have := Libp2pKeys.decEq
  if Libp2pKeys.peerIdOfProvider assertion.provider = some peer then
    ((set.apply assertion now).1, .of assertion (set.apply assertion now).2)
  else (set, ⟨none, false⟩)

structure FloorStore where
  inner : ProviderRecordSet
  order : List (ContentKey × NodeId)
  cap : Nat
  cap_pos : 1 ≤ cap
  hasPath : Bool
  file : Option (List Char)

def loadFloors : Option (List Char) → List Floor
  | none => []
  | some text => deserializeFloors text

/-- One call, with the order in which its walk meets the slots and whether its write succeeds. -/
structure Call where
  peer : Libp2pKeys.PeerId
  assertion : ProviderAssertion
  now : UInt64
  walk : IterOrder Floor
  landed : Bool

def Call.slot (call : Call) : ContentKey × NodeId := (call.assertion.key, call.assertion.provider)

namespace FloorStore

def withCap (cap : Nat) : FloorStore where
  inner := .new
  order := []
  cap := max cap 1
  cap_pos := Nat.le_max_right cap 1
  hasPath := false
  file := none

def durable (file : Option (List Char)) (cap : Nat) : FloorStore where
  inner := (loadFloors file).foldl restoreFloor .new
  order := (loadFloors file).map slotOf
  cap := max cap 1
  cap_pos := Nat.le_max_right cap 1
  hasPath := true
  file := file

def touch (order : List (ContentKey × NodeId)) (slot : ContentKey × NodeId) :
    List (ContentKey × NodeId) :=
  order.filter (· ≠ slot) ++ [slot]

/-- Slots are dropped from the front until the rest fits, and whether one was. -/
def popFront (cap : Nat) : ProviderRecordSet → List (ContentKey × NodeId) →
    ProviderRecordSet × List (ContentKey × NodeId) × Bool
  | set, [] => (set, [], false)
  | set, slot :: order =>
    if set.slotCount ≤ cap then (set, slot :: order, false)
    else
      let rest := popFront cap (set.removeSlot slot.1 slot.2).1 order
      (rest.1, rest.2.1, true)

def enforceCap (store : FloorStore) (now : UInt64) : FloorStore × Bool :=
  if store.inner.slotCount ≤ store.cap then (store, false)
  else
    let swept := store.inner.evictExpired now
    let order :=
      if 0 < swept.2 then store.order.filter fun slot => swept.1.containsSlot slot.1 slot.2
      else store.order
    let popped := popFront store.cap swept.1 order
    ({ store with inner := popped.1, order := popped.2.1 }, decide (0 < swept.2) || popped.2.2)

def persist (store : FloorStore) (walk : IterOrder Floor) (landed : Bool) : FloorStore :=
  if landed then { store with file := some (serializeFloors (store.inner.exportFloors walk)) } else store

def touched (store : FloorStore) (call : Call) : FloorStore :=
  let inner := (directoryAdmit store.inner call.peer call.assertion call.now).1
  { store with
    inner
    order :=
      if inner.containsSlot call.slot.1 call.slot.2 then touch store.order call.slot else store.order }

def admitAssertion (store : FloorStore) (call : Call) : FloorStore × Option ProviderRecord :=
  let admitted := (directoryAdmit store.inner call.peer call.assertion call.now).2
  let capped := (store.touched call).enforceCap call.now
  (if capped.1.hasPath && (admitted.floorAdvanced || capped.2) then
      capped.1.persist call.walk call.landed
    else capped.1,
   admitted.record)

def admitAll (store : FloorStore) (calls : List Call) : FloorStore :=
  calls.foldl (fun store call => (store.admitAssertion call).1) store

end FloorStore

/-- A newer assertion is written to its slot; any other leaves the set, and is answered only with the record the slot holds. -/
theorem directoryAdmit_cases (set : ProviderRecordSet) (peer : Libp2pKeys.PeerId)
    (assertion : ProviderAssertion) (now : UInt64) :
    (now < assertion.expiry ∧ directoryAdmit set peer assertion now =
      (set.insertSlot assertion.key assertion.provider (.of assertion), ⟨assertion.positive, true⟩)) ∨
    ((directoryAdmit set peer assertion now).1 = set ∧
      (directoryAdmit set peer assertion now).2.floorAdvanced = false ∧
      ∀ record, (directoryAdmit set peer assertion now).2.record = some record →
        assertion = .provide record ∧ now < record.expiry ∧
          set.slot? record.key record.provider = some (.active record)) := by
  unfold directoryAdmit
  by_cases hpeer : Libp2pKeys.peerIdOfProvider assertion.provider = some peer
  · simp only [if_pos hpeer]
    obtain ⟨hnewer, happly⟩ | ⟨-, hset, hkept⟩ := apply_cases set assertion now
    · left
      rw [happly]
      cases assertion with
      | provide record => exact ⟨hnewer.1, rfl⟩
      | withdraw withdrawal => exact ⟨hnewer.1, rfl⟩
    right
    cases houtcome : (set.apply assertion now).2 with
    | applied | withdrawn =>
      rw [houtcome] at hkept
      cases hkept
    | rejectedStale | rejectedExpired => exact ⟨hset, rfl, fun _ h => nomatch h⟩
    | idempotent =>
      refine ⟨hset, rfl, fun record hrecord => ?_⟩
      obtain ⟨hfresh, current, hslot, hsame⟩ := slot?_of_idempotent houtcome
      cases assertion with
      | withdraw withdrawal => cases hrecord
      | provide existing =>
        cases hrecord
        cases current with
        | withdrawn sequence expiry => cases hsame
        | active held =>
          rw [of_decide_eq_true hsame]
          rw [of_decide_eq_true hsame] at hslot hfresh
          exact ⟨rfl, hfresh, hslot⟩
  · simp only [if_neg hpeer]
    exact .inr ⟨trivial, trivial, fun _ h => nomatch h⟩

theorem slot?_directoryAdmit {set : ProviderRecordSet} {peer : Libp2pKeys.PeerId}
    {assertion : ProviderAssertion} {now : UInt64} {record : ProviderRecord}
    (h : (directoryAdmit set peer assertion now).2.record = some record) :
    assertion = .provide record ∧ now < record.expiry ∧
      (directoryAdmit set peer assertion now).1.slot? record.key record.provider =
        some (.active record) := by
  obtain ⟨hfresh, happlied⟩ | ⟨hset, -, hrecord⟩ := directoryAdmit_cases set peer assertion now
  · rw [happlied] at h ⊢
    cases assertion with
    | withdraw withdrawal => cases h
    | provide existing =>
      cases h
      exact ⟨rfl, hfresh, by rw [slot?_insertSlot]; exact if_pos ⟨rfl, rfl⟩⟩
  · obtain ⟨hassertion, hfresh, hslot⟩ := hrecord record h
    exact ⟨hassertion, hfresh, by rw [hset]; exact hslot⟩

end NixP2p
