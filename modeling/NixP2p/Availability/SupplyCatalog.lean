import NixP2p.Base.Checked
import NixP2p.Base.HashTable
import NixP2p.Records.Ids

/-!
# The supply catalog

What a node can produce, by BLAKE3 digest. Every registration of the availability index owns one identity in the catalog and at most one record, under the digest it last published. A provider reads the catalog by digest and never writes it; the index publishes a record while its registration is active and withdraws it when it retires the registration.
-/

namespace NixP2p

open Checked HashTable

/-- A path as its equality sees it, by components. -/
structure StorePath where
  components : List String
  deriving DecidableEq

inductive NarProductionSource where
  | process (program : StorePath) (args : List String)
  | regularFile (path : StorePath)
  | memory (bytes : List UInt8)

structure SupplyCatalogRecord where
  declaredSize : UInt64
  source : NarProductionSource
  storePath : StorePath

structure SupplyRegistration where
  id : UInt64
  retired : Bool := false

structure CatalogState where
  nextRegistration : UInt64 := 0
  owners : Table UInt64 (Option Blake3Digest) := ∅
  records : Table Blake3Digest (Table UInt64 SupplyCatalogRecord) := ∅

namespace CatalogState

/-- The next identity, or none where the identities are used up and the call panics. -/
def register (state : CatalogState) : Option (CatalogState × SupplyRegistration) :=
  (addU64 state.nextRegistration 1).map fun id =>
    ({ state with nextRegistration := id, owners := state.owners.insert id none }, { id })

def record? (state : CatalogState) (digest : Blake3Digest) (id : UInt64) : Option SupplyCatalogRecord :=
  cell? state.records digest id

def removeRecord (state : CatalogState) (digest : Blake3Digest) (id : UInt64) : CatalogState :=
  { state with records := eraseCell state.records digest id }

def removePrevious (state : CatalogState) (previous : Option Blake3Digest) (digest : Blake3Digest)
    (id : UInt64) : CatalogState :=
  match previous with
  | some previousDigest => if previousDigest = digest then state else state.removeRecord previousDigest id
  | none => state

/-- The catalog with the record, or none where the registration is no longer active. -/
def publish (state : CatalogState) (registration : SupplyRegistration) (digest : Blake3Digest)
    (record : SupplyCatalogRecord) : Option CatalogState :=
  if registration.retired then none
  else match state.owners.lookup registration.id with
    | none => none
    | some previous =>
      some { state with
        owners := state.owners.insert registration.id (some digest)
        records := insertCell (state.removePrevious previous digest registration.id).records digest
          registration.id record }

def retire (state : CatalogState) (registration : SupplyRegistration) : CatalogState :=
  let kept := { state with owners := state.owners.erase registration.id }
  match state.owners.lookup registration.id with
  | some (some digest) => kept.removeRecord digest registration.id
  | _ => kept

def Owned (state : CatalogState) : Prop :=
  ∀ digest id record, state.record? digest id = some record →
    state.owners.lookup id = some (some digest)

variable {state next : CatalogState} {registration : SupplyRegistration} {digest : Blake3Digest}
  {record : SupplyCatalogRecord}

theorem record?_removeRecord (state : CatalogState) (digest other : Blake3Digest) (id id' : UInt64) :
    (state.removeRecord digest id).record? other id' =
      if other = digest ∧ id' = id then none else state.record? other id' :=
  cell?_eraseCell state.records digest other id id'

theorem register_eq_some (h : state.register = some (next, registration)) :
    registration = { id := next.nextRegistration } ∧
      next.nextRegistration.toNat = state.nextRegistration.toNat + 1 ∧
      next.owners = state.owners.insert next.nextRegistration none ∧ next.records = state.records := by
  obtain ⟨id, hid, heq⟩ := Option.map_eq_some_iff.mp h
  obtain ⟨rfl, rfl⟩ := Prod.mk.inj heq
  exact ⟨rfl, toNat_of_addU64 hid, rfl, rfl⟩

theorem owners_retire (state : CatalogState) (registration : SupplyRegistration) (id : UInt64) :
    (state.retire registration).owners.lookup id =
      if id = registration.id then none else state.owners.lookup id := by
  unfold retire
  split <;> exact lookup_erase state.owners registration.id id

theorem nextRegistration_retire (state : CatalogState) (registration : SupplyRegistration) :
    (state.retire registration).nextRegistration = state.nextRegistration := by
  unfold retire
  split <;> rfl

theorem records_retire_of_unpublished (h : state.owners.lookup registration.id = some none) :
    (state.retire registration).records = state.records := by
  unfold retire
  rw [h]

theorem Owned.record?_retire (h : state.Owned) (registration : SupplyRegistration)
    (digest : Blake3Digest) (id : UInt64) :
    (state.retire registration).record? digest id =
      if id = registration.id then none else state.record? digest id := by
  have hown : ∀ record, state.record? digest id = some record →
      id = registration.id → state.owners.lookup registration.id = some (some digest) := by
    rintro record hrecord rfl
    exact h digest _ record hrecord
  unfold retire
  split
  · rename_i published howner
    rw [record?_removeRecord]
    by_cases hid : id = registration.id
    · rw [if_pos hid]
      by_cases hdigest : digest = published
      · rw [if_pos ⟨hdigest, hid⟩]
      rw [if_neg fun hboth => hdigest hboth.1]
      refine Option.eq_none_iff_forall_ne_some.mpr fun record hrecord => hdigest ?_
      have hboth := (hown record hrecord hid).symm.trans howner
      exact Option.some.inj (Option.some.inj hboth)
    · rw [if_neg hid, if_neg fun hboth => hid hboth.2]
      rfl
  · rename_i hnone
    by_cases hid : id = registration.id
    · rw [if_pos hid]
      refine Option.eq_none_iff_forall_ne_some.mpr fun record hrecord => ?_
      exact hnone digest (hown record hrecord hid)
    · rw [if_neg hid]
      rfl

theorem Owned.retire (h : state.Owned) (registration : SupplyRegistration) :
    (state.retire registration).Owned := by
  intro digest id record hrecord
  rw [h.record?_retire] at hrecord
  rw [owners_retire]
  split at hrecord
  · cases hrecord
  rename_i hid
  rw [if_neg hid]
  exact h digest id record hrecord

theorem exists_publish (hactive : registration.retired = false)
    (howner : (state.owners.lookup registration.id).isSome) (digest : Blake3Digest)
    (record : SupplyCatalogRecord) : ∃ next, state.publish registration digest record = some next := by
  obtain ⟨previous, hprevious⟩ := Option.isSome_iff_exists.mp howner
  unfold publish
  rw [hactive, hprevious]
  exact ⟨_, rfl⟩

theorem nextRegistration_publish (h : state.publish registration digest record = some next) :
    next.nextRegistration = state.nextRegistration := by
  unfold publish at h
  split at h
  · cases h
  split at h
  · cases h
  · obtain rfl := Option.some.inj h
    rfl

theorem owners_publish (h : state.publish registration digest record = some next) (id : UInt64) :
    next.owners.lookup id =
      if id = registration.id then some (some digest) else state.owners.lookup id := by
  unfold publish at h
  split at h
  · cases h
  split at h
  · cases h
  · obtain rfl := Option.some.inj h
    exact lookup_insert state.owners registration.id id (some digest)

theorem record?_removePrevious_of_ne (state : CatalogState) (previous : Option Blake3Digest)
    (digest other : Blake3Digest) {id id' : UInt64} (hid : id' ≠ id) :
    (state.removePrevious previous digest id).record? other id' = state.record? other id' := by
  unfold removePrevious
  split
  · split
    · rfl
    · rw [record?_removeRecord, if_neg fun hboth => hid hboth.2]
  · rfl

theorem Owned.record?_removePrevious (h : state.Owned) {previous : Option Blake3Digest} {id : UInt64}
    (howner : state.owners.lookup id = some previous) {other : Blake3Digest} (hother : other ≠ digest) :
    (state.removePrevious previous digest id).record? other id = none := by
  refine Option.eq_none_iff_forall_ne_some.mpr fun old hold => ?_
  have hprevious : state.record? other id = some old → previous = some other := fun hkept =>
    Option.some.inj (howner.symm.trans (h other id old hkept))
  unfold removePrevious at hold
  split at hold
  · split at hold
    · rename_i hsame
      exact hother ((Option.some.inj (hprevious hold)).symm.trans hsame)
    rw [record?_removeRecord] at hold
    split at hold
    · cases hold
    · rename_i hkept
      exact hkept ⟨(Option.some.inj (hprevious hold)).symm, rfl⟩
  · cases hprevious hold

theorem Owned.record?_publish (h : state.Owned)
    (hpublish : state.publish registration digest record = some next) (other : Blake3Digest) (id : UInt64) :
    next.record? other id =
      if id = registration.id then (if other = digest then some record else none)
      else state.record? other id := by
  unfold publish at hpublish
  split at hpublish
  · cases hpublish
  split at hpublish
  · cases hpublish
  rename_i previous howner
  obtain rfl := Option.some.inj hpublish
  change cell? (insertCell _ digest registration.id record) other id = _
  rw [cell?_insertCell]
  by_cases hid : id = registration.id
  · rw [if_pos hid]
    by_cases hdigest : other = digest
    · rw [if_pos ⟨hdigest, hid⟩, if_pos hdigest]
    · rw [if_neg fun hboth => hdigest hboth.1, if_neg hdigest, hid]
      exact h.record?_removePrevious howner hdigest
  · rw [if_neg hid, if_neg fun hboth => hid hboth.2]
    exact record?_removePrevious_of_ne state previous digest other hid

theorem Owned.publish (h : state.Owned)
    (hpublish : state.publish registration digest record = some next) : next.Owned := by
  intro other id found hfound
  rw [h.record?_publish hpublish] at hfound
  rw [owners_publish hpublish]
  split at hfound
  · rename_i hid
    rw [if_pos hid]
    split at hfound
    · rename_i hdigest
      rw [hdigest]
    · cases hfound
  rename_i hid
  rw [if_neg hid]
  exact h other id found hfound

end CatalogState

end NixP2p
