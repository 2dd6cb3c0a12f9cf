import Mathlib.Algebra.Order.BigOperators.Group.List
import Mathlib.Data.List.Nodup
import Mathlib.Data.List.Perm.Subperm
import NixP2p.Durable.Persist
import NixP2p.Records.Store

/-!
# Counting, forgetting and exporting slots

The part of the record set a bounded backend builds on: how many slots there are, dropping the expired ones or a single one, and writing all of them out. The set is a map of maps; `floors` is the list of its slots, each of them once, and what the operations do is said through `slot?`.
-/

namespace NixP2p.ProviderRecordSet

open HashTable

variable [Ed25519]

def slotCount (set : ProviderRecordSet) : Nat :=
  (set.byKey.entries.map fun entry => entry.2.entries.length).sum

def containsSlot (set : ProviderRecordSet) (key : ContentKey) (provider : NodeId) : Bool :=
  (set.slot? key provider).isSome

def unexpired (now : UInt64) (providers : Table NodeId Slot) : Table NodeId Slot :=
  retain (fun _ slot => decide (now < slot.expiry)) providers

def evictExpired (set : ProviderRecordSet) (now : UInt64) : ProviderRecordSet × Nat :=
  (⟨filterMapValues (fun providers => nonempty? (unexpired now providers)) set.byKey⟩,
    (set.byKey.entries.map fun entry =>
      entry.2.entries.length - (unexpired now entry.2).entries.length).sum)

def removeSlot (set : ProviderRecordSet) (key : ContentKey) (provider : NodeId) :
    ProviderRecordSet × Bool :=
  match set.byKey.lookup key with
  | none => (set, false)
  | some providers =>
    -- a key without providers is dropped
    (⟨put set.byKey key (nonempty? (providers.erase provider))⟩, (providers.lookup provider).isSome)

def floors (set : ProviderRecordSet) : List Floor :=
  (toEntries set.byKey).flatMap fun entry =>
    (toEntries entry.2).map fun slot => (entry.1, slot.1, slot.2)

def exportFloors (walk : IterOrder Floor) (set : ProviderRecordSet) : List Floor :=
  walk.arrange set.floors

def restoreFloor (set : ProviderRecordSet) (floor : Floor) : ProviderRecordSet :=
  set.insertSlot floor.1 floor.2.1 floor.2.2

variable {set : ProviderRecordSet} {key : ContentKey} {provider : NodeId}

theorem mem_floors {slot : Slot} : (key, provider, slot) ∈ set.floors ↔ set.slot? key provider = some slot := by
  simp only [floors, List.mem_flatMap, List.mem_map, slot?, Option.bind_eq_some_iff]
  constructor
  · intro h
    obtain ⟨⟨key', providers⟩, hkey, ⟨provider', slot'⟩, hprovider, heq⟩ := h
    obtain ⟨rfl, rfl, rfl⟩ : key' = key ∧ provider' = provider ∧ slot' = slot := by simpa using heq
    exact ⟨providers, mem_toEntries.mp hkey, mem_toEntries.mp hprovider⟩
  · intro h
    obtain ⟨providers, hkey, hprovider⟩ := h
    exact ⟨(key, providers), mem_toEntries.mpr hkey, (provider, slot), mem_toEntries.mpr hprovider, rfl⟩

def slotOf (floor : Floor) : ContentKey × NodeId := (floor.1, floor.2.1)

theorem nodup_floors (set : ProviderRecordSet) : (set.floors.map slotOf).Nodup := by
  rw [floors, List.map_flatMap, List.nodup_flatMap]
  constructor
  · intro entry _
    have hinjective : Function.Injective fun provider : NodeId => (entry.1, provider) :=
      fun _ _ heq => congrArg Prod.snd heq
    have hmap := (nodup_toEntries entry.2).map hinjective
    rw [List.map_map] at hmap ⊢
    exact hmap
  · have hkeys := List.pairwise_map.mp (nodup_toEntries set.byKey)
    refine hkeys.imp fun {first second} hne => ?_
    intro slot hfirst hsecond
    simp only [List.map_map, List.mem_map] at hfirst hsecond
    obtain ⟨_, -, rfl⟩ := hfirst
    obtain ⟨_, -, heq⟩ := hsecond
    exact hne (congrArg Prod.fst heq).symm

theorem slotCount_eq (set : ProviderRecordSet) : set.slotCount = set.floors.length := by
  simp only [slotCount, floors, toEntries, List.length_flatMap, List.length_map, List.map_map]
  rfl

theorem slotCount_le {slots : List (ContentKey × NodeId)}
    (hslots : ∀ key provider, set.containsSlot key provider = true → (key, provider) ∈ slots) :
    set.slotCount ≤ slots.length := by
  have hsubset : set.floors.map slotOf ⊆ slots := by
    intro slot hslot
    obtain ⟨⟨key, provider, content⟩, hmem, rfl⟩ := List.mem_map.mp hslot
    apply hslots
    rw [containsSlot, mem_floors.mp hmem, Option.isSome_some]
  have hle := (List.subperm_of_subset set.nodup_floors hsubset).length_le
  rwa [List.length_map, ← slotCount_eq] at hle

theorem slot?_evictExpired (set : ProviderRecordSet) (now : UInt64) (key : ContentKey)
    (provider : NodeId) :
    (set.evictExpired now).1.slot? key provider =
      (set.slot? key provider).filter fun slot => decide (now < slot.expiry) := by
  unfold evictExpired slot?
  rw [lookup_filterMapValues, Option.bind_assoc]
  simp only [lookup_nonempty?, unexpired, lookup_retain]
  cases set.byKey.lookup key with
  | none => rfl
  | some providers => rfl

theorem lt_expiry_of_evictExpired {now : UInt64} (hnone : (set.evictExpired now).2 = 0) {slot : Slot}
    (hslot : set.slot? key provider = some slot) : now < slot.expiry := by
  obtain ⟨providers, hkey, hprovider⟩ := Option.bind_eq_some_iff.mp hslot
  have hentry : (⟨key, providers⟩ : Sigma fun _ : ContentKey => Table NodeId Slot) ∈ set.byKey.entries :=
    AList.mem_lookup_iff.mp hkey
  have hdropped : providers.entries.length - (unexpired now providers).entries.length ≤
      (set.evictExpired now).2 :=
    List.le_sum_of_mem (List.mem_map.mpr ⟨_, hentry, rfl⟩)
  have hkept : (unexpired now providers).entries.length = providers.entries.length := by
    have hle : (unexpired now providers).entries.length ≤ providers.entries.length :=
      List.length_filter_le _ _
    omega
  have hall := List.length_filter_eq_length_iff.mp hkept _ (AList.mem_lookup_iff.mp hprovider)
  simpa using hall

theorem slot?_removeSlot (set : ProviderRecordSet) (key key' : ContentKey) (provider provider' : NodeId) :
    (set.removeSlot key provider).1.slot? key' provider' =
      if key' = key ∧ provider' = provider then none else set.slot? key' provider' := by
  have herase : (set.removeSlot key provider).1.byKey = eraseCell set.byKey key provider := by
    unfold removeSlot eraseCell
    cases set.byKey.lookup key <;> rfl
  rw [slot?, herase]
  exact cell?_eraseCell set.byKey key key' provider provider'

end NixP2p.ProviderRecordSet
