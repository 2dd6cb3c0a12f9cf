import NixP2p.Base.HashTable
import NixP2p.Records.Codec

/-!
# The provider record set

The directory oracle: for each key and provider one slot, a live record or a tombstone, and the rule by which a verified assertion replaces what the slot holds. What one call can do is said once, in `apply_cases`: an accepted assertion is written to its own slot over an older one or none, and any other leaves the set as it is. The later modules use that in place of the definition.
-/

namespace NixP2p

open HashTable

inductive ApplyOutcome where
  | applied
  | withdrawn
  | idempotent
  | rejectedStale (current offered : UInt64)
  | rejectedExpired (expiry now : UInt64)
  deriving DecidableEq

def ApplyOutcome.accepted : ApplyOutcome → Bool
  | applied | withdrawn => true
  | _ => false

variable [Ed25519]

inductive Slot where
  | active (record : ProviderRecord)
  | withdrawn (sequence expiry : UInt64)
  deriving DecidableEq

namespace Slot

def sequence : Slot → UInt64
  | active record => record.sequence
  | withdrawn sequence _ => sequence

def expiry : Slot → UInt64
  | active record => record.expiry
  | withdrawn _ expiry => expiry

def of : ProviderAssertion → Slot
  | .provide record => active record
  | .withdraw withdrawal => withdrawn withdrawal.sequence withdrawal.expiry

@[simp] theorem sequence_of (assertion : ProviderAssertion) :
    (of assertion).sequence = assertion.sequence := by
  cases assertion <;> rfl

def live (now : UInt64) : Slot → Option ProviderRecord
  | active record => if now < record.expiry then some record else none
  | withdrawn _ _ => none

end Slot

/-- The two sides name one state: the identical record, or a tombstone with the same bounds. -/
def sameState : ProviderAssertion → Slot → Bool
  | .provide record, .active existing => decide (record = existing)
  | .withdraw withdrawal, .withdrawn sequence expiry =>
    decide (withdrawal.sequence = sequence ∧ withdrawal.expiry = expiry)
  | _, _ => false

def storedOutcome : ProviderAssertion → ApplyOutcome
  | .provide _ => .applied
  | .withdraw _ => .withdrawn

structure ProviderRecordSet where
  byKey : Table ContentKey (Table NodeId Slot)

namespace ProviderRecordSet

def new : ProviderRecordSet := ⟨∅⟩

def slot? (set : ProviderRecordSet) (key : ContentKey) (provider : NodeId) : Option Slot :=
  (set.byKey.lookup key).bind fun providers => providers.lookup provider

/-- Entering a key's map, created when missing, and writing one provider's slot there. -/
def insertSlot (set : ProviderRecordSet) (key : ContentKey) (provider : NodeId) (slot : Slot) :
    ProviderRecordSet :=
  ⟨set.byKey.insert key (((set.byKey.lookup key).getD ∅).insert provider slot)⟩

def apply (set : ProviderRecordSet) (assertion : ProviderAssertion) (now : UInt64) :
    ProviderRecordSet × ApplyOutcome :=
  if assertion.expiry ≤ now then (set, .rejectedExpired assertion.expiry now)
  else match set.slot? assertion.key assertion.provider with
    | none =>
      (set.insertSlot assertion.key assertion.provider (.of assertion), storedOutcome assertion)
    | some current =>
      if assertion.sequence = current.sequence then
        (set, if sameState assertion current then .idempotent
          else .rejectedStale current.sequence assertion.sequence)
      else if assertion.sequence < current.sequence then
        (set, .rejectedStale current.sequence assertion.sequence)
      else
        (set.insertSlot assertion.key assertion.provider (.of assertion), storedOutcome assertion)

/-- The live records under a key, in whatever order the provider map is walked. -/
def findProviders (order : IterOrder (Σ _ : NodeId, Slot)) (set : ProviderRecordSet)
    (key : ContentKey) (now : UInt64) : List ProviderRecord :=
  match set.byKey.lookup key with
  | none => []
  | some providers => (order.arrange providers.entries).filterMap fun entry => entry.2.live now

def applyAll (set : ProviderRecordSet) (history : List (ProviderAssertion × UInt64)) :
    ProviderRecordSet :=
  history.foldl (fun set entry => (set.apply entry.1 entry.2).1) set

@[simp] theorem slot?_new (key : ContentKey) (provider : NodeId) : new.slot? key provider = none := rfl

theorem slot?_insertSlot (set : ProviderRecordSet) (key key' : ContentKey) (provider provider' : NodeId)
    (slot : Slot) :
    (set.insertSlot key provider slot).slot? key' provider' =
      if key' = key ∧ provider' = provider then some slot else set.slot? key' provider' :=
  cell?_insertCell set.byKey key key' provider provider' slot

def Supersedes (assertion : ProviderAssertion) (now : UInt64) (slot : Option Slot) : Prop :=
  now < assertion.expiry ∧ ∀ current ∈ slot, current.sequence < assertion.sequence

/-- An accepted call writes its own slot, over an older one or none; any other leaves the set as it is. -/
theorem apply_cases (set : ProviderRecordSet) (assertion : ProviderAssertion) (now : UInt64) :
    (Supersedes assertion now (set.slot? assertion.key assertion.provider) ∧
      set.apply assertion now =
        (set.insertSlot assertion.key assertion.provider (.of assertion), storedOutcome assertion)) ∨
    (¬Supersedes assertion now (set.slot? assertion.key assertion.provider) ∧
      (set.apply assertion now).1 = set ∧ (set.apply assertion now).2.accepted = false) := by
  unfold apply Supersedes
  by_cases hexpired : assertion.expiry ≤ now
  · rw [if_pos hexpired]
    exact .inr ⟨fun h => absurd h.1 (UInt64.not_lt.mpr hexpired), rfl, rfl⟩
  rw [if_neg hexpired]
  have hfresh : now < assertion.expiry := UInt64.not_le.mp hexpired
  cases hslot : set.slot? assertion.key assertion.provider with
  | none => exact .inl ⟨⟨hfresh, fun _ h => nomatch h⟩, rfl⟩
  | some current =>
    by_cases heq : assertion.sequence = current.sequence
    · refine .inr ⟨fun h => ?_, ?_⟩
      · have hlt := h.2 current rfl
        rw [heq] at hlt
        exact absurd hlt (UInt64.lt_irrefl _)
      · simp only [heq, if_true, true_and]
        cases sameState assertion current <;> rfl
    by_cases hlt : assertion.sequence < current.sequence
    · refine .inr ⟨fun h => UInt64.lt_asymm hlt (h.2 current rfl), ?_⟩
      simp only [if_neg heq, if_pos hlt, true_and]
      rfl
    refine .inl ⟨⟨hfresh, fun other hother => ?_⟩, ?_⟩
    · cases hother
      grind
    · simp only [if_neg heq, if_neg hlt]

variable {set : ProviderRecordSet} {assertion : ProviderAssertion}

/-- A call that finds its own state already there is unexpired and is the state its slot holds. -/
theorem slot?_of_idempotent {now : UInt64} (h : (set.apply assertion now).2 = .idempotent) :
    now < assertion.expiry ∧
      ∃ current, set.slot? assertion.key assertion.provider = some current ∧
        sameState assertion current = true := by
  unfold apply at h
  by_cases hexpired : assertion.expiry ≤ now
  · rw [if_pos hexpired] at h
    cases h
  rw [if_neg hexpired] at h
  refine ⟨UInt64.not_le.mp hexpired, ?_⟩
  cases hslot : set.slot? assertion.key assertion.provider with
  | none =>
    rw [hslot] at h
    cases assertion <;> cases h
  | some current =>
    refine ⟨current, rfl, ?_⟩
    simp only [hslot] at h
    by_cases heq : assertion.sequence = current.sequence
    · rw [if_pos heq] at h
      cases hsame : sameState assertion current with
      | true => rfl
      | false =>
        rw [hsame] at h
        cases h
    rw [if_neg heq] at h
    by_cases hlt : assertion.sequence < current.sequence
    · rw [if_pos hlt] at h
      cases h
    · rw [if_neg hlt] at h
      cases assertion <;> cases h

theorem accepted_storedOutcome (assertion : ProviderAssertion) :
    (storedOutcome assertion).accepted = true := by
  cases assertion <;> rfl

open scoped Classical in
theorem slot?_apply (set : ProviderRecordSet) (assertion : ProviderAssertion) (now : UInt64)
    (key : ContentKey) (provider : NodeId) :
    (set.apply assertion now).1.slot? key provider =
      if key = assertion.key ∧ provider = assertion.provider ∧
          Supersedes assertion now (set.slot? key provider) then some (.of assertion)
      else set.slot? key provider := by
  obtain ⟨hnewer, happly⟩ | ⟨hkept, hset, -⟩ := apply_cases set assertion now
  · rw [happly, slot?_insertSlot]
    by_cases hown : key = assertion.key ∧ provider = assertion.provider
    · obtain ⟨rfl, rfl⟩ := hown
      rw [if_pos ⟨rfl, rfl⟩, if_pos ⟨rfl, rfl, hnewer⟩]
    · rw [if_neg hown, if_neg (fun h => hown ⟨h.1, h.2.1⟩)]
  rw [hset, if_neg]
  rintro ⟨rfl, rfl, hnewer⟩
  exact hkept hnewer

theorem apply_outcome_congr {set' : ProviderRecordSet}
    (hslot : set.slot? assertion.key assertion.provider = set'.slot? assertion.key assertion.provider)
    (now : UInt64) : (set.apply assertion now).2 = (set'.apply assertion now).2 := by
  unfold apply
  rw [hslot]
  by_cases hexpired : assertion.expiry ≤ now
  · rw [if_pos hexpired, if_pos hexpired]
  rw [if_neg hexpired, if_neg hexpired]
  cases set'.slot? assertion.key assertion.provider with
  | none => rfl
  | some current => simp only [apply_ite Prod.snd]

theorem mem_findProviders_iff {order : IterOrder (Σ _ : NodeId, Slot)} {key : ContentKey} {now : UInt64}
    {record : ProviderRecord} :
    record ∈ findProviders order set key now ↔
      now < record.expiry ∧ ∃ provider, set.slot? key provider = some (.active record) := by
  unfold findProviders slot?
  cases hproviders : set.byKey.lookup key with
  | none => simp
  | some providers =>
    simp only [List.mem_filterMap, IterOrder.mem_arrange, Option.bind_some]
    refine ⟨fun h => ?_, fun h => ?_⟩
    · obtain ⟨⟨provider, slot⟩, hentry, hlive⟩ := h
      cases slot with
      | withdrawn sequence expiry => exact nomatch hlive
      | active existing =>
        simp only [Slot.live, Option.ite_none_right_eq_some, Option.some.injEq] at hlive
        obtain ⟨hfresh, rfl⟩ := hlive
        exact ⟨hfresh, provider, AList.mem_lookup_iff.mpr hentry⟩
    · obtain ⟨hfresh, provider, hslot⟩ := h
      refine ⟨⟨provider, .active record⟩, AList.mem_lookup_iff.mp hslot, ?_⟩
      simp only [Slot.live, hfresh, if_true]

end ProviderRecordSet

end NixP2p
