import NixP2p.Records.Canonical
import NixP2p.Records.Store

/-!
# The record set never rolls back

Over any history of calls, whatever the assertions and however the clock jumps, a call either leaves its slot alone or writes a larger sequence there. That one fact gives both the monotone sequence and the guarantee that a superseded record is never served again.
-/

namespace NixP2p

open HashTable Wire

namespace ProviderRecordSet

section Runs

variable [Ed25519] {key : ContentKey} {provider : NodeId}

theorem slot?_apply_newer (set : ProviderRecordSet) (assertion : ProviderAssertion) (now : UInt64) {slot : Slot}
    (hslot : set.slot? key provider = some slot) :
    ∃ slot', (set.apply assertion now).1.slot? key provider = some slot' ∧
      (slot' = slot ∨ slot.sequence < slot'.sequence) := by
  rw [slot?_apply]
  split
  · rename_i h
    obtain ⟨-, -, -, hnewer⟩ := h
    refine ⟨.of assertion, rfl, .inr ?_⟩
    rw [Slot.sequence_of]
    exact hnewer slot hslot
  · exact ⟨slot, hslot, .inl rfl⟩

theorem slot?_applyAll_newer (later : List (ProviderAssertion × UInt64)) (set : ProviderRecordSet) {slot : Slot}
    (hslot : set.slot? key provider = some slot) :
    ∃ slot', (set.applyAll later).slot? key provider = some slot' ∧
      (slot' = slot ∨ slot.sequence < slot'.sequence) := by
  induction later generalizing set slot with
  | nil => exact ⟨slot, hslot, .inl rfl⟩
  | cons entry later ih =>
    obtain ⟨middle, hmiddle, hfirst⟩ := slot?_apply_newer set entry.1 entry.2 hslot
    obtain ⟨last, hlast, hrest⟩ := ih (set.apply entry.1 entry.2).1 hmiddle
    refine ⟨last, hlast, ?_⟩
    obtain rfl | hfirst := hfirst
    · exact hrest
    obtain rfl | hrest := hrest
    · exact .inr hfirst
    · exact .inr (UInt64.lt_trans hfirst hrest)

def Filed (set : ProviderRecordSet) : Prop :=
  ∀ key provider record, set.slot? key provider = some (.active record) →
    record.key = key ∧ record.provider = provider

variable {set : ProviderRecordSet}

theorem filed_apply (hfiled : set.Filed) (assertion : ProviderAssertion) (now : UInt64) :
    (set.apply assertion now).1.Filed := by
  intro key provider record hslot
  rw [slot?_apply] at hslot
  split at hslot
  · rename_i h
    obtain ⟨rfl, rfl, -⟩ := h
    cases assertion with
    | provide stored =>
      cases hslot
      exact ⟨rfl, rfl⟩
    | withdraw withdrawal => exact nomatch hslot
  · exact hfiled key provider record hslot

theorem filed_applyAll (history : List (ProviderAssertion × UInt64)) (hfiled : set.Filed) :
    (set.applyAll history).Filed := by
  induction history generalizing set with
  | nil => exact hfiled
  | cons entry history ih => exact ih (filed_apply hfiled entry.1 entry.2)

theorem filed_new : new.Filed := by
  intro key provider record hslot
  exact nomatch hslot

theorem applyAll_append (set : ProviderRecordSet) (history later : List (ProviderAssertion × UInt64)) :
    set.applyAll (history ++ later) = (set.applyAll history).applyAll later :=
  List.foldl_append

variable {assertion : ProviderAssertion} {now : UInt64}

theorem slot?_of_accepted (haccepted : (set.apply assertion now).2.accepted = true) :
    (set.apply assertion now).1.slot? assertion.key assertion.provider = some (.of assertion) := by
  obtain ⟨-, happly⟩ | ⟨-, -, hrejected⟩ := apply_cases set assertion now
  · rw [happly, slot?_insertSlot, if_pos ⟨rfl, rfl⟩]
  · rw [hrejected] at haccepted
    exact nomatch haccepted

/-- What is found after an accepted assertion, whatever is applied in between, is at least as new, and newer than a withdrawal. -/
theorem newer_of_found (hfiled : set.Filed) (haccepted : (set.apply assertion now).2.accepted = true)
    {later : List (ProviderAssertion × UInt64)} {order : IterOrder (Σ _ : NodeId, Slot)} {now' : UInt64}
    {record : ProviderRecord}
    (hfound : record ∈ findProviders order ((set.apply assertion now).1.applyAll later) key now')
    (hkey : record.key = assertion.key) (hprovider : record.provider = assertion.provider) :
    assertion.sequence ≤ record.sequence ∧
      (assertion.isWithdrawal = true → assertion.sequence < record.sequence) := by
  have hwritten := slot?_of_accepted haccepted
  obtain ⟨slot, hslot, hnewer⟩ := slot?_applyAll_newer later _ hwritten
  obtain ⟨-, provider, hrecord⟩ := mem_findProviders_iff.mp hfound
  obtain ⟨rfl, rfl⟩ := filed_applyAll later (filed_apply hfiled assertion now) _ _ _ hrecord
  rw [hkey, hprovider] at hrecord
  have hsame : slot = .active record := Option.some.inj (hslot.symm.trans hrecord)
  subst hsame
  obtain hkept | hlt := hnewer
  · cases assertion with
    | provide stored =>
      cases hkept
      exact ⟨UInt64.le_refl _, fun h => nomatch h⟩
    | withdraw withdrawal => exact nomatch hkept
  · rw [Slot.sequence_of] at hlt
    exact ⟨UInt64.le_of_lt hlt, fun _ => hlt⟩

/-- No history of calls rolls a slot back or serves what a newer assertion replaced. -/
theorem anti_rollback (history : List (ProviderAssertion × UInt64)) :
    (∀ later key provider slot, (new.applyAll history).slot? key provider = some slot →
      ∃ slot', (new.applyAll (history ++ later)).slot? key provider = some slot' ∧
        slot.sequence ≤ slot'.sequence) ∧
    (∀ assertion now, ((new.applyAll history).apply assertion now).2.accepted = false →
      ((new.applyAll history).apply assertion now).1 = new.applyAll history) ∧
    (∀ assertion now, ((new.applyAll history).apply assertion now).2.accepted = true →
      ∀ key provider, ¬(key = assertion.key ∧ provider = assertion.provider) →
        ((new.applyAll history).apply assertion now).1.slot? key provider =
          (new.applyAll history).slot? key provider) ∧
    (∀ assertion now, ((new.applyAll history).apply assertion now).2.accepted = true →
      ∀ later order key now' record,
        record ∈ findProviders order (new.applyAll (history ++ (assertion, now) :: later)) key now' →
        record.key = assertion.key → record.provider = assertion.provider →
        assertion.sequence ≤ record.sequence ∧
          (assertion.isWithdrawal = true → assertion.sequence < record.sequence)) := by
  refine ⟨?_, ?_, ?_, ?_⟩
  · intro later key provider slot hslot
    obtain ⟨slot', hslot', hnewer⟩ := slot?_applyAll_newer later _ hslot
    rw [applyAll_append]
    refine ⟨slot', hslot', ?_⟩
    obtain rfl | hlt := hnewer
    · exact UInt64.le_refl _
    · exact UInt64.le_of_lt hlt
  · intro assertion now hrejected
    obtain ⟨-, happly⟩ | ⟨-, hset, -⟩ := apply_cases (new.applyAll history) assertion now
    · rw [happly, accepted_storedOutcome] at hrejected
      exact nomatch hrejected
    · exact hset
  · intro assertion now _ key provider hother
    rw [slot?_apply, if_neg (fun h => hother ⟨h.1, h.2.1⟩)]
  · intro assertion now haccepted later order key now' record hfound hkey hprovider
    rw [applyAll_append] at hfound
    exact newer_of_found (filed_applyAll history filed_new) haccepted hfound hkey hprovider

end Runs

section Golden

attribute [local instance] goldenScheme

def goldenRecord (sequence : UInt64) : ProviderRecord :=
  ⟨goldenKey, ⟨beBytes 32 0xaa, by simp⟩, goldenProvider, [], sequence, 100, 1000, goldenSignature⟩

def goldenWithdrawal (sequence : UInt64) : ProviderWithdrawal :=
  ⟨goldenKey, goldenProvider, sequence, 100, 1000, goldenSignature⟩

/-- A withdrawn record is replayed, and only a newer one is served again. -/
theorem anti_rollback_golden :
    ((new.applyAll [(.provide (goldenRecord 1), 0)]).apply (.withdraw (goldenWithdrawal 2)) 10).2 =
        .withdrawn ∧
      goldenRecord 3 ∈ findProviders (IterOrder.id _)
        (new.applyAll [(.provide (goldenRecord 1), 0), (.withdraw (goldenWithdrawal 2), 10),
          (.provide (goldenRecord 1), 20), (.provide (goldenRecord 3), 5)]) goldenKey 500 ∧
      (goldenWithdrawal 2).sequence < (goldenRecord 3).sequence := by
  have haccepted : ((new.applyAll [(.provide (goldenRecord 1), 0)]).apply
      (.withdraw (goldenWithdrawal 2)) 10).2 = .withdrawn := by
    decide +kernel
  have hfound : goldenRecord 3 ∈ findProviders (IterOrder.id _)
      (new.applyAll [(.provide (goldenRecord 1), 0), (.withdraw (goldenWithdrawal 2), 10),
        (.provide (goldenRecord 1), 20), (.provide (goldenRecord 3), 5)]) goldenKey 500 := by
    decide +kernel
  have hguarded := (anti_rollback [(.provide (goldenRecord 1), 0)]).2.2.2
    (.withdraw (goldenWithdrawal 2)) 10 (by rw [haccepted]; rfl) _
    (IterOrder.id _) goldenKey 500 (goldenRecord 3) hfound rfl rfl
  exact ⟨haccepted, hfound, hguarded.2 rfl⟩

end Golden

end ProviderRecordSet

end NixP2p
