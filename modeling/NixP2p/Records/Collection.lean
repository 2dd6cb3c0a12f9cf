import NixP2p.Records.Convergence
import NixP2p.Records.Retention

/-!
# Dropping expired slots is invisible

One of two copies of a record set drops its expired slots from time to time, and with them the floors that refuse assertions. Where a larger sequence never has an earlier expiry, an assertion that a forgotten floor would have refused has itself expired, so the two copies answer every call alike.
-/

namespace NixP2p

open HashTable

section Calls

variable [Ed25519]

inductive StoreCall where
  | apply (assertion : ProviderAssertion)
  | findProviders (key : ContentKey)
  | evictExpired

namespace StoreCall

def isEviction : StoreCall → Bool
  | evictExpired => true
  | _ => false

def assertion? : StoreCall → Option ProviderAssertion
  | apply assertion => some assertion
  | _ => none

end StoreCall

/-- What a caller learns; a lookup answers in the order the provider map is walked. -/
inductive StoreReply where
  | outcome (outcome : ApplyOutcome)
  | found (records : IterOrder (Σ _ : NodeId, Slot) → List ProviderRecord)

/-- The same outcome, or the same records in whatever orders the two maps are walked. -/
def StoreReply.Same : StoreReply → StoreReply → Prop
  | outcome left, outcome right => left = right
  | found left, found right => ∀ order order', (left order).Perm (right order')
  | _, _ => False

namespace ProviderRecordSet

def called (set : ProviderRecordSet) (now : UInt64) : StoreCall → ProviderRecordSet
  | .apply assertion => (set.apply assertion now).1
  | .findProviders _ => set
  | .evictExpired => (set.evictExpired now).1

/-- The answer to one call; what an eviction counts is not an answer. -/
def reply? (set : ProviderRecordSet) (now : UInt64) : StoreCall → Option StoreReply
  | .apply assertion => some (.outcome (set.apply assertion now).2)
  | .findProviders key => some (.found fun order => findProviders order set key now)
  | .evictExpired => none

def replies (set : ProviderRecordSet) : List (StoreCall × UInt64) → List StoreReply
  | [] => []
  | (call, now) :: calls => (set.reply? now call).toList ++ (set.called now call).replies calls

theorem live_of_expired {slot : Slot} {now : UInt64} (h : ¬now < slot.expiry) : slot.live now = none := by
  cases slot with
  | active record => exact if_neg h
  | withdrawn sequence expiry => rfl

theorem filterMap_live_unexpired (providers : Table NodeId Slot) (now : UInt64) :
    (unexpired now providers).entries.filterMap (fun entry => entry.2.live now) =
      providers.entries.filterMap fun entry => entry.2.live now := by
  change (providers.entries.filter _).filterMap _ = _
  rw [List.filterMap_filter]
  apply List.filterMap_congr
  intro entry _
  by_cases hlive : now < entry.2.expiry
  · exact if_pos (decide_eq_true hlive)
  · rw [live_of_expired hlive]
    exact ite_self none

theorem findProviders_evictExpired (order order' : IterOrder (Σ _ : NodeId, Slot))
    (set : ProviderRecordSet) (key : ContentKey) (now : UInt64) :
    (findProviders order set key now).Perm (findProviders order' (set.evictExpired now).1 key now) := by
  have hentries : (((set.evictExpired now).1.byKey.lookup key).getD ∅).entries =
      (unexpired now ((set.byKey.lookup key).getD ∅)).entries := by
    unfold evictExpired
    rw [lookup_filterMapValues]
    cases set.byKey.lookup key with
    | none => rfl
    | some providers =>
      rw [Option.bind_some, Option.getD_some, nonempty?]
      split
      · rename_i hempty
        exact hempty.symm
      · rfl
  refine (findProviders_perm order set key now).trans (List.Perm.trans ?_
    (findProviders_perm order' (set.evictExpired now).1 key now).symm)
  rw [hentries, filterMap_live_unexpired]

/-- Among assertions of one key and provider a larger or equal sequence has a later or equal expiry. -/
def ExpiryGrows (assertions : List ProviderAssertion) : Prop :=
  ∀ left ∈ assertions, ∀ right ∈ assertions, left.key = right.key → left.provider = right.provider →
    left.sequence ≤ right.sequence → left.expiry ≤ right.expiry

def Written (assertions : List ProviderAssertion) (set : ProviderRecordSet) : Prop :=
  ∀ key provider slot, set.slot? key provider = some slot →
    ∃ assertion ∈ assertions, assertion.key = key ∧ assertion.provider = provider ∧ slot = .of assertion

/-- The swept copy differs from the full one only in slots it has dropped and that have expired. -/
def Sweeps (now : UInt64) (full swept : ProviderRecordSet) : Prop :=
  ∀ key provider, swept.slot? key provider = full.slot? key provider ∨
    (swept.slot? key provider = none ∧
      ∃ slot, full.slot? key provider = some slot ∧ slot.expiry ≤ now)

variable {assertions : List ProviderAssertion} {full swept set : ProviderRecordSet} {now later : UInt64}

theorem Written.apply (h : set.Written assertions) {assertion : ProviderAssertion}
    (hmem : assertion ∈ assertions) (now : UInt64) : (set.apply assertion now).1.Written assertions := by
  intro key provider slot hslot
  rw [slot?_apply] at hslot
  split at hslot
  · rename_i hown
    exact ⟨assertion, hmem, hown.1.symm, hown.2.1.symm, (Option.some.inj hslot).symm⟩
  · exact h key provider slot hslot

section

variable (h : Sweeps now full swept)

include h

theorem Sweeps.wait (hlater : now ≤ later) : Sweeps later full swept := by
  intro key provider
  refine (h key provider).imp_right fun hdropped => ?_
  obtain ⟨hnone, slot, hslot, hexpired⟩ := hdropped
  exact ⟨hnone, slot, hslot, UInt64.le_trans hexpired hlater⟩

theorem Sweeps.evictExpired : Sweeps now full (swept.evictExpired now).1 := by
  intro key provider
  rw [slot?_evictExpired]
  rcases h key provider with hsame | ⟨hnone, hdropped⟩
  · rw [hsame]
    cases hslot : full.slot? key provider with
    | none => exact .inl rfl
    | some slot =>
      by_cases hlive : now < slot.expiry
      · exact .inl (Option.filter_some_pos (decide_eq_true hlive))
      · refine .inr ⟨?_, slot, rfl, UInt64.not_lt.mp hlive⟩
        rw [Option.filter_some, decide_eq_false hlive, if_neg Bool.noConfusion]
  · rw [hnone]
    exact .inr ⟨rfl, hdropped⟩

variable {assertion : ProviderAssertion}

/-- A floor that has been dropped would have let through just what is let through without it. -/
theorem Sweeps.supersedes_iff (hwritten : full.Written assertions) (hgrows : ExpiryGrows assertions)
    (hmem : assertion ∈ assertions) :
    Supersedes assertion now (swept.slot? assertion.key assertion.provider) ↔
      Supersedes assertion now (full.slot? assertion.key assertion.provider) := by
  rcases h assertion.key assertion.provider with hsame | ⟨hnone, slot, hslot, hexpired⟩
  · rw [hsame]
  rw [hnone, hslot]
  refine ⟨fun hfresh => ⟨hfresh.1, fun current hcurrent => ?_⟩, fun hfresh => ⟨hfresh.1, fun _ h => nomatch h⟩⟩
  obtain rfl := Option.some.inj hcurrent
  obtain ⟨writer, hwriter, hkey, hprovider, rfl⟩ := hwritten _ _ _ hslot
  rw [Slot.sequence_of]
  -- Otherwise the assertion expires no later than the floor, which has expired.
  by_contra hstale
  have hle := hgrows assertion hmem writer hwriter hkey.symm hprovider.symm (UInt64.not_lt.mp hstale)
  have hwriterExpired : writer.expiry ≤ now := by
    cases writer <;> exact hexpired
  exact UInt64.not_lt.mpr (UInt64.le_trans hle hwriterExpired) hfresh.1

theorem Sweeps.apply_outcome (hwritten : full.Written assertions) (hgrows : ExpiryGrows assertions)
    (hmem : assertion ∈ assertions) : (full.apply assertion now).2 = (swept.apply assertion now).2 := by
  have hsupersedes := h.supersedes_iff hwritten hgrows hmem
  rcases h assertion.key assertion.provider with hsame | ⟨hnone, -⟩
  · exact apply_outcome_congr hsame.symm now
  rcases apply_cases full assertion now with ⟨hfull, happly⟩ | ⟨hfull, -⟩
  · rcases apply_cases swept assertion now with ⟨-, happly'⟩ | ⟨hswept, -⟩
    · rw [happly, happly']
    · exact absurd (hsupersedes.mpr hfull) hswept
  -- Nothing is left in the slot, so what stands in the way is the assertion's own expiry.
  have hexpired : assertion.expiry ≤ now := by
    refine UInt64.not_lt.mp fun hfresh => hfull (hsupersedes.mp ⟨hfresh, ?_⟩)
    rw [hnone]
    exact fun _ hcurrent => nomatch hcurrent
  unfold ProviderRecordSet.apply
  rw [if_pos hexpired, if_pos hexpired]

theorem Sweeps.apply (hwritten : full.Written assertions) (hgrows : ExpiryGrows assertions)
    (hmem : assertion ∈ assertions) : Sweeps now (full.apply assertion now).1 (swept.apply assertion now).1 := by
  intro key provider
  rw [slot?_apply, slot?_apply]
  by_cases hown : key = assertion.key ∧ provider = assertion.provider
  · obtain ⟨rfl, rfl⟩ := hown
    have hsupersedes := h.supersedes_iff hwritten hgrows hmem
    by_cases hfresh : Supersedes assertion now (full.slot? assertion.key assertion.provider)
    · rw [if_pos ⟨rfl, rfl, hsupersedes.mpr hfresh⟩, if_pos ⟨rfl, rfl, hfresh⟩]
      exact .inl rfl
    · rw [if_neg fun hall => hfresh (hsupersedes.mp hall.2.2), if_neg fun hall => hfresh hall.2.2]
      exact h assertion.key assertion.provider
  · rw [if_neg fun hall => hown ⟨hall.1, hall.2.1⟩, if_neg fun hall => hown ⟨hall.1, hall.2.1⟩]
    exact h key provider

theorem Sweeps.findProviders (order order' : IterOrder (Σ _ : NodeId, Slot)) (key : ContentKey) :
    (findProviders order full key now).Perm (findProviders order' swept key now) := by
  refine (findProviders_evictExpired order order full key now).trans (List.Perm.trans ?_
    (findProviders_evictExpired order' order swept key now).symm)
  refine findProviders_perm_of_slots (fun provider => ?_) order order now
  rw [slot?_evictExpired, slot?_evictExpired]
  rcases h key provider with hsame | ⟨hnone, slot, hslot, hexpired⟩
  · rw [hsame]
  · rw [hnone, hslot, Option.filter_some, decide_eq_false (UInt64.not_lt.mpr hexpired)]
    rfl

end

def withoutEvictions (calls : List (StoreCall × UInt64)) : List (StoreCall × UInt64) :=
  calls.filter fun entry => !entry.1.isEviction

/-- From two copies that differ only in what one has dropped, the calls are answered alike. -/
theorem Sweeps.replies {full swept : ProviderRecordSet} {now : UInt64}
    {calls : List (StoreCall × UInt64)} (h : Sweeps now full swept) (hwritten : full.Written assertions)
    (hgrows : ExpiryGrows assertions) (hcalls : ∀ entry ∈ calls, ∀ assertion ∈ entry.1.assertion?,
      assertion ∈ assertions) (hnow : ∀ entry ∈ calls, now ≤ entry.2)
    (hclock : (calls.map Prod.snd).Pairwise (· ≤ ·)) :
    List.Forall₂ StoreReply.Same (full.replies (withoutEvictions calls)) (swept.replies calls) := by
  induction calls generalizing full swept now with
  | nil => exact .nil
  | cons entry calls ih =>
    obtain ⟨call, later⟩ := entry
    obtain ⟨hlater, hsorted⟩ := List.pairwise_cons.mp hclock
    have hwaited := h.wait (hnow _ List.mem_cons_self)
    have hrest : ∀ entry ∈ calls, ∀ assertion ∈ entry.1.assertion?, assertion ∈ assertions :=
      fun entry hentry => hcalls entry (List.mem_cons_of_mem _ hentry)
    have hnext : ∀ entry ∈ calls, later ≤ entry.2 :=
      fun entry hentry => hlater _ (List.mem_map_of_mem hentry)
    cases call with
    | apply assertion =>
      have hmem := hcalls _ List.mem_cons_self assertion rfl
      exact .cons (hwaited.apply_outcome hwritten hgrows hmem)
        (ih (hwaited.apply hwritten hgrows hmem) (hwritten.apply hmem later) hrest hnext hsorted)
    | findProviders key =>
      exact .cons (fun order order' => hwaited.findProviders order order' key)
        (ih hwaited hwritten hrest hnext hsorted)
    | evictExpired => exact ih hwaited.evictExpired hwritten hrest hnext hsorted

/-- Dropping expired slots anywhere in a run changes no answer of the run. -/
theorem eviction_invisible (calls : List (StoreCall × UInt64))
    (hgrows : ExpiryGrows (calls.filterMap fun entry => entry.1.assertion?))
    (hclock : (calls.map Prod.snd).Pairwise (· ≤ ·)) :
    List.Forall₂ StoreReply.Same (new.replies (withoutEvictions calls)) (new.replies calls) := by
  have hstart : Sweeps 0 new new := fun _ _ => .inl rfl
  refine hstart.replies (fun _ _ _ hslot => nomatch hslot) hgrows ?_ (fun _ _ => UInt64.zero_le) hclock
  intro entry hentry assertion hassertion
  exact List.mem_filterMap.mpr ⟨entry, hentry, hassertion⟩

end ProviderRecordSet

end Calls

namespace ProviderRecordSet

attribute [local instance] goldenScheme

/-- The golden record is withdrawn, its tombstone is dropped, and the record is sent again. -/
def goldenCalls : List (StoreCall × UInt64) :=
  [(.apply (.provide (goldenRecord 1)), 10), (.findProviders goldenKey, 20),
    (.apply (.withdraw (goldenWithdrawal 2)), 30), (.evictExpired, 1000),
    (.apply (.provide (goldenRecord 1)), 1000), (.findProviders goldenKey, 1001)]

theorem eviction_invisible_golden :
    List.Forall₂ StoreReply.Same (new.replies (withoutEvictions goldenCalls)) (new.replies goldenCalls) ∧
      (new.replies goldenCalls).length = 5 := by
  refine ⟨eviction_invisible goldenCalls ?_ ?_, rfl⟩
  · intro left hleft right hright _ _ _
    have hexpiry : ∀ assertion ∈ goldenCalls.filterMap fun entry => entry.1.assertion?,
        assertion.expiry = 1000 := by
      intro assertion hassertion
      simp only [goldenCalls, StoreCall.assertion?, List.filterMap_cons, List.filterMap_nil,
        List.mem_cons, List.not_mem_nil, or_false] at hassertion
      rcases hassertion with rfl | rfl | rfl <;> rfl
    rw [hexpiry left hleft, hexpiry right hright]
    exact UInt64.le_refl _
  · simp only [goldenCalls, List.map_cons, List.map_nil]
    decide

end ProviderRecordSet

end NixP2p
