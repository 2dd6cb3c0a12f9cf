import NixP2p.Records.AntiRollback
import Mathlib.Data.List.MinMax
import Mathlib.Tactic.Tauto

/-!
# The record set converges

A slot is the newest of the assertions that reached it in time. Where one sequence names one assertion, the newest entry depends on which assertions were applied and not on their order or number, so two replicas that saw the same assertions serve the same records, though not in one order.
-/

namespace NixP2p

open HashTable Wire

namespace ProviderRecordSet

/-- A maximum that no two members share does not depend on the list's order or repetitions. -/
theorem argmax_eq_of_mem_iff {α : Type} {rank : α → Nat} {items items' : List α}
    (hmem : ∀ item, item ∈ items ↔ item ∈ items')
    (hinj : ∀ item ∈ items, ∀ item' ∈ items, rank item = rank item' → item = item') :
    items.argmax rank = items'.argmax rank := by
  cases hmax : items.argmax rank with
  | none =>
    have hnil : items = [] := List.argmax_eq_none.mp hmax
    have hnil' : items' = [] := by
      apply List.eq_nil_iff_forall_not_mem.mpr
      intro item hitem
      rw [← hmem, hnil] at hitem
      exact nomatch hitem
    rw [hnil', List.argmax_nil]
  | some top =>
    have htop : top ∈ items := List.argmax_mem hmax
    cases hmax' : items'.argmax rank with
    | none =>
      rw [List.argmax_eq_none.mp hmax'] at hmem
      exact nomatch (hmem top).mp htop
    | some top' =>
      have htop' : top' ∈ items := (hmem top').mpr (List.argmax_mem hmax')
      have hle : rank top' ≤ rank top := List.le_of_mem_argmax htop' hmax
      have hle' : rank top ≤ rank top' := List.le_of_mem_argmax ((hmem top).mp htop) hmax'
      rw [hinj top htop top' htop' (le_antisymm hle' hle)]

section Newest

variable [Ed25519]

def reaches (key : ContentKey) (provider : NodeId) (entry : ProviderAssertion × UInt64) : Bool :=
  decide (entry.1.key = key ∧ entry.1.provider = provider ∧ entry.2 < entry.1.expiry)

/-- What a slot should hold: the newest entry that reached it, the earlier one on a tie. -/
def newest (key : ContentKey) (provider : NodeId) (history : List (ProviderAssertion × UInt64)) :
    Option (ProviderAssertion × UInt64) :=
  (history.filter (reaches key provider)).argmax fun entry => entry.1.sequence.toNat

theorem newest_concat (key : ContentKey) (provider : NodeId)
    (history : List (ProviderAssertion × UInt64)) (entry : ProviderAssertion × UInt64) :
    newest key provider (history ++ [entry]) =
      if reaches key provider entry then
        match newest key provider history with
        | none => some entry
        | some current =>
          if current.1.sequence < entry.1.sequence then some entry else some current
      else newest key provider history := by
  unfold newest
  rw [List.filter_append]
  by_cases hreach : reaches key provider entry = true
  · rw [if_pos hreach, List.filter_cons_of_pos hreach, List.filter_nil, List.argmax_concat]
    simp only [UInt64.lt_iff_toNat_lt]
    generalize List.argmax (fun entry => entry.1.sequence.toNat) (history.filter (reaches key provider)) =
      current
    cases current <;> rfl
  · rw [if_neg hreach, List.filter_cons_of_neg hreach, List.filter_nil, List.append_nil]

/-- The store refines the newest-entry specification, slot by slot. -/
theorem slot?_applyAll_new (history : List (ProviderAssertion × UInt64)) (key : ContentKey)
    (provider : NodeId) :
    (new.applyAll history).slot? key provider =
      (newest key provider history).map fun entry => .of entry.1 := by
  induction history using List.reverseRecOn with
  | nil => rfl
  | append_singleton history entry ih =>
    have hstep : new.applyAll (history ++ [entry]) =
        ((new.applyAll history).apply entry.1 entry.2).1 := by
      rw [applyAll_append]
      rfl
    rw [hstep, slot?_apply, ih, newest_concat]
    by_cases hreach : reaches key provider entry = true
    · rw [if_pos hreach]
      obtain ⟨rfl, rfl, hfresh⟩ := of_decide_eq_true hreach
      cases newest entry.1.key entry.1.provider history with
      | none =>
        rw [if_pos ⟨rfl, rfl, hfresh, fun _ h => nomatch h⟩]
        rfl
      | some current =>
        by_cases hlt : current.1.sequence < entry.1.sequence
        · simp [Supersedes, hfresh, hlt]
        · simp [Supersedes, hlt]
    rw [if_neg hreach, if_neg]
    intro h
    obtain ⟨rfl, rfl, hfresh, -⟩ := h
    exact hreach (decide_eq_true ⟨rfl, rfl, hfresh⟩)

theorem findProviders_perm (order : IterOrder (Σ _ : NodeId, Slot)) (set : ProviderRecordSet)
    (key : ContentKey) (now : UInt64) :
    (findProviders order set key now).Perm
      (((set.byKey.lookup key).getD ∅).entries.filterMap fun entry => entry.2.live now) := by
  unfold findProviders
  cases set.byKey.lookup key with
  | none => exact List.Perm.refl _
  | some providers => exact (order.perm providers.entries).filterMap _

theorem findProviders_perm_of_slots {set set' : ProviderRecordSet} {key : ContentKey}
    (hslots : ∀ provider, set.slot? key provider = set'.slot? key provider)
    (order order' : IterOrder (Σ _ : NodeId, Slot)) (now : UInt64) :
    (findProviders order set key now).Perm (findProviders order' set' key now) := by
  have hlookup : ∀ set : ProviderRecordSet, ∀ provider,
      ((set.byKey.lookup key).getD ∅).lookup provider = set.slot? key provider := by
    intro set provider
    unfold slot?
    cases set.byKey.lookup key <;> rfl
  have hentries : ((set.byKey.lookup key).getD ∅).entries.Perm
      ((set'.byKey.lookup key).getD ∅).entries := by
    apply List.lookup_ext (AList.nodupKeys _) (AList.nodupKeys _)
    intro provider slot
    have hsame := (hlookup set provider).trans ((hslots provider).trans (hlookup set' provider).symm)
    exact iff_of_eq (congrArg (slot ∈ ·) hsame)
  exact (findProviders_perm order set key now).trans
    ((hentries.filterMap _).trans (findProviders_perm order' set' key now).symm)

/-- Any two assertions with one key, provider and sequence are identical. -/
def Consistent (assertions : List ProviderAssertion) : Prop :=
  ∀ left ∈ assertions, ∀ right ∈ assertions, left.key = right.key → left.provider = right.provider →
    left.sequence = right.sequence → left = right

def applyAt (set : ProviderRecordSet) (now : UInt64) (assertions : List ProviderAssertion) :
    ProviderRecordSet :=
  set.applyAll (assertions.map fun assertion => (assertion, now))

theorem newest_eq_of_mem_iff {now : UInt64} {assertions assertions' : List ProviderAssertion}
    (hmem : ∀ assertion, assertion ∈ assertions ↔ assertion ∈ assertions')
    (hconsistent : Consistent assertions) (key : ContentKey) (provider : NodeId) :
    newest key provider (assertions.map fun assertion => (assertion, now)) =
      newest key provider (assertions'.map fun assertion => (assertion, now)) := by
  apply argmax_eq_of_mem_iff
  · intro entry
    simp only [List.mem_filter, List.mem_map, hmem]
  · intro entry hentry entry' hentry' hrank
    simp only [List.mem_filter, List.mem_map, reaches, decide_eq_true_eq] at hentry hentry'
    obtain ⟨⟨left, hleft, rfl⟩, hkey, hprovider, -⟩ := hentry
    obtain ⟨⟨right, hright, rfl⟩, hkey', hprovider', -⟩ := hentry'
    have hsame := hconsistent left hleft right hright (hkey.trans hkey'.symm)
      (hprovider.trans hprovider'.symm) (UInt64.toNat_inj.mp hrank)
    rw [hsame]

/-- The same assertions in any order and number leave the same live records under every key. -/
theorem find_providers_converges (now : UInt64) (assertions assertions' : List ProviderAssertion)
    (hconsistent : Consistent assertions)
    (hmem : ∀ assertion, assertion ∈ assertions ↔ assertion ∈ assertions')
    (order order' : IterOrder (Σ _ : NodeId, Slot)) (key : ContentKey) :
    (findProviders order (new.applyAt now assertions) key now).Perm
      (findProviders order' (new.applyAt now assertions') key now) := by
  apply findProviders_perm_of_slots
  intro provider
  rw [applyAt, applyAt, slot?_applyAll_new, slot?_applyAll_new,
    newest_eq_of_mem_iff hmem hconsistent key provider]

end Newest

section Golden

attribute [local instance] goldenScheme

def goldenStranger : NodeId :=
  ⟨beBytes 32 0x74f85cda34d1c27c4621484731e91579c3d9c6cfc0d94b281aa11e9162058aa9, by simp⟩

def strangerRecord (sequence : UInt64) : ProviderRecord :=
  { goldenRecord sequence with provider := goldenStranger }

/-- Two providers' records arriving in the two orders, one of them twice, with an older one between. -/
theorem find_providers_converges_golden :
    (findProviders (IterOrder.id _)
        (new.applyAt 0 [.provide (goldenRecord 1), .provide (strangerRecord 1), .provide (goldenRecord 2)])
        goldenKey 0).Perm
      (findProviders (IterOrder.id _)
        (new.applyAt 0 [.provide (strangerRecord 1), .provide (goldenRecord 2), .provide (goldenRecord 1),
          .provide (goldenRecord 2)]) goldenKey 0) := by
  apply find_providers_converges
  · unfold Consistent
    decide +kernel
  · intro assertion
    simp only [List.mem_cons, List.not_mem_nil, or_false]
    tauto

/-- The served order is not determined by the assertions applied. -/
theorem find_providers_order_differs :
    Consistent [.provide (goldenRecord 1), .provide (strangerRecord 1)] ∧
      (∀ assertion ∈ [ProviderAssertion.provide (goldenRecord 1), .provide (strangerRecord 1)],
        0 < assertion.expiry) ∧
      findProviders (IterOrder.id _)
          (new.applyAt 0 [.provide (goldenRecord 1), .provide (strangerRecord 1)]) goldenKey 0 ≠
        findProviders (IterOrder.id _)
          (new.applyAt 0 [.provide (strangerRecord 1), .provide (goldenRecord 1)]) goldenKey 0 := by
  refine ⟨?_, by decide +kernel, by decide +kernel⟩
  unfold Consistent
  decide +kernel

end Golden

end ProviderRecordSet

end NixP2p
