import Mathlib.Data.List.Dedup
import NixP2p.Directory.Bounded
import NixP2p.Records.AntiRollback

/-!
# A restart goes unnoticed

While no more slots are seen than the cap, nothing is evicted and the file of a durable store reloads to the slots in memory. Active records go through the signature-checking decoder on the way back, which accepts them because they came out of it. So a process that was killed and started again answers as one that was not, and no slot is taken back.
-/

namespace NixP2p.FloorStore

open HashTable ProviderRecordSet

section Laws

variable [Ed25519] {floors : List Floor}

theorem slot?_restore (hnodup : (floors.map slotOf).Nodup) (set : ProviderRecordSet) (key : ContentKey)
    (provider : NodeId) (slot : Slot) :
    (floors.foldl restoreFloor set).slot? key provider = some slot ↔
      (key, provider, slot) ∈ floors ∨
        (key, provider) ∉ floors.map slotOf ∧ set.slot? key provider = some slot := by
  induction floors generalizing set with
  | nil => simp
  | cons floor floors ih =>
    obtain ⟨hfresh, hrest⟩ := List.nodup_cons.mp hnodup
    rw [List.foldl_cons, ih hrest, restoreFloor, slot?_insertSlot, List.map_cons, List.mem_cons,
      List.mem_cons, not_or]
    by_cases hown : (key, provider) = slotOf floor
    · obtain ⟨rfl, rfl⟩ := Prod.mk.inj hown
      have habsent : (floor.1, floor.2.1, slot) ∉ floors := fun hmem =>
        hfresh (List.mem_map.mpr ⟨_, hmem, rfl⟩)
      have hslot : ((floor.1, floor.2.1, slot) = floor) ↔ floor.2.2 = slot := by
        rw [Prod.ext_iff, Prod.ext_iff]
        simp [eq_comm]
      simp [habsent, hown, hfresh, hslot]
    have hother : ¬ (key = floor.1 ∧ provider = floor.2.1) := fun h => hown (Prod.ext h.1 h.2)
    have hne : (key, provider, slot) ≠ floor := fun h => hown (by rw [← h]; rfl)
    simp [hother, hown, hne]

theorem slot?_restore_export (walk : IterOrder Floor) (set : ProviderRecordSet) (key : ContentKey)
    (provider : NodeId) :
    ((set.exportFloors walk).foldl restoreFloor .new).slot? key provider = set.slot? key provider := by
  have hnodup : ((set.exportFloors walk).map slotOf).Nodup :=
    ((walk.perm set.floors).map slotOf).nodup_iff.mpr set.nodup_floors
  apply Option.ext
  intro slot
  rw [slot?_restore hnodup, exportFloors, walk.mem_arrange, mem_floors]
  simp

theorem mem_of_slot?_restore {set : ProviderRecordSet} {key : ContentKey} {provider : NodeId} {slot : Slot}
    (h : (floors.foldl restoreFloor set).slot? key provider = some slot) :
    (key, provider, slot) ∈ floors ∨ set.slot? key provider = some slot := by
  induction floors generalizing set with
  | nil => exact .inr h
  | cons floor floors ih =>
    rcases ih h with hmem | hset
    · exact .inl (List.mem_cons_of_mem floor hmem)
    rw [restoreFloor, slot?_insertSlot] at hset
    by_cases hown : key = floor.1 ∧ provider = floor.2.1
    · rw [if_pos hown] at hset
      obtain ⟨rfl, rfl⟩ := hown
      obtain rfl := Option.some.inj hset
      exact .inl List.mem_cons_self
    · rw [if_neg hown] at hset
      exact .inr hset

variable {floor : Floor}

theorem reloadable_of_parse {fields : List (List Char)} (h : parseFloorFields fields = some floor) :
    Reloadable floor := by
  unfold parseFloorFields at h
  split at h
  · simp only [Option.bind_eq_bind, Option.bind_eq_some_iff] at h
    obtain ⟨key, -, bytes, -, hrecord⟩ := h
    cases hdecode : decodeProviderAssertion bytes ⟨key⟩ 0 with
    | error fault => simp [hdecode] at hrecord
    | ok assertion =>
      cases assertion with
      | withdraw withdrawal => simp [hdecode] at hrecord
      | provide record =>
        simp only [hdecode, Option.some.injEq] at hrecord
        subst hrecord
        exact ⟨rfl, bytes, hdecode⟩
  · simp only [Option.bind_eq_bind, Option.bind_eq_some_iff, Option.pure_def, Option.some.injEq] at h
    obtain ⟨key, -, provider, -, sequence, -, expiry, -, rfl⟩ := h
    trivial
  · cases h

variable {file : Option (List Char)}

theorem reloadable_of_load (h : floor ∈ loadFloors file) : Reloadable floor := by
  cases file with
  | none => cases h
  | some text =>
    obtain ⟨line, hline⟩ := Text.exists_parse_of_mem_readEntries h
    exact reloadable_of_parse hline

/-- What a durable store keeps while it sees no slot outside `seen`. -/
structure Mirrored (seen : List (ContentKey × NodeId)) (store : FloorStore) : Prop where
  hasPath : store.hasPath = true
  fits : seen.length ≤ store.cap
  within : ∀ slot : ContentKey × NodeId, store.inner.containsSlot slot.1 slot.2 = true → slot ∈ seen
  reloadable : ∀ key provider slot, store.inner.slot? key provider = some slot →
    Reloadable (key, provider, slot)
  reloads : ∀ key provider,
    ((loadFloors store.file).foldl restoreFloor .new).slot? key provider = store.inner.slot? key provider

def restart (store : FloorStore) : FloorStore := durable store.file store.cap

variable {seen : List (ContentKey × NodeId)}

theorem mirrored_durable {cap : Nat} (hfits : seen.length ≤ max cap 1)
    (hseen : ∀ floor ∈ loadFloors file, slotOf floor ∈ seen) : Mirrored seen (durable file cap) where
  hasPath := rfl
  fits := hfits
  within slot hslot := by
    have hlisted := (mem_order_durable file cap slot).mpr hslot
    obtain ⟨floor, hfloor, rfl⟩ := List.mem_map.mp hlisted
    exact hseen floor hfloor
  reloadable key provider slot hslot := by
    rcases mem_of_slot?_restore hslot with hmem | hnew
    · exact reloadable_of_load hmem
    · cases hnew
  reloads _ _ := rfl

variable {store : FloorStore}

theorem Mirrored.restart (hmirrored : Mirrored seen store) : Mirrored seen store.restart where
  hasPath := rfl
  fits := Nat.le_trans hmirrored.fits (Nat.le_max_left _ _)
  within slot hslot := by
    apply hmirrored.within slot
    rw [containsSlot, ← hmirrored.reloads]
    exact hslot
  reloadable key provider slot hslot :=
    hmirrored.reloadable key provider slot ((hmirrored.reloads key provider).symm.trans hslot)
  reloads _ _ := rfl

theorem mirrored_persist (hpath : store.hasPath = true) (hfits : seen.length ≤ store.cap)
    (hwithin : ∀ slot : ContentKey × NodeId, store.inner.containsSlot slot.1 slot.2 = true → slot ∈ seen)
    (hreloadable : ∀ key provider slot, store.inner.slot? key provider = some slot → Reloadable (key, provider, slot))
    (walk : IterOrder Floor) : Mirrored seen (store.persist walk true) where
  hasPath := hpath
  fits := hfits
  within := hwithin
  reloadable := hreloadable
  reloads key provider := by
    have hall : ∀ floor ∈ store.inner.exportFloors walk, Reloadable floor := by
      intro floor hfloor
      exact hreloadable _ _ _ (mem_floors.mp (walk.mem_arrange.mp hfloor))
    have hload : loadFloors (store.persist walk true).file = store.inner.exportFloors walk :=
      deserializeFloors_serializeFloors hall
    rw [hload]
    exact slot?_restore_export walk store.inner key provider

theorem newer_trans {old middle new : Slot} (hfirst : middle = old ∨ old.sequence < middle.sequence)
    (hrest : new = middle ∨ middle.sequence < new.sequence) : new = old ∨ old.sequence < new.sequence := by
  obtain rfl | hfirst := hfirst
  · exact hrest
  obtain rfl | hrest := hrest
  · exact .inr hfirst
  · exact .inr (UInt64.lt_trans hfirst hrest)

section Calls

variable [Libp2pKeys]

/-- The assertion came out of the decoder, and a write succeeds. -/
def Genuine (call : Call) : Prop :=
  call.landed = true ∧ ∃ bytes key now, decodeProviderAssertion bytes key now = .ok call.assertion

theorem Genuine.reloadable {call : Call} (hgenuine : Genuine call) :
    Reloadable (call.assertion.key, call.assertion.provider, .of call.assertion) := by
  obtain ⟨-, bytes, key, now, hdecode⟩ := hgenuine
  cases hassertion : call.assertion with
  | withdraw withdrawal => trivial
  | provide record =>
    rw [hassertion] at hdecode
    obtain ⟨hencode, hauthentic, -, hfresh⟩ := decodeProviderAssertion_ok_iff.mp hdecode
    have hpositive : 0 < (ProviderAssertion.provide record).expiry := by
      rw [UInt64.lt_iff_toNat_lt] at hfresh ⊢
      exact Nat.lt_of_le_of_lt (Nat.zero_le _) hfresh
    exact ⟨rfl, bytes, decodeProviderAssertion_ok_iff.mpr ⟨hencode, hauthentic, rfl, hpositive⟩⟩

variable {seen : List (ContentKey × NodeId)}

theorem Mirrored.admitAssertion {store : FloorStore} (hmirrored : Mirrored seen store) {call : Call}
    (hslot : call.slot ∈ seen) (hgenuine : Genuine call) :
    Mirrored seen (store.admitAssertion call).1 ∧
      (store.admitAssertion call).1.inner =
        (directoryAdmit store.inner call.peer call.assertion call.now).1 := by
  have hwithin : ∀ slot : ContentKey × NodeId,
      (store.touched call).inner.containsSlot slot.1 slot.2 = true → slot ∈ seen := by
    intro slot hcontains
    rcases (store.touched_slots call).2 slot hcontains with hold | rfl
    · exact hmirrored.within slot hold
    · exact hslot
  have hfits : (store.touched call).inner.slotCount ≤ (store.touched call).cap :=
    Nat.le_trans (ProviderRecordSet.slotCount_le fun key provider => hwithin (key, provider))
      hmirrored.fits
  have hcapped : (store.touched call).enforceCap call.now = (store.touched call, false) := if_pos hfits
  have hpath : (store.touched call).hasPath = true := hmirrored.hasPath
  unfold FloorStore.admitAssertion
  simp only [hcapped, hpath, Bool.or_false, Bool.true_and]
  obtain ⟨-, happlied⟩ | ⟨hset, hkept, -⟩ :=
    directoryAdmit_cases store.inner call.peer call.assertion call.now
  · rw [happlied, if_pos rfl, hgenuine.1]
    refine ⟨mirrored_persist hpath hmirrored.fits hwithin ?_ call.walk, ?_⟩
    · intro key provider slot hcontent
      change (directoryAdmit store.inner call.peer call.assertion call.now).1.slot? key provider = _
        at hcontent
      rw [happlied, slot?_insertSlot] at hcontent
      by_cases hown : key = call.assertion.key ∧ provider = call.assertion.provider
      · rw [if_pos hown] at hcontent
        obtain ⟨rfl, rfl⟩ := hown
        obtain rfl := Option.some.inj hcontent
        exact hgenuine.reloadable
      · rw [if_neg hown] at hcontent
        exact hmirrored.reloadable key provider slot hcontent
    · exact congrArg Prod.fst happlied
  · rw [hkept, if_neg Bool.false_ne_true]
    refine ⟨⟨hpath, hmirrored.fits, hwithin, ?_, ?_⟩, rfl⟩
    · intro key provider slot hcontent
      exact hmirrored.reloadable key provider slot (hset ▸ hcontent)
    · intro key provider
      change _ = (directoryAdmit store.inner call.peer call.assertion call.now).1.slot? key provider
      rw [hset]
      exact hmirrored.reloads key provider

theorem directoryAdmit_congr {set set' : ProviderRecordSet}
    (hsame : ∀ key provider, set.slot? key provider = set'.slot? key provider)
    (peer : Libp2pKeys.PeerId) (assertion : ProviderAssertion) (now : UInt64) :
    (directoryAdmit set peer assertion now).2 = (directoryAdmit set' peer assertion now).2 ∧
      ∀ key provider, (directoryAdmit set peer assertion now).1.slot? key provider =
        (directoryAdmit set' peer assertion now).1.slot? key provider := by
  unfold directoryAdmit
  by_cases hpeer : Libp2pKeys.peerIdOfProvider assertion.provider = some peer
  · simp only [if_pos hpeer]
    refine ⟨by rw [apply_outcome_congr (hsame _ _) now], fun key provider => ?_⟩
    rw [slot?_apply, slot?_apply, hsame]
  · simp only [if_neg hpeer]
    exact ⟨trivial, hsame⟩

inductive Incident where
  | call (request : Call)
  | restart

def Incident.call? : Incident → Option Call
  | .call request => some request
  | .restart => none

def operate (store : FloorStore) : List Incident → FloorStore × List (Option ProviderRecord)
  | [] => (store, [])
  | .call call :: incidents =>
    let later := operate (store.admitAssertion call).1 incidents
    (later.1, (store.admitAssertion call).2 :: later.2)
  | .restart :: incidents => operate store.restart incidents

def undisturbed (incidents : List Incident) : List Incident :=
  (incidents.filterMap Incident.call?).map .call

theorem operate_undisturbed (incidents : List Incident) {left right : FloorStore} (hleft : Mirrored seen left)
    (hright : Mirrored seen right)
    (hsame : ∀ key provider, left.inner.slot? key provider = right.inner.slot? key provider)
    (hcalls : ∀ call ∈ incidents.filterMap Incident.call?, call.slot ∈ seen ∧ Genuine call) :
    (left.operate incidents).2 = (right.operate (undisturbed incidents)).2 ∧
      Mirrored seen (left.operate incidents).1 := by
  induction incidents generalizing left right with
  | nil => exact ⟨rfl, hleft⟩
  | cons incident incidents ih =>
    cases incident with
    | restart =>
      refine ih hleft.restart hright (fun key provider => ?_) hcalls
      exact (hleft.reloads key provider).trans (hsame key provider)
    | call call =>
      obtain ⟨⟨hslot, hgenuine⟩, hlater⟩ := List.forall_mem_cons.mp hcalls
      obtain ⟨hleft', hinner⟩ := hleft.admitAssertion hslot hgenuine
      obtain ⟨hright', hinner'⟩ := hright.admitAssertion hslot hgenuine
      obtain ⟨hanswer, hslots⟩ := directoryAdmit_congr hsame call.peer call.assertion call.now
      have hsame' : ∀ key provider, (left.admitAssertion call).1.inner.slot? key provider =
          (right.admitAssertion call).1.inner.slot? key provider := by
        rw [hinner, hinner']
        exact hslots
      obtain ⟨hrest, hmirrored⟩ := ih hleft' hright' hsame' hlater
      refine ⟨?_, hmirrored⟩
      change (left.admitAssertion call).2 :: _ = (right.admitAssertion call).2 :: _
      exact congr (congrArg List.cons (congrArg Admitted.record hanswer)) hrest

variable {store : FloorStore}

theorem Mirrored.slot?_admitAssertion_newer (hmirrored : Mirrored seen store) {call : Call} (hslot : call.slot ∈ seen)
    (hgenuine : Genuine call) {key : ContentKey} {provider : NodeId} {slot : Slot}
    (hheld : store.inner.slot? key provider = some slot) :
    ∃ slot', (store.admitAssertion call).1.inner.slot? key provider = some slot' ∧
      (slot' = slot ∨ slot.sequence < slot'.sequence) := by
  rw [(hmirrored.admitAssertion hslot hgenuine).2, directoryAdmit]
  split
  · exact slot?_apply_newer store.inner call.assertion call.now hheld
  · exact ⟨slot, hheld, .inl rfl⟩

theorem Mirrored.slot?_operate_newer (hmirrored : Mirrored seen store) {incidents : List Incident}
    (hcalls : ∀ call ∈ incidents.filterMap Incident.call?, call.slot ∈ seen ∧ Genuine call)
    {key : ContentKey} {provider : NodeId} {slot : Slot} (hheld : store.inner.slot? key provider = some slot) :
    ∃ slot', (store.operate incidents).1.inner.slot? key provider = some slot' ∧
      (slot' = slot ∨ slot.sequence < slot'.sequence) := by
  induction incidents generalizing store slot with
  | nil => exact ⟨slot, hheld, .inl rfl⟩
  | cons incident incidents ih =>
    cases incident with
    | restart => exact ih hmirrored.restart hcalls ((hmirrored.reloads key provider).trans hheld)
    | call call =>
      obtain ⟨⟨hslot, hgenuine⟩, hlater⟩ := List.forall_mem_cons.mp hcalls
      obtain ⟨middle, hmiddle, hfirst⟩ := hmirrored.slot?_admitAssertion_newer hslot hgenuine hheld
      obtain ⟨last, hlast, hrest⟩ := ih (hmirrored.admitAssertion hslot hgenuine).1 hlater hmiddle
      exact ⟨last, hlast, newer_trans hfirst hrest⟩

end Calls

end Laws

open FloorStore in
/-- While the slots seen fit under the cap, a durable store that is killed and reloaded between calls answers every call as if it had not been. -/
theorem restart_transparent [Ed25519] [Libp2pKeys] (file : Option (List Char)) (cap : Nat)
    (incidents : List Incident)
    (hgenuine : ∀ call ∈ incidents.filterMap Incident.call?, Genuine call)
    (hseen : ((loadFloors file).map slotOf ++
      (incidents.filterMap Incident.call?).map Call.slot).dedup.length ≤ max cap 1) :
    ((durable file cap).operate incidents).2 =
        ((durable file cap).operate (undisturbed incidents)).2 ∧
      ∀ key provider,
        ((durable file cap).operate incidents).1.restart.inner.slot? key provider =
          ((durable file cap).operate incidents).1.inner.slot? key provider := by
  have hstart := mirrored_durable hseen fun floor hfloor => List.mem_dedup.mpr
    (List.mem_append_left _ (List.mem_map_of_mem hfloor))
  have hcalls : ∀ call ∈ incidents.filterMap Incident.call?,
      call.slot ∈ ((loadFloors file).map slotOf ++
        (incidents.filterMap Incident.call?).map Call.slot).dedup ∧ Genuine call := by
    intro call hcall
    exact ⟨List.mem_dedup.mpr (List.mem_append_right _ (List.mem_map_of_mem hcall)), hgenuine call hcall⟩
  obtain ⟨hanswers, hmirrored⟩ := operate_undisturbed incidents hstart hstart (fun _ _ => rfl) hcalls
  exact ⟨hanswers, hmirrored.reloads⟩

/-- While the slots seen fit under the cap, no kill takes a slot back: what is answered for it later is the record that it held, or one newer than the record or the withdrawal it held. -/
theorem answer_never_rolled_back [Ed25519] [Libp2pKeys] {file : Option (List Char)} {cap : Nat}
    (seen : List (ContentKey × NodeId)) (hfits : seen.length ≤ max cap 1)
    (hloaded : ∀ floor ∈ loadFloors file, slotOf floor ∈ seen) (earlier later : List Incident) (last : Call)
    (hcalls : ∀ call ∈ last :: (earlier ++ later).filterMap Incident.call?, call.slot ∈ seen ∧ Genuine call)
    {slot : Slot} {record : ProviderRecord}
    (hheld : ((durable file cap).operate earlier).1.inner.slot? last.slot.1 last.slot.2 = some slot)
    (hanswer : ((((durable file cap).operate earlier).1.operate later).1.admitAssertion last).2 = some record) :
    slot = .active record ∨ slot.sequence < record.sequence := by
  have hstart := mirrored_durable hfits hloaded
  obtain ⟨⟨hslot, hlast⟩, hboth⟩ := List.forall_mem_cons.mp hcalls
  rw [List.filterMap_append] at hboth
  obtain ⟨hearlier, hlater⟩ := List.forall_mem_append.mp hboth
  have hbefore := (operate_undisturbed earlier hstart hstart (fun _ _ => rfl) hearlier).2
  have hafter := (operate_undisturbed later hbefore hbefore (fun _ _ => rfl) hlater).2
  obtain ⟨middle, hmiddle, hfirst⟩ := hbefore.slot?_operate_newer hlater hheld
  obtain ⟨final, hfinal, hrest⟩ := hafter.slot?_admitAssertion_newer hslot hlast hmiddle
  -- the last call answers with what its slot holds afterwards
  obtain ⟨hassertion, -, hactive⟩ := slot?_directoryAdmit hanswer
  rw [← (hafter.admitAssertion hslot hlast).2] at hactive
  have hown : last.slot = (record.key, record.provider) := by
    rw [Call.slot, hassertion]
    rfl
  rw [hown] at hfinal
  obtain rfl := Option.some.inj (hfinal.symm.trans hactive)
  exact (newer_trans hfirst hrest).imp_left Eq.symm

section Golden

attribute [local instance] goldenScheme goldenKeys

def goldenFetch : Call := ⟨goldenProvider, goldenAssertion, 500, IterOrder.id _, true⟩

theorem goldenFetch_genuine : Genuine goldenFetch := by
  refine ⟨rfl, goldenPreimageBody ++ goldenSignature.1, goldenKey, 500, ?_⟩
  apply decodeProviderAssertion_ok_iff.mpr
  refine ⟨by decide +kernel, ⟨by decide +kernel, goldenProvider, ?_, by decide +kernel⟩, rfl, by decide⟩
  exact if_pos List.mem_cons_self

/-- Fetched again after a restart, the record is still the one its slot holds. -/
theorem restart_transparent_golden :
    ((durable none 1).operate [.call goldenFetch, .restart, .call goldenFetch]).2 =
        ((durable none 1).operate [.call goldenFetch, .call goldenFetch]).2 ∧
      ((durable none 1).operate [.call goldenFetch, .call goldenFetch]).2 =
        [some goldenHolder, some goldenHolder] := by
  refine ⟨?_, by decide +kernel⟩
  refine (restart_transparent none 1 [.call goldenFetch, .restart, .call goldenFetch] ?_
    (by decide +kernel)).1
  intro call hcall
  rcases List.mem_pair.mp hcall with rfl | rfl
  · exact goldenFetch_genuine
  · exact goldenFetch_genuine

theorem answer_never_rolled_back_golden :
    ((durable none 1).operate [.call goldenFetch]).1.inner.slot? goldenKey goldenHolder.provider =
        some (.active goldenHolder) ∧
      (Slot.active goldenHolder = .active goldenHolder ∨ goldenHolder.sequence < goldenHolder.sequence) := by
  refine ⟨?held, answer_never_rolled_back [goldenFetch.slot] (Nat.le_refl 1) (fun _ h => by cases h)
    [.call goldenFetch] [.restart] goldenFetch ?calls ?held (by decide +kernel)⟩
  case held => decide +kernel
  intro call hcall
  obtain rfl : call = goldenFetch := (List.mem_pair.mp hcall).elim id id
  exact ⟨List.mem_cons_self, goldenFetch_genuine⟩

end Golden

end NixP2p.FloorStore
