import NixP2p.Directory.FloorStore

/-!
# The bound on the store

Every slot of the set is listed in `order`, however the store was loaded, and that alone bounds the store after each call and protects the slot the call was about: it is the last of the list, and when only the last is left there is one slot. That `order` lists each slot once and nothing else is kept by every call but has to hold after loading, which takes the lines of the file as they come.
-/

namespace NixP2p.FloorStore

open HashTable ProviderRecordSet

variable {order : List (ContentKey × NodeId)}

theorem mem_touch {slot other : ContentKey × NodeId} :
    other ∈ touch order slot ↔ other ∈ order ∨ other = slot := by
  by_cases heq : other = slot <;> simp [touch, heq]

theorem not_mem_touch_front (order : List (ContentKey × NodeId)) (slot : ContentKey × NodeId) :
    slot ∉ order.filter (· ≠ slot) := by
  simp

theorem nodup_touch (hnodup : order.Nodup) (slot : ContentKey × NodeId) : (touch order slot).Nodup := by
  unfold touch
  rw [List.nodup_append]
  refine ⟨hnodup.filter _, List.nodup_singleton slot, fun other hother last hlast heq => ?_⟩
  rw [heq, List.mem_singleton.mp hlast] at hother
  exact not_mem_touch_front order slot hother

section Laws

variable [Ed25519]

def Tracks (set : ProviderRecordSet) (order : List (ContentKey × NodeId)) : Prop :=
  ∀ slot : ContentKey × NodeId, set.containsSlot slot.1 slot.2 = true → slot ∈ order

/-- The list holds the slots of the set and nothing else, each once. -/
def InSync (set : ProviderRecordSet) (order : List (ContentKey × NodeId)) : Prop :=
  order.Nodup ∧ ∀ slot : ContentKey × NodeId, slot ∈ order ↔ set.containsSlot slot.1 slot.2 = true

variable {set : ProviderRecordSet} {order : List (ContentKey × NodeId)}

theorem InSync.tracks (hsync : InSync set order) : Tracks set order :=
  fun slot hslot => (hsync.2 slot).mpr hslot

theorem Tracks.slotCount_le (htracks : Tracks set order) : set.slotCount ≤ order.length :=
  ProviderRecordSet.slotCount_le fun key provider hslot => htracks (key, provider) hslot

theorem InSync.slotCount_eq (hsync : InSync set order) : set.slotCount = order.length := by
  have hsubset : order ⊆ set.floors.map slotOf := by
    intro slot hslot
    obtain ⟨content, hcontent⟩ := Option.isSome_iff_exists.mp ((hsync.2 slot).mp hslot)
    exact List.mem_map.mpr ⟨(slot.1, slot.2, content), mem_floors.mpr hcontent, rfl⟩
  have hle := (List.subperm_of_subset hsync.1 hsubset).length_le
  rw [List.length_map, ← ProviderRecordSet.slotCount_eq] at hle
  have hge := hsync.tracks.slotCount_le
  omega

variable {slot : ContentKey × NodeId}

theorem containsSlot_removeSlot {other : ContentKey × NodeId} :
    (set.removeSlot slot.1 slot.2).1.containsSlot other.1 other.2 = true ↔
      other ≠ slot ∧ set.containsSlot other.1 other.2 = true := by
  rw [containsSlot, slot?_removeSlot]
  by_cases heq : other.1 = slot.1 ∧ other.2 = slot.2
  · simp [heq, Prod.ext_iff]
  · simp [heq, Prod.ext_iff, containsSlot]

theorem Tracks.removeSlot (htracks : Tracks set (slot :: order)) :
    Tracks (set.removeSlot slot.1 slot.2).1 order := by
  intro other hother
  obtain ⟨hne, hcontains⟩ := containsSlot_removeSlot.mp hother
  exact (List.mem_cons.mp (htracks other hcontains)).resolve_left hne

theorem InSync.removeSlot (hsync : InSync set (slot :: order)) :
    InSync (set.removeSlot slot.1 slot.2).1 order := by
  obtain ⟨hfresh, hnodup⟩ := List.nodup_cons.mp hsync.1
  refine ⟨hnodup, fun other => ?_⟩
  rw [containsSlot_removeSlot, ← hsync.2 other, List.mem_cons]
  constructor
  · intro hother
    exact ⟨fun heq => hfresh (heq ▸ hother), .inr hother⟩
  · intro h
    exact h.2.resolve_left h.1

theorem tracks_popFront (cap : Nat) (htracks : Tracks set order) :
    Tracks (popFront cap set order).1 (popFront cap set order).2.1 ∧
      (popFront cap set order).1.slotCount ≤ cap := by
  induction order generalizing set with
  | nil => exact ⟨htracks, Nat.le_trans htracks.slotCount_le (Nat.zero_le cap)⟩
  | cons slot order ih =>
    unfold popFront
    by_cases hfits : set.slotCount ≤ cap
    · rw [if_pos hfits]
      exact ⟨htracks, hfits⟩
    · rw [if_neg hfits]
      exact ih htracks.removeSlot

theorem inSync_popFront (cap : Nat) (hsync : InSync set order) :
    InSync (popFront cap set order).1 (popFront cap set order).2.1 := by
  induction order generalizing set with
  | nil => exact hsync
  | cons slot order ih =>
    unfold popFront
    by_cases hfits : set.slotCount ≤ cap
    · rw [if_pos hfits]
      exact hsync
    · rw [if_neg hfits]
      exact ih hsync.removeSlot

variable {front : List (ContentKey × NodeId)}

theorem slot?_popFront {cap : Nat} (hcap : 1 ≤ cap) (hlast : slot ∉ front)
    (htracks : Tracks set (front ++ [slot])) :
    (popFront cap set (front ++ [slot])).1.slot? slot.1 slot.2 = set.slot? slot.1 slot.2 := by
  induction front generalizing set with
  | nil =>
    have hfits : set.slotCount ≤ cap := Nat.le_trans htracks.slotCount_le hcap
    rw [List.nil_append, popFront, if_pos hfits]
  | cons first front ih =>
    rw [List.cons_append, popFront]
    by_cases hfits : set.slotCount ≤ cap
    · rw [if_pos hfits]
    rw [if_neg hfits]
    have hne : ¬ (slot.1 = first.1 ∧ slot.2 = first.2) := by
      intro h
      exact hlast (List.mem_cons.mpr (.inl (Prod.ext h.1 h.2)))
    rw [ih (fun hmem => hlast (List.mem_cons_of_mem first hmem)) htracks.removeSlot,
      slot?_removeSlot, if_neg hne]

theorem containsSlot_evictExpired {now : UInt64} (h : (set.evictExpired now).1.containsSlot slot.1 slot.2 = true) :
    set.containsSlot slot.1 slot.2 = true := by
  rw [containsSlot, slot?_evictExpired] at h
  obtain ⟨content, hcontent⟩ := Option.isSome_iff_exists.mp h
  rw [containsSlot, (Option.filter_eq_some_iff.mp hcontent).1, Option.isSome_some]

def sweptOrder (store : FloorStore) (now : UInt64) : List (ContentKey × NodeId) :=
  if 0 < (store.inner.evictExpired now).2 then
    store.order.filter fun slot => (store.inner.evictExpired now).1.containsSlot slot.1 slot.2
  else store.order

theorem enforceCap_fst (store : FloorStore) (now : UInt64) (hover : ¬ store.inner.slotCount ≤ store.cap) :
    (store.enforceCap now).1 =
      { store with
        inner := (popFront store.cap (store.inner.evictExpired now).1 (store.sweptOrder now)).1
        order := (popFront store.cap (store.inner.evictExpired now).1 (store.sweptOrder now)).2.1 } := by
  rw [enforceCap, if_neg hover]
  rfl

variable {store : FloorStore}

theorem tracks_sweptOrder (htracks : Tracks store.inner store.order) (now : UInt64) :
    Tracks (store.inner.evictExpired now).1 (store.sweptOrder now) := by
  intro slot hslot
  have hlisted := htracks slot (containsSlot_evictExpired hslot)
  unfold sweptOrder
  by_cases hdropped : 0 < (store.inner.evictExpired now).2
  · rw [if_pos hdropped]
    exact List.mem_filter.mpr ⟨hlisted, hslot⟩
  · rw [if_neg hdropped]
    exact hlisted

theorem inSync_sweptOrder (hsync : InSync store.inner store.order) (now : UInt64) :
    InSync (store.inner.evictExpired now).1 (store.sweptOrder now) := by
  unfold sweptOrder
  by_cases hdropped : 0 < (store.inner.evictExpired now).2
  · rw [if_pos hdropped]
    refine ⟨hsync.1.filter _, fun slot => ?_⟩
    rw [List.mem_filter, hsync.2 slot]
    exact ⟨fun h => h.2, fun h => ⟨containsSlot_evictExpired h, h⟩⟩
  rw [if_neg hdropped]
  refine ⟨hsync.1, fun slot => ?_⟩
  rw [hsync.2 slot]
  refine ⟨fun h => ?_, containsSlot_evictExpired⟩
  obtain ⟨content, hcontent⟩ := Option.isSome_iff_exists.mp h
  have hlive := lt_expiry_of_evictExpired (Nat.eq_zero_of_not_pos hdropped) hcontent
  rw [containsSlot, slot?_evictExpired, hcontent, Option.filter_some, if_pos (decide_eq_true hlive),
    Option.isSome_some]

theorem tracks_enforceCap (htracks : Tracks store.inner store.order) (now : UInt64) :
    Tracks (store.enforceCap now).1.inner (store.enforceCap now).1.order ∧
      (store.enforceCap now).1.inner.slotCount ≤ store.cap := by
  by_cases hfits : store.inner.slotCount ≤ store.cap
  · rw [enforceCap, if_pos hfits]
    exact ⟨htracks, hfits⟩
  · rw [enforceCap_fst store now hfits]
    exact tracks_popFront store.cap (tracks_sweptOrder htracks now)

theorem inSync_enforceCap (hsync : InSync store.inner store.order) (now : UInt64) :
    InSync (store.enforceCap now).1.inner (store.enforceCap now).1.order := by
  by_cases hfits : store.inner.slotCount ≤ store.cap
  · rw [enforceCap, if_pos hfits]
    exact hsync
  · rw [enforceCap_fst store now hfits]
    exact inSync_popFront store.cap (inSync_sweptOrder hsync now)

theorem slot?_enforceCap (htracks : Tracks store.inner store.order) {now : UInt64} {content : Slot}
    (horder : store.order = front ++ [slot]) (hlast : slot ∉ front)
    (hcontent : store.inner.slot? slot.1 slot.2 = some content) (hlive : now < content.expiry) :
    (store.enforceCap now).1.inner.slot? slot.1 slot.2 = some content := by
  by_cases hfits : store.inner.slotCount ≤ store.cap
  · rw [enforceCap, if_pos hfits]
    exact hcontent
  have hswept : (store.inner.evictExpired now).1.slot? slot.1 slot.2 = some content := by
    rw [slot?_evictExpired, hcontent, Option.filter_some, if_pos (decide_eq_true hlive)]
  have hback : ∃ front', store.sweptOrder now = front' ++ [slot] ∧ slot ∉ front' := by
    unfold sweptOrder
    by_cases hdropped : 0 < (store.inner.evictExpired now).2
    · rw [if_pos hdropped, horder, List.filter_append,
        List.filter_cons_of_pos (by simp [containsSlot, hswept]), List.filter_nil]
      exact ⟨_, rfl, fun h => hlast (List.mem_of_mem_filter h)⟩
    · rw [if_neg hdropped]
      exact ⟨front, horder, hlast⟩
  obtain ⟨front', horder', hlast'⟩ := hback
  have htracks' := tracks_sweptOrder htracks now
  rw [horder'] at htracks'
  rw [enforceCap_fst store now hfits, horder']
  exact (slot?_popFront store.cap_pos hlast' htracks').trans hswept

theorem enforceCap_cap (store : FloorStore) (now : UInt64) : (store.enforceCap now).1.cap = store.cap := by
  unfold enforceCap
  split <;> rfl

/-- At most `cap` slots, and the list in step with them. -/
def Bounded (store : FloorStore) : Prop :=
  store.inner.slotCount ≤ store.cap ∧ InSync store.inner store.order

theorem containsSlot_restore (floors : List Floor) (set : ProviderRecordSet)
    (slot : ContentKey × NodeId) :
    (floors.foldl restoreFloor set).containsSlot slot.1 slot.2 = true ↔
      set.containsSlot slot.1 slot.2 = true ∨ slot ∈ floors.map slotOf := by
  induction floors generalizing set with
  | nil => simp
  | cons floor floors ih =>
    rw [List.foldl_cons, ih, List.map_cons, List.mem_cons, containsSlot, restoreFloor, slot?_insertSlot]
    by_cases hown : slot.1 = floor.1 ∧ slot.2 = floor.2.1
    · simp [hown, Prod.ext_iff, slotOf]
    · simp [hown, Prod.ext_iff, slotOf, containsSlot]

theorem mem_order_durable (file : Option (List Char)) (cap : Nat) (slot : ContentKey × NodeId) :
    slot ∈ (durable file cap).order ↔ (durable file cap).inner.containsSlot slot.1 slot.2 = true := by
  change _ ↔ ((loadFloors file).foldl restoreFloor .new).containsSlot slot.1 slot.2 = true
  rw [containsSlot_restore]
  simp [containsSlot, durable]

theorem bounded_withCap (cap : Nat) : (withCap cap).Bounded := by
  refine ⟨Nat.zero_le _, List.nodup_nil, fun slot => ?_⟩
  simp [withCap, containsSlot]

theorem bounded_durable_iff (file : Option (List Char)) (cap : Nat) :
    (durable file cap).Bounded ↔
      ((loadFloors file).map slotOf).Nodup ∧ (loadFloors file).length ≤ max cap 1 := by
  constructor
  · intro hbounded
    have hcount := hbounded.1
    rw [hbounded.2.slotCount_eq] at hcount
    refine ⟨hbounded.2.1, ?_⟩
    simpa [durable] using hcount
  · intro h
    have hsync : InSync (durable file cap).inner (durable file cap).order :=
      ⟨h.1, mem_order_durable file cap⟩
    refine ⟨?_, hsync⟩
    rw [hsync.slotCount_eq]
    simpa [durable] using h.2

section Calls

variable [Libp2pKeys]

theorem admitAssertion_fst (store : FloorStore) (call : Call) :
    ∃ file, (store.admitAssertion call).1 =
      { ((store.touched call).enforceCap call.now).1 with file := file } := by
  unfold admitAssertion persist
  cases call.landed <;> (dsimp only; split <;> exact ⟨_, rfl⟩)

theorem admitAssertion_cap (store : FloorStore) (call : Call) :
    (store.admitAssertion call).1.cap = store.cap := by
  obtain ⟨file, hfile⟩ := store.admitAssertion_fst call
  rw [hfile]
  exact enforceCap_cap _ _

theorem touched_slots (store : FloorStore) (call : Call) :
    (∀ slot : ContentKey × NodeId, store.inner.containsSlot slot.1 slot.2 = true →
      (store.touched call).inner.containsSlot slot.1 slot.2 = true) ∧
    ∀ slot : ContentKey × NodeId, (store.touched call).inner.containsSlot slot.1 slot.2 = true →
      store.inner.containsSlot slot.1 slot.2 = true ∨ slot = call.slot := by
  have hinner : (store.touched call).inner =
      (directoryAdmit store.inner call.peer call.assertion call.now).1 := rfl
  rw [hinner]
  obtain ⟨-, happlied⟩ | ⟨hset, -⟩ :=
    directoryAdmit_cases store.inner call.peer call.assertion call.now
  · rw [happlied]
    have hinsert : ∀ slot : ContentKey × NodeId,
        (store.inner.insertSlot call.assertion.key call.assertion.provider
          (.of call.assertion)).containsSlot slot.1 slot.2 = true ↔
          slot = call.slot ∨ store.inner.containsSlot slot.1 slot.2 = true := by
      intro slot
      rw [containsSlot, slot?_insertSlot]
      by_cases hown : slot.1 = call.assertion.key ∧ slot.2 = call.assertion.provider
      · simp [hown, Prod.ext_iff, Call.slot]
      · simp [hown, Prod.ext_iff, Call.slot, containsSlot]
    exact ⟨fun slot hslot => (hinsert slot).mpr (.inr hslot),
      fun slot hslot => ((hinsert slot).mp hslot).symm⟩
  · rw [hset]
    exact ⟨fun _ hslot => hslot, fun _ hslot => .inl hslot⟩

variable {store : FloorStore}

theorem tracks_touched (htracks : Tracks store.inner store.order) (call : Call) :
    Tracks (store.touched call).inner (store.touched call).order := by
  obtain ⟨-, hadded⟩ := store.touched_slots call
  intro slot hslot
  change slot ∈ (if (store.touched call).inner.containsSlot call.slot.1 call.slot.2 then
    touch store.order call.slot else store.order)
  rcases hadded slot hslot with hold | rfl
  · by_cases hown : (store.touched call).inner.containsSlot call.slot.1 call.slot.2 = true
    · rw [if_pos hown]
      exact mem_touch.mpr (.inl (htracks slot hold))
    · rw [if_neg hown]
      exact htracks slot hold
  · rw [if_pos hslot]
    exact mem_touch.mpr (.inr rfl)

theorem inSync_touched (hsync : InSync store.inner store.order) (call : Call) :
    InSync (store.touched call).inner (store.touched call).order := by
  obtain ⟨hkept, hadded⟩ := store.touched_slots call
  have hlisted := tracks_touched hsync.tracks call
  by_cases hown : (store.touched call).inner.containsSlot call.slot.1 call.slot.2 = true
  · have horder : (store.touched call).order = touch store.order call.slot := if_pos hown
    rw [horder] at hlisted ⊢
    refine ⟨nodup_touch hsync.1 call.slot, fun slot => ⟨fun hslot => ?_, hlisted slot⟩⟩
    rcases mem_touch.mp hslot with hold | rfl
    · exact hkept slot ((hsync.2 slot).mp hold)
    · exact hown
  have horder : (store.touched call).order = store.order := if_neg hown
  rw [horder] at hlisted ⊢
  exact ⟨hsync.1, fun slot => ⟨fun hslot => hkept slot ((hsync.2 slot).mp hslot), hlisted slot⟩⟩

theorem tracks_admitAssertion (htracks : Tracks store.inner store.order) (call : Call) :
    Tracks (store.admitAssertion call).1.inner (store.admitAssertion call).1.order ∧
      (store.admitAssertion call).1.inner.slotCount ≤ store.cap := by
  obtain ⟨file, hfile⟩ := store.admitAssertion_fst call
  rw [hfile]
  exact tracks_enforceCap (tracks_touched htracks call) call.now

theorem inSync_admitAssertion (hsync : InSync store.inner store.order) (call : Call) :
    InSync (store.admitAssertion call).1.inner (store.admitAssertion call).1.order := by
  obtain ⟨file, hfile⟩ := store.admitAssertion_fst call
  rw [hfile]
  exact inSync_enforceCap (inSync_touched hsync call) call.now

theorem slot?_admitAssertion (htracks : Tracks store.inner store.order) {call : Call} {record : ProviderRecord}
    (hrecord : (store.admitAssertion call).2 = some record) :
    (store.admitAssertion call).1.inner.slot? record.key record.provider = some (.active record) := by
  obtain ⟨hassertion, hlive, hslot⟩ := slot?_directoryAdmit hrecord
  have hown : call.slot = (record.key, record.provider) := by rw [Call.slot, hassertion]; rfl
  have horder : (store.touched call).order =
      store.order.filter (· ≠ call.slot) ++ [call.slot] := by
    apply if_pos
    rw [containsSlot, hown, hslot, Option.isSome_some]
  obtain ⟨file, hfile⟩ := store.admitAssertion_fst call
  rw [hfile]
  have hheld : (store.touched call).inner.slot? call.slot.1 call.slot.2 = some (.active record) := by
    rw [hown]
    exact hslot
  have hkept := slot?_enforceCap (tracks_touched htracks call) horder
    (not_mem_touch_front store.order call.slot) hheld hlive
  rw [hown] at hkept
  exact hkept

theorem tracks_admitAll (htracks : Tracks store.inner store.order) (calls : List Call) :
    Tracks (store.admitAll calls).inner (store.admitAll calls).order :=
  List.foldlRecOn calls _ (motive := fun store : FloorStore => Tracks store.inner store.order) htracks
    fun _ hprevious call _ => (tracks_admitAssertion hprevious call).1

theorem admitAll_cap (store : FloorStore) (calls : List Call) :
    (store.admitAll calls).cap = store.cap :=
  List.foldlRecOn calls _ (motive := fun next : FloorStore => next.cap = store.cap) rfl
    fun previous hprevious call _ => (previous.admitAssertion_cap call).trans hprevious

theorem bounded_admitAll (hbounded : store.Bounded) (calls : List Call) : (store.admitAll calls).Bounded := by
  refine List.foldlRecOn calls _ (motive := Bounded) hbounded fun previous hprevious call _ => ?_
  refine ⟨?_, inSync_admitAssertion hprevious.2 call⟩
  rw [admitAssertion_cap]
  exact (tracks_admitAssertion hprevious.2.tracks call).2

end Calls

end Laws

open FloorStore in
/-- A store is bounded and its list in step with its slots throughout, if it starts empty or its file names distinct slots within the cap; and whatever the file, each call leaves at most the cap and the record it returns. -/
theorem floor_store_bounded [Ed25519] [Libp2pKeys] (file : Option (List Char)) (cap : Nat) :
    ((∀ calls, ((durable file cap).admitAll calls).Bounded) ↔
      ((loadFloors file).map slotOf).Nodup ∧ (loadFloors file).length ≤ max cap 1) ∧
    (∀ calls, ((withCap cap).admitAll calls).Bounded) ∧
    ∀ store ∈ [durable file cap, withCap cap], ∀ calls call,
      ((store.admitAll calls).admitAssertion call).1.inner.slotCount ≤ max cap 1 ∧
      ∀ record, ((store.admitAll calls).admitAssertion call).2 = some record →
        ((store.admitAll calls).admitAssertion call).1.inner.slot? record.key record.provider =
          some (.active record) := by
  refine ⟨?_, bounded_admitAll (bounded_withCap cap), fun store hstore calls call => ?_⟩
  · rw [← bounded_durable_iff]
    exact ⟨fun h => h [], fun h => bounded_admitAll h⟩
  · have htracks : Tracks store.inner store.order ∧ store.cap = max cap 1 := by
      rcases List.mem_pair.mp hstore with rfl | rfl
      · exact ⟨fun slot hslot => (mem_order_durable file cap slot).mpr hslot, rfl⟩
      · exact ⟨(bounded_withCap cap).2.tracks, rfl⟩
    have hcalls := tracks_admitAll htracks.1 calls
    refine ⟨?_, fun record hrecord => slot?_admitAssertion hcalls hrecord⟩
    have hcount := (tracks_admitAssertion hcalls call).2
    rwa [admitAll_cap, htracks.2] at hcount

section Golden

attribute [local instance] goldenScheme goldenKeys

def goldenFloor (number : Nat) : Floor :=
  (⟨⟨Wire.beBytes 32 number, by simp⟩⟩, goldenProvider, .withdrawn 1 1000)

def goldenCall (number : Nat) : Call where
  peer := goldenProvider
  assertion := .withdraw
    ⟨⟨⟨Wire.beBytes 32 number, by simp⟩⟩, goldenProvider, 1, 100, 1000, goldenSignature⟩
  now := 500
  walk := IterOrder.id _
  landed := true

theorem floor_store_bounded_golden :
    ((durable (some (serializeFloors [goldenFloor 1, goldenFloor 2])) 2).admitAll
      [goldenCall 3, goldenCall 1]).Bounded :=
  (floor_store_bounded (some (serializeFloors [goldenFloor 1, goldenFloor 2])) 2).1.mpr
    (by decide +kernel) [goldenCall 3, goldenCall 1]

/-- Two slots are loaded under a cap of one; and a slot that two lines of the file name stays in the list after it was dropped. -/
theorem loaded_store_unbounded :
    (durable (some (serializeFloors [goldenFloor 1, goldenFloor 2])) 1).inner.slotCount = 2 ∧
      slotOf (goldenFloor 1) ∈
        ((durable (some (serializeFloors [goldenFloor 1, goldenFloor 2, goldenFloor 1])) 2).admitAll
          [goldenCall 3]).order ∧
      ((durable (some (serializeFloors [goldenFloor 1, goldenFloor 2, goldenFloor 1])) 2).admitAll
        [goldenCall 3]).inner.containsSlot (goldenFloor 1).1 (goldenFloor 1).2.1 = false := by
  refine ⟨by decide +kernel, by decide +kernel, by decide +kernel⟩

end Golden

end NixP2p.FloorStore
