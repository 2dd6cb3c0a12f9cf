import NixP2p.Availability.Index
import NixP2p.Base.Holdings

/-!
# Supply is backed by a verified registration

Inside a critical section a reference may be active in the catalog without being in the map. The invariant names that reference as `held`, so that a registration, a rejected registration and a removal are each a few swaps between the map and `held`. Between critical sections a record of the catalog belongs to a reference of the map.
-/

namespace NixP2p

open HashTable Holdings

namespace AvailabilityIndex

/-- The key each reference was made for, and what the catalog and the map say of it. -/
structure Backed (dumped : NarHashKey → StorePath → DerivedNar → Prop) (homes : List NarHashKey)
    (held : Option EntryRef) (index : AvailabilityIndex) : Prop where
  length : homes.length = index.arena.length
  numbered : ∀ (ref : EntryRef) (entry : Entry), index.arena[ref]? = some entry → entry.supplyRegistration.id.toNat = ref + 1
  next : index.supplyCatalog.nextRegistration.toNat = index.arena.length
  home : ∀ key ref, index.entries.lookup key = some ref → homes[ref]? = some key
  unfiled : ∀ ref, held = some ref → ref < index.arena.length ∧ ∀ key, index.entries.lookup key ≠ some ref
  owned : index.supplyCatalog.Owned
  owner : ∀ id, (index.supplyCatalog.owners.lookup id).isSome →
    ∃ (ref : EntryRef) (entry : Entry), index.arena[ref]? = some entry ∧ entry.supplyRegistration.id = id ∧
      (held = some ref ∨ ∃ key, index.entries.lookup key = some ref)
  active : ∀ (ref : EntryRef) (entry : Entry), index.arena[ref]? = some entry →
    (held = some ref ∨ ∃ key, index.entries.lookup key = some ref) →
    entry.supplyRegistration.retired = false ∧
      (index.supplyCatalog.owners.lookup entry.supplyRegistration.id).isSome
  verified : ∀ (ref : EntryRef) (key : NarHashKey) (entry : Entry) (derived : DerivedNar), homes[ref]? = some key → index.arena[ref]? = some entry →
    entry.digest = some (.verified derived) → dumped key entry.storePath derived
  published : ∀ (ref : EntryRef) (entry : Entry) (digest : Blake3Digest) (record : SupplyCatalogRecord), index.arena[ref]? = some entry →
    index.supplyCatalog.record? digest entry.supplyRegistration.id = some record →
    entry.digest = some (.verified ⟨digest, record.declaredSize⟩) ∧ record.storePath = entry.storePath

variable {dumped : NarHashKey → StorePath → DerivedNar → Prop} {homes : List NarHashKey}
  {held : Option EntryRef} {index : AvailabilityIndex}

theorem backed_empty (dumped : NarHashKey → StorePath → DerivedNar → Prop) (nodeId : NodeId) :
    Backed dumped [] none { nodeId } where
  length := rfl
  numbered := fun _ _ h => nomatch h
  next := rfl
  home := fun _ _ h => nomatch h
  unfiled := fun _ h => nomatch h
  owned := fun _ _ _ h => nomatch h
  owner := fun _ h => nomatch h
  active := fun _ _ h => nomatch h
  verified := fun _ _ _ _ h => nomatch h
  published := fun _ _ _ _ h => nomatch h

theorem Backed.mono {dumped' : NarHashKey → StorePath → DerivedNar → Prop}
    (h : Backed dumped homes held index)
    (hmono : ∀ key storePath derived, dumped key storePath derived → dumped' key storePath derived) :
    Backed dumped' homes held index :=
  { h with verified := fun ref key entry derived hhome hentry hdigest =>
      hmono _ _ _ (h.verified ref key entry derived hhome hentry hdigest) }

variable {ref : EntryRef} {entry : Entry}

theorem Backed.ref_eq (h : Backed dumped homes held index) {ref' : EntryRef} {entry' : Entry}
    (hentry : index.arena[ref]? = some entry) (hentry' : index.arena[ref']? = some entry')
    (hid : entry.supplyRegistration.id = entry'.supplyRegistration.id) : ref = ref' := by
  have hnumber := h.numbered ref entry hentry
  have hnumber' := h.numbered ref' entry' hentry'
  rw [hid] at hnumber
  exact Nat.succ.inj (hnumber.symm.trans hnumber')

variable {key : NarHashKey}

theorem Backed.entry_of_lookup (h : Backed dumped homes held index)
    (hlookup : index.entries.lookup key = some ref) : ∃ entry, index.arena[ref]? = some entry := by
  have hhome := h.home key ref hlookup
  have hlt : ref < index.arena.length := by
    rw [← h.length]
    exact (List.getElem?_eq_some_iff.mp hhome).1
  exact ⟨index.arena[ref], List.getElem?_eq_getElem hlt⟩

theorem Backed.record (h : Backed dumped homes none index) {digest : Blake3Digest} {id : UInt64}
    {record : SupplyCatalogRecord} (hrecord : index.supplyCatalog.record? digest id = some record) :
    ∃ key ref entry, index.entries.lookup key = some ref ∧ index.arena[ref]? = some entry ∧
      entry.supplyRegistration.id = id ∧
      entry.digest = some (.verified ⟨digest, record.declaredSize⟩) ∧
      record.storePath = entry.storePath ∧ dumped key entry.storePath ⟨digest, record.declaredSize⟩ := by
  have howner := h.owned digest id record hrecord
  obtain ⟨ref, entry, hentry, rfl, hcurrent⟩ := h.owner id (by rw [howner]; rfl)
  obtain hheld | ⟨key, hlookup⟩ := hcurrent
  · cases hheld
  obtain ⟨hdigest, hpath⟩ := h.published ref entry digest record hentry hrecord
  have hdumped := h.verified ref key entry _ (h.home key ref hlookup) hentry hdigest
  exact ⟨key, ref, entry, hlookup, hentry, rfl, hdigest, hpath, hdumped⟩

/-! ### The steps of a critical section -/

/-- The map takes what is held, and what it had under the key is held instead. -/
theorem Backed.swap (h : Backed dumped homes held index) (key : NarHashKey)
    (hhome : ∀ ref, held = some ref → homes[ref]? = some key) :
    Backed dumped homes (index.entries.lookup key)
      { index with entries := put index.entries key held } := by
  have hlookup : ∀ other, (put index.entries key held).lookup other =
      if other = key then held else index.entries.lookup other := fun other => lookup_put index.entries key other held
  -- The references that are active are the same before and after.
  have hactive : ∀ ref, (index.entries.lookup key = some ref ∨
      ∃ other, (put index.entries key held).lookup other = some ref) ↔
      (held = some ref ∨ ∃ other, index.entries.lookup other = some ref) := by
    intro ref
    constructor
    · rintro (hout | ⟨other, hother⟩)
      · exact .inr ⟨key, hout⟩
      · rw [hlookup] at hother
        split at hother
        · exact .inl hother
        · exact .inr ⟨other, hother⟩
    · rintro (hin | ⟨other, hother⟩)
      · refine .inr ⟨key, ?_⟩
        rw [hlookup, if_pos rfl, hin]
      · by_cases hkey : other = key
        · subst hkey
          exact .inl hother
        · refine .inr ⟨other, ?_⟩
          rw [hlookup, if_neg hkey, hother]
  refine { h with home := ?_, unfiled := ?_, owner := ?_, active := ?_ }
  · intro other ref hother
    rw [hlookup] at hother
    split at hother
    · rename_i hkey
      rw [hkey]
      exact hhome ref hother
    · exact h.home other ref hother
  · intro ref hout
    obtain ⟨entry, hentry⟩ := h.entry_of_lookup hout
    refine ⟨(List.getElem?_eq_some_iff.mp hentry).1, fun other hother => ?_⟩
    rw [hlookup] at hother
    split at hother
    · exact (h.unfiled ref hother).2 key hout
    rename_i hkey
    have hboth := (h.home other ref hother).symm.trans (h.home key ref hout)
    exact hkey (Option.some.inj hboth)
  · intro id hid
    obtain ⟨ref, entry, hentry, hsame, hcurrent⟩ := h.owner id hid
    exact ⟨ref, entry, hentry, hsame, (hactive ref).mpr hcurrent⟩
  · intro ref entry hentry hcurrent
    exact h.active ref entry hentry ((hactive ref).mp hcurrent)

variable {verified : Option DerivedNar} {storePath : StorePath}

theorem Backed.allocate (h : Backed dumped homes none index)
    (hverified : ∀ derived ∈ verified, dumped key storePath derived) {supplyCatalog : CatalogState}
    {supplyRegistration : SupplyRegistration}
    (hregister : index.supplyCatalog.register = some (supplyCatalog, supplyRegistration)) :
    Backed dumped (homes ++ [key]) (some index.arena.length) { index with
      arena := index.arena ++ [{ storePath, supplyRegistration, digest := verified.map .verified }]
      supplyCatalog } := by
  obtain ⟨rfl, hnext, howners, hrecords⟩ := CatalogState.register_eq_some hregister
  have hid : supplyCatalog.nextRegistration.toNat = index.arena.length + 1 := by rw [hnext, h.next]
  -- The new identity is larger than that of every entry so far.
  have hfresh : ∀ (ref : EntryRef) (entry : Entry), index.arena[ref]? = some entry →
      entry.supplyRegistration.id ≠ supplyCatalog.nextRegistration := by
    intro ref entry hentry heq
    have hlt := (List.getElem?_eq_some_iff.mp hentry).1
    have hnumber := h.numbered ref entry hentry
    rw [heq, hid] at hnumber
    exact absurd (Nat.succ.inj hnumber) (Nat.ne_of_gt hlt)
  have howner : ∀ id, supplyCatalog.owners.lookup id =
      if id = supplyCatalog.nextRegistration then some none else index.supplyCatalog.owners.lookup id := by
    intro id
    rw [howners, lookup_insert]
  have hrecord : ∀ digest id, supplyCatalog.record? digest id = index.supplyCatalog.record? digest id := by
    intro digest id
    rw [CatalogState.record?, hrecords]
    rfl
  have hunowned : (index.supplyCatalog.owners.lookup supplyCatalog.nextRegistration).isSome → False := by
    intro hsome
    obtain ⟨ref, entry, hentry, heq, -⟩ := h.owner _ hsome
    exact hfresh ref entry hentry heq
  constructor
  case length => rw [List.length_append, List.length_append, h.length]; rfl
  case numbered =>
    intro ref entry hentry
    obtain hold | ⟨rfl, rfl⟩ := of_getElem?_append hentry
    · exact h.numbered ref entry hold
    · exact hid
  case next => rw [hid, List.length_append]; rfl
  case home =>
    intro other ref hother
    have hhome := h.home other ref hother
    rw [List.getElem?_append_left (List.getElem?_eq_some_iff.mp hhome).1]
    exact hhome
  case unfiled =>
    rintro ref ⟨⟩
    refine ⟨by rw [List.length_append]; exact Nat.lt_succ_self _, fun other hother => ?_⟩
    obtain ⟨entry, hentry⟩ := h.entry_of_lookup hother
    exact absurd (List.getElem?_eq_some_iff.mp hentry).1 (Nat.lt_irrefl _)
  case owned =>
    intro digest id record hfound
    rw [hrecord] at hfound
    have hbefore := h.owned digest id record hfound
    rw [howner]
    split
    · rename_i heq
      rw [heq] at hbefore
      exact absurd (by rw [hbefore]; rfl) hunowned
    · exact hbefore
  case owner =>
    intro id hsome
    rw [howner] at hsome
    split at hsome
    · rename_i heq
      exact ⟨index.arena.length, _, List.getElem?_concat_length, heq.symm, .inl rfl⟩
    obtain ⟨ref, entry, hentry, heq, hheld | hfiled⟩ := h.owner id hsome
    · cases hheld
    · refine ⟨ref, entry, ?_, heq, .inr hfiled⟩
      rw [List.getElem?_append_left (List.getElem?_eq_some_iff.mp hentry).1, hentry]
  case active =>
    intro ref entry hentry hcurrent
    rw [howner]
    obtain hold | ⟨rfl, rfl⟩ := of_getElem?_append hentry
    · have hlt := (List.getElem?_eq_some_iff.mp hold).1
      rw [if_neg (hfresh ref entry hold)]
      refine h.active ref entry hold (hcurrent.imp_left fun hheld => ?_)
      exact absurd (Option.some.inj hheld) (Nat.ne_of_gt hlt)
    · rw [if_pos rfl]
      exact ⟨rfl, rfl⟩
  case verified =>
    intro ref other entry derived hhome hentry hdigest
    obtain hold | ⟨rfl, rfl⟩ := of_getElem?_append hentry
    · have hlt := (List.getElem?_eq_some_iff.mp hold).1
      rw [List.getElem?_append_left (by rw [h.length]; exact hlt)] at hhome
      exact h.verified ref other entry derived hhome hold hdigest
    rw [← h.length, List.getElem?_concat_length] at hhome
    obtain ⟨found, hfound, hsame⟩ := Option.map_eq_some_iff.mp hdigest
    cases hhome
    cases hsame
    exact hverified derived hfound
  case published =>
    intro ref entry digest record hentry hfound
    rw [hrecord] at hfound
    obtain hold | ⟨rfl, rfl⟩ := of_getElem?_append hentry
    · exact h.published ref entry digest record hold hfound
    · have hbefore := h.owned _ _ _ hfound
      exact absurd (by rw [hbefore]; rfl) hunowned

/-- An entry is replaced by one of the same registration and path; its verdict stays, or a dump backs the one it gets. -/
theorem Backed.set (h : Backed dumped homes held index) {new : Entry} (hentry : index.arena[ref]? = some entry)
    (hid : new.supplyRegistration.id = entry.supplyRegistration.id) (hpath : new.storePath = entry.storePath)
    (hactive : (held = some ref ∨ ∃ key, index.entries.lookup key = some ref) → new.supplyRegistration.retired = false)
    (hdigest : new.digest = entry.digest ∨ entry.digest = none ∧ ∀ key derived, homes[ref]? = some key → new.digest = some (.verified derived) → dumped key entry.storePath derived) :
    Backed dumped homes held { index with arena := index.arena.set ref new } := by
  have harena : ∀ (other : EntryRef) (found : Entry), (index.arena.set ref new)[other]? = some found →
      (other = ref ∧ found = new) ∨ index.arena[other]? = some found := by
    intro other found hfound
    obtain hnew | ⟨-, hold⟩ := of_getElem?_set hfound
    · exact .inl hnew
    · exact .inr hold
  refine { h with length := ?_, numbered := ?_, next := ?_, unfiled := ?_, owner := ?_, active := ?_,
                  verified := ?_, published := ?_ }
  · exact h.length.trans List.length_set.symm
  · intro other found hfound
    obtain ⟨rfl, rfl⟩ | hold := harena other found hfound
    · exact hid ▸ h.numbered other entry hentry
    · exact h.numbered other found hold
  · exact h.next.trans List.length_set.symm
  · intro other hheld
    obtain ⟨hlt, hunfiled⟩ := h.unfiled other hheld
    exact ⟨hlt.trans_eq List.length_set.symm, hunfiled⟩
  · intro id hsome
    obtain ⟨other, old, hold, hsame, hcurrent⟩ := h.owner id hsome
    by_cases heq : ref = other
    · subst heq
      obtain rfl := Option.some.inj (hentry.symm.trans hold)
      have hlt := (List.getElem?_eq_some_iff.mp hold).1
      exact ⟨ref, new, List.getElem?_set_self hlt, hid.trans hsame, hcurrent⟩
    · exact ⟨other, old, (List.getElem?_set_ne heq).trans hold, hsame, hcurrent⟩
  · intro other found hfound hcurrent
    obtain ⟨rfl, rfl⟩ | hold := harena other found hfound
    · exact ⟨hactive hcurrent, hid ▸ (h.active other entry hentry hcurrent).2⟩
    · exact h.active other found hold hcurrent
  · intro other key found derived hhome hfound hverdict
    obtain ⟨rfl, rfl⟩ | hold := harena other found hfound
    · rw [hpath]
      obtain hsame | ⟨-, hbacked⟩ := hdigest
      · exact h.verified other key entry derived hhome hentry (hsame ▸ hverdict)
      · exact hbacked key derived hhome hverdict
    · exact h.verified other key found derived hhome hold hverdict
  · intro other found digest record hfound hrecord
    obtain ⟨rfl, rfl⟩ | hold := harena other found hfound
    · rw [hid] at hrecord
      have hbefore := h.published other entry digest record hentry hrecord
      obtain hsame | ⟨hcold, -⟩ := hdigest
      · rw [hsame, hpath]
        exact hbefore
      · cases hcold.symm.trans hbefore.1
    · exact h.published other found digest record hold hrecord

theorem Backed.release (h : Backed dumped homes (some ref) index) {gone : Entry} (hgone : index.arena[ref]? = some gone) :
    Backed dumped homes none { index with
      supplyCatalog := index.supplyCatalog.retire gone.supplyRegistration } := by
  have hunfiled := (h.unfiled ref rfl).2
  refine { h with next := ?_, unfiled := fun _ hheld => (nomatch hheld),
                  owned := h.owned.retire gone.supplyRegistration, owner := ?_, active := ?_, published := ?_ }
  · exact (congrArg UInt64.toNat (CatalogState.nextRegistration_retire _ _)).trans h.next
  · intro id hsome
    rw [CatalogState.owners_retire] at hsome
    split at hsome
    · cases hsome
    rename_i hid
    obtain ⟨other, old, hold, rfl, hcurrent⟩ := h.owner id hsome
    refine ⟨other, old, hold, rfl, .inr (hcurrent.resolve_left fun hheld => ?_)⟩
    obtain rfl := Option.some.inj hheld
    exact hid (congrArg (fun entry => entry.supplyRegistration.id) (Option.some.inj (hold.symm.trans hgone)))
  · intro other entry hentry hcurrent
    have hfiled := hcurrent.resolve_left fun hheld => nomatch hheld
    rw [CatalogState.owners_retire, if_neg fun hid => ?_]
    · exact h.active other entry hentry (.inr hfiled)
    · obtain rfl := h.ref_eq hentry hgone hid
      obtain ⟨key, hkey⟩ := hfiled
      exact hunfiled key hkey
  · intro other entry digest record hentry hrecord
    rw [h.owned.record?_retire] at hrecord
    split at hrecord
    · cases hrecord
    · exact h.published other entry digest record hentry hrecord

theorem Backed.retire (h : Backed dumped homes (some ref) index) :
    Backed dumped homes none (index.retireSupplyRegistration ref) := by
  obtain ⟨hlt, hunfiled⟩ := h.unfiled ref rfl
  obtain ⟨gone, hgone⟩ : ∃ gone, index.arena[ref]? = some gone := ⟨_, List.getElem?_eq_getElem hlt⟩
  unfold retireSupplyRegistration
  rw [hgone]
  refine (h.release hgone).set hgone rfl rfl (fun hcurrent => ?_) (.inl rfl)
  obtain hheld | ⟨key, hkey⟩ := hcurrent
  · cases hheld
  · exact absurd hkey (hunfiled key)

/-- An entry without a verdict gets one, which a dump backs where it is a verified one. -/
theorem Backed.setDigest (h : Backed dumped homes held index) (hentry : index.arena[ref]? = some entry)
    (hhome : homes[ref]? = some key) (hcold : entry.digest = none) {outcome : DeriveOutcome}
    (houtcome : ∀ derived, outcome = .verified derived → dumped key entry.storePath derived) :
    Backed dumped homes held (index.setDigest ref entry outcome) := by
  refine h.set hentry rfl rfl (fun hcurrent => (h.active ref entry hentry hcurrent).1) (.inr ⟨hcold, ?_⟩)
  intro found derived hfound hverdict
  obtain rfl := Option.some.inj (hhome.symm.trans hfound)
  exact houtcome derived (Option.some.inj hverdict)

theorem Backed.publish [NarDumper] (h : Backed dumped homes none index)
    (hlookup : index.entries.lookup key = some ref) (hentry : index.arena[ref]? = some entry)
    {derived : DerivedNar} (hdigest : entry.digest = some (.verified derived)) :
    ∃ supplyCatalog, index.supplyCatalog.publish entry.supplyRegistration derived.blake3
        (catalogRecord entry derived) = some supplyCatalog ∧
      Backed dumped homes none { index with supplyCatalog } := by
  obtain ⟨hretired, howner⟩ := h.active ref entry hentry (.inr ⟨key, hlookup⟩)
  obtain ⟨supplyCatalog, hpublish⟩ := CatalogState.exists_publish hretired howner derived.blake3
    (catalogRecord entry derived)
  have howners := CatalogState.owners_publish hpublish
  have hsome : ∀ id, (supplyCatalog.owners.lookup id).isSome ↔
      (index.supplyCatalog.owners.lookup id).isSome := by
    intro id
    rw [howners]
    split
    · rename_i hid
      rw [hid]
      exact iff_of_true rfl howner
    · exact Iff.rfl
  have howned := h.owned.publish hpublish
  refine ⟨supplyCatalog, hpublish,
    { h with next := ?_, owned := howned, owner := ?_, active := ?_, published := ?_ }⟩
  · rw [CatalogState.nextRegistration_publish hpublish]
    exact h.next
  · intro id hid
    exact h.owner id ((hsome id).mp hid)
  · intro other old hold hcurrent
    obtain ⟨hold', howner'⟩ := h.active other old hold hcurrent
    exact ⟨hold', (hsome _).mpr howner'⟩
  · intro other old digest record hold hrecord
    rw [h.owned.record?_publish hpublish] at hrecord
    split at hrecord
    · rename_i hid
      obtain rfl := h.ref_eq hold hentry hid
      obtain rfl := Option.some.inj (hold.symm.trans hentry)
      split at hrecord
      · rename_i hdigest'
        obtain rfl := Option.some.inj hrecord
        subst hdigest'
        exact ⟨hdigest, rfl⟩
      · cases hrecord
    · exact h.published other old digest record hold hrecord

/-! ### What a step leaves of the references -/

/-- References keep their identity and a verdict once made, and one that has left the map stays out. -/
structure Follows (index next : AvailabilityIndex) : Prop where
  kept : ∀ (ref : EntryRef) (entry : Entry), index.arena[ref]? = some entry →
    ∃ later, next.arena[ref]? = some later ∧
      later.supplyRegistration.id = entry.supplyRegistration.id ∧
      ∀ outcome, entry.digest = some outcome → later.digest = some outcome
  filed : ∀ (ref : EntryRef) (key : NarHashKey), ref < index.arena.length →
    next.entries.lookup key = some ref → index.entries.lookup key = some ref

variable {next last : AvailabilityIndex}

theorem Follows.refl (index : AvailabilityIndex) : index.Follows index where
  kept := fun _ entry hentry => ⟨entry, hentry, rfl, fun _ h => h⟩
  filed := fun _ _ _ h => h

theorem Follows.trans (h : index.Follows next) (h' : next.Follows last) : index.Follows last where
  kept := by
    intro ref entry hentry
    obtain ⟨middle, hmiddle, hid, hdigest⟩ := h.kept ref entry hentry
    obtain ⟨later, hlater, hid', hdigest'⟩ := h'.kept ref middle hmiddle
    exact ⟨later, hlater, hid'.trans hid, fun outcome houtcome => hdigest' _ (hdigest _ houtcome)⟩
  filed := by
    intro ref key hlt hlookup
    obtain ⟨middle, hmiddle, -⟩ := h.kept ref _ (List.getElem?_eq_getElem hlt)
    exact h.filed ref key hlt (h'.filed ref key (List.getElem?_eq_some_iff.mp hmiddle).1 hlookup)

theorem Follows.set (later : Entry) (hentry : index.arena[ref]? = some entry)
    (hid : later.supplyRegistration.id = entry.supplyRegistration.id)
    (hdigest : ∀ outcome, entry.digest = some outcome → later.digest = some outcome)
    (supplyCatalog : CatalogState) :
    index.Follows { index with arena := index.arena.set ref later, supplyCatalog } where
  kept := by
    intro other old hold
    by_cases heq : ref = other
    · subst heq
      obtain rfl := Option.some.inj (hentry.symm.trans hold)
      exact ⟨later, List.getElem?_set_self (List.getElem?_eq_some_iff.mp hold).1, hid, hdigest⟩
    · exact ⟨old, (List.getElem?_set_ne heq).trans hold, rfl, fun _ h => h⟩
  filed := fun _ _ _ h => h

theorem follows_retire (index : AvailabilityIndex) (ref : EntryRef) :
    index.Follows (index.retireSupplyRegistration ref) := by
  unfold retireSupplyRegistration
  split
  · exact Follows.refl index
  · rename_i entry hentry
    exact Follows.set entry.retire hentry rfl (fun _ h => h) _

theorem follows_remove (index : AvailabilityIndex) (key : NarHashKey) (ref : EntryRef) :
    index.Follows (index.remove key ref) := by
  have herased : index.Follows { index with entries := index.entries.erase key } := by
    refine ⟨fun _ entry hentry => ⟨entry, hentry, rfl, fun _ h => h⟩, fun other found _ hlookup => ?_⟩
    change (index.entries.erase key).lookup found = some other at hlookup
    rw [lookup_erase] at hlookup
    split at hlookup
    · cases hlookup
    · exact hlookup
  exact herased.trans (follows_retire _ ref)

def Advances (dumped : NarHashKey → StorePath → DerivedNar → Prop) (homes : List NarHashKey)
    (index next : AvailabilityIndex) : Prop :=
  ∃ homes', homes <+: homes' ∧ Backed dumped homes' none next ∧ index.Follows next

variable (h : Backed dumped homes none index)

include h

theorem Backed.stay : Advances dumped homes index index :=
  ⟨homes, List.prefix_rfl, h, Follows.refl index⟩

theorem Backed.registerBinding (hverified : ∀ derived ∈ verified, dumped key storePath derived)
    {save result : Except PersistError Unit}
    (hcall : index.registerBinding key storePath verified save = some (next, result)) :
    Advances dumped homes index next := by
  unfold AvailabilityIndex.registerBinding at hcall
  split at hcall
  · obtain ⟨rfl, -⟩ := Prod.mk.inj (Option.some.inj hcall)
    exact h.stay
  split at hcall
  · cases hcall
  rename_i supplyCatalog supplyRegistration hregister
  have hhome : ∀ ref, some index.arena.length = some ref → (homes ++ [key])[ref]? = some key := by
    rintro ref ⟨⟩
    rw [← h.length]
    exact List.getElem?_concat_length
  have hinserted := (h.allocate hverified hregister).swap key hhome
  have hfollows : ∀ entries : Table NarHashKey EntryRef,
      (∀ other ref, entries.lookup other = some ref →
        ref = index.arena.length ∨ index.entries.lookup other = some ref) →
      index.Follows { index with
        arena := index.arena ++ [{ storePath, supplyRegistration, digest := verified.map .verified }]
        entries, supplyCatalog } := by
    intro entries hentries
    refine ⟨fun ref entry hentry => ⟨entry, ?_, rfl, fun _ h => h⟩, fun ref other hlt hlookup => ?_⟩
    · exact (List.getElem?_append_left (List.getElem?_eq_some_iff.mp hentry).1).trans hentry
    · exact (hentries other ref hlookup).resolve_left (Nat.ne_of_lt hlt)
  refine ⟨homes ++ [key], List.prefix_append homes [key], ?_⟩
  split at hcall
  · obtain ⟨rfl, -⟩ := Prod.mk.inj (Option.some.inj hcall)
    have hback : ∀ ref, index.entries.lookup key = some ref → (homes ++ [key])[ref]? = some key := by
      intro ref hlookup
      have hhome' := h.home key ref hlookup
      rwa [List.getElem?_append_left (List.getElem?_eq_some_iff.mp hhome').1]
    have hrestored := hinserted.swap key hback
    rw [lookup_put, if_pos rfl] at hrestored
    refine ⟨hrestored.retire, (hfollows _ fun other ref hlookup => .inr ?_).trans (follows_retire _ _)⟩
    rw [lookup_put] at hlookup
    split at hlookup
    · rename_i heq
      rwa [heq]
    · rename_i hne
      rwa [lookup_insert, if_neg hne] at hlookup
  · obtain ⟨rfl, -⟩ := Prod.mk.inj (Option.some.inj hcall)
    have hcommitted : index.Follows _ := hfollows (index.entries.insert key index.arena.length) (by
      intro other ref hlookup
      rw [lookup_insert] at hlookup
      split at hlookup
      · exact .inl (Option.some.inj hlookup).symm
      · exact .inr hlookup)
    cases hreplaced : index.entries.lookup key with
    | none =>
      rw [hreplaced] at hinserted
      exact ⟨hinserted, hcommitted⟩
    | some replaced =>
      rw [hreplaced] at hinserted
      exact ⟨hinserted.retire, hcommitted.trans (follows_retire _ replaced)⟩

theorem Backed.remove (hlookup : index.entries.lookup key = some ref) :
    Advances dumped homes index (index.remove key ref) := by
  have hswapped := h.swap key fun ref hheld => nomatch hheld
  rw [hlookup] at hswapped
  exact ⟨homes, List.prefix_rfl, hswapped.retire, follows_remove index key ref⟩

theorem Backed.dropIfSame (world : World) (key : NarHashKey) (ref : EntryRef) :
    Advances dumped homes index (index.dropIfSame world key ref).1 := by
  unfold AvailabilityIndex.dropIfSame
  split
  · rename_i hlookup
    exact h.remove hlookup
  · exact h.stay

theorem Backed.unregister (world : World) (key : NarHashKey) :
    Advances dumped homes index (index.unregister world key).1 := by
  unfold AvailabilityIndex.unregister
  split
  · exact h.stay
  · rename_i removed hlookup
    exact h.remove hlookup

end AvailabilityIndex

/-! ### Threads -/

/-- A thread works for the key its reference was made for, and publishes what the reference's digest says. -/
def HoldThread.Tracks (homes : List NarHashKey) (index : AvailabilityIndex) : HoldThread → Prop
  | .observed key ref => homes[ref]? = some key
  | .materialised key ref => homes[ref]? = some key
  | .publishing _ ref derived =>
    ∃ entry, index.arena[ref]? = some entry ∧ entry.digest = some (.verified derived)
  | _ => True

theorem HoldThread.Tracks.advances {homes homes' : List NarHashKey} {index next : AvailabilityIndex} {thread : HoldThread}
    (h : thread.Tracks homes index) (hextends : homes <+: homes') (hfollows : index.Follows next) :
    thread.Tracks homes' next := by
  have hhome : ∀ {ref : EntryRef} {key : NarHashKey}, homes[ref]? = some key → homes'[ref]? = some key := by
    intro ref key hhome
    obtain ⟨rest, rfl⟩ := hextends
    exact (List.getElem?_append_left (List.getElem?_eq_some_iff.mp hhome).1).trans hhome
  cases thread with
  | observed key ref => exact hhome h
  | materialised key ref => exact hhome h
  | publishing key ref derived =>
    obtain ⟨entry, hentry, hdigest⟩ := h
    obtain ⟨later, hlater, -, hkept⟩ := hfollows.kept ref entry hentry
    exact ⟨later, hlater, hkept _ hdigest⟩
  | _ => trivial

section Backing

variable [Sha256] [Blake3]

/-- At one of the events the path dumped to bytes of the NarHash, with this digest and size. -/
def DumpedAs (events : List (IndexAction × World)) (key : NarHashKey) (storePath : StorePath)
    (derived : DerivedNar) : Prop :=
  ∃ event ∈ events, ∃ raw, event.2.dump storePath = .ok raw ∧ NarHashKey.fromRawNar raw = key ∧
    derived = deriveNar raw

variable {storePath : StorePath} {key : NarHashKey}

theorem DumpedAs.append {events : List (IndexAction × World)} {derived : DerivedNar}
    (h : DumpedAs events key storePath derived) (later : List (IndexAction × World)) :
    DumpedAs (events ++ later) key storePath derived := by
  obtain ⟨event, hevent, hdump⟩ := h
  exact ⟨event, List.mem_append_left later hevent, hdump⟩

namespace AvailabilityIndex

variable {index : AvailabilityIndex} {event : IndexAction × World} {key : NarHashKey} {homes : List NarHashKey}

theorem Backed.derive {events : List (IndexAction × World)} (hevent : event ∈ events)
    (h : Backed (DumpedAs events) homes none index) {ref : EntryRef} {entry : Entry}
    (hentry : index.arena[ref]? = some entry) (hhome : homes[ref]? = some key) :
    Advances (DumpedAs events) homes index (index.derive event.2 key ref entry).1 ∧
      ∀ derived fresh, (index.derive event.2 key ref entry).2 = .ok (.derived derived fresh) →
        ∃ later, (index.derive event.2 key ref entry).1.arena[ref]? = some later ∧
          later.digest = some (.verified derived) := by
  have hset : ∀ outcome, entry.digest = none →
      (∀ derived, outcome = .verified derived → DumpedAs events key entry.storePath derived) →
      Advances (DumpedAs events) homes index (index.setDigest ref entry outcome) := by
    intro outcome hcold houtcome
    refine ⟨homes, List.prefix_rfl, h.setDigest hentry hhome hcold houtcome, ?_⟩
    refine Follows.set { entry with digest := some outcome } hentry rfl (fun old hold => ?_) index.supplyCatalog
    rw [hcold] at hold
    cases hold
  unfold AvailabilityIndex.derive
  split
  · rename_i warm hwarm
    refine ⟨h.stay, fun derived fresh hderived => ⟨entry, hentry, ?_⟩⟩
    cases hderived
    exact hwarm
  · exact ⟨h.stay, fun _ _ hderived => nomatch hderived⟩
  · rename_i hcold
    split
    · exact ⟨h.stay, fun _ _ hderived => nomatch hderived⟩
    · exact ⟨h.stay, fun _ _ hderived => nomatch hderived⟩
    · split
      · exact ⟨h.stay, fun _ _ hderived => nomatch hderived⟩
      rename_i rawNar hdump
      dsimp only
      split
      · exact ⟨hset _ hcold (fun _ hverified => nomatch hverified), fun _ _ hderived => nomatch hderived⟩
      rename_i hkey
      have hdumped : DumpedAs events key entry.storePath (deriveNar rawNar) :=
        ⟨event, hevent, rawNar, hdump, not_not.mp hkey, rfl⟩
      refine ⟨hset _ hcold fun derived hverified => ?_, fun derived fresh hderived => ?_⟩
      · cases hverified
        exact hdumped
      · cases hderived
        exact ⟨_, List.getElem?_set_self (List.getElem?_eq_some_iff.mp hentry).1, rfl⟩

variable {result : Except AvailabilityError DerivedNar} {next : AvailabilityIndex} {expectedSize : UInt64}

/-- A verified registration either changes nothing and fails, or binds what was dumped. -/
theorem verifyAndRegister_eq_some {world : World} {storePath : StorePath}
    (hcall : index.verifyAndRegister world key storePath expectedSize = some (next, result)) :
    (next = index ∧ ∃ error, result = .error error) ∨
      ∃ raw saved, world.dump storePath = .ok raw ∧ NarHashKey.fromRawNar raw = key ∧
        UInt64.ofNat raw.length = expectedSize ∧
        index.registerBinding key storePath (some (deriveNar raw)) world.save = some (next, saved) ∧
        result = (saved.mapError .persist).map fun _ => deriveNar raw := by
  unfold AvailabilityIndex.verifyAndRegister at hcall
  split at hcall
  · obtain ⟨rfl, rfl⟩ := Prod.mk.inj (Option.some.inj hcall)
    exact .inl ⟨rfl, _, rfl⟩
  rename_i raw hdump
  dsimp only at hcall
  split at hcall
  · obtain ⟨rfl, rfl⟩ := Prod.mk.inj (Option.some.inj hcall)
    exact .inl ⟨rfl, _, rfl⟩
  split at hcall
  · obtain ⟨rfl, rfl⟩ := Prod.mk.inj (Option.some.inj hcall)
    exact .inl ⟨rfl, _, rfl⟩
  rename_i hkey
  split at hcall
  · obtain ⟨rfl, rfl⟩ := Prod.mk.inj (Option.some.inj hcall)
    exact .inl ⟨rfl, _, rfl⟩
  rename_i hsize
  obtain ⟨⟨_, saved⟩, hbinding, heq⟩ := Option.map_eq_some_iff.mp hcall
  obtain ⟨rfl, rfl⟩ := Prod.mk.inj heq
  exact .inr ⟨raw, saved, hdump, not_not.mp hkey, not_not.mp hsize, hbinding, rfl⟩

theorem Backed.verifyAndRegister {events : List (IndexAction × World)} (hevent : event ∈ events)
    (h : Backed (DumpedAs events) homes none index) {storePath : StorePath}
    (hcall : index.verifyAndRegister event.2 key storePath expectedSize = some (next, result)) :
    Advances (DumpedAs events) homes index next := by
  rcases verifyAndRegister_eq_some hcall with ⟨rfl, _⟩ | ⟨raw, saved, hdump, hkey, _, hbinding, _⟩
  · exact h.stay
  refine h.registerBinding (fun derived hderived => ?_) hbinding
  obtain rfl := Option.some.inj hderived
  exact ⟨event, hevent, raw, hdump, hkey, rfl⟩

end AvailabilityIndex

open AvailabilityIndex

variable [NarDumper] {index : AvailabilityIndex}

theorem HoldThread.Tracks.advance {events : List (IndexAction × World)} {event : IndexAction × World}
    (hevent : event ∈ events) {homes : List NarHashKey} {thread : HoldThread}
    (hindex : Backed (DumpedAs events) homes none index) (h : thread.Tracks homes index) :
    ∃ homes', homes <+: homes' ∧
      Backed (DumpedAs events) homes' none (thread.advance index event.2).1 ∧
      index.Follows (thread.advance index event.2).1 ∧
      (thread.advance index event.2).2.Tracks homes' (thread.advance index event.2).1 := by
  have hstay : ∀ next : HoldThread, next.Tracks homes index →
      ∃ homes', homes <+: homes' ∧ Backed (DumpedAs events) homes' none index ∧ index.Follows index ∧
        next.Tracks homes' index :=
    fun next hnext => ⟨homes, List.prefix_rfl, hindex, Follows.refl index, hnext⟩
  cases thread with
  | reading key =>
    rw [HoldThread.advance]
    split
    · exact hstay _ trivial
    · rename_i ref hlookup
      exact hstay (.observed key ref) (hindex.home key ref hlookup)
  | observed key ref =>
    rw [HoldThread.advance]
    split
    · exact hstay (.observed key ref) h
    split
    · exact hstay (.materialised key ref) h
    · exact hstay _ trivial
  | dropping key ref =>
    obtain ⟨homes', hextends, hbacked, hfollows⟩ := hindex.dropIfSame event.2 key ref
    rw [HoldThread.advance]
    split
    · rename_i next error hdrop
      rw [hdrop] at hbacked hfollows
      exact ⟨homes', hextends, hbacked, hfollows, trivial⟩
    rename_i next hdrop
    rw [hdrop] at hbacked hfollows
    exact ⟨homes', hextends, hbacked, hfollows, trivial⟩
  | rereading key =>
    rw [HoldThread.advance]
    split <;> exact hstay _ trivial
  | materialised key ref =>
    rw [HoldThread.advance]
    split
    · exact hstay (.materialised key ref) h
    rename_i entry hentry
    obtain ⟨⟨homes', hextends, hbacked, hfollows⟩, hderived⟩ := hindex.derive hevent hentry h
    refine ⟨homes', hextends, hbacked, hfollows, ?_⟩
    dsimp only
    unfold HoldThread.afterDerive
    split
    · trivial
    · rename_i derived fresh hstep
      exact hderived derived fresh hstep
    · trivial
  | failing key ref error =>
    rw [HoldThread.advance]
    split <;> exact hstay _ trivial
  | publishing key ref derived =>
    obtain ⟨entry, hentry, hdigest⟩ := h
    rw [HoldThread.advance]
    split
    · rename_i hlookup
      obtain ⟨supplyCatalog, hpublish, hbacked⟩ := hindex.publish hlookup hentry hdigest
      rw [hentry]
      dsimp only
      rw [hpublish]
      refine ⟨homes, List.prefix_rfl, hbacked, ⟨?_, fun _ _ _ h => h⟩, trivial⟩
      exact fun _ other hother => ⟨other, hother, rfl, fun _ h => h⟩
    · exact hstay _ trivial
  | held answer => exact hstay _ trivial
  | pruning key =>
    rw [HoldThread.advance]
    split <;> exact hstay _ trivial
  | pruneObserved key ref =>
    rw [HoldThread.advance]
    split
    · exact hstay _ trivial
    · split <;> exact hstay _ trivial
  | pruneDropping key ref =>
    obtain ⟨homes', hextends, hbacked, hfollows⟩ := hindex.dropIfSame event.2 key ref
    exact ⟨homes', hextends, hbacked, hfollows, trivial⟩
  | pruned answer => exact hstay _ trivial

/-! ### Whole runs -/

def IndexState.Accounted (events : List (IndexAction × World)) (state : IndexState) : Prop :=
  ∃ homes, Backed (DumpedAs events) homes none state.index ∧
    ∀ thread ∈ state.threads, thread.Tracks homes state.index

variable {events : List (IndexAction × World)} {state : IndexState}

theorem IndexState.Accounted.step (h : state.Accounted events) (event : IndexAction × World) :
    (state.step event).Accounted (events ++ [event]) ∧ state.index.Follows (state.step event).index := by
  obtain ⟨homes, hindex, hthreads⟩ := h
  have hevent : event ∈ events ++ [event] := List.mem_append_right events List.mem_cons_self
  replace hindex := hindex.mono fun _ _ _ hdumped => hdumped.append [event]
  have hstay : state.Accounted (events ++ [event]) ∧ state.index.Follows state.index :=
    ⟨⟨homes, hindex, hthreads⟩, Follows.refl state.index⟩
  -- A call of the index itself: the threads are those there were.
  have hcall : ∀ index, Advances (DumpedAs (events ++ [event])) homes state.index index →
      { state with index }.Accounted (events ++ [event]) ∧ state.index.Follows index := by
    rintro index ⟨homes', hextends, hbacked, hfollows⟩
    exact ⟨⟨homes', hbacked, fun thread hthread => (hthreads thread hthread).advances hextends hfollows⟩, hfollows⟩
  -- A call that starts a thread: its first stage tracks nothing yet.
  have hstart : ∀ thread : HoldThread, thread.Tracks homes state.index →
      { state with threads := state.threads ++ [thread] }.Accounted (events ++ [event]) := by
    intro thread hthread
    refine ⟨homes, hindex, fun other hother => ?_⟩
    obtain hold | hnew := List.mem_append.mp hother
    · exact hthreads other hold
    · rwa [List.mem_singleton.mp hnew]
  obtain ⟨action, world⟩ := event
  unfold IndexState.step
  split
  · exact hstay
  cases action with
  | register key storePath =>
    rw [IndexState.act]
    cases hregister : state.index.register world key storePath with
    | none => exact hstay
    | some result =>
      have hbinding : state.index.registerBinding key storePath none world.save = some result := hregister
      refine hcall result.1 (hindex.registerBinding ?_ hbinding)
      exact fun _ hnone => nomatch hnone
  | verifyAndRegister key storePath expectedSize =>
    rw [IndexState.act]
    cases hregister : state.index.verifyAndRegister world key storePath expectedSize with
    | none => exact hstay
    | some result => exact hcall result.1 (hindex.verifyAndRegister hevent hregister)
  | unregister key => exact hcall _ (hindex.unregister world key)
  | hold key => exact ⟨hstart (.reading key) trivial, Follows.refl state.index⟩
  | pruneIfGone key => exact ⟨hstart (.pruning key) trivial, Follows.refl state.index⟩
  | advance position =>
    rw [IndexState.act]
    cases hcurrent : state.threads[position]? with
    | none => exact hstay
    | some current =>
      obtain ⟨homes', hextends, hbacked, hfollows, hnext⟩ :=
        HoldThread.Tracks.advance hevent hindex (hthreads current (List.mem_of_getElem? hcurrent))
      refine ⟨⟨homes', hbacked, fun thread hthread => ?_⟩, hfollows⟩
      obtain hold | rfl := List.mem_or_eq_of_mem_set hthread
      · exact (hthreads thread hold).advances hextends hfollows
      · exact hnext

theorem IndexState.Accounted.foldl (h : state.Accounted events) (later : List (IndexAction × World)) :
    (later.foldl IndexState.step state).Accounted (events ++ later) ∧
      state.index.Follows (later.foldl IndexState.step state).index := by
  induction later generalizing state events with
  | nil =>
    rw [List.append_nil]
    exact ⟨h, Follows.refl state.index⟩
  | cons event later ih =>
    obtain ⟨hstep, hfollows⟩ := h.step event
    obtain ⟨hrun, hfollows'⟩ := ih hstep
    rw [List.append_cons]
    exact ⟨hrun, hfollows.trans hfollows'⟩

theorem IndexState.accounted_run (nodeId : NodeId) (events : List (IndexAction × World)) :
    (IndexState.run nodeId events).Accounted events := by
  have hempty : ({ index := { nodeId } } : IndexState).Accounted [] :=
    ⟨[], backed_empty _ nodeId, fun _ hthread => nomatch hthread⟩
  exact (hempty.foldl events).1

/-- The map of references, the entries behind them and the published records are as they were. -/
def AvailabilityIndex.SameSupply (before after : AvailabilityIndex) : Prop :=
  (∀ key, after.entries.lookup key = before.entries.lookup key) ∧
    (∀ (ref : EntryRef) (entry : Entry), before.arena[ref]? = some entry → after.arena[ref]? = some entry) ∧
    after.supplyCatalog.records = before.supplyCatalog.records

variable {next : AvailabilityIndex}

omit [Sha256] [Blake3] [NarDumper] in
theorem AvailabilityIndex.sameSupply_of_registerBinding {verified : Option DerivedNar}
    {save : Except PersistError Unit} {error : PersistError}
    (hcall : index.registerBinding key storePath verified save = some (next, .error error)) :
    index.SameSupply next := by
  unfold AvailabilityIndex.registerBinding at hcall
  split at hcall
  · cases hcall
  split at hcall
  · cases hcall
  rename_i supplyCatalog supplyRegistration hregister
  split at hcall
  · obtain ⟨rfl, -⟩ := Prod.mk.inj (Option.some.inj hcall)
    obtain ⟨rfl, -, howners, hrecords⟩ := CatalogState.register_eq_some hregister
    unfold retireSupplyRegistration
    dsimp only
    rw [List.getElem?_concat_length]
    refine ⟨fun other => ?_, fun ref entry hentry => ?_, ?_⟩
    · dsimp only
      rw [lookup_put, lookup_insert]
      split
      · rename_i heq
        rw [heq]
      · rfl
    · have hlt := (List.getElem?_eq_some_iff.mp hentry).1
      dsimp only
      rw [List.getElem?_set_ne (Nat.ne_of_gt hlt), List.getElem?_append_left hlt, hentry]
    · -- The rejected identity never owned a record.
      dsimp only
      rw [CatalogState.records_retire_of_unpublished, hrecords]
      rw [howners, lookup_insert, if_pos rfl]
  · cases hcall

omit [NarDumper] in
theorem AvailabilityIndex.sameSupply_of_verifyAndRegister {world : World} {expectedSize : UInt64}
    {error : AvailabilityError}
    (hcall : index.verifyAndRegister world key storePath expectedSize = some (next, .error error)) :
    index.SameSupply next := by
  rcases verifyAndRegister_eq_some hcall with ⟨rfl, _⟩ | ⟨raw, saved, _, _, _, hbinding, hfailed⟩
  · exact ⟨fun _ => rfl, fun _ _ h => h, rfl⟩
  cases saved with
  | ok _ => cases hfailed
  | error why => exact sameSupply_of_registerBinding hbinding

/-- In every state the records are those of verified registrations of the map; a failed registration changes none of it; and a reference out of the map never has a record again. -/
theorem supply_backed (nodeId : NodeId) (events : List (IndexAction × World)) :
    let index := (IndexState.run nodeId events).index
    (∀ digest id record, index.supplyCatalog.record? digest id = some record →
      ∃ key ref entry, index.entries.lookup key = some ref ∧ index.arena[ref]? = some entry ∧
        entry.supplyRegistration.id = id ∧
        entry.digest = some (.verified ⟨digest, record.declaredSize⟩) ∧
        record.storePath = entry.storePath ∧
        DumpedAs events key entry.storePath ⟨digest, record.declaredSize⟩) ∧
    (∀ world key storePath next error,
      index.register world key storePath = some (next, .error error) → index.SameSupply next) ∧
    (∀ world key storePath expectedSize next error,
      index.verifyAndRegister world key storePath expectedSize = some (next, .error error) →
        index.SameSupply next) ∧
    (∀ (ref : EntryRef) (entry : Entry), index.arena[ref]? = some entry →
      (∀ key, index.entries.lookup key ≠ some ref) →
      ∀ later digest, (IndexState.run nodeId (events ++ later)).index.supplyCatalog.record? digest
        entry.supplyRegistration.id = none) := by
  have haccounted := IndexState.accounted_run nodeId events
  refine ⟨fun digest id record hrecord => ?_, fun world key storePath next error hcall => ?_,
    fun world key storePath expectedSize next error hcall => sameSupply_of_verifyAndRegister hcall,
    fun ref entry hentry hgone later digest => ?_⟩
  · obtain ⟨homes, hindex, -⟩ := haccounted
    exact hindex.record hrecord
  · exact sameSupply_of_registerBinding hcall
  · obtain ⟨hlater, hfollows⟩ := haccounted.foldl later
    have hrun : (IndexState.run nodeId (events ++ later)) =
        later.foldl IndexState.step (IndexState.run nodeId events) := List.foldl_append
    rw [hrun]
    refine Option.eq_none_iff_forall_ne_some.mpr fun record hrecord => ?_
    obtain ⟨homes, hindex, -⟩ := hlater
    obtain ⟨key, found, last, hlookup, hlast, hid, -⟩ := hindex.record hrecord
    -- The record's reference has the identity of this one, so it is this one, and it is in the map.
    obtain ⟨kept, hkept, hkeptId, -⟩ := hfollows.kept ref entry hentry
    obtain rfl := hindex.ref_eq hlast hkept (hid.trans hkeptId.symm)
    exact hgone key (hfollows.filed found key (List.getElem?_eq_some_iff.mp hentry).1 hlookup)

end Backing

/-! ### A run that publishes -/

def flatBytes (n : Nat) : Wire.Bytes n := ⟨List.replicate n 0, List.length_replicate⟩

@[reducible] def flatSha256 : Sha256 := ⟨fun _ => flatBytes 32⟩

@[reducible] def flatBlake3 : Blake3 :=
  ⟨fun _ => flatBytes 32, fun _ _ => flatBytes 32, fun _ _ => flatBytes 32, fun _ _ => flatBytes 32⟩

@[reducible] def fileDumper : NarDumper := ⟨.regularFile⟩

attribute [local instance] flatSha256 flatBlake3 fileDumper

def calmWorld : World where
  pathExists := fun _ => true
  dump := fun _ => .ok [1, 2]
  allowance := .ok true
  cancelled := false
  save := .ok ()

def probedEvents : List (IndexAction × World) :=
  [(.register ⟨flatBytes 32⟩ ⟨["nix", "store", "a"]⟩, calmWorld), (.hold ⟨flatBytes 32⟩, calmWorld),
    (.advance 0, calmWorld), (.advance 0, calmWorld), (.advance 0, calmWorld), (.advance 0, calmWorld)]

theorem supply_backed_probed :
    (∃ key ref entry, (IndexState.run ⟨flatBytes 32⟩ probedEvents).index.entries.lookup key = some ref ∧
      (IndexState.run ⟨flatBytes 32⟩ probedEvents).index.arena[ref]? = some entry ∧
      entry.digest = some (.verified ⟨⟨flatBytes 32⟩, 2⟩)) ∧
    (IndexState.run ⟨flatBytes 32⟩
      (probedEvents ++ [(.unregister ⟨flatBytes 32⟩, calmWorld)])).index.supplyCatalog.record?
        ⟨flatBytes 32⟩ 1 = none := by
  constructor
  · obtain ⟨key, ref, entry, hlookup, hentry, -, hdigest, -⟩ :=
      (supply_backed ⟨flatBytes 32⟩ probedEvents).1 ⟨flatBytes 32⟩ 1
        ⟨2, .regularFile ⟨["nix", "store", "a"]⟩, ⟨["nix", "store", "a"]⟩⟩ rfl
    exact ⟨key, ref, entry, hlookup, hentry, hdigest⟩
  · have hgone := (supply_backed ⟨flatBytes 32⟩ (probedEvents ++ [(.unregister ⟨flatBytes 32⟩, calmWorld)])).2.2.2
      0 ⟨⟨["nix", "store", "a"]⟩, ⟨1, true⟩, some (.verified ⟨⟨flatBytes 32⟩, 2⟩)⟩ rfl
      (fun key hlookup => nomatch hlookup) [] ⟨flatBytes 32⟩
    rwa [List.append_nil] at hgone

end NixP2p
