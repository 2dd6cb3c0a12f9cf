import NixP2p.Announcer.Publication
import NixP2p.Records.Collection

/-!
# Withdrawals are effective

A withdrawal is minted from the sequence and the expiry of one record, and still supersedes everything published for the key: the table covers every published sequence, and the tombstone outlives the cap on the lifetime of a record. A replay then meets a larger sequence or has expired itself. The one exception is the largest sequence, after which the next one is zero.
-/

namespace NixP2p

open HashTable SeqFloor

section Consumer

variable [Ed25519]

namespace ProviderRecordSet

def callAll (set : ProviderRecordSet) (calls : List (StoreCall × UInt64)) : ProviderRecordSet :=
  calls.foldl (fun set entry => set.called entry.2 entry.1) set

/-- Of the assertions of one provider under a key the calls bring only these. -/
def BringOnly (assertions : List ProviderAssertion) (key : ContentKey) (provider : NodeId)
    (calls : List (StoreCall × UInt64)) : Prop :=
  ∀ entry ∈ calls, ∀ assertion ∈ entry.1.assertion?,
    assertion.key = key → assertion.provider = provider → assertion ∈ assertions

variable {set : ProviderRecordSet}

theorem filed_called (hfiled : set.Filed) (now : UInt64) (call : StoreCall) : (set.called now call).Filed := by
  cases call with
  | apply assertion => exact filed_apply hfiled assertion now
  | findProviders key => exact hfiled
  | evictExpired =>
    intro key provider record hslot
    change (set.evictExpired now).1.slot? key provider = _ at hslot
    rw [slot?_evictExpired, Option.filter_eq_some_iff] at hslot
    exact hfiled key provider record hslot.1

theorem filed_callAll (calls : List (StoreCall × UInt64)) (hfiled : set.Filed) : (set.callAll calls).Filed := by
  induction calls generalizing set with
  | nil => exact hfiled
  | cons entry calls ih => exact ih (filed_called hfiled entry.2 entry.1)

def HoldsOnly (assertions : List ProviderAssertion) (key : ContentKey) (provider : NodeId)
    (set : ProviderRecordSet) : Prop :=
  ∀ slot, set.slot? key provider = some slot → ∃ assertion ∈ assertions, slot = .of assertion

variable {assertions : List ProviderAssertion} {key : ContentKey} {provider : NodeId} {call : StoreCall}

theorem holdsOnly_called (hholds : set.HoldsOnly assertions key provider) (now : UInt64)
    (hcall : ∀ assertion ∈ call.assertion?, assertion.key = key → assertion.provider = provider → assertion ∈ assertions) :
    (set.called now call).HoldsOnly assertions key provider := by
  intro slot hslot
  cases call with
  | apply assertion =>
    change (set.apply assertion now).1.slot? key provider = _ at hslot
    rw [slot?_apply] at hslot
    split at hslot
    · rename_i hown
      exact ⟨assertion, hcall assertion rfl hown.1.symm hown.2.1.symm, (Option.some.inj hslot).symm⟩
    · exact hholds slot hslot
  | findProviders other => exact hholds slot hslot
  | evictExpired =>
    change (set.evictExpired now).1.slot? key provider = _ at hslot
    rw [slot?_evictExpired, Option.filter_eq_some_iff] at hslot
    exact hholds slot hslot.1

variable {calls : List (StoreCall × UInt64)}

theorem holdsOnly_callAll (hcalls : BringOnly assertions key provider calls)
    (hholds : set.HoldsOnly assertions key provider) : (set.callAll calls).HoldsOnly assertions key provider := by
  induction calls generalizing set with
  | nil => exact hholds
  | cons entry calls ih =>
    refine ih (fun other hother => hcalls other (List.mem_cons_of_mem _ hother)) ?_
    exact holdsOnly_called hholds entry.2 (hcalls entry List.mem_cons_self)

/-- The tombstone stands in its slot, or the slot is empty and the tombstone has expired. -/
def Buried (tombstone : ProviderWithdrawal) (now : UInt64) (set : ProviderRecordSet) : Prop :=
  set.slot? tombstone.key tombstone.provider = some (.of (.withdraw tombstone)) ∨
    (set.slot? tombstone.key tombstone.provider = none ∧ tombstone.expiry ≤ now)

variable {tombstone : ProviderWithdrawal} {now : UInt64}

theorem Buried.wait {later : UInt64} (hburied : set.Buried tombstone now) (hlater : now ≤ later) :
    set.Buried tombstone later :=
  hburied.imp_right fun hdropped => ⟨hdropped.1, UInt64.le_trans hdropped.2 hlater⟩

theorem Buried.not_supersedes (hburied : set.Buried tombstone now) {assertion : ProviderAssertion}
    (hsequence : assertion.sequence ≤ tombstone.sequence) (hexpiry : assertion.expiry ≤ tombstone.expiry) :
    ¬Supersedes assertion now (set.slot? tombstone.key tombstone.provider) := by
  rintro ⟨hfresh, hnewer⟩
  rcases hburied with hslot | ⟨-, hexpired⟩
  · exact UInt64.not_lt.mpr hsequence (hnewer _ hslot)
  · exact UInt64.not_lt.mpr (UInt64.le_trans hexpiry hexpired) hfresh

theorem Buried.called (hburied : set.Buried tombstone now)
    (hcall : ∀ assertion ∈ call.assertion?, assertion.key = tombstone.key → assertion.provider = tombstone.provider → assertion.sequence ≤ tombstone.sequence ∧ assertion.expiry ≤ tombstone.expiry) :
    (set.called now call).Buried tombstone now := by
  cases call with
  | apply assertion =>
    have hkept : (set.apply assertion now).1.slot? tombstone.key tombstone.provider =
        set.slot? tombstone.key tombstone.provider := by
      rw [slot?_apply, if_neg]
      rintro ⟨hkey, hprovider, hsupersedes⟩
      obtain ⟨hsequence, hexpiry⟩ := hcall assertion rfl hkey.symm hprovider.symm
      exact hburied.not_supersedes hsequence hexpiry hsupersedes
    change Buried tombstone now (set.apply assertion now).1
    rwa [Buried, hkept]
  | findProviders key => exact hburied
  | evictExpired =>
    change Buried tombstone now (set.evictExpired now).1
    rw [Buried, slot?_evictExpired]
    rcases hburied with hslot | ⟨hnone, hexpired⟩
    · rw [hslot]
      by_cases hlive : now < tombstone.expiry
      · exact .inl (Option.filter_some_pos (decide_eq_true hlive))
      · exact .inr ⟨Option.filter_some_neg (decide_eq_false hlive), UInt64.not_lt.mp hlive⟩
    · rw [hnone]
      exact .inr ⟨rfl, hexpired⟩

theorem Buried.callAll
    (hcalls : ∀ entry ∈ calls, ∀ assertion ∈ entry.1.assertion?, assertion.key = tombstone.key → assertion.provider = tombstone.provider → assertion.sequence ≤ tombstone.sequence ∧ assertion.expiry ≤ tombstone.expiry)
    {last : UInt64} (hclock : (now :: calls.map Prod.snd ++ [last]).Pairwise (· ≤ ·))
    (hburied : set.Buried tombstone now) : (set.callAll calls).Buried tombstone last := by
  induction calls generalizing set now with
  | nil => exact hburied.wait ((List.pairwise_cons.mp hclock).1 last (by simp))
  | cons entry calls ih =>
    obtain ⟨hnext, hrest⟩ := List.pairwise_cons.mp hclock
    have hwaited := hburied.wait (hnext entry.2 (by simp))
    refine ih (fun other hother => hcalls other (List.mem_cons_of_mem _ hother)) hrest ?_
    exact hwaited.called (hcalls entry List.mem_cons_self)

theorem Buried.not_mem_findProviders (hburied : set.Buried tombstone now) (hfiled : set.Filed)
    {record : ProviderRecord} (hkey : record.key = tombstone.key)
    (hprovider : record.provider = tombstone.provider) (order : IterOrder (Σ _ : NodeId, Slot))
    (key : ContentKey) (now' : UInt64) : record ∉ findProviders order set key now' := by
  intro hfound
  obtain ⟨-, provider, hslot⟩ := mem_findProviders_iff.mp hfound
  obtain ⟨rfl, rfl⟩ := hfiled _ _ _ hslot
  rw [hkey, hprovider] at hslot
  rcases hburied with hburied | ⟨hnone, -⟩
  · cases hburied.symm.trans hslot
  · cases hnone.symm.trans hslot

end ProviderRecordSet

open ProviderRecordSet

/-- A tombstone retracts a provider's records of a key: it is newer and lives as long, a consumer accepts it, and finds none of them afterwards, whatever is applied later. -/
structure ProviderWithdrawal.Effective (records : List ProviderRecord) (tombstone : ProviderWithdrawal) : Prop where
  newer : ∀ record ∈ records, record.sequence < tombstone.sequence
  outlives : ∀ record ∈ records, record.expiry ≤ tombstone.expiry
  accepted : ∀ calls received, BringOnly (records.map .provide) tombstone.key tombstone.provider calls →
    received < tombstone.expiry → ((new.callAll calls).apply (.withdraw tombstone) received).2 = .withdrawn
  superseded : ∀ calls received, BringOnly (records.map .provide) tombstone.key tombstone.provider calls →
    received < tombstone.expiry → ∀ later order key now, ∀ record ∈ records,
      record ∉ findProviders order (((new.callAll calls).apply (.withdraw tombstone) received).1.applyAll later) key now
  forgotten : ∀ calls received, BringOnly (records.map .provide) tombstone.key tombstone.provider calls →
    received < tombstone.expiry → ∀ later now,
      BringOnly (.withdraw tombstone :: records.map .provide) tombstone.key tombstone.provider later →
      (received :: later.map Prod.snd ++ [now]).Pairwise (· ≤ ·) → ∀ order key, ∀ record ∈ records,
        record ∉ findProviders order (((new.callAll calls).apply (.withdraw tombstone) received).1.callAll later) key now

namespace ProviderWithdrawal

variable {records : List ProviderRecord} {tombstone : ProviderWithdrawal} {calls : List (StoreCall × UInt64)}

variable {received : UInt64}

theorem supersedes_callAll (hnewer : ∀ record ∈ records, record.sequence < tombstone.sequence)
    (hcalls : BringOnly (records.map .provide) tombstone.key tombstone.provider calls)
    (hfresh : received < tombstone.expiry) :
    Supersedes (.withdraw tombstone) received
      ((new.callAll calls).slot? tombstone.key tombstone.provider) := by
  refine ⟨hfresh, fun slot hslot => ?_⟩
  have hholds : (new.callAll calls).HoldsOnly (records.map .provide) tombstone.key tombstone.provider :=
    holdsOnly_callAll hcalls fun _ hnone => nomatch hnone
  obtain ⟨assertion, hassertion, rfl⟩ := hholds slot hslot
  obtain ⟨record, hrecord, rfl⟩ := List.mem_map.mp hassertion
  exact hnewer record hrecord

theorem apply_callAll (hnewer : ∀ record ∈ records, record.sequence < tombstone.sequence)
    (hcalls : BringOnly (records.map .provide) tombstone.key tombstone.provider calls)
    (hfresh : received < tombstone.expiry) :
    ((new.callAll calls).apply (.withdraw tombstone) received).2 = .withdrawn := by
  obtain ⟨-, happly⟩ | ⟨hstale, -⟩ := apply_cases (new.callAll calls) (.withdraw tombstone) received
  · rw [happly]
    rfl
  · exact absurd (supersedes_callAll hnewer hcalls hfresh) hstale

theorem effective_of_newer_of_outlives
    (hown : ∀ record ∈ records, record.key = tombstone.key ∧ record.provider = tombstone.provider)
    (hnewer : ∀ record ∈ records, record.sequence < tombstone.sequence)
    (houtlives : ∀ record ∈ records, record.expiry ≤ tombstone.expiry) : tombstone.Effective records where
  newer := hnewer
  outlives := houtlives
  accepted _ _ hcalls hfresh := apply_callAll hnewer hcalls hfresh
  superseded := by
    intro calls received hcalls hfresh later order key now record hrecord hfound
    have haccepted : ((new.callAll calls).apply (.withdraw tombstone) received).2.accepted = true := by
      rw [apply_callAll hnewer hcalls hfresh]
      rfl
    obtain ⟨hkey, hprovider⟩ := hown record hrecord
    have hlt := (newer_of_found (filed_callAll calls filed_new) haccepted hfound hkey hprovider).2 rfl
    exact UInt64.lt_asymm hlt (hnewer record hrecord)
  forgotten := by
    intro calls received hcalls hfresh later now hlater hclock order key record hrecord
    have haccepted : ((new.callAll calls).apply (.withdraw tombstone) received).2.accepted = true := by
      rw [apply_callAll hnewer hcalls hfresh]
      rfl
    have hburied : (((new.callAll calls).apply (.withdraw tombstone) received).1.callAll later).Buried
        tombstone now := by
      refine Buried.callAll (fun entry hentry assertion hassertion hkey hprovider => ?_) hclock
        (.inl (slot?_of_accepted haccepted))
      rcases List.mem_cons.mp (hlater entry hentry assertion hassertion hkey hprovider) with rfl | hmem
      · exact ⟨UInt64.le_refl _, UInt64.le_refl _⟩
      · obtain ⟨replayed, hreplayed, rfl⟩ := List.mem_map.mp hmem
        exact ⟨UInt64.le_of_lt (hnewer replayed hreplayed), houtlives replayed hreplayed⟩
    have hfiled := filed_callAll later
      (filed_apply (filed_callAll calls filed_new) (.withdraw tombstone) received)
    obtain ⟨hkey, hprovider⟩ := hown record hrecord
    exact hburied.not_mem_findProviders hfiled hkey hprovider order key now

end ProviderWithdrawal

end Consumer

namespace Announcer

/-- The seconds since the epoch on a clock that counts them in 64 signed bits; a time before the epoch reads as zero. -/
def unixNow (time : Int64) : UInt64 :=
  if time < 0 then 0 else UInt64.ofNat time.toInt.toNat

theorem toNat_unixNow (time : Int64) : (unixNow time).toNat = time.toInt.toNat := by
  have hbound := time.toInt_lt
  unfold unixNow
  split_ifs with hbefore
  · rw [Int64.lt_iff_toInt_lt, Int64.toInt_zero] at hbefore
    rw [UInt64.toNat_zero]
    omega
  · rw [UInt64.toNat_ofNat_of_lt']
    change time.toInt.toNat < 2 ^ 64
    omega

theorem unixNow_mono {time later : Int64} (h : time ≤ later) : unixNow time ≤ unixNow later := by
  rw [UInt64.le_iff_toNat_le, toNat_unixNow, toNat_unixNow]
  rw [Int64.le_iff_toInt_le] at h
  omega

section Sender

variable [Ed25519]

section Readings

variable {Thread : Type}

def Event.reading? : Event Thread → Option UInt64
  | .announce _ _ now | .withdraw _ _ now => some now
  | _ => none

end Readings

def recordsOf (key : ContentKey) (published : List ProviderAssertion) : List ProviderRecord :=
  published.filterMap fun
    | .provide record => if record.key = key then some record else none
    | .withdraw _ => none

variable {record : ProviderRecord} {key : ContentKey}

theorem mem_recordsOf {published : List ProviderAssertion} :
    record ∈ recordsOf key published ↔ .provide record ∈ published ∧ record.key = key := by
  rw [recordsOf, List.mem_filterMap]
  constructor
  · rintro ⟨assertion, hassertion, heq⟩
    cases assertion with
    | provide published =>
      obtain ⟨hkey, hsome⟩ := Option.ite_none_right_eq_some.mp heq
      obtain rfl := Option.some.inj hsome
      exact ⟨hassertion, hkey⟩
    | withdraw withdrawal => cases heq
  · rintro ⟨hmem, hkey⟩
    exact ⟨.provide record, hmem, if_pos hkey⟩

/-- The announcer's own record, of a lifetime that its cap allows at a reading of the clock. -/
def Capped (announcer : Announcer) (now : UInt64) (record : ProviderRecord) : Prop :=
  record.provider = announcer.nodeId ∧ record.expiry.toNat ≤ now.toNat + maxRecordTtlSecs.toNat

variable {announcer : Announcer} {now : UInt64}

theorem Capped.mono {later : UInt64} (hcapped : announcer.Capped now record) (hle : now ≤ later) :
    announcer.Capped later record := by
  rw [UInt64.le_iff_toNat_le] at hle
  exact ⟨hcapped.1, hcapped.2.trans (Nat.add_le_add_right hle _)⟩

theorem capped_of_admitAnnounce (hadmitted : announcer.admitAnnounce record now = .ok ()) :
    announcer.Capped now record := by
  simp only [admitAnnounce, Fallible.bind_eq_ok_iff, Fallible.guard_eq_ok_iff, Classical.not_not] at hadmitted
  obtain ⟨-, -, hprovider, hlive, httl, -⟩ := hadmitted
  refine ⟨hprovider, ?_⟩
  rw [UInt64.not_le, UInt64.lt_iff_toNat_lt] at hlive
  rw [UInt64.not_lt, UInt64.le_iff_toNat_le,
    UInt64.toNat_sub_of_le _ _ (UInt64.le_iff_toNat_le.mpr hlive.le)] at httl
  omega

namespace State

variable {Thread : Type}

/-- Every record under way or published is capped at the reading, and the file covers the published ones. -/
structure CappedAt (announcer : Announcer) (now : UInt64) (state : State Thread) : Prop where
  sound : state.Sound
  pending : ∀ thread record, (state.phase thread).op? = some (.provide record) → announcer.Capped now record
  published : ∀ record, .provide record ∈ state.published →
    announcer.Capped now record ∧ state.onDisk.Covers record.key record.sequence

theorem cappedAt_start (announcer : Announcer) (now : UInt64) (disk : Option (List Char)) :
    (start disk [] : State Thread).CappedAt announcer now where
  sound := sound_start disk []
  pending _ _ hop := nomatch hop
  published _ hmem := nomatch hmem

variable {state : State Thread}

theorem mem_publish {op other : ProviderAssertion} {landed : Bool}
    (hmem : other ∈ (state.publish op landed).published) : other = op ∨ other ∈ state.published := by
  cases landed with
  | true => exact List.mem_cons.mp hmem
  | false => exact .inr hmem

theorem publish_phase (state : State Thread) (op : ProviderAssertion) (landed : Bool) :
    (state.publish op landed).phase = state.phase := by
  cases landed <;> rfl

variable [DecidableEq Thread] {announcer : Announcer} {now : UInt64} {next : State Thread}

section

variable (hcapped : state.CappedAt announcer now)

include hcapped

theorem CappedAt.pending_enter {thread : Thread} {phase : Phase}
    (hnext : next.phase = Function.update state.phase thread phase)
    (hphase : ∀ record, phase.op? = some (.provide record) → announcer.Capped now record) (other : Thread)
    (record : ProviderRecord) (hop : (next.phase other).op? = some (.provide record)) :
    announcer.Capped now record := by
  rw [hnext] at hop
  by_cases hother : other = thread
  · subst hother
    rw [Function.update_self] at hop
    exact hphase record hop
  · rw [Function.update_of_ne hother] at hop
    exact hcapped.pending other record hop

variable {event : Event Thread}

theorem CappedAt.pending_moves (hmoves : Moves announcer state event next)
    (hreading : ∀ reading ∈ event.reading?, reading ≤ now) (thread : Thread) (record : ProviderRecord)
    (hop : (next.phase thread).op? = some (.provide record)) : announcer.Capped now record := by
  have hkept {moved : Thread} {op : ProviderAssertion} (hbefore : (state.phase moved).op? = some op)
      (kept : ProviderRecord) (hkept : some op = some (.provide kept)) : announcer.Capped now kept :=
    hcapped.pending moved kept (hbefore.trans hkept)
  cases hmoves with
  | stay => exact hcapped.pending thread record hop
  | announce hfree hadmitted =>
    refine hcapped.pending_enter rfl (fun record hrecord => ?_) thread record hop
    cases hrecord
    exact (capped_of_admitAnnounce hadmitted).mono (hreading _ rfl)
  | withdraw hfree hadmitted | settle _ hquiet result =>
    refine hcapped.pending_enter rfl (fun record hrecord => ?_) thread record hop
    cases hrecord
  | advance hphase | lock hphase hlock | snapshot hphase order | write hphase reply | provide hphase =>
    refine hcapped.pending_enter rfl ?_ thread record hop
    exact hkept (by rw [hphase]; rfl)
  | @release moved op saved hphase =>
    refine hcapped.pending_enter rfl (fun record hrecord => ?_) thread record hop
    have hbefore : (state.phase moved).op? = some op := by rw [hphase]; rfl
    cases op with
    | provide kept =>
      cases saved with
      | ok done => exact hkept hbefore record hrecord
      | error why => cases hrecord
    | withdraw withdrawal => cases hrecord
  | @put moved op hphase reply =>
    refine hcapped.pending_enter (congrArg (Function.update · moved _) (publish_phase ..)) (fun record hrecord => ?_)
      thread record hop
    cases op <;> cases reply <;> cases hrecord
  | expire hphase landed =>
    refine hcapped.pending_enter (congrArg (Function.update · _ _) (publish_phase ..)) (fun record hrecord => ?_)
      thread record hop
    cases hrecord
  | crash => cases hop

theorem CappedAt.published_moves (hmoves : Moves announcer state event next) {record : ProviderRecord}
    (hmem : .provide record ∈ next.published) :
    announcer.Capped now record ∧ state.onDisk.Covers record.key record.sequence := by
  have hput {thread : Thread} (hphase : state.phase thread = .putting (.provide record)) :
      announcer.Capped now record ∧ state.onDisk.Covers record.key record.sequence := by
    have hrelies := hcapped.sound.relies thread
    rw [hphase] at hrelies
    exact ⟨hcapped.pending thread record (by rw [hphase]; rfl), hrelies⟩
  cases hmoves with
  | put hphase reply =>
    rcases mem_publish hmem with rfl | hmem
    · exact hput hphase
    · exact hcapped.published record hmem
  | expire hphase landed =>
    rcases mem_publish hmem with heq | hmem
    · cases heq
      exact hput hphase
    · exact hcapped.published record hmem
  | _ => exact hcapped.published record hmem

theorem CappedAt.moves (hmoves : Moves announcer state event next)
    (hreading : ∀ reading ∈ event.reading?, reading ≤ now) : next.CappedAt announcer now := by
  obtain ⟨hsound, hbelow⟩ := hcapped.sound.moves hmoves
  refine ⟨hsound, hcapped.pending_moves hmoves hreading, fun record hmem => ?_⟩
  obtain ⟨hrecord, hcovers⟩ := hcapped.published_moves hmoves hmem
  exact ⟨hrecord, hbelow _ _ hcovers⟩

end

theorem CappedAt.run {events : List (Event Thread)}
    (hreadings : ∀ event ∈ events, ∀ reading ∈ event.reading?, reading ≤ now) (file : Option (List Char)) :
    (events.foldl (step announcer) (start file [])).CappedAt announcer now := by
  refine List.foldlRecOn events (step announcer) (motive := fun state => state.CappedAt announcer now)
    (cappedAt_start announcer now file) ?_
  intro state hcapped event hevent
  exact hcapped.moves (step_moves announcer state event) (hreadings event hevent)

end State

/-- A tombstone names the announcer's node and lives at least for the cap on a record's lifetime. -/
theorem admitWithdraw_lifetime {floor : SeqFloor} {tombstone : ProviderWithdrawal}
    (h : announcer.admitWithdraw floor key now = .ok tombstone) :
    tombstone.provider = announcer.nodeId ∧ now + minTombstoneTtlSecs ≤ tombstone.expiry := by
  unfold admitWithdraw at h
  split at h
  · cases h
  simp only [Fallible.bind_eq_ok_iff, Fallible.pure_eq_ok_iff] at h
  obtain ⟨-, -, -, -, rfl⟩ := h
  refine ⟨announcer.selfServe, ?_⟩
  change now + minTombstoneTtlSecs ≤ if _ ≤ now + minTombstoneTtlSecs then now + minTombstoneTtlSecs else _
  split_ifs with hle
  · exact UInt64.le_refl _
  · exact UInt64.le_of_lt (UInt64.not_le.mp hle)

/-- On a clock of 63 bits what is capped at a reading does not outlive a tombstone minted at it. -/
theorem Capped.expiry_le {time : Int64} (hcapped : announcer.Capped (unixNow time) record) {expiry : UInt64}
    (hexpiry : unixNow time + minTombstoneTtlSecs ≤ expiry) : record.expiry ≤ expiry := by
  have hbound := time.toInt_lt
  have hreading := toNat_unixNow time
  have hsum : (unixNow time + minTombstoneTtlSecs).toNat = (unixNow time).toNat + minTombstoneTtlSecs.toNat := by
    rw [UInt64.toNat_add, Nat.mod_eq_of_lt]
    have httl : minTombstoneTtlSecs.toNat = 86400 := rfl
    omega
  rw [UInt64.le_iff_toNat_le] at hexpiry ⊢
  rw [hsum] at hexpiry
  exact hcapped.2.trans hexpiry

/-- Under a clock that does not go back the tombstone of a withdrawal retracts all records of the key published so far, unless the last sequence was the largest number. -/
theorem withdrawal_effective {Thread : Type} [DecidableEq Thread] (announcer : Announcer)
    (file : Option (List Char)) (events : List (Event Thread)) (key : ContentKey) (times : List Int64) (time : Int64)
    (tombstone : ProviderWithdrawal) (hforward : (times ++ [time]).Pairwise (· ≤ ·))
    (hreadings : events.filterMap Event.reading? = times.map unixNow)
    (hminted : announcer.admitWithdraw (events.foldl (State.step announcer) (State.start file [])).floor key
      (unixNow time) = .ok tombstone) :
    let reached := events.foldl (State.step announcer) (State.start file [])
    tombstone.Effective (recordsOf key reached.published) ↔
      recordsOf key reached.published = [] ∨ ¬reached.floor.Covers key u64Max := by
  intro reached
  have hearlier : ∀ event ∈ events, ∀ reading ∈ event.reading?, reading ≤ unixNow time := by
    intro event hevent reading hreading
    have hmem : reading ∈ times.map unixNow := hreadings ▸ List.mem_filterMap.mpr ⟨event, hevent, hreading⟩
    obtain ⟨earlier, hearlier, rfl⟩ := List.mem_map.mp hmem
    exact unixNow_mono ((List.pairwise_append.mp hforward).2.2 earlier hearlier time List.mem_cons_self)
  have hcapped : reached.CappedAt announcer (unixNow time) := State.CappedAt.run hearlier file
  obtain ⟨hkey, hsequence⟩ := State.admitWithdraw_ok hminted
  obtain ⟨hprovider, hlifetime⟩ := admitWithdraw_lifetime hminted
  have hown : ∀ record ∈ recordsOf key reached.published,
      record.key = tombstone.key ∧ record.provider = tombstone.provider := by
    intro record hrecord
    obtain ⟨hmem, hrecordKey⟩ := mem_recordsOf.mp hrecord
    exact ⟨hrecordKey.trans hkey.symm, (hcapped.published record hmem).1.1.trans hprovider.symm⟩
  have houtlives : ∀ record ∈ recordsOf key reached.published, record.expiry ≤ tombstone.expiry := by
    intro record hrecord
    exact (hcapped.published record (mem_recordsOf.mp hrecord).1).1.expiry_le hlifetime
  constructor
  · intro heffective
    refine or_iff_not_imp_left.mpr fun hsome hcovers => ?_
    obtain ⟨record, hrecord⟩ := List.exists_mem_of_ne_nil _ hsome
    have hnewer := heffective.newer record hrecord
    rw [hsequence, nextSequence_of_covers_max hcovers] at hnewer
    exact UInt64.not_lt_zero hnewer
  · intro hroom
    refine ProviderWithdrawal.effective_of_newer_of_outlives hown (fun record hrecord => ?_) houtlives
    rw [hsequence]
    rcases hroom with hnone | hroom
    · rw [hnone] at hrecord
      cases hrecord
    obtain ⟨hmem, rfl⟩ := mem_recordsOf.mp hrecord
    have hcovers := hcapped.sound.below _ _ (hcapped.published record hmem).2
    exact SeqFloor.lt_nextSequence hcovers hroom

end Sender

section Golden

attribute [local instance] goldenScheme

theorem withdrawal_effective_golden :
    let reached := goldenAnnouncement.foldl (State.step goldenAnnouncer) (State.start goldenFile [])
    recordsOf goldenKey reached.published = [goldenHolder] ∧
      (goldenTombstone 23 laterTombstoneSignature).Effective [goldenHolder] := by
  intro reached
  have hrecords : recordsOf goldenKey reached.published = [goldenHolder] := by decide +kernel
  have hminted : goldenAnnouncer.admitWithdraw reached.floor goldenKey (unixNow 200) =
      .ok (goldenTombstone 23 laterTombstoneSignature) := by decide +kernel
  have hroom : ¬reached.floor.Covers goldenKey u64Max := by
    rintro ⟨last, hlookup, hle⟩
    have hlast : reached.floor.lookup goldenKey = some ⟨22, 1000⟩ := by decide +kernel
    obtain rfl := Option.some.inj (hlast.symm.trans hlookup)
    exact absurd hle (by decide)
  refine ⟨hrecords, hrecords ▸ ?_⟩
  exact (withdrawal_effective goldenAnnouncer goldenFile goldenAnnouncement goldenKey [100] 200 _ (by decide) rfl
    hminted).mpr (.inr hroom)

end Golden

section Wrap

@[reducible] def trustingScheme : Ed25519 where
  VerifyingKey := NodeId
  fromBytes bytes := some ⟨bytes⟩
  isWeak _ := false
  verifyStrict _ _ _ := true

attribute [local instance] trustingScheme

def trustedAnnouncer : Announcer where
  signingKey := ⟨goldenProvider.bytes, fun _ => goldenSignature⟩
  nodeId := goldenProvider
  eligibility _ := .ok ()
  selfServe := rfl

def lastRecord : ProviderRecord :=
  ⟨goldenKey, goldenContent, goldenProvider, [.libp2p goldenProvider .empty], u64Max, 100, 1000, goldenSignature⟩

def wrappedTombstone : ProviderWithdrawal := ⟨goldenKey, goldenProvider, 0, 200, 86600, goldenSignature⟩

def lastAnnouncement : List (Event Bool) :=
  [.announce false lastRecord 100, .step false, .step false, .snapshot false (IterOrder.id _),
   .reply false .ok, .step false, .reply false .ok, .reply false .ok]

open ProviderRecordSet in
/-- After the largest sequence the tombstone has sequence zero, and a consumer that holds the record refuses it. -/
theorem withdrawal_sequence_wraps :
    let reached := lastAnnouncement.foldl (State.step trustedAnnouncer) (State.start none [])
    let consumer := new.callAll [(.apply (.provide lastRecord), 150)]
    reached.published = [.provide lastRecord] ∧
      trustedAnnouncer.admitWithdraw reached.floor goldenKey (unixNow 200) = .ok wrappedTombstone ∧
      (consumer.apply (.withdraw wrappedTombstone) 250).2 = .rejectedStale u64Max 0 ∧
      lastRecord ∈ findProviders (IterOrder.id _) (consumer.apply (.withdraw wrappedTombstone) 250).1 goldenKey 300 := by
  exact ⟨by decide +kernel, by decide +kernel, by decide +kernel, by decide +kernel⟩

end Wrap

end Announcer

end NixP2p
