import NixP2p.Serving.ServeGate

/-!
# The accounts of the serve slots

Every atomic step keeps the two accounts: the shared counter is the number of live permits, and the in-flight bytes of a gate are what its live reservations declare. An exchange succeeds only on the value that was loaded and checked, so neither account passes its ceiling, and a guard that is dropped takes back what it added.
-/

namespace NixP2p

open Checked Holdings

namespace ServeState

def Fits (state : ServeState) : ServeThread → Prop
  | .counted _ held => ∃ max, state.serveConcurrency = some max ∧ (saturatingAddU64 held 1).toNat ≤ max.toNat
  | .planned index declared held => ∃ gate : ServeGate, state.gates[index]? = some gate ∧
    held.toNat + declared.toNat ≤ gate.budget.maxInflightBytesUncompressedNar.toNat
  | .reserved index _ => index < state.gates.length
  | _ => True

structure Accounted (state : ServeState) : Prop where
  count : state.serveInflightCounter.toNat = state.livePermits
  ceiling : ∀ max, state.serveConcurrency = some max → state.serveInflightCounter.toNat ≤ max.toNat
  idle : state.serveConcurrency = none → state.serveInflightCounter.toNat = 0
  shared : ∀ (index : Nat) (gate : ServeGate), state.gates[index]? = some gate →
    ∀ max, gate.maxConcurrentServes = some max → state.serveConcurrency = some max
  bytes : ∀ (index : Nat) (gate : ServeGate), state.gates[index]? = some gate →
    gate.inflightBytes.toNat = state.reservedBytes index ∧
      gate.inflightBytes.toNat ≤ gate.budget.maxInflightBytesUncompressedNar.toNat
  fits : ∀ thread ∈ state.threads, state.Fits thread

theorem accounted_init : init.Accounted where
  count := rfl
  ceiling := fun _ h => nomatch h
  idle := fun _ => rfl
  shared := fun _ _ h => nomatch h
  bytes := fun _ _ h => nomatch h
  fits := fun _ h => absurd h List.not_mem_nil

/-! ### Updates that leave the accounts -/

theorem getElem?_setGate (state : ServeState) (index other : Nat) (update : ServeGate → ServeGate) :
    (state.setGate index update).gates[other]? =
      (state.gates[other]?).map fun gate => if index = other then update gate else gate := by
  rw [setGate, List.getElem?_modify]
  rfl

variable {thread : ServeThread} {update : ServeGate → ServeGate}

theorem Fits.setGate {state : ServeState} (h : state.Fits thread) (index : Nat)
    (hbudget : ∀ gate, (update gate).budget = gate.budget) : (state.setGate index update).Fits thread := by
  cases thread with
  | planned other declared held =>
    obtain ⟨gate, hother, hle⟩ := h
    refine ⟨if index = other then update gate else gate, ?_, ?_⟩
    · rw [getElem?_setGate, hother]
      rfl
    · split
      · rw [hbudget]
        exact hle
      · exact hle
  | reserved other declared =>
    change other < (state.gates.modify index update).length
    rw [List.length_modify]
    exact h
  | counted => exact h
  | _ => trivial

theorem Accounted.setGate {state : ServeState} (h : state.Accounted) (index : Nat)
    (hbudget : ∀ gate, (update gate).budget = gate.budget)
    (hmax : ∀ gate, (update gate).maxConcurrentServes = gate.maxConcurrentServes)
    (hbytes : ∀ gate, (update gate).inflightBytes = gate.inflightBytes) :
    (state.setGate index update).Accounted := by
  have hgate : ∀ {other : Nat} {gate : ServeGate}, (state.setGate index update).gates[other]? = some gate →
      ∃ before, state.gates[other]? = some before ∧ gate.budget = before.budget ∧
        gate.maxConcurrentServes = before.maxConcurrentServes ∧
        gate.inflightBytes = before.inflightBytes := by
    intro other gate hgate
    rw [getElem?_setGate] at hgate
    obtain ⟨before, hbefore, rfl⟩ := Option.map_eq_some_iff.mp hgate
    refine ⟨before, hbefore, ?_⟩
    split
    · exact ⟨hbudget before, hmax before, hbytes before⟩
    · exact ⟨rfl, rfl, rfl⟩
  refine ⟨h.count, h.ceiling, h.idle, fun other gate hother max hsome => ?_, fun other gate hother => ?_,
    fun thread hthread => ?_⟩
  · obtain ⟨before, hbefore, -, hsame, -⟩ := hgate hother
    exact h.shared other before hbefore max (hsame ▸ hsome)
  · obtain ⟨before, hbefore, hceiling, -, hinflight⟩ := hgate hother
    rw [hceiling, hinflight]
    exact h.bytes other before hbefore
  · exact (h.fits thread hthread).setGate index hbudget

theorem Accounted.abort {state : ServeState} (h : state.Accounted) :
    { state with aborted := true }.Accounted :=
  ⟨h.count, h.ceiling, h.idle, h.shared, h.bytes, fun thread hthread => by
    have hfits := h.fits thread hthread
    cases thread <;> exact hfits⟩

theorem Accounted.tally {state : ServeState} (h : state.Accounted) (index : Nat)
    (update : ServeCounters → ServeCounters) : (state.tally index update).Accounted :=
  h.setGate index (fun _ => rfl) (fun _ => rfl) fun _ => rfl

/-! ### Updates of the accounts -/

variable {old new : ServeThread}

theorem Accounted.setCount {state : ServeState} (h : state.Accounted) {index : Nat}
    (hold : state.threads[index]? = some old) {counter : UInt64}
    (hcount : counter.toNat + old.permits = state.serveInflightCounter.toNat + new.permits)
    (hceiling : counter.toNat ≤ state.serveInflightCounter.toNat ∨ ∃ max, state.serveConcurrency = some max ∧ counter.toNat ≤ max.toNat)
    (hbytes : ∀ gate, new.bytes gate = old.bytes gate) (hfits : state.Fits new) :
    { state with
      serveInflightCounter := counter
      threads := state.threads.set index new }.Accounted := by
  refine ⟨?_, fun max hmax => ?_, fun hnone => ?_, h.shared, fun other gate hgate => ?_, fun thread hthread => ?_⟩
  · have htotal := total_set ServeThread.permits hold new
    have := h.count
    change counter.toNat = total ServeThread.permits (state.threads.set index new)
    unfold livePermits at this
    omega
  · obtain hle | ⟨max', hmax', hle⟩ := hceiling
    · exact hle.trans (h.ceiling max hmax)
    · obtain rfl := Option.some.inj (hmax.symm.trans hmax')
      exact hle
  · obtain hle | ⟨max, hmax, -⟩ := hceiling
    · have := h.idle hnone
      dsimp only
      omega
    · exact nomatch hnone.symm.trans hmax
  · have htotal := total_set (ServeThread.bytes other) hold new
    have := h.bytes other gate hgate
    have := hbytes other
    unfold reservedBytes at *
    dsimp only at *
    omega
  · obtain hmem | rfl := List.mem_or_eq_of_mem_set hthread
    · exact h.fits thread hmem
    · exact hfits

theorem Accounted.setThread {state : ServeState} (h : state.Accounted) {index : Nat}
    (hold : state.threads[index]? = some old) (hcount : new.permits = old.permits)
    (hbytes : ∀ gate, new.bytes gate = old.bytes gate) (hfits : state.Fits new) :
    { state with threads := state.threads.set index new }.Accounted :=
  h.setCount hold (by rw [hcount]) (.inl (Nat.le_refl _)) hbytes hfits

theorem Accounted.setBytes {state : ServeState} (h : state.Accounted) {index owner : Nat}
    (hold : state.threads[index]? = some old) {gate : ServeGate} (hgate : state.gates[owner]? = some gate)
    (hbudget : ∀ gate, (update gate).budget = gate.budget)
    (hmax : ∀ gate, (update gate).maxConcurrentServes = gate.maxConcurrentServes)
    (hvalue : (update gate).inflightBytes.toNat + old.bytes owner = gate.inflightBytes.toNat + new.bytes owner)
    (hceiling : (update gate).inflightBytes.toNat ≤ gate.budget.maxInflightBytesUncompressedNar.toNat)
    (hcount : new.permits = old.permits) (hothers : ∀ other, other ≠ owner → new.bytes other = old.bytes other)
    (hfits : state.Fits new) :
    { state.setGate owner update with threads := state.threads.set index new }.Accounted := by
  refine ⟨?_, h.ceiling, h.idle, fun other found hfound max hsome => ?_, fun other found hfound => ?_,
    fun thread hthread => ?_⟩
  · have htotal := total_set ServeThread.permits hold new
    have hbefore := h.count
    change state.serveInflightCounter.toNat = total ServeThread.permits (state.threads.set index new)
    unfold livePermits at hbefore
    omega
  · change (state.setGate owner update).gates[other]? = some found at hfound
    rw [getElem?_setGate] at hfound
    obtain ⟨before, hbefore, rfl⟩ := Option.map_eq_some_iff.mp hfound
    refine h.shared other before hbefore max ?_
    split at hsome
    · rw [← hmax]
      exact hsome
    · exact hsome
  · change (state.setGate owner update).gates[other]? = some found at hfound
    rw [getElem?_setGate] at hfound
    obtain ⟨before, hbefore, rfl⟩ := Option.map_eq_some_iff.mp hfound
    have htotal := total_set (ServeThread.bytes other) hold new
    have haccount := h.bytes other before hbefore
    change _ = total (ServeThread.bytes other) (state.threads.set index new) ∧ _
    unfold reservedBytes at haccount
    split
    · rename_i howner
      subst howner
      obtain rfl := Option.some.inj (hgate.symm.trans hbefore)
      rw [hbudget]
      exact ⟨by omega, hceiling⟩
    rename_i howner
    have := hothers other (Ne.symm howner)
    exact ⟨by omega, haccount.2⟩
  · change (state.setGate owner update).Fits thread
    obtain hmem | rfl := List.mem_or_eq_of_mem_set hthread
    · exact (h.fits thread hmem).setGate owner hbudget
    · exact hfits.setGate owner hbudget

/-! ### The steps of an admission -/

variable {state : ServeState} {index owner : Nat}

abbrev after (state : ServeState) (index : Nat) (moved : ServeState × ServeThread) : ServeState :=
  { moved.1 with threads := state.threads.set index moved.2 }

section

variable (h : state.Accounted)

include h

theorem Accounted.refuse (hold : state.threads[index]? = some old) (hcount : old.permits = 0)
    (hbytes : ∀ gate, old.bytes gate = 0) (why : ServeRefusal) (update : ServeCounters → ServeCounters) :
    (state.after index (state.tally owner update, .refused why)).Accounted :=
  (h.tally owner update).setThread hold hcount.symm (fun gate => (hbytes gate).symm) trivial

theorem Accounted.loadCount (hold : state.threads[index]? = some (.counting owner)) :
    (state.after index (state.loadCount owner)).Accounted := by
  unfold ServeState.loadCount
  split
  · exact h.setThread hold rfl (fun _ => rfl) trivial
  rename_i max hgate
  split
  · exact h.refuse hold rfl (fun _ => rfl) .full _
  rename_i hroom
  obtain ⟨gate, hfound, hmax⟩ := Option.bind_eq_some_iff.mp hgate
  refine h.setThread hold rfl (fun _ => rfl) ⟨max, h.shared owner gate hfound max hmax, ?_⟩
  exact UInt64.le_iff_toNat_le.mp (UInt64.not_lt.mp hroom)

/-- A permit is taken on the value that was checked, with fewer references held than would abort. -/
theorem Accounted.toNat_exchange (hlive : ¬ maxRefcount < state.livePermits) :
    (saturatingAddU64 state.serveInflightCounter 1).toNat = state.serveInflightCounter.toNat + 1 := by
  have := h.count
  have : maxRefcount = 2 ^ 63 - 1 := rfl
  rw [toNat_saturatingAddU64]
  exact Nat.min_eq_left (by change _ + 1 ≤ _; omega)

theorem Accounted.exchangeCount {held : UInt64} (hold : state.threads[index]? = some (.counted owner held))
    (spurious : Bool) : (state.after index (state.exchangeCount owner held spurious)).Accounted := by
  have hfits := h.fits _ (List.mem_of_getElem? hold)
  unfold ServeState.exchangeCount
  split
  · rename_i hsame
    split
    · exact h.abort.setThread hold rfl (fun _ => rfl) hfits
    rename_i hlive
    obtain ⟨rfl, -⟩ := hsame
    exact h.setCount hold (h.toNat_exchange hlive) (.inr hfits) (fun _ => rfl) trivial
  · exact h.setThread hold rfl (fun _ => rfl) trivial

theorem Accounted.one_le_counter (hold : state.threads[index]? = some (.permit owner)) :
    1 ≤ state.serveInflightCounter.toNat := by
  rw [h.count]
  exact weight_le_total ServeThread.permits (List.mem_of_getElem? hold)

theorem Accounted.dropPermit (hold : state.threads[index]? = some (.permit owner)) :
    (state.after index state.dropPermit).Accounted := by
  have hone := h.one_le_counter hold
  have hsub : (state.serveInflightCounter - 1).toNat = state.serveInflightCounter.toNat - 1 :=
    UInt64.toNat_sub_of_le _ _ (UInt64.le_iff_toNat_le.mpr hone)
  refine h.setCount hold ?_ (.inl ?_) (fun _ => rfl) trivial
  · change (state.serveInflightCounter - 1).toNat + 1 = state.serveInflightCounter.toNat + 0
    omega
  · change (state.serveInflightCounter - 1).toNat ≤ _
    omega

variable {declared : UInt64}

theorem Accounted.loadBytes (hold : state.threads[index]? = some (.planning owner declared)) :
    (state.after index (state.loadBytes owner declared)).Accounted := by
  unfold ServeState.loadBytes
  split
  · exact h.setThread hold rfl (fun _ => rfl) trivial
  rename_i gate hgate
  split
  · exact h.refuse hold rfl (fun _ => rfl) _ _
  rename_i want hwant
  split
  · exact h.refuse hold rfl (fun _ => rfl) _ _
  rename_i hroom
  refine h.setThread hold rfl (fun _ => rfl) ⟨gate, hgate, ?_⟩
  rw [← toNat_of_addU64 hwant]
  exact UInt64.le_iff_toNat_le.mp (UInt64.not_lt.mp hroom)

end

theorem toNat_add_of_le {left right limit : UInt64} (h : left.toNat + right.toNat ≤ limit.toNat) :
    (left + right).toNat = left.toNat + right.toNat := by
  have := limit.toNat_lt
  rw [UInt64.toNat_add, Nat.mod_eq_of_lt (by omega)]

theorem Accounted.exchangeBytes (h : state.Accounted) {held : UInt64}
    (hold : state.threads[index]? = some (.planned owner declared held)) (spurious : Bool) :
    (state.after index (state.exchangeBytes owner declared held spurious)).Accounted := by
  obtain ⟨gate, hgate, hroom⟩ := h.fits _ (List.mem_of_getElem? hold)
  unfold ServeState.exchangeBytes
  split
  · rename_i hsame
    rw [hgate] at hsame
    obtain rfl : gate.inflightBytes = held := Option.some.inj hsame.1
    have hadd := toNat_add_of_le hroom
    refine h.setBytes hold hgate (fun _ => rfl) (fun _ => rfl) ?_ ?_ rfl (fun other hother => ?_) ?_
    · change (gate.inflightBytes + declared).toNat + 0 = gate.inflightBytes.toNat + if owner = owner then _ else _
      rw [if_pos rfl]
      omega
    · change (gate.inflightBytes + declared).toNat ≤ _
      omega
    · exact if_neg (Ne.symm hother)
    · exact (List.getElem?_eq_some_iff.mp hgate).1
  · exact h.setThread hold rfl (fun _ => rfl) trivial

theorem Accounted.declared_le_inflight (h : state.Accounted)
    (hold : state.threads[index]? = some (.reserved owner declared)) :
    ∃ gate : ServeGate, state.gates[owner]? = some gate ∧ declared.toNat ≤ gate.inflightBytes.toNat := by
  have hmem := List.mem_of_getElem? hold
  have howner : owner < state.gates.length := h.fits _ hmem
  refine ⟨state.gates[owner], List.getElem?_eq_getElem howner, ?_⟩
  have hle := weight_le_total (ServeThread.bytes owner) hmem
  rw [(h.bytes owner _ (List.getElem?_eq_getElem howner)).1]
  refine Nat.le_trans (Nat.le_of_eq ?_) hle
  exact (if_pos rfl).symm

theorem Accounted.dropReservation (h : state.Accounted)
    (hold : state.threads[index]? = some (.reserved owner declared)) :
    (state.after index (state.dropReservation owner declared)).Accounted := by
  obtain ⟨gate, hgate, hle⟩ := h.declared_le_inflight hold
  have hsub : (gate.inflightBytes - declared).toNat = gate.inflightBytes.toNat - declared.toNat :=
    UInt64.toNat_sub_of_le _ _ (UInt64.le_iff_toNat_le.mpr hle)
  have hbefore := (h.bytes owner gate hgate).2
  refine h.setBytes hold hgate (fun _ => rfl) (fun _ => rfl) ?_ ?_ rfl (fun other hother => ?_) trivial
  · change (gate.inflightBytes - declared).toNat + (if owner = owner then _ else _) = gate.inflightBytes.toNat + 0
    rw [if_pos rfl]
    omega
  · change (gate.inflightBytes - declared).toNat ≤ _
    omega
  · exact (if_neg (Ne.symm hother)).symm

theorem Accounted.advance (h : state.Accounted) (hold : state.threads[index]? = some thread) (spurious : Bool) :
    (state.after index (state.advance spurious thread)).Accounted := by
  cases thread with
  | counting owner => exact h.loadCount hold
  | counted owner held => exact h.exchangeCount hold spurious
  | permit owner => exact h.dropPermit hold
  | planning owner declared => exact h.loadBytes hold
  | planned owner declared held => exact h.exchangeBytes hold spurious
  | reserved owner declared => exact h.dropReservation hold
  | unbounded => exact h.setThread hold rfl (fun _ => rfl) trivial
  | refused why => exact h.setThread hold rfl (fun _ => rfl) trivial
  | released => exact h.setThread hold rfl (fun _ => rfl) trivial

/-! ### Sessions and new admissions -/

theorem Accounted.setServeConcurrency (h : state.Accounted) (max : UInt64) :
    { state with serveConcurrency := some (state.serveConcurrency.getD max) }.Accounted := by
  cases hset : state.serveConcurrency with
  | some wired =>
    have hsame : { state with serveConcurrency := some wired } = state := by rw [← hset]
    rw [Option.getD_some, hsame]
    exact h
  | none =>
    have hidle := h.idle hset
    refine ⟨h.count, fun other _ => ?_, fun hnone => (nomatch hnone), fun index gate hgate other hother => ?_,
      h.bytes, fun thread hthread => ?_⟩
    · dsimp only
      omega
    · exact nomatch hset.symm.trans (h.shared index gate hgate other hother)
    · have hfits := h.fits thread hthread
      cases thread with
      | counted owner held =>
        obtain ⟨other, hother, -⟩ := hfits
        exact nomatch hset.symm.trans hother
      | planned => exact hfits
      | reserved => exact hfits
      | _ => trivial

theorem maxConcurrentServes_newGate (state : ServeState) (budget : ServeBudget) :
    (state.newGate budget).maxConcurrentServes = state.serveConcurrency := by
  unfold newGate
  split
  · exact Eq.symm ‹_›
  · exact Eq.symm ‹_›

theorem inflightBytes_newGate (state : ServeState) (budget : ServeBudget) :
    (state.newGate budget).inflightBytes = 0 := by
  unfold newGate
  split
  · rfl
  · rfl

/-- A new session starts with nothing in flight, since no reservation names it yet. -/
theorem Accounted.serve (h : state.Accounted) (budget : ServeBudget) :
    { state with gates := state.gates ++ [state.newGate budget] }.Accounted := by
  refine ⟨h.count, h.ceiling, h.idle, fun index gate hfound max hmax => ?_, fun index gate hfound => ?_,
    fun thread hthread => ?_⟩
  · obtain hbefore | ⟨-, rfl⟩ := of_getElem?_append hfound
    · exact h.shared index gate hbefore max hmax
    · exact (state.maxConcurrentServes_newGate budget).symm.trans hmax
  · obtain hbefore | ⟨rfl, rfl⟩ := of_getElem?_append hfound
    · exact h.bytes index gate hbefore
    rw [inflightBytes_newGate]
    refine ⟨?_, Nat.zero_le _⟩
    change 0 = total _ _
    rw [total_eq_zero]
    intro thread hthread
    have hfits := h.fits thread hthread
    cases thread with
    | reserved owner declared => exact if_neg (Nat.ne_of_lt hfits)
    | _ => rfl
  · have hfits := h.fits thread hthread
    cases thread with
    | planned owner declared held =>
      obtain ⟨gate, hfound, hle⟩ := hfits
      refine ⟨gate, ?_, hle⟩
      exact (List.getElem?_append_left (List.getElem?_eq_some_iff.mp hfound).1).trans hfound
    | reserved owner declared =>
      change owner < (state.gates ++ [_]).length
      rw [List.length_append]
      exact Nat.lt_add_right _ hfits
    | counted => exact hfits
    | _ => trivial

theorem Accounted.begin (h : state.Accounted) (hcount : thread.permits = 0)
    (hbytes : ∀ gate, thread.bytes gate = 0) (hfits : state.Fits thread) :
    { state with threads := state.threads ++ [thread] }.Accounted := by
  refine ⟨?_, h.ceiling, h.idle, h.shared, fun index gate hgate => ?_, fun other hother => ?_⟩
  · change _ = total _ (state.threads ++ [thread])
    rw [total_append, hcount]
    exact h.count
  · change _ = total _ (state.threads ++ [thread]) ∧ _
    rw [total_append, hbytes]
    exact h.bytes index gate hgate
  · obtain hmem | hnew := List.mem_append.mp hother
    · exact h.fits other hmem
    · rw [List.mem_singleton.mp hnew]
      exact hfits

theorem Accounted.request (h : state.Accounted) (owner : Nat) (declared : Option UInt64)
    (uploadAdmitted : Bool) :
    { (state.admitPlan owner declared uploadAdmitted).1 with
      threads := state.threads ++ [(state.admitPlan owner declared uploadAdmitted).2] }.Accounted := by
  have hrefuse : ∀ (why : ServeRefusal) (update : ServeCounters → ServeCounters),
      { state.tally owner update with threads := state.threads ++ [ServeThread.refused why] }.Accounted :=
    fun why update => (h.tally owner update).begin rfl (fun _ => rfl) trivial
  unfold admitPlan
  split
  · exact h.begin rfl (fun _ => rfl) trivial
  split
  · exact hrefuse _ _
  split
  · exact hrefuse _ _
  split
  · exact hrefuse _ _
  split
  · exact hrefuse _ _
  · exact h.begin rfl (fun _ => rfl) trivial

theorem Accounted.step (h : state.Accounted) (event : ServeEvent) : (state.step event).Accounted := by
  unfold ServeState.step
  split
  · exact h
  cases event with
  | setServeConcurrency max => exact h.setServeConcurrency max
  | serve budget => exact h.serve budget
  | stop index => exact h.setGate index (fun _ => rfl) (fun _ => rfl) fun _ => rfl
  | acceptStream index =>
    dsimp only
    split
    · exact h.begin rfl (fun _ => rfl) trivial
    · exact h
  | request index declared uploadAdmitted => exact h.request index declared uploadAdmitted
  | advance index spurious =>
    dsimp only
    split
    · exact h
    · exact h.advance ‹_› spurious

theorem accounted_run (events : List ServeEvent) : (init.run events).Accounted :=
  List.foldlRecOn events ServeState.step accounted_init fun _ h event _ => h.step event

/-! ### What leaves the counters as they were -/

def SameCounters (before after : ServeState) : Prop :=
  after.serveInflightCounter = before.serveInflightCounter ∧
    after.gates.map ServeGate.inflightBytes = before.gates.map ServeGate.inflightBytes

theorem sameCounters_tally (state : ServeState) (index : Nat) (update : ServeCounters → ServeCounters) :
    state.SameCounters (state.tally index update) := by
  refine ⟨rfl, List.ext_getElem? fun other => ?_⟩
  rw [List.getElem?_map, List.getElem?_map, tally, getElem?_setGate, Option.map_map]
  congr 1
  funext gate
  simp only [Function.comp_apply]
  split <;> rfl

theorem sameCounters_admitPlan (state : ServeState) (index : Nat) (declared : Option UInt64)
    (uploadAdmitted : Bool) : state.SameCounters (state.admitPlan index declared uploadAdmitted).1 := by
  unfold admitPlan
  split
  · exact ⟨rfl, rfl⟩
  split
  · exact sameCounters_tally state index _
  split
  · exact sameCounters_tally state index _
  split
  · exact sameCounters_tally state index _
  split
  · exact sameCounters_tally state index _
  · exact ⟨rfl, rfl⟩

end ServeState

def ServeThread.settled : ServeThread → Bool
  | .permit _ | .reserved _ _ | .released => true
  | _ => false

namespace ServeState

theorem sameCounters_advance (state : ServeState) (thread : ServeThread) (spurious : Bool)
    (h : (state.advance spurious thread).2.settled = false) :
    state.SameCounters (state.advance spurious thread).1 := by
  cases thread with
  | counting owner =>
    change state.SameCounters (state.loadCount owner).1
    unfold loadCount
    split
    · exact ⟨rfl, rfl⟩
    split
    · exact sameCounters_tally state owner _
    · exact ⟨rfl, rfl⟩
  | counted owner held =>
    change (state.exchangeCount owner held spurious).2.settled = false at h
    change state.SameCounters (state.exchangeCount owner held spurious).1
    unfold exchangeCount at h ⊢
    split at h
    · rename_i hsame
      rw [if_pos hsame]
      split at h
      · rename_i hlive
        rw [if_pos hlive]
        exact ⟨rfl, rfl⟩
      · cases h
    rename_i hsame
    rw [if_neg hsame]
    exact ⟨rfl, rfl⟩
  | planning owner declared =>
    change state.SameCounters (state.loadBytes owner declared).1
    unfold loadBytes
    split
    · exact ⟨rfl, rfl⟩
    split
    · exact sameCounters_tally state owner _
    split
    · exact sameCounters_tally state owner _
    · exact ⟨rfl, rfl⟩
  | planned owner declared held =>
    change (state.exchangeBytes owner declared held spurious).2.settled = false at h
    change state.SameCounters (state.exchangeBytes owner declared held spurious).1
    unfold exchangeBytes at h ⊢
    split at h
    · cases h
    rename_i hsame
    rw [if_neg hsame]
    exact ⟨rfl, rfl⟩
  | permit owner => cases h
  | reserved owner declared => cases h
  | unbounded => exact ⟨rfl, rfl⟩
  | refused why => exact ⟨rfl, rfl⟩
  | released => cases h

theorem sameCounters_step_request (state : ServeState) (index : Nat) (declared : Option UInt64)
    (uploadAdmitted : Bool) : state.SameCounters (state.step (.request index declared uploadAdmitted)) := by
  unfold step
  split
  · exact ⟨rfl, rfl⟩
  · exact sameCounters_admitPlan state index declared uploadAdmitted

theorem sameCounters_step_advance (state : ServeState) {index : Nat} {spurious : Bool} {thread : ServeThread}
    (hthread : (state.step (.advance index spurious)).threads[index]? = some thread)
    (h : thread.settled = false) : state.SameCounters (state.step (.advance index spurious)) := by
  unfold step at hthread ⊢
  split
  · exact ⟨rfl, rfl⟩
  rename_i hrunning
  rw [if_neg hrunning] at hthread
  dsimp only at hthread ⊢
  cases hold : state.threads[index]? with
  | none => exact ⟨rfl, rfl⟩
  | some old =>
    rw [hold] at hthread
    dsimp only at hthread ⊢
    rw [List.getElem?_set_self (List.getElem?_eq_some_iff.mp hold).1] at hthread
    obtain rfl := Option.some.inj hthread
    exact sameCounters_advance state old spurious h

end ServeState

/-- In every state the shared counter is the number of live permits, the in-flight bytes of each gate are what its reservations declare, both within their bounds, nothing wraps, and a refused admission leaves every counter. -/
theorem serve_slots_accounted (events : List ServeEvent) :
    ((ServeState.init.run events).serveInflightCounter.toNat = (ServeState.init.run events).livePermits ∧
      ∀ max, (ServeState.init.run events).serveConcurrency = some max →
        (ServeState.init.run events).serveInflightCounter ≤ max) ∧
    (∀ (index : Nat) (gate : ServeGate), (ServeState.init.run events).gates[index]? = some gate →
      gate.inflightBytes.toNat = (ServeState.init.run events).reservedBytes index ∧
        gate.inflightBytes ≤ gate.budget.maxInflightBytesUncompressedNar) ∧
    (∀ thread ∈ (ServeState.init.run events).threads,
      match thread with
      | .counted _ held => (ServeState.init.run events).serveInflightCounter = held →
        (ServeState.init.run events).livePermits ≤ maxRefcount →
          (saturatingAddU64 held 1).toNat = held.toNat + 1
      | .permit _ => 1 ≤ (ServeState.init.run events).serveInflightCounter
      | .planned _ declared held => (held + declared).toNat = held.toNat + declared.toNat
      | .reserved index declared => ∃ gate : ServeGate,
        (ServeState.init.run events).gates[index]? = some gate ∧ declared ≤ gate.inflightBytes
      | _ => True) ∧
    (∀ (index : Nat) (spurious : Bool) (thread : ServeThread),
      ((ServeState.init.run events).step (.advance index spurious)).threads[index]? = some thread →
      thread.settled = false →
      (ServeState.init.run events).SameCounters ((ServeState.init.run events).step (.advance index spurious))) ∧
    ∀ (index : Nat) (declared : Option UInt64) (uploadAdmitted : Bool),
      (ServeState.init.run events).SameCounters
        ((ServeState.init.run events).step (.request index declared uploadAdmitted)) := by
  have h := ServeState.accounted_run events
  refine ⟨⟨h.count, fun max hmax => UInt64.le_iff_toNat_le.mpr (h.ceiling max hmax)⟩,
    fun index gate hgate => ?_, fun thread hthread => ?_,
    fun index spurious thread hthread => ServeState.sameCounters_step_advance _ hthread,
    ServeState.sameCounters_step_request _⟩
  · exact ⟨(h.bytes index gate hgate).1, UInt64.le_iff_toNat_le.mpr (h.bytes index gate hgate).2⟩
  · obtain ⟨index, hindex⟩ := List.getElem?_of_mem hthread
    cases thread with
    | counted owner held =>
      rintro rfl hlive
      exact h.toNat_exchange (Nat.not_lt.mpr hlive)
    | permit owner => exact UInt64.le_iff_toNat_le.mpr (h.one_le_counter hindex)
    | planned owner declared held =>
      obtain ⟨gate, -, hroom⟩ := h.fits _ hthread
      exact ServeState.toNat_add_of_le hroom
    | reserved owner declared =>
      obtain ⟨gate, hgate, hle⟩ := h.declared_le_inflight hindex
      exact ⟨gate, hgate, UInt64.le_iff_toNat_le.mpr hle⟩
    | _ => trivial

/-- A count of one, taken on the first session, which then stops and is followed by a second. -/
def handoffEvents : List ServeEvent :=
  [.setServeConcurrency 1, .serve ⟨100, 200⟩, .acceptStream 0, .advance 0 false, .advance 0 false, .stop 0,
    .serve ⟨100, 200⟩, .acceptStream 1]

theorem serve_slots_accounted_handoff :
    ((ServeState.init.run handoffEvents).step (.advance 1 false)).threads = [.permit 0, .refused .full] ∧
      (ServeState.init.run handoffEvents).SameCounters
        ((ServeState.init.run handoffEvents).step (.advance 1 false)) :=
  ⟨by decide, (serve_slots_accounted handoffEvents).2.2.2.1 1 false (.refused .full) (by decide) rfl⟩

end NixP2p
