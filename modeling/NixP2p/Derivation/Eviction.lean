import Mathlib.Data.List.Induction
import NixP2p.Base.Outcomes
import NixP2p.Derivation.RateBound

/-!
# Sweeping the derivation ledger

The sweep forgets windows that have expired, together with the times at which they opened. No call can tell, since a forgotten window would have been replaced by an empty one, so ledgers that sweep at different sizes, or never, answer alike.
-/

namespace NixP2p

open HashTable Outcomes

/-- The sweep of a ledger that begins to sweep at the given number of peers, or never. -/
def LedgerState.evictAbove (threshold : Option Nat) (self : LedgerState) (now windowMillis : Nat) : LedgerState :=
  match threshold with
  | none => self
  | some size =>
    if self.perPeer.keys.length < size then self
    else { self with perPeer := retain (fun _ window => now - window.startMillis < windowMillis) self.perPeer }

def PeerDeriveLedger.tryAdmitWorkSweeping (threshold : Option Nat) (self : PeerDeriveLedger) (call : DeriveCall) :
    PeerDeriveLedger × DeriveAdmission :=
  if self.enforced = false then (self, .admitted)
  else
    let state := self.state.evictAbove threshold call.now self.windowMillis
    match self.chargeLocked state self.windowMillis call with
    | (state, .ok ()) => ({ self with state }, .admitted)
    | (state, .error reason) => ({ self with state }, reason)

theorem PeerDeriveLedger.tryAdmitWorkSweeping_sweepThreshold :
    PeerDeriveLedger.tryAdmitWorkSweeping (some evictSweepThreshold) = PeerDeriveLedger.tryAdmitWork := rfl

/-- From `now` on, a call is held against the same windows in both states. -/
def LedgerState.SameFrom (windowMillis now : Nat) (left right : LedgerState) : Prop :=
  ∀ meter later, now ≤ later → left.windowAt meter later windowMillis = right.windowAt meter later windowMillis

variable {left right : LedgerState} {meter : DeriveMeter}

theorem LedgerState.windowAt_congr (hsame : left.window? meter = right.window? meter) (now windowMillis : Nat) :
    left.windowAt meter now windowMillis = right.windowAt meter now windowMillis := by
  rw [windowAt, hsame, windowAt]

variable {window : DeriveWindow} {now windowMillis later : Nat}

theorem DeriveWindow.rollIfExpired_later (hexpired : windowExpired window.startMillis now windowMillis = true)
    (hlater : now ≤ later) : window.rollIfExpired later windowMillis = .openedAt later := by
  have hlength : windowMillis ≤ now - window.startMillis := of_decide_eq_true hexpired
  exact if_pos (decide_eq_true (by omega))

theorem LedgerState.windowAt_retain (state : LedgerState) (hlater : now ≤ later) (meter : DeriveMeter) :
    ({ state with
        perPeer := retain (fun _ window => now - window.startMillis < windowMillis) state.perPeer } :
      LedgerState).windowAt meter later windowMillis = state.windowAt meter later windowMillis := by
  cases meter with
  | global => rfl
  | peer node =>
    rw [windowAt, windowAt, window?, window?, lookup_retain]
    cases state.perPeer.lookup node with
    | none => rfl
    | some window =>
      by_cases hlive : now - window.startMillis < windowMillis
      · rw [Option.filter_some, if_pos (decide_eq_true hlive)]
      have hexpired : windowExpired window.startMillis now windowMillis = true :=
        decide_eq_true (Nat.not_lt.mp hlive)
      rw [Option.filter_some, if_neg (by simpa using hlive), Option.getD_none, Option.getD_some,
        DeriveWindow.rollIfExpired_openedAt, DeriveWindow.rollIfExpired_later hexpired hlater]

theorem LedgerState.windowAt_evictAbove (threshold : Option Nat) (state : LedgerState) (hlater : now ≤ later)
    (meter : DeriveMeter) :
    (state.evictAbove threshold now windowMillis).windowAt meter later windowMillis =
      state.windowAt meter later windowMillis := by
  cases threshold with
  | none => rfl
  | some size =>
    rw [evictAbove]
    split
    · rfl
    · exact state.windowAt_retain hlater meter

variable {ledger : PeerDeriveLedger} {call : DeriveCall}

theorem PeerDeriveLedger.chargeLocked_verdict
    (hglobal : left.windowAt .global call.now windowMillis = right.windowAt .global call.now windowMillis)
    (hpeer : left.windowAt (.peer call.peer) call.now windowMillis = right.windowAt (.peer call.peer) call.now windowMillis) :
    (ledger.chargeLocked left windowMillis call).2 = (ledger.chargeLocked right windowMillis call).2 := by
  simp only [LedgerState.windowAt, LedgerState.window?] at hglobal hpeer
  simp only [PeerDeriveLedger.chargeLocked, hglobal, hpeer]
  cases bytesWithin _ call.bytes ledger.budget.maxBytesGlobalUncompressedNar with
  | none => rfl
  | some globalBytes =>
    cases dumpsWithin _ call.dumps ledger.budget.maxDumpsGlobal with
    | none => rfl
    | some globalDumps =>
      cases bytesWithin _ call.bytes ledger.budget.maxBytesPerPeerUncompressedNar with
      | none => rfl
      | some peerBytes =>
        cases dumpsWithin _ call.dumps ledger.budget.maxDumpsPerPeer with
        | none => rfl
        | some peerDumps => rfl

theorem PeerDeriveLedger.chargeLocked_sameFrom (hsame : left.SameFrom windowMillis call.now right) :
    (ledger.chargeLocked left windowMillis call).1.SameFrom windowMillis call.now
      (ledger.chargeLocked right windowMillis call).1 := by
  have hroom : ledger.Room left call windowMillis ↔ ledger.Room right call windowMillis := by
    simp only [PeerDeriveLedger.Room, hsame _ _ (Nat.le_refl _)]
  have hglobal := hsame .global call.now (Nat.le_refl _)
  have hpeer := hsame (.peer call.peer) call.now (Nat.le_refl _)
  rcases ledger.chargeLocked_cases left call windowMillis with ⟨hfits, hleft⟩ | ⟨hfull, reason, _, hleft⟩
  · rcases ledger.chargeLocked_cases right call windowMillis with ⟨_, hright⟩ | ⟨hfull, _⟩
    swap
    · exact absurd (hroom.mp hfits) hfull
    rw [hleft, hright, hglobal, hpeer]
    intro meter later hlater
    cases meter with
    | global => rfl
    | peer node =>
      by_cases hnode : node = call.peer
      · refine LedgerState.windowAt_congr ?_ later windowMillis
        rw [LedgerState.window?, LedgerState.window?, lookup_insert, lookup_insert, if_pos hnode, if_pos hnode]
      have hkept := hsame (.peer node) later hlater
      rw [LedgerState.windowAt, LedgerState.window?] at hkept ⊢
      rw [lookup_insert, if_neg hnode, hkept]
      refine LedgerState.windowAt_congr ?_ later windowMillis
      rw [LedgerState.window?, LedgerState.window?, lookup_insert, if_neg hnode]
  · rcases ledger.chargeLocked_cases right call windowMillis with ⟨hfits, _⟩ | ⟨_, other, _, hright⟩
    · exact absurd (hroom.mpr hfits) hfull
    rw [hleft, hright, hglobal]
    intro meter later hlater
    cases meter with
    | global => rfl
    | peer node => exact hsame (.peer node) later hlater

theorem PeerDeriveLedger.tryAdmitWorkSweeping_eq (henforced : ledger.enforced = true) (threshold : Option Nat)
    (call : DeriveCall) :
    ledger.tryAdmitWorkSweeping threshold call =
      let charged := ledger.chargeLocked (ledger.state.evictAbove threshold call.now ledger.windowMillis)
        ledger.windowMillis call
      ({ ledger with state := charged.1 }, match charged.2 with | .ok () => .admitted | .error reason => reason) := by
  rw [tryAdmitWorkSweeping, if_neg (by rw [henforced]; exact Bool.noConfusion)]
  dsimp only
  split <;> rename_i hcharge <;> rw [hcharge]

/-- Two enforcing ledgers of one budget that no call from `now` on can tell apart. -/
structure PeerDeriveLedger.SameFrom (now : Nat) (left right : PeerDeriveLedger) : Prop where
  budget : left.budget = right.budget
  enforced : left.enforced = true
  enforced' : right.enforced = true
  state : left.state.SameFrom left.windowMillis now right.state

theorem PeerDeriveLedger.SameFrom.step {left right : PeerDeriveLedger} (hsame : left.SameFrom now right)
    (threshold other : Option Nat) (hnow : now ≤ call.now) :
    (left.tryAdmitWorkSweeping threshold call).2 = (right.tryAdmitWorkSweeping other call).2 ∧
      (left.tryAdmitWorkSweeping threshold call).1.SameFrom call.now (right.tryAdmitWorkSweeping other call).1 := by
  obtain ⟨budget, enforced, state⟩ := right
  obtain ⟨rfl, henforced, rfl, hstate⟩ := hsame
  have hswept : (left.state.evictAbove threshold call.now left.windowMillis).SameFrom left.windowMillis call.now
      (state.evictAbove other call.now left.windowMillis) := by
    intro meter later hlater
    rw [LedgerState.windowAt_evictAbove threshold _ hlater, LedgerState.windowAt_evictAbove other _ hlater]
    exact hstate meter later (hnow.trans hlater)
  rw [tryAdmitWorkSweeping_eq henforced, tryAdmitWorkSweeping_eq rfl]
  have hverdict : (left.chargeLocked (left.state.evictAbove threshold call.now left.windowMillis)
      left.windowMillis call).2 = (left.chargeLocked (state.evictAbove other call.now left.windowMillis)
      left.windowMillis call).2 :=
    chargeLocked_verdict (hswept .global call.now (Nat.le_refl _)) (hswept (.peer call.peer) call.now (Nat.le_refl _))
  refine ⟨?_, rfl, henforced, rfl, chargeLocked_sameFrom hswept⟩
  dsimp only
  rw [hverdict]
  rfl

/-- Each resident window opened at a call of its peer that was admitted. -/
structure DeriveRun.Opened (start : PeerDeriveLedger) (seen : List DeriveCall) (run : DeriveRun) : Prop where
  budget : run.ledger.budget = start.budget
  enforced : run.ledger.enforced = true
  admitted : run.admitted ⊆ seen
  opened : ∀ peer window, run.ledger.state.window? (.peer peer) = some window →
    ∃ call ∈ run.admitted, call.peer = peer ∧ call.now = window.startMillis

variable {state : LedgerState}

theorem LedgerState.window?_of_evictExpired
    (hwindow : (state.evictExpired now windowMillis).window? meter = some window) :
    state.window? meter = some window := by
  rcases state.window?_evictExpired now windowMillis meter with hsame | ⟨hnone, _⟩
  · exact hsame.symm.trans hwindow
  · exact absurd (hnone.symm.trans hwindow) (Option.some_ne_none _).symm

theorem LedgerState.startMillis_windowAt (state : LedgerState) (meter : DeriveMeter) (now windowMillis : Nat) :
    (∃ window, state.window? meter = some window ∧
      (state.windowAt meter now windowMillis).startMillis = window.startMillis) ∨
      (state.windowAt meter now windowMillis).startMillis = now := by
  rw [windowAt]
  cases state.window? meter with
  | none =>
    rw [Option.getD_none, DeriveWindow.rollIfExpired_openedAt]
    exact .inr rfl
  | some window =>
    rw [Option.getD_some, DeriveWindow.rollIfExpired]
    split
    · exact .inr rfl
    · exact .inl ⟨window, rfl, rfl⟩

theorem DeriveRun.Opened.step {start : PeerDeriveLedger} {seen : List DeriveCall} {run : DeriveRun}
    (hrun : run.Opened start seen) (call : DeriveCall) : (run.step call).Opened start (seen ++ [call]) := by
  obtain ⟨state, hledger, hcases⟩ := PeerDeriveLedger.tryAdmitWork_cases hrun.enforced call
  have hseen : run.admitted ⊆ seen ++ [call] := List.Subset.trans hrun.admitted (List.subset_append_left _ _)
  rcases hcases with ⟨_, hadmitted, hwindows⟩ | ⟨_, hrefused, hstate⟩
  · rw [step_of_admitted hadmitted, hledger]
    refine ⟨hrun.budget, hrun.enforced, List.append_subset.mpr ⟨hseen, by simp⟩, fun peer window hwindow => ?_⟩
    rw [hwindows] at hwindow
    split at hwindow
    · rename_i hcounts
      obtain rfl := DeriveMeter.counts_peer.mp hcounts
      obtain rfl := Option.some.inj hwindow
      rcases run.ledger.state.startMillis_windowAt (.peer call.peer) call.now run.ledger.windowMillis with
        ⟨old, hold, hstart⟩ | hstart
      · obtain ⟨first, hfirst, hpeer, hnow⟩ := hrun.opened _ _ hold
        exact ⟨first, List.mem_append_left _ hfirst, hpeer, hnow.trans hstart.symm⟩
      · exact ⟨call, List.mem_append_right _ List.mem_cons_self, rfl, hstart.symm⟩
    · obtain ⟨first, hfirst, hpeer, hnow⟩ := hrun.opened _ _ (LedgerState.window?_of_evictExpired hwindow)
      exact ⟨first, List.mem_append_left _ hfirst, hpeer, hnow⟩
  · rw [step_of_refused hrefused, hledger, hstate]
    exact ⟨hrun.budget, hrun.enforced, hseen, fun peer window hwindow =>
      hrun.opened peer window (LedgerState.window?_of_evictExpired hwindow)⟩

theorem DeriveRun.opened_ofCalls (budget : DeriveBudget) (calls : List DeriveCall) :
    (DeriveRun.ofCalls budget calls).Opened (.withClock budget) calls := by
  induction calls using List.reverseRecOn with
  | nil =>
    refine ⟨rfl, rfl, List.Subset.refl _, fun peer window hwindow => ?_⟩
    exact absurd hwindow (by simp [DeriveRun.ofCalls, PeerDeriveLedger.withClock, LedgerState.window?])
  | append_singleton calls call ih =>
    rw [ofCalls, List.foldl_append]
    exact ih.step call

theorem LedgerState.live_of_evictExpired (hsweep : evictSweepThreshold ≤ state.perPeer.keys.length)
    {peer : NodeId} (hwindow : (state.evictExpired now windowMillis).window? (.peer peer) = some window) :
    now - window.startMillis < windowMillis := by
  rw [evictExpired, if_neg (Nat.not_lt.mpr hsweep), window?, lookup_retain] at hwindow
  exact of_decide_eq_true (Option.filter_eq_some_iff.mp hwindow).2

/-- On a clock that does not go back the ledger answers every call as one that never sweeps; and the peers a sweep leaves were admitted within one window length of it. -/
theorem eviction_decision_neutral (budget : DeriveBudget) {calls : List DeriveCall}
    (hclock : calls.Pairwise (·.now ≤ ·.now)) :
    (∀ threshold, outcomes PeerDeriveLedger.tryAdmitWork (.withClock budget) calls =
      outcomes (PeerDeriveLedger.tryAdmitWorkSweeping threshold) (.withClock budget) calls) ∧
    ∀ before call after, calls = before ++ call :: after →
      let run := DeriveRun.ofCalls budget before
      evictSweepThreshold ≤ run.ledger.state.perPeer.keys.length →
      ∀ peer ∈ (run.ledger.state.evictExpired call.now run.ledger.windowMillis).perPeer.keys,
        ∃ last ∈ run.admitted, last.peer = peer ∧ last.now ≤ call.now ∧
          call.now - last.now < run.ledger.windowMillis := by
  refine ⟨fun threshold => ?_, ?_⟩
  · have hsame : PeerDeriveLedger.SameFrom 0 (.withClock budget) (.withClock budget) :=
      ⟨rfl, rfl, rfl, fun _ _ _ => rfl⟩
    rw [← PeerDeriveLedger.tryAdmitWorkSweeping_sweepThreshold]
    exact outcomes_eq_of_simulation DeriveCall.now (fun hsame hnow => hsame.step _ _ hnow) hsame
      (fun _ _ => Nat.zero_le _) hclock
  · rintro before call after rfl run hsweep peer hpeer
    have hopened := DeriveRun.opened_ofCalls budget before
    obtain ⟨window, hwindow⟩ := Option.isSome_iff_exists.mp (AList.lookup_isSome.mpr (AList.mem_keys.mp hpeer))
    have hlive := LedgerState.live_of_evictExpired hsweep hwindow
    obtain ⟨last, hlast, hname, hstart⟩ := hopened.opened peer window (LedgerState.window?_of_evictExpired hwindow)
    refine ⟨last, hlast, hname, ?_, hstart ▸ hlive⟩
    exact (List.pairwise_append.mp hclock).2.2 last (hopened.admitted hlast) call List.mem_cons_self

theorem eviction_decision_neutral_wide :
    outcomes PeerDeriveLedger.tryAdmitWork (.withClock wideBudget) wideCalls =
      outcomes (PeerDeriveLedger.tryAdmitWorkSweeping none) (.withClock wideBudget) wideCalls :=
  (eviction_decision_neutral wideBudget (by decide)).1 none

end NixP2p
