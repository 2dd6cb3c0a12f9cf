import NixP2p.Base.Tumbling
import NixP2p.Derivation.Ledger

/-!
# The rate of derivation

The meter for all peers and the one of each peer obey the same rules, so the results here speak of a `DeriveMeter`. The totals of its window are the exact sums of what was admitted since it opened, even where the sweep has removed an expired one.
-/

namespace NixP2p

open Checked HashTable Tumbling

/-- What a charge is counted on: the whole responder, or one peer. -/
inductive DeriveMeter where
  | global
  | peer (node : NodeId)

namespace DeriveMeter

def counts : DeriveMeter → DeriveCall → Bool
  | .global, _ => true
  | .peer node, call => node = call.peer

def maxBytes (budget : DeriveBudget) : DeriveMeter → UInt64
  | .global => budget.maxBytesGlobalUncompressedNar
  | .peer _ => budget.maxBytesPerPeerUncompressedNar

def maxDumps (budget : DeriveBudget) : DeriveMeter → UInt32
  | .global => budget.maxDumpsGlobal
  | .peer _ => budget.maxDumpsPerPeer

theorem counts_peer {node : NodeId} {call : DeriveCall} :
    (DeriveMeter.peer node).counts call = true ↔ node = call.peer :=
  decide_eq_true_iff

def history (meter : DeriveMeter) (admitted : List DeriveCall) : List DeriveCall :=
  admitted.filter meter.counts

end DeriveMeter

def LedgerState.window? (state : LedgerState) : DeriveMeter → Option DeriveWindow
  | .global => state.global
  | .peer node => state.perPeer.lookup node

/-- The window a call is held against: the one in the ledger, or an empty one where there is none or it has expired. -/
def LedgerState.windowAt (state : LedgerState) (meter : DeriveMeter) (now windowMillis : Nat) :
    DeriveWindow :=
  ((state.window? meter).getD (.openedAt now)).rollIfExpired now windowMillis

/-- A meter has room for a call, in unbounded arithmetic. -/
def DeriveWindow.Room (window : DeriveWindow) (maxBytes : UInt64) (maxDumps : UInt32)
    (call : DeriveCall) : Prop :=
  window.bytes.toNat + call.bytes.toNat ≤ maxBytes.toNat ∧
    window.dumps.toNat + call.dumps.toNat ≤ maxDumps.toNat

def DeriveWindow.charged (window : DeriveWindow) (call : DeriveCall) : DeriveWindow :=
  { window with bytes := window.bytes + call.bytes, dumps := window.dumps + call.dumps }

/-! ### One call -/

theorem bytesWithin_eq (held added cap : UInt64) :
    bytesWithin held added cap =
      if held.toNat + added.toNat ≤ cap.toNat then some (held + added) else none := by
  simp only [bytesWithin, addU64, UInt64.le_iff_toNat_le]
  exact filter_within UInt64.toNat cap.toNat_lt fun hexact => by
    rw [UInt64.toNat_add, Nat.mod_eq_of_lt hexact]

theorem dumpsWithin_eq (held added cap : UInt32) :
    dumpsWithin held added cap =
      if held.toNat + added.toNat ≤ cap.toNat then some (held + added) else none := by
  simp only [dumpsWithin, addU32, UInt32.le_iff_toNat_le]
  exact filter_within UInt32.toNat cap.toNat_lt fun hexact => by
    rw [UInt32.toNat_add, Nat.mod_eq_of_lt hexact]

variable {call : DeriveCall}

theorem DeriveWindow.Room.charged {window : DeriveWindow} {maxBytes : UInt64} {maxDumps : UInt32}
    (h : window.Room maxBytes maxDumps call) :
    (window.charged call).bytes.toNat = window.bytes.toNat + call.bytes.toNat ∧
      (window.charged call).dumps.toNat = window.dumps.toNat + call.dumps.toNat := by
  have hbytes := maxBytes.toNat_lt
  have hdumps := maxDumps.toNat_lt
  constructor
  · change (window.bytes + call.bytes).toNat = _
    rw [UInt64.toNat_add, Nat.mod_eq_of_lt (Nat.lt_of_le_of_lt h.1 hbytes)]
  · change (window.dumps + call.dumps).toNat = _
    rw [UInt32.toNat_add, Nat.mod_eq_of_lt (Nat.lt_of_le_of_lt h.2 hdumps)]

section Step

variable (ledger : PeerDeriveLedger) (state : LedgerState) (call : DeriveCall) (windowMillis : Nat)

def PeerDeriveLedger.Room : Prop :=
  ∀ meter : DeriveMeter, meter.counts call = true →
    (state.windowAt meter call.now windowMillis).Room (meter.maxBytes ledger.budget)
      (meter.maxDumps ledger.budget) call

theorem PeerDeriveLedger.room_iff :
    ledger.Room state call windowMillis ↔
      (state.windowAt .global call.now windowMillis).Room ledger.budget.maxBytesGlobalUncompressedNar
        ledger.budget.maxDumpsGlobal call ∧
      (state.windowAt (.peer call.peer) call.now windowMillis).Room
        ledger.budget.maxBytesPerPeerUncompressedNar ledger.budget.maxDumpsPerPeer call := by
  constructor
  · intro h
    exact ⟨h .global rfl, h (.peer call.peer) (DeriveMeter.counts_peer.mpr rfl)⟩
  · rintro ⟨hglobal, hpeer⟩ meter hcounts
    cases meter with
    | global => exact hglobal
    | peer node =>
      obtain rfl := DeriveMeter.counts_peer.mp hcounts
      exact hpeer

/-- What a charge does: with room on both meters it is entered on both, and otherwise only the global window is rolled. -/
theorem PeerDeriveLedger.chargeLocked_cases :
    (ledger.Room state call windowMillis ∧
      ledger.chargeLocked state windowMillis call =
        ({ global := some ((state.windowAt .global call.now windowMillis).charged call)
           perPeer := state.perPeer.insert call.peer
            ((state.windowAt (.peer call.peer) call.now windowMillis).charged call) }, .ok ())) ∨
    (¬ledger.Room state call windowMillis ∧
      ∃ reason, reason ≠ .admitted ∧
        ledger.chargeLocked state windowMillis call =
          ({ state with global := some (state.windowAt .global call.now windowMillis) },
            .error reason)) := by
  have hglobal : (state.global.getD (.openedAt call.now)).rollIfExpired call.now windowMillis =
      state.windowAt .global call.now windowMillis := rfl
  have hpeer : ((state.perPeer.lookup call.peer).getD (.openedAt call.now)).rollIfExpired call.now
      windowMillis = state.windowAt (.peer call.peer) call.now windowMillis := rfl
  rw [PeerDeriveLedger.room_iff]
  simp only [PeerDeriveLedger.chargeLocked, hglobal, hpeer, bytesWithin_eq, dumpsWithin_eq]
  by_cases hgb : (state.windowAt .global call.now windowMillis).bytes.toNat + call.bytes.toNat ≤
      ledger.budget.maxBytesGlobalUncompressedNar.toNat
  · by_cases hgd : (state.windowAt .global call.now windowMillis).dumps.toNat + call.dumps.toNat ≤
        ledger.budget.maxDumpsGlobal.toNat
    · by_cases hpb : (state.windowAt (.peer call.peer) call.now windowMillis).bytes.toNat +
          call.bytes.toNat ≤ ledger.budget.maxBytesPerPeerUncompressedNar.toNat
      · by_cases hpd : (state.windowAt (.peer call.peer) call.now windowMillis).dumps.toNat +
            call.dumps.toNat ≤ ledger.budget.maxDumpsPerPeer.toNat
        · refine .inl ⟨⟨⟨hgb, hgd⟩, hpb, hpd⟩, ?_⟩
          simp only [if_pos hgb, if_pos hgd, if_pos hpb, if_pos hpd, DeriveWindow.charged]
        · refine .inr ⟨fun h => hpd h.2.2, .refusedPerPeer, by decide, ?_⟩
          simp only [if_pos hgb, if_pos hgd, if_pos hpb, if_neg hpd]
      · refine .inr ⟨fun h => hpb h.2.1, .refusedPerPeer, by decide, ?_⟩
        simp only [if_pos hgb, if_pos hgd, if_neg hpb]
    · refine .inr ⟨fun h => hgd h.1.2, .refusedGlobal, by decide, ?_⟩
      simp only [if_pos hgb, if_neg hgd]
  · refine .inr ⟨fun h => hgb h.1.1, .refusedGlobal, by decide, ?_⟩
    simp only [if_neg hgb]

end Step

theorem LedgerState.window?_evictExpired (state : LedgerState) (now windowMillis : Nat)
    (meter : DeriveMeter) :
    (state.evictExpired now windowMillis).window? meter = state.window? meter ∨
      (state.evictExpired now windowMillis).window? meter = none ∧
        ∃ window, state.window? meter = some window ∧
          windowExpired window.startMillis now windowMillis = true := by
  unfold evictExpired
  split
  · exact .inl rfl
  cases meter with
  | global => exact .inl rfl
  | peer node =>
    change (retain _ state.perPeer).lookup node = state.perPeer.lookup node ∨
      (retain _ state.perPeer).lookup node = none ∧ ∃ window, state.perPeer.lookup node = some window ∧ _
    rw [lookup_retain]
    cases hwindow : state.perPeer.lookup node with
    | none => exact .inl rfl
    | some window =>
      by_cases hlive : now - window.startMillis < windowMillis
      · exact .inl (by rw [Option.filter_some, if_pos (decide_eq_true hlive)])
      · refine .inr ⟨by rw [Option.filter_some, if_neg (by simpa using hlive)], window, rfl, ?_⟩
        exact decide_eq_true (Nat.not_lt.mp hlive)

theorem DeriveWindow.rollIfExpired_openedAt (now windowMillis : Nat) :
    (DeriveWindow.openedAt now).rollIfExpired now windowMillis = .openedAt now := by
  unfold rollIfExpired
  split <;> rfl

theorem DeriveWindow.rollIfExpired_idem (window : DeriveWindow) (now windowMillis : Nat) :
    (window.rollIfExpired now windowMillis).rollIfExpired now windowMillis =
      window.rollIfExpired now windowMillis := by
  by_cases hexpired : windowExpired window.startMillis now windowMillis = true
  · have hrolled : window.rollIfExpired now windowMillis = .openedAt now := if_pos hexpired
    rw [hrolled, rollIfExpired_openedAt]
  · have hkept : window.rollIfExpired now windowMillis = window := if_neg hexpired
    rw [hkept, hkept]

theorem LedgerState.windowAt_evictExpired (state : LedgerState) (meter : DeriveMeter)
    (now windowMillis : Nat) :
    (state.evictExpired now windowMillis).windowAt meter now windowMillis =
      state.windowAt meter now windowMillis := by
  rcases state.window?_evictExpired now windowMillis meter with hsame | ⟨hnone, window, hwindow, hexpired⟩
  · rw [windowAt, hsame, windowAt]
  rw [windowAt, hnone, windowAt, hwindow]
  change (DeriveWindow.openedAt now).rollIfExpired now windowMillis = window.rollIfExpired now windowMillis
  rw [DeriveWindow.rollIfExpired_openedAt, DeriveWindow.rollIfExpired, if_pos hexpired]

variable {ledger : PeerDeriveLedger}

/-- What a call does to an enforcing ledger: the decision, and the window of each meter after it. -/
theorem PeerDeriveLedger.tryAdmitWork_cases (henforced : ledger.enforced = true) (call : DeriveCall) :
    ∃ state, (ledger.tryAdmitWork call).1 = { ledger with state } ∧
      ((ledger.Room ledger.state call ledger.windowMillis ∧ (ledger.tryAdmitWork call).2 = .admitted ∧
        ∀ meter : DeriveMeter, state.window? meter =
          if meter.counts call then
            some ((ledger.state.windowAt meter call.now ledger.windowMillis).charged call)
          else (ledger.state.evictExpired call.now ledger.windowMillis).window? meter) ∨
      (¬ledger.Room ledger.state call ledger.windowMillis ∧ (ledger.tryAdmitWork call).2 ≠ .admitted ∧
        state = { ledger.state.evictExpired call.now ledger.windowMillis with
          global := some (ledger.state.windowAt .global call.now ledger.windowMillis) })) := by
  have hroom : ledger.Room (ledger.state.evictExpired call.now ledger.windowMillis) call
      ledger.windowMillis ↔ ledger.Room ledger.state call ledger.windowMillis := by
    simp only [PeerDeriveLedger.Room, LedgerState.windowAt_evictExpired]
  have hcases := ledger.chargeLocked_cases
    (ledger.state.evictExpired call.now ledger.windowMillis) call ledger.windowMillis
  rw [hroom] at hcases
  simp only [LedgerState.windowAt_evictExpired] at hcases
  unfold tryAdmitWork
  rw [if_neg (by rw [henforced]; exact Bool.noConfusion)]
  rcases hcases with ⟨hfits, hcharge⟩ | ⟨hfull, reason, hreason, hcharge⟩
  · simp only [hcharge]
    refine ⟨_, rfl, .inl ⟨hfits, trivial, fun meter => ?_⟩⟩
    cases meter with
    | global => rfl
    | peer node =>
      change AList.lookup node (AList.insert call.peer _ _) = _
      rw [lookup_insert]
      by_cases hpeer : node = call.peer
      · subst hpeer
        rw [if_pos rfl, if_pos (DeriveMeter.counts_peer.mpr rfl)]
      · rw [if_neg hpeer, if_neg (mt DeriveMeter.counts_peer.mp hpeer)]
        rfl
  · simp only [hcharge]
    exact ⟨_, rfl, .inr ⟨hfull, hreason, rfl⟩⟩

/-! ### Windows account for what was admitted -/

/-- A window accounts for the bytes and the dumps of a history, under one start. -/
structure WindowTracks (length : Nat) (maxBytes : UInt64) (maxDumps : UInt32) (history : List DeriveCall)
    (now : Nat) (window : DeriveWindow) : Prop where
  bytes : Accounted DeriveCall.now (·.bytes.toNat) length maxBytes.toNat history now
    window.startMillis window.bytes.toNat
  dumps : Accounted DeriveCall.now (·.dumps.toNat) length maxDumps.toNat history now
    window.startMillis window.dumps.toNat

/-- The window a ledger holds accounts for a history; if it holds none, either nothing was charged or the last window has expired. -/
def MeterCovers (length : Nat) (maxBytes : UInt64) (maxDumps : UInt32) (history : List DeriveCall)
    (now : Nat) : Option DeriveWindow → Prop
  | some window => WindowTracks length maxBytes maxDumps history now window
  | none => history = [] ∨
    ∃ window, window.startMillis + length ≤ now ∧ WindowTracks length maxBytes maxDumps history now window

section Windows

variable {length now : Nat} {maxBytes : UInt64} {maxDumps : UInt32} {history : List DeriveCall}
  {window : DeriveWindow}

theorem WindowTracks.wait (h : WindowTracks length maxBytes maxDumps history now window) {later : Nat}
    (hlater : now ≤ later) : WindowTracks length maxBytes maxDumps history later window :=
  ⟨h.bytes.wait hlater, h.dumps.wait hlater⟩

theorem WindowTracks.roll (h : WindowTracks length maxBytes maxDumps history now window)
    (hexpired : window.startMillis + length ≤ now) :
    WindowTracks length maxBytes maxDumps history now (.openedAt now) :=
  ⟨h.bytes.roll hexpired, h.dumps.roll hexpired⟩

theorem WindowTracks.charge {call : DeriveCall}
    (h : WindowTracks length maxBytes maxDumps history call.now window)
    (hlive : call.now < window.startMillis + length) (hroom : window.Room maxBytes maxDumps call) :
    WindowTracks length maxBytes maxDumps (history ++ [call]) call.now (window.charged call) := by
  obtain ⟨hbytes, hdumps⟩ := hroom.charged
  constructor
  · rw [hbytes]
    exact h.bytes.charge rfl hlive hroom.1
  · rw [hdumps]
    exact h.dumps.charge rfl hlive hroom.2

variable {entry : Option DeriveWindow}

theorem MeterCovers.wait (h : MeterCovers length maxBytes maxDumps history now entry) {later : Nat}
    (hlater : now ≤ later) : MeterCovers length maxBytes maxDumps history later entry := by
  cases entry with
  | some window => exact WindowTracks.wait h hlater
  | none =>
    rcases h with hnil | ⟨window, hexpired, htracks⟩
    · exact .inl hnil
    · exact .inr ⟨window, hexpired.trans hlater, htracks.wait hlater⟩

theorem MeterCovers.live (h : MeterCovers length maxBytes maxDumps history now entry) (hlength : 0 < length) :
    WindowTracks length maxBytes maxDumps history now ((entry.getD (.openedAt now)).rollIfExpired now length) ∧
      now < ((entry.getD (.openedAt now)).rollIfExpired now length).startMillis + length := by
  have hopened : now < (DeriveWindow.openedAt now).startMillis + length := by
    change now < now + length
    omega
  cases entry with
  | none =>
    change WindowTracks length maxBytes maxDumps history now
        ((DeriveWindow.openedAt now).rollIfExpired now length) ∧
      now < ((DeriveWindow.openedAt now).rollIfExpired now length).startMillis + length
    rw [DeriveWindow.rollIfExpired_openedAt]
    refine ⟨?_, hopened⟩
    rcases h with rfl | ⟨window, hexpired, htracks⟩
    · exact ⟨.empty length _ now, .empty length _ now⟩
    · exact htracks.roll hexpired
  | some window =>
    change WindowTracks length maxBytes maxDumps history now (window.rollIfExpired now length) ∧
      now < (window.rollIfExpired now length).startMillis + length
    by_cases hexpired : length ≤ now - window.startMillis
    · rw [DeriveWindow.rollIfExpired, windowExpired, if_pos (decide_eq_true hexpired)]
      exact ⟨WindowTracks.roll h (by omega), hopened⟩
    · rw [DeriveWindow.rollIfExpired, windowExpired, if_neg (by simpa using hexpired)]
      exact ⟨h, by omega⟩

theorem MeterCovers.evict (h : MeterCovers length maxBytes maxDumps history now (some window))
    (hexpired : windowExpired window.startMillis now length = true) (hlength : 0 < length) :
    MeterCovers length maxBytes maxDumps history now none := by
  have : length ≤ now - window.startMillis := of_decide_eq_true hexpired
  exact .inr ⟨window, by omega, h⟩

theorem MeterCovers.burst (h : MeterCovers length maxBytes maxDumps history now entry) {lo hi : Nat}
    (hhi : hi < lo + length) :
    spent DeriveCall.now (·.bytes.toNat) (fun t => lo ≤ t ∧ t ≤ hi) history ≤ 2 * maxBytes.toNat ∧
      spent DeriveCall.now (·.dumps.toNat) (fun t => lo ≤ t ∧ t ≤ hi) history ≤ 2 * maxDumps.toNat := by
  have htracked : ∀ window, WindowTracks length maxBytes maxDumps history now window →
      spent DeriveCall.now (·.bytes.toNat) (fun t => lo ≤ t ∧ t ≤ hi) history ≤ 2 * maxBytes.toNat ∧
        spent DeriveCall.now (·.dumps.toNat) (fun t => lo ≤ t ∧ t ≤ hi) history ≤ 2 * maxDumps.toNat :=
    fun window htracks => ⟨htracks.bytes.burst lo hi hhi, htracks.dumps.burst lo hi hhi⟩
  cases entry with
  | some window => exact htracked window h
  | none =>
    rcases h with rfl | ⟨window, -, htracks⟩
    · exact ⟨Nat.zero_le _, Nat.zero_le _⟩
    · exact htracked window htracks

end Windows

/-! ### Runs -/

structure DeriveRun.Sound (start : PeerDeriveLedger) (run : DeriveRun) (now : Nat) : Prop where
  budget : run.ledger.budget = start.budget
  enforced : run.ledger.enforced = true
  covers : ∀ meter : DeriveMeter, MeterCovers start.windowMillis (meter.maxBytes start.budget)
    (meter.maxDumps start.budget) (meter.history run.admitted) now (run.ledger.state.window? meter)

theorem DeriveMeter.history_append (meter : DeriveMeter) (admitted : List DeriveCall) (call : DeriveCall) :
    meter.history (admitted ++ [call]) =
      if meter.counts call then meter.history admitted ++ [call] else meter.history admitted := by
  rw [history, List.filter_append, history]
  cases hcounts : meter.counts call <;> simp [hcounts]

variable {run : DeriveRun}

theorem DeriveRun.step_of_admitted (h : (run.ledger.tryAdmitWork call).2 = .admitted) :
    run.step call = ⟨(run.ledger.tryAdmitWork call).1, run.admitted ++ [call]⟩ := by
  have hpair : run.ledger.tryAdmitWork call = ((run.ledger.tryAdmitWork call).1, .admitted) :=
    Prod.ext rfl h
  rw [step, hpair]

theorem DeriveRun.step_of_refused (h : (run.ledger.tryAdmitWork call).2 ≠ .admitted) :
    run.step call = ⟨(run.ledger.tryAdmitWork call).1, run.admitted⟩ := by
  unfold step
  split
  · rename_i hadmitted
    rw [hadmitted] at h
    exact absurd rfl h
  · rename_i hrefused
    rw [hrefused]

theorem DeriveRun.Sound.step {start : PeerDeriveLedger} {now : Nat} (h : run.Sound start now)
    (hlength : 0 < start.windowMillis) (hnow : now ≤ call.now) : (run.step call).Sound start call.now := by
  have hwindow : run.ledger.windowMillis = start.windowMillis := by
    rw [PeerDeriveLedger.windowMillis, h.budget]
    rfl
  -- Every meter is covered at the time of the call, after the sweep too.
  have hwaited : ∀ meter : DeriveMeter, MeterCovers start.windowMillis (meter.maxBytes start.budget)
      (meter.maxDumps start.budget) (meter.history run.admitted) call.now
      (run.ledger.state.window? meter) := fun meter => (h.covers meter).wait hnow
  have hswept : ∀ meter : DeriveMeter, MeterCovers start.windowMillis (meter.maxBytes start.budget)
      (meter.maxDumps start.budget) (meter.history run.admitted) call.now
      ((run.ledger.state.evictExpired call.now start.windowMillis).window? meter) := by
    intro meter
    rcases run.ledger.state.window?_evictExpired call.now start.windowMillis meter with
      hsame | ⟨hnone, window, hentry, hexpired⟩
    · rw [hsame]
      exact hwaited meter
    have hcovers := hwaited meter
    rw [hentry] at hcovers
    rw [hnone]
    exact hcovers.evict hexpired hlength
  obtain ⟨state, hafter, hcases⟩ := PeerDeriveLedger.tryAdmitWork_cases h.enforced call
  rw [hwindow] at hcases
  rcases hcases with ⟨hroom, hverdict, hwindows⟩ | ⟨-, hverdict, rfl⟩
  · rw [DeriveRun.step_of_admitted hverdict, hafter]
    refine ⟨h.budget, h.enforced, fun meter => ?_⟩
    change MeterCovers _ _ _ (meter.history (run.admitted ++ [call])) call.now (state.window? meter)
    rw [hwindows, DeriveMeter.history_append]
    by_cases hcounts : meter.counts call = true
    · obtain ⟨htracks, hlive⟩ := (hwaited meter).live hlength
      have hfits := hroom meter hcounts
      rw [h.budget] at hfits
      rw [if_pos hcounts, if_pos hcounts]
      exact htracks.charge hlive hfits
    · rw [if_neg hcounts, if_neg hcounts]
      exact hswept meter
  · rw [DeriveRun.step_of_refused hverdict, hafter]
    refine ⟨h.budget, h.enforced, fun meter => ?_⟩
    cases meter with
    | global => exact ((hwaited .global).live hlength).1
    | peer node => exact hswept (.peer node)

theorem PeerDeriveLedger.windowMillis_withClock_pos (budget : DeriveBudget) :
    0 < (PeerDeriveLedger.withClock budget).windowMillis := by
  change 0 < min (max budget.window.asMillisU64 minWindowMs * 1000000 / 1000000) (2 ^ 64 - 1)
  rw [Nat.mul_div_cancel _ (by omega)]
  have : 0 < minWindowMs := by decide
  omega

theorem DeriveRun.sound_ofCalls (budget : DeriveBudget) {calls : List DeriveCall}
    (hclock : calls.Pairwise (·.now ≤ ·.now)) :
    ∃ now, (DeriveRun.ofCalls budget calls).Sound (.withClock budget) now := by
  have hlength := PeerDeriveLedger.windowMillis_withClock_pos budget
  have hrun : ∀ (run : DeriveRun) (now : Nat), run.Sound (.withClock budget) now →
      (∀ call ∈ calls, now ≤ call.now) →
        ∃ last, (calls.foldl DeriveRun.step run).Sound (.withClock budget) last := by
    induction calls with
    | nil => exact fun run now hsound _ => ⟨now, hsound⟩
    | cons call calls ih =>
      intro run now hsound hlater
      obtain ⟨hfirst, hrest⟩ := List.pairwise_cons.mp hclock
      exact ih hrest (run.step call) call.now (hsound.step hlength (hlater call List.mem_cons_self))
        hfirst
  refine hrun _ 0 ⟨rfl, rfl, fun meter => ?_⟩ fun _ _ => Nat.zero_le _
  cases meter with
  | global => exact .inl rfl
  | peer node => exact .inl rfl

theorem PeerDeriveLedger.admitted_iff_room (henforced : ledger.enforced = true) :
    (ledger.tryAdmitWork call).2 = .admitted ↔ ledger.Room ledger.state call ledger.windowMillis := by
  obtain ⟨state, -, hcases⟩ := PeerDeriveLedger.tryAdmitWork_cases henforced call
  rcases hcases with ⟨hfits, hadmitted, -⟩ | ⟨hfull, hrefused, -⟩
  · exact ⟨fun _ => hfits, fun _ => hadmitted⟩
  · exact ⟨fun h => absurd h hrefused, fun h => absurd h hfull⟩

/-- A refused call leaves every window that has not expired and all totals in force, and adds no peer. -/
theorem PeerDeriveLedger.refused_unchanged (henforced : ledger.enforced = true)
    (hrefused : (ledger.tryAdmitWork call).2 ≠ .admitted) :
    (∀ meter window, ledger.state.window? meter = some window →
      windowExpired window.startMillis call.now ledger.windowMillis = false →
        (ledger.tryAdmitWork call).1.state.window? meter = some window) ∧
    (∀ meter, (ledger.tryAdmitWork call).1.state.windowAt meter call.now ledger.windowMillis =
      ledger.state.windowAt meter call.now ledger.windowMillis) ∧
    ∀ peer window, (ledger.tryAdmitWork call).1.state.perPeer.lookup peer = some window →
      ledger.state.perPeer.lookup peer = some window := by
  obtain ⟨state, hafter, hcases⟩ := PeerDeriveLedger.tryAdmitWork_cases henforced call
  rcases hcases with ⟨-, hadmitted, -⟩ | ⟨-, -, rfl⟩
  · exact absurd hadmitted hrefused
  rw [hafter]
  refine ⟨fun meter window hwindow hlive => ?_, fun meter => ?_, fun peer window hwindow => ?_⟩
  · cases meter with
    | global =>
      change some ((Option.getD (ledger.state.window? .global) _).rollIfExpired call.now _) = some window
      rw [hwindow, Option.getD_some, DeriveWindow.rollIfExpired, if_neg (by rw [hlive]; exact Bool.noConfusion)]
    | peer node =>
      rcases ledger.state.window?_evictExpired call.now ledger.windowMillis (.peer node) with
        hsame | ⟨-, other, hother, hexpired⟩
      · exact hsame.trans hwindow
      obtain rfl := Option.some.inj (hother.symm.trans hwindow)
      rw [hlive] at hexpired
      cases hexpired
  · cases meter with
    | global => exact DeriveWindow.rollIfExpired_idem _ call.now ledger.windowMillis
    | peer node => exact ledger.state.windowAt_evictExpired (.peer node) call.now ledger.windowMillis
  · rcases ledger.state.window?_evictExpired call.now ledger.windowMillis (.peer peer) with
      hsame | ⟨hnone, -⟩
    · exact hsame.symm.trans hwindow
    · exact absurd (hnone.symm.trans hwindow) (by simp)

/-- The derivation rate bound: every window in force holds what was admitted since it opened, within the caps; an interval shorter than a window admits at most twice the caps; a call is admitted exactly if the sums are within all four caps, and a refused one changes no total. -/
theorem derivation_rate_bounded (budget : DeriveBudget) {calls : List DeriveCall}
    (hclock : calls.Pairwise (·.now ≤ ·.now)) :
    let run := DeriveRun.ofCalls budget calls
    (∀ (meter : DeriveMeter) (window : DeriveWindow), run.ledger.state.window? meter = some window →
      (spent DeriveCall.now (·.bytes.toNat) (fun t => window.startMillis ≤ t) (meter.history run.admitted) =
          window.bytes.toNat ∧
        window.bytes.toNat ≤ (meter.maxBytes budget).toNat) ∧
      (spent DeriveCall.now (·.dumps.toNat) (fun t => window.startMillis ≤ t) (meter.history run.admitted) =
          window.dumps.toNat ∧
        window.dumps.toNat ≤ (meter.maxDumps budget).toNat)) ∧
    (∀ (meter : DeriveMeter) (lo hi : Nat), hi < lo + run.ledger.windowMillis →
      spent DeriveCall.now (·.bytes.toNat) (fun t => lo ≤ t ∧ t ≤ hi) (meter.history run.admitted) ≤
          2 * (meter.maxBytes budget).toNat ∧
        spent DeriveCall.now (·.dumps.toNat) (fun t => lo ≤ t ∧ t ≤ hi) (meter.history run.admitted) ≤
          2 * (meter.maxDumps budget).toNat) ∧
    ∀ call : DeriveCall,
      ((run.ledger.tryAdmitWork call).2 = .admitted ↔
        ∀ meter : DeriveMeter, meter.counts call = true →
          (run.ledger.state.windowAt meter call.now run.ledger.windowMillis).bytes.toNat +
              call.bytes.toNat ≤ (meter.maxBytes budget).toNat ∧
            (run.ledger.state.windowAt meter call.now run.ledger.windowMillis).dumps.toNat +
              call.dumps.toNat ≤ (meter.maxDumps budget).toNat) ∧
      ((run.ledger.tryAdmitWork call).2 ≠ .admitted →
        (∀ meter window, run.ledger.state.window? meter = some window →
          windowExpired window.startMillis call.now run.ledger.windowMillis = false →
            (run.ledger.tryAdmitWork call).1.state.window? meter = some window) ∧
        (∀ meter, (run.ledger.tryAdmitWork call).1.state.windowAt meter call.now run.ledger.windowMillis =
          run.ledger.state.windowAt meter call.now run.ledger.windowMillis) ∧
        ∀ peer window, (run.ledger.tryAdmitWork call).1.state.perPeer.lookup peer = some window →
          run.ledger.state.perPeer.lookup peer = some window) := by
  intro run
  obtain ⟨now, hsound⟩ := DeriveRun.sound_ofCalls budget hclock
  have hbytes : ∀ meter : DeriveMeter, meter.maxBytes run.ledger.budget = meter.maxBytes budget := by
    intro meter
    rw [hsound.budget]
    cases meter <;> rfl
  have hdumps : ∀ meter : DeriveMeter, meter.maxDumps run.ledger.budget = meter.maxDumps budget := by
    intro meter
    rw [hsound.budget]
    cases meter <;> rfl
  have hcovers : ∀ meter : DeriveMeter, MeterCovers run.ledger.windowMillis (meter.maxBytes budget)
      (meter.maxDumps budget) (meter.history run.admitted) now (run.ledger.state.window? meter) := by
    intro meter
    have hmeter := hsound.covers meter
    rw [← hsound.budget, hbytes, hdumps] at hmeter
    rw [PeerDeriveLedger.windowMillis, hsound.budget]
    exact hmeter
  refine ⟨fun meter window hwindow => ?_, fun meter lo hi hhi => (hcovers meter).burst hhi,
    fun call => ⟨?_, PeerDeriveLedger.refused_unchanged hsound.enforced⟩⟩
  · have htracks := hcovers meter
    rw [hwindow] at htracks
    exact ⟨⟨htracks.bytes.current, htracks.bytes.capped⟩, htracks.dumps.current, htracks.dumps.capped⟩
  · have hroom : (run.ledger.tryAdmitWork call).2 = .admitted ↔
        run.ledger.Room run.ledger.state call run.ledger.windowMillis :=
      PeerDeriveLedger.admitted_iff_room hsound.enforced
    rw [hroom]
    simp only [PeerDeriveLedger.Room, DeriveWindow.Room, hbytes, hdumps]

/-! ### A run with both boundaries -/

def deriveNode (byte : UInt8) : NodeId := ⟨⟨List.replicate 32 byte, by simp⟩⟩

/-- The widest byte caps, two dumps a peer and three in all, and a window below the floor. -/
def wideBudget : DeriveBudget where
  maxBytesPerPeerUncompressedNar := UInt64.ofNat (2 ^ 64 - 1)
  maxDumpsPerPeer := 2
  maxBytesGlobalUncompressedNar := UInt64.ofNat (2 ^ 64 - 1)
  maxDumpsGlobal := 3
  window := ⟨0⟩

/-- The second call overflows the byte total and the fourth is one dump too many; the last opens a new window. -/
def wideCalls : List DeriveCall :=
  [⟨deriveNode 1, 5, 1, 0⟩, ⟨deriveNode 2, UInt64.ofNat (2 ^ 64 - 1), 1, 0⟩, ⟨deriveNode 1, 1, 1, 999⟩,
    ⟨deriveNode 1, 1, 1, 999⟩, ⟨deriveNode 1, 1, 1, 1000⟩]

theorem derivation_rate_bounded_wide :
    (DeriveRun.ofCalls wideBudget wideCalls).admitted =
        [⟨deriveNode 1, 5, 1, 0⟩, ⟨deriveNode 1, 1, 1, 999⟩, ⟨deriveNode 1, 1, 1, 1000⟩] ∧
      spent DeriveCall.now (·.dumps.toNat) (fun t => 1 ≤ t ∧ t ≤ 1000)
        (DeriveMeter.global.history (DeriveRun.ofCalls wideBudget wideCalls).admitted) ≤ 2 * 3 := by
  have hclock : wideCalls.Pairwise (·.now ≤ ·.now) := by decide
  have hwindow : 1000 < 1 + (DeriveRun.ofCalls wideBudget wideCalls).ledger.windowMillis := by decide +kernel
  refine ⟨by decide +kernel, ?_⟩
  exact ((derivation_rate_bounded wideBudget hclock).2.1 .global 1 1000 hwindow).2

end NixP2p
