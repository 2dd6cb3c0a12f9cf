import NixP2p.Base.Outcomes
import NixP2p.Derivation.RateBound
import NixP2p.Serving.UploadLedger

/-!
# Reading a ledger

The operator's reads of the two ledgers open a window where there is none and roll one that has expired. A read is harmless while a window is in force, or where the next call comes at the same time or only when the window of the read has expired. Otherwise polling an idle node shifts its windows, and a burst that a ledger would refuse is admitted.
-/

namespace NixP2p

open Outcomes Tumbling HashTable

namespace UploadRateLedger

/-- A read at `now` meets a window in force, or the next call comes at `now` or one length later at the earliest. -/
def ReadHarmless (self : UploadRateLedger) (now later : Nat) : Prop :=
  (∃ window, self.state = some window ∧ now - window.startMillis < self.windowMillis) ∨
    later = now ∨ now + self.windowMillis ≤ later

/-- Two ledgers of one budget whose windows are the same to a call at `later`; a ledger that does not enforce is never written. -/
structure Alike (later : Nat) (left right : UploadRateLedger) : Prop where
  budget : left.budget = right.budget
  enforced : left.enforced = right.enforced
  unwritten : left.enforced = false → left.state = right.state
  rolled : left.rolled later = right.rolled later

theorem Alike.refl (later : Nat) (self : UploadRateLedger) : Alike later self self := ⟨rfl, rfl, fun _ => rfl, rfl⟩

variable {left right : UploadRateLedger}

theorem step_of_alike {call : UploadCall} (halike : Alike call.now left right) :
    left.step call = right.step call := by
  obtain ⟨budget, enforced, state⟩ := left
  obtain ⟨budget', enforced', state'⟩ := right
  obtain ⟨hbudget, henforced, hunwritten, hrolled⟩ := halike
  obtain rfl : budget = budget' := hbudget
  obtain rfl : enforced = enforced' := henforced
  cases enforced with
  | false =>
    obtain rfl : state = state' := hunwritten rfl
    rfl
  | true =>
    cases call with
    | ask now =>
      rw [UploadCall.now] at hrolled
      simp only [step, admitUpload, Bool.true_eq_false, if_false, hrolled]
    | charge octets now =>
      rw [UploadCall.now] at hrolled
      simp only [step, chargeWireOctets, Bool.true_eq_false, if_false, hrolled]

theorem read_of_harmless {now later : Nat} (hlater : now ≤ later) (hharmless : left.ReadHarmless now later)
    (halike : Alike later left right) : Alike later (left.windowBytesUsed now).1 right := by
  rw [windowBytesUsed]
  split
  · exact halike
  rename_i henforced
  refine ⟨halike.budget, halike.enforced, fun hidle => absurd hidle henforced, ?_⟩
  rw [← halike.rolled]
  exact inForce_writeBack (fun _ => rfl) hlater hharmless

theorem watchedOutcomes_eq_outcomes (budget : UploadBudget) {events : List (Watched UploadCall)}
    (hclock : events.Pairwise fun early late => early.time UploadCall.now ≤ late.time UploadCall.now)
    (hharmless : ReadsAllowed step (fun self now => (windowBytesUsed self now).1) UploadCall.now ReadHarmless
      (withClock budget) events) :
    watchedOutcomes step (fun self now => (windowBytesUsed self now).1) (withClock budget) events =
      outcomes step (withClock budget) (calls events) :=
  watchedOutcomes_eq Alike.refl step_of_alike read_of_harmless hclock hharmless fun _ _ => .refl _ _

end UploadRateLedger

namespace PeerDeriveLedger

/-- A read at `now` meets a global window in force, or the next call comes at `now` or one length later at the earliest. -/
def ReadHarmless (self : PeerDeriveLedger) (now later : Nat) : Prop :=
  (∃ window, self.state.global = some window ∧ now - window.startMillis < self.windowMillis) ∨
    later = now ∨ now + self.windowMillis ≤ later

/-- Two ledgers of one budget that differ in the global window at most, and not to a call at `later`. -/
structure Alike (later : Nat) (left right : PeerDeriveLedger) : Prop where
  budget : left.budget = right.budget
  enforced : left.enforced = right.enforced
  unwritten : left.enforced = false → left.state.global = right.state.global
  perPeer : left.state.perPeer = right.state.perPeer
  global : left.state.windowAt .global later left.windowMillis = right.state.windowAt .global later right.windowMillis

theorem Alike.refl (later : Nat) (self : PeerDeriveLedger) : Alike later self self :=
  ⟨rfl, rfl, fun _ => rfl, rfl, rfl⟩

theorem evictExpired_mk (perPeer : Table NodeId DeriveWindow) (now windowMillis : Nat) :
    ∃ swept, ∀ global, (⟨global, perPeer⟩ : LedgerState).evictExpired now windowMillis = ⟨global, swept⟩ := by
  by_cases hsmall : perPeer.keys.length < evictSweepThreshold
  · exact ⟨perPeer, fun global => by rw [LedgerState.evictExpired, if_pos hsmall]⟩
  · exact ⟨retain (fun _ window => now - window.startMillis < windowMillis) perPeer,
      fun global => by rw [LedgerState.evictExpired, if_neg hsmall]⟩

variable {left right : PeerDeriveLedger}

theorem tryAdmitWork_of_alike {call : DeriveCall} (halike : Alike call.now left right) :
    left.tryAdmitWork call = right.tryAdmitWork call := by
  obtain ⟨budget, enforced, ⟨global, perPeer⟩⟩ := left
  obtain ⟨budget', enforced', ⟨global', perPeer'⟩⟩ := right
  obtain ⟨hbudget, henforced, hunwritten, hperPeer, hglobal⟩ := halike
  obtain rfl : budget = budget' := hbudget
  obtain rfl : enforced = enforced' := henforced
  obtain rfl : perPeer = perPeer' := hperPeer
  cases enforced with
  | false =>
    obtain rfl : global = global' := hunwritten rfl
    rfl
  | true =>
    -- a charge reads the global window through the one in force, and writes that one back
    obtain ⟨swept, hswept⟩ := evictExpired_mk perPeer call.now budget.window.asMillisU64
    simp only [LedgerState.windowAt, LedgerState.window?, windowMillis] at hglobal
    simp only [tryAdmitWork, Bool.true_eq_false, if_false, windowMillis, hswept, chargeLocked, hglobal]

theorem read_of_harmless {now later : Nat} (hlater : now ≤ later) (hharmless : left.ReadHarmless now later)
    (halike : Alike later left right) : Alike later (left.globalBytesUsed now).1 right := by
  rw [globalBytesUsed]
  split
  · exact halike
  rename_i henforced
  refine ⟨halike.budget, halike.enforced, fun hidle => absurd hidle henforced, halike.perPeer, ?_⟩
  rw [← halike.global]
  exact inForce_writeBack (fun _ => rfl) hlater hharmless

theorem watchedOutcomes_eq_outcomes (budget : DeriveBudget) {events : List (Watched DeriveCall)}
    (hclock : events.Pairwise fun early late => early.time DeriveCall.now ≤ late.time DeriveCall.now)
    (hharmless : ReadsAllowed tryAdmitWork (fun self now => (globalBytesUsed self now).1) DeriveCall.now ReadHarmless
      (withClock budget) events) :
    watchedOutcomes tryAdmitWork (fun self now => (globalBytesUsed self now).1) (withClock budget) events =
      outcomes tryAdmitWork (withClock budget) (calls events) :=
  watchedOutcomes_eq Alike.refl tryAdmitWork_of_alike read_of_harmless hclock hharmless fun _ _ => .refl _ _

end PeerDeriveLedger

/-- On a clock that does not go back, reads of either ledger change no verdict if each of them is harmless. -/
theorem observing_changes_no_verdict (uploadBudget : UploadBudget) (uploads : List (Watched UploadCall))
    (deriveBudget : DeriveBudget) (derives : List (Watched DeriveCall)) :
    ((uploads.Pairwise fun early late => early.time UploadCall.now ≤ late.time UploadCall.now) →
      ReadsAllowed UploadRateLedger.step (fun self now => (self.windowBytesUsed now).1) UploadCall.now
        UploadRateLedger.ReadHarmless (.withClock uploadBudget) uploads →
      watchedOutcomes UploadRateLedger.step (fun self now => (self.windowBytesUsed now).1) (.withClock uploadBudget)
          uploads =
        outcomes UploadRateLedger.step (.withClock uploadBudget) (calls uploads)) ∧
    ((derives.Pairwise fun early late => early.time DeriveCall.now ≤ late.time DeriveCall.now) →
      ReadsAllowed PeerDeriveLedger.tryAdmitWork (fun self now => (self.globalBytesUsed now).1) DeriveCall.now
        PeerDeriveLedger.ReadHarmless (.withClock deriveBudget) derives →
      watchedOutcomes PeerDeriveLedger.tryAdmitWork (fun self now => (self.globalBytesUsed now).1)
          (.withClock deriveBudget) derives =
        outcomes PeerDeriveLedger.tryAdmitWork (.withClock deriveBudget) (calls derives)) :=
  ⟨UploadRateLedger.watchedOutcomes_eq_outcomes uploadBudget, PeerDeriveLedger.watchedOutcomes_eq_outcomes deriveBudget⟩

def tenOctets : UploadBudget := ⟨10, .fromMillis 1000⟩

/-- A read of the idle ledger, and two uploads of all the budget that are a tenth of a second apart. -/
def watchedUploads : List (Watched UploadCall) :=
  [.read 0, .call (.ask 900), .call (.charge 10 900), .call (.ask 1000)]

def tenBytes : DeriveBudget := ⟨10, 9, 10, 9, .fromMillis 1000⟩

def watchedDerivations : List (Watched DeriveCall) :=
  [.read 0, .call ⟨deriveNode 1, 10, 1, 900⟩, .call ⟨deriveNode 2, 10, 1, 1000⟩]

/-- A read of an idle ledger opens a window that ends early, and what would be refused is admitted. -/
theorem idle_read_shifts_window :
    watchedOutcomes UploadRateLedger.step (fun self now => (self.windowBytesUsed now).1) (.withClock tenOctets)
        watchedUploads = [some true, none, some true] ∧
    outcomes UploadRateLedger.step (.withClock tenOctets) (calls watchedUploads) = [some true, none, some false] ∧
    watchedOutcomes PeerDeriveLedger.tryAdmitWork (fun self now => (self.globalBytesUsed now).1) (.withClock tenBytes)
        watchedDerivations = [.admitted, .admitted] ∧
    outcomes PeerDeriveLedger.tryAdmitWork (.withClock tenBytes) (calls watchedDerivations) =
      [.admitted, .refusedGlobal] := by
  decide +kernel

end NixP2p
