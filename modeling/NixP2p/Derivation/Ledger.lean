import NixP2p.Base.Checked
import NixP2p.Base.HashTable
import NixP2p.Records.Ids

/-!
# The derivation ledger

The ledger bounds the work of regenerating store paths for peers: bytes and dump executions, per authenticated peer and over all peers, in tumbling windows of one length. A run is a sequence of calls, each with the time its clock reads, and a refusal too leaves a state behind.
-/

namespace NixP2p

open Checked HashTable

structure Duration where
  nanos : Nat
  deriving DecidableEq

def Duration.asMillis (duration : Duration) : Nat := duration.nanos / 1000000

def Duration.fromMillis (millis : Nat) : Duration := ⟨millis * 1000000⟩

def Duration.asMillisU64 (duration : Duration) : Nat := min duration.asMillis (2 ^ 64 - 1)

def minWindowMs : Nat := 1000

def clampWindow (window : Duration) : Duration := .fromMillis (max window.asMillisU64 minWindowMs)

def windowExpired (startMillis now windowMillis : Nat) : Bool := windowMillis ≤ now - startMillis

structure DeriveBudget where
  maxBytesPerPeerUncompressedNar : UInt64
  maxDumpsPerPeer : UInt32
  maxBytesGlobalUncompressedNar : UInt64
  maxDumpsGlobal : UInt32
  window : Duration

structure DeriveWindow where
  startMillis : Nat
  bytes : UInt64
  dumps : UInt32
  deriving DecidableEq

def DeriveWindow.openedAt (now : Nat) : DeriveWindow := ⟨now, 0, 0⟩

def DeriveWindow.rollIfExpired (self : DeriveWindow) (now windowMillis : Nat) : DeriveWindow :=
  if windowExpired self.startMillis now windowMillis then .openedAt now else self

inductive DeriveAdmission where
  | admitted
  | refusedPerPeer
  | refusedGlobal
  deriving DecidableEq

def evictSweepThreshold : Nat := 1024

structure LedgerState where
  global : Option DeriveWindow
  perPeer : Table NodeId DeriveWindow

def LedgerState.evictExpired (self : LedgerState) (now windowMillis : Nat) : LedgerState :=
  if self.perPeer.keys.length < evictSweepThreshold then self
  else
    { self with
      perPeer := retain (fun _ window => now - window.startMillis < windowMillis) self.perPeer }

def bytesWithin (held added cap : UInt64) : Option UInt64 :=
  (addU64 held added).filter fun sum => sum ≤ cap

def dumpsWithin (held added cap : UInt32) : Option UInt32 :=
  (addU32 held added).filter fun sum => sum ≤ cap

structure PeerDeriveLedger where
  budget : DeriveBudget
  enforced : Bool
  state : LedgerState

def PeerDeriveLedger.withClock (budget : DeriveBudget) : PeerDeriveLedger where
  budget := { budget with window := clampWindow budget.window }
  enforced := true
  state := { global := none, perPeer := ∅ }

def PeerDeriveLedger.windowMillis (self : PeerDeriveLedger) : Nat := self.budget.window.asMillisU64

structure DeriveCall where
  peer : NodeId
  bytes : UInt64
  dumps : UInt32
  now : Nat
  deriving DecidableEq

/-- The two global ceilings come first, so that a global refusal touches no peer's window; the peer's is written back on success only. -/
def PeerDeriveLedger.chargeLocked (self : PeerDeriveLedger) (state : LedgerState) (windowMillis : Nat)
    (call : DeriveCall) : LedgerState × Except DeriveAdmission Unit :=
  let global := (state.global.getD (.openedAt call.now)).rollIfExpired call.now windowMillis
  let state := { state with global := some global }
  match bytesWithin global.bytes call.bytes self.budget.maxBytesGlobalUncompressedNar with
  | none => (state, .error .refusedGlobal)
  | some globalBytesAfter =>
    match dumpsWithin global.dumps call.dumps self.budget.maxDumpsGlobal with
    | none => (state, .error .refusedGlobal)
    | some globalDumpsAfter =>
      let peerWindow :=
        ((state.perPeer.lookup call.peer).getD (.openedAt call.now)).rollIfExpired call.now windowMillis
      match bytesWithin peerWindow.bytes call.bytes self.budget.maxBytesPerPeerUncompressedNar with
      | none => (state, .error .refusedPerPeer)
      | some peerBytesAfter =>
        match dumpsWithin peerWindow.dumps call.dumps self.budget.maxDumpsPerPeer with
        | none => (state, .error .refusedPerPeer)
        | some peerDumpsAfter =>
          ({ global := some { global with bytes := globalBytesAfter, dumps := globalDumpsAfter }
             perPeer := state.perPeer.insert call.peer
               { peerWindow with bytes := peerBytesAfter, dumps := peerDumpsAfter } },
            .ok ())

def PeerDeriveLedger.tryAdmitWork (self : PeerDeriveLedger) (call : DeriveCall) :
    PeerDeriveLedger × DeriveAdmission :=
  if self.enforced = false then (self, .admitted)
  else
    let state := self.state.evictExpired call.now self.windowMillis
    match self.chargeLocked state self.windowMillis call with
    | (state, .ok ()) => ({ self with state }, .admitted)
    | (state, .error reason) => ({ self with state }, reason)

/-- The global window's bytes for the operator: a look that opens or rolls the window. -/
def PeerDeriveLedger.globalBytesUsed (self : PeerDeriveLedger) (now : Nat) : PeerDeriveLedger × UInt64 :=
  if self.enforced = false then (self, 0)
  else
    let global := (self.state.global.getD (.openedAt now)).rollIfExpired now self.windowMillis
    ({ self with state := { self.state with global := some global } }, global.bytes)

structure DeriveRun where
  ledger : PeerDeriveLedger
  admitted : List DeriveCall

def DeriveRun.step (run : DeriveRun) (call : DeriveCall) : DeriveRun :=
  match run.ledger.tryAdmitWork call with
  | (ledger, .admitted) => { ledger, admitted := run.admitted ++ [call] }
  | (ledger, _) => { run with ledger }

def DeriveRun.ofCalls (budget : DeriveBudget) (calls : List DeriveCall) : DeriveRun :=
  calls.foldl DeriveRun.step { ledger := .withClock budget, admitted := [] }

end NixP2p
