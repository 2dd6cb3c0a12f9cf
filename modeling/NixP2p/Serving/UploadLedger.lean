import NixP2p.Derivation.Ledger

/-!
# The upload ledger

The ledger of the serving side bounds the octets that this node puts on the wire: one tumbling window for the whole node. A serve is admitted while the window is below its cap and charges what it writes, so the window may run over and then declines until it rolls. Every method takes the lock, opens a window where there is none and rolls an expired one, also the one that only reports.
-/

namespace NixP2p

open Checked

structure UploadBudget where
  maxBytesPerWindow : UInt64
  window : Duration

structure UploadWindow where
  startMillis : Nat
  bytes : UInt64
  deriving DecidableEq

def UploadWindow.openedAt (now : Nat) : UploadWindow := ⟨now, 0⟩

def UploadWindow.rollIfExpired (self : UploadWindow) (now windowMillis : Nat) : UploadWindow :=
  if windowExpired self.startMillis now windowMillis then .openedAt now else self

structure UploadRateLedger where
  budget : UploadBudget
  enforced : Bool
  state : Option UploadWindow

namespace UploadRateLedger

def withClock (budget : UploadBudget) : UploadRateLedger where
  budget := { budget with window := clampWindow budget.window }
  enforced := true
  state := none

def windowMillis (self : UploadRateLedger) : Nat := self.budget.window.asMillisU64

def rolled (self : UploadRateLedger) (now : Nat) : UploadWindow :=
  (self.state.getD (.openedAt now)).rollIfExpired now self.windowMillis

def admitUpload (self : UploadRateLedger) (now : Nat) : UploadRateLedger × Bool :=
  if self.enforced = false then (self, true)
  else ({ self with state := some (self.rolled now) }, (self.rolled now).bytes < self.budget.maxBytesPerWindow)

def chargeWireOctets (self : UploadRateLedger) (octets : UInt64) (now : Nat) : UploadRateLedger :=
  if self.enforced = false then self
  else
    let window := self.rolled now
    { self with state := some { window with bytes := saturatingAddU64 window.bytes octets } }

def windowBytesUsed (self : UploadRateLedger) (now : Nat) : UploadRateLedger × UInt64 :=
  if self.enforced = false then (self, 0)
  else ({ self with state := some (self.rolled now) }, (self.rolled now).bytes)

end UploadRateLedger

inductive UploadCall where
  | ask (now : Nat)
  | charge (octets : UInt64) (now : Nat)

def UploadCall.now : UploadCall → Nat
  | .ask now => now
  | .charge _ now => now

def UploadRateLedger.step (self : UploadRateLedger) : UploadCall → UploadRateLedger × Option Bool
  | .ask now => ((self.admitUpload now).1, some (self.admitUpload now).2)
  | .charge octets now => (self.chargeWireOctets octets now, none)

end NixP2p
