import NixP2p.Base.Run
import NixP2p.Swarm.DialSteps

/-!
# The cap on pending dials

A dial command is refused when the table of pending dials is full, but a cancel that finds its connection already routed enters a tombstone whether or not there is room. `pending_dials_capped_iff` says that these cancels are the only way past the cap.
-/

namespace NixP2p

open HashTable

variable {PeerId : Type}

def DialSystem.pendingCount (system : DialSystem PeerId) : Nat := system.ledger.pending.entries.length

namespace DialSystem

variable (system : DialSystem PeerId)

theorem ledger_dialExact (connection : ConnectionId) (peer : PeerId) (permittedRelays : List PeerId) :
    (system.dialExact connection peer permittedRelays).ledger = system.ledger := by
  unfold dialExact
  split <;> rfl

theorem ledger_closeReply (connection : ConnectionId) :
    (system.closeReply connection).ledger = system.ledger := by
  unfold closeReply
  split <;> rfl

theorem ledger_sendCancel (connection : ConnectionId) :
    (system.sendCancel connection).ledger = system.ledger := by
  unfold sendCancel
  split <;> rfl

theorem ledger_receive (connection : ConnectionId) :
    (system.receive connection).ledger = system.ledger := by
  unfold receive
  split <;> rfl

theorem pendingCount_eq_of_ledger {after : DialSystem PeerId} (h : after.ledger = system.ledger) :
    after.pendingCount = system.pendingCount :=
  congrArg (fun ledger => ledger.pending.entries.length) h

theorem pendingCount_onOutgoingError_le (connection : ConnectionId) (peer : Option PeerId)
    (error : String) : (system.onOutgoingError connection peer error).pendingCount ≤ system.pendingCount := by
  unfold onOutgoingError
  split
  · exact size_erase_le system.ledger.pending connection
  · exact Nat.le_refl _

theorem pendingCount_onCommand_le (dialError : Option String)
    (h : system.pendingCount ≤ maxPendingExactDials) :
    (system.onCommand dialError).pendingCount ≤ maxPendingExactDials := by
  unfold onCommand
  cases system.commands with
  | nil => exact h
  | cons command commands =>
    dsimp only
    unfold onDialExact
    split
    · exact h
    rename_i hroom
    have hentered : (system.ledger.pending.insert command.connection
        (.active command.peer command.permittedRelays)).entries.length ≤ maxPendingExactDials := by
      have := size_erase_le system.ledger.pending command.connection
      have : ¬ maxPendingExactDials ≤ system.ledger.pending.entries.length := hroom
      rw [size_insert]
      omega
    cases dialError with
    | none => exact hentered
    | some error => exact Nat.le_trans (size_erase_le _ command.connection) hentered

end DialSystem

variable [DecidableEq PeerId]

theorem DialLedger.size_applyExactDialCancel (ledger : DialLedger PeerId) (peer : PeerId)
    (connection : ConnectionId) :
    (ledger.applyExactDialCancel peer connection).1.pending.entries.length =
      if (ledger.pending.lookup connection).isNone && (ledger.route? peer connection).isSome then
        ledger.pending.entries.length + 1
      else ledger.pending.entries.length := by
  cases hdial : ledger.pending.lookup connection with
  | some dial => exact (marked_cancel peer (by rw [hdial]; rfl)).size
  | none =>
    rw [applyExactDialCancel_settled ledger peer connection hdial]
    simp only [Option.isNone_none, Bool.true_and]
    split
    · rw [size_insert, size_erase_of_none hdial]
    · rfl

namespace DialSystem

/-- Whether a step processes the cancel of a connection that is routed and no longer pending. -/
def cancelsRouted (system : DialSystem PeerId) : DialEvent PeerId → Bool
  | .cancel =>
    match system.cancels with
    | [] => false
    | (peer, connection) :: _ =>
      (system.ledger.pending.lookup connection).isNone && (system.ledger.route? peer connection).isSome
  | _ => false

variable (system : DialSystem PeerId)

theorem pendingCount_onCancel :
    system.onCancel.pendingCount =
      if system.cancelsRouted .cancel then system.pendingCount + 1 else system.pendingCount := by
  unfold onCancel cancelsRouted
  cases hcancels : system.cancels with
  | nil => rfl
  | cons entry cancels => exact DialLedger.size_applyExactDialCancel system.ledger entry.1 entry.2

theorem pendingCount_onEstablished_le (connection : ConnectionId) (peer : PeerId)
    (route : ConnectionRoute PeerId) :
    (system.onEstablished connection peer route).pendingCount ≤ system.pendingCount := by
  unfold onEstablished
  split
  · have hpending := DialLedger.pending_applyConnectionEstablished system.ledger peer connection route
      (system.waits connection)
    exact Nat.le_trans (Nat.le_of_eq (congrArg (fun table => table.entries.length) hpending))
      (size_erase_le system.ledger.pending connection)
  · exact Nat.le_refl _

theorem pendingCount_onClosed_le (connection : ConnectionId) (peer : PeerId) :
    (system.onClosed connection peer).pendingCount ≤ system.pendingCount := by
  unfold onClosed
  split
  · exact size_erase_le system.ledger.pending connection
  · exact Nat.le_refl _

/-- Within the cap, a step leaves it exactly where it processes such a cancel without room. -/
theorem pendingCount_step_iff {event : DialEvent PeerId} (h : system.pendingCount ≤ maxPendingExactDials) :
    (system.step event).pendingCount ≤ maxPendingExactDials ↔
      (system.cancelsRouted event = true → system.pendingCount < maxPendingExactDials) := by
  have hkeeps : ∀ {after : DialSystem PeerId}, after.pendingCount ≤ system.pendingCount →
      (after.pendingCount ≤ maxPendingExactDials ↔
        (false = true → system.pendingCount < maxPendingExactDials)) := fun hle =>
    ⟨fun _ hfalse => Bool.noConfusion hfalse, fun _ => Nat.le_trans hle h⟩
  have hqueues : ∀ {after : DialSystem PeerId}, after.ledger = system.ledger →
      (after.pendingCount ≤ maxPendingExactDials ↔
        (false = true → system.pendingCount < maxPendingExactDials)) := fun hledger =>
    hkeeps (Nat.le_of_eq (system.pendingCount_eq_of_ledger hledger))
  cases event with
  | cancel =>
    change system.onCancel.pendingCount ≤ _ ↔ _
    rw [pendingCount_onCancel]
    split
    · rename_i hrouted
      exact ⟨fun hroom _ => hroom, fun hroom => hroom hrouted⟩
    · rename_i hrouted
      exact ⟨fun _ h => absurd h hrouted, fun _ => h⟩
  | command dialError =>
    exact ⟨fun _ hfalse => Bool.noConfusion hfalse, fun _ => system.pendingCount_onCommand_le dialError h⟩
  | sweep walk => exact hkeeps (Nat.le_of_eq (system.marked_sweep walk).size)
  | dial connection peer relays => exact hqueues (system.ledger_dialExact connection peer relays)
  | closeReply connection => exact hqueues (system.ledger_closeReply connection)
  | sendCancel connection => exact hqueues (system.ledger_sendCancel connection)
  | receive connection => exact hqueues (system.ledger_receive connection)
  | established connection peer route =>
    exact hkeeps (system.pendingCount_onEstablished_le connection peer route)
  | outgoingError connection peer error =>
    exact hkeeps (system.pendingCount_onOutgoingError_le connection peer error)
  | closed connection peer => exact hkeeps (system.pendingCount_onClosed_le connection peer)

end DialSystem

/-- The pending dials stay within their cap exactly when each cancel of a routed connection is processed while there is room for its tombstone. -/
theorem pending_dials_capped_iff (events : List (DialEvent PeerId)) :
    (∀ seen, seen <+: events → (DialSystem.init.run seen).pendingCount ≤ maxPendingExactDials) ↔
      Run.Always DialSystem.step
        (fun system event => system.cancelsRouted event = true →
          system.pendingCount < maxPendingExactDials)
        (DialSystem.init : DialSystem PeerId) events := by
  have hstep : ∀ (system : DialSystem PeerId) (event : DialEvent PeerId),
      system.pendingCount ≤ maxPendingExactDials →
      ((system.step event).pendingCount ≤ maxPendingExactDials ↔
        (system.cancelsRouted event = true → system.pendingCount < maxPendingExactDials)) :=
    fun system _ => system.pendingCount_step_iff
  exact Run.forall_prefix_iff_always hstep (Nat.zero_le _) events

/-- One dial succeeds, its caller has not read the reply, and then as many dials are started as the cap allows. -/
def overCapEvents : List (DialEvent Nat) :=
  [.dial 0 7 [], .command none, .established 0 7 .direct] ++
    (List.range maxPendingExactDials).flatMap (fun number => [.dial (number + 1) 7 [], .command none]) ++
    [.closeReply 0, .sendCancel 0, .cancel]

theorem pending_dials_over_cap :
    maxPendingExactDials < (DialSystem.init.run overCapEvents).pendingCount := by
  decide +kernel

theorem pending_dials_capped_iff_room :
    ∀ seen, seen <+: overCapEvents.take 40 ++ [.closeReply 0, .sendCancel 0, .cancel] →
      (DialSystem.init.run seen).pendingCount ≤ maxPendingExactDials :=
  (pending_dials_capped_iff _).mpr (by decide +kernel)

end NixP2p
