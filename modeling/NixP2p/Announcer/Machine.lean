import Mathlib.Logic.Function.Basic
import NixP2p.Announcer.SeqFloor

/-!
# The announcer at work

Announcing a record and withdrawing a key, cut at every point where another task may run or the process may die. An announcement saves before it publishes, a withdrawal publishes before it saves. What an event can do to the state is said once, in `Moves`, and every invariant is derived from that.
-/

namespace NixP2p

open HashTable Wire Fallible

inductive IneligibleReason where
  | notAllowlisted
  | refused (why : String)
  deriving DecidableEq

inductive AnnounceError where
  | rejected (why : String)
  | unreachable (why : String)
  | deadlineExceeded
  | persist (why : String)
  | ineligible (reason : IneligibleReason)
  deriving DecidableEq

structure SigningKey where
  verifyingKey : Bytes 32
  sign : List UInt8 → Bytes 64

def maxRecordTtlSecs : UInt64 := 86400

def minTombstoneTtlSecs : UInt64 := maxRecordTtlSecs

variable [Ed25519]

def signProviderWithdrawal (signingKey : SigningKey) (withdrawal : ProviderWithdrawal) :
    ProviderWithdrawal :=
  let signed := { withdrawal with
    provider := ⟨signingKey.verifyingKey⟩, signature := ⟨List.replicate 64 0, by simp⟩ }
  { signed with signature := signingKey.sign (providerWithdrawalSigningBytes signed) }

structure Announcer where
  signingKey : SigningKey
  nodeId : NodeId
  eligibility : ProviderRecord → Except IneligibleReason Unit
  selfServe : NodeId.mk signingKey.verifyingKey = nodeId

def mintWithdrawal (signingKey : SigningKey) (key : ContentKey) (last : Option LastPublished)
    (now : UInt64) : ProviderWithdrawal :=
  signProviderWithdrawal signingKey
    { key, provider := ⟨⟨List.replicate 32 0, by simp⟩⟩,
      sequence := match last with | some last => last.sequence + 1 | none => 1
      issuedAt := now
      expiry := max ((last.map LastPublished.expiry).getD 0) (now + minTombstoneTtlSecs)
      signature := ⟨List.replicate 64 0, by simp⟩ }

namespace Announcer

def consult (announcer : Announcer) (record : ProviderRecord) : Except AnnounceError Unit :=
  (announcer.eligibility record).mapError .ineligible

def admitAnnounce (announcer : Announcer) (record : ProviderRecord) (now : UInt64) :
    Except AnnounceError Unit := do
  announcer.consult record
  if record.provider ≠ announcer.nodeId then
    let provider := record.provider
    let node := announcer.nodeId
    .error (.rejected s!"record provider {provider} is not this node {node} (self-serve v1)")
  else if record.expiry ≤ now then
    let expiry := record.expiry
    .error (.rejected s!"record already expired (expiry {expiry} <= now {now})")
  else if maxRecordTtlSecs < record.expiry - now then
    let ttl := record.expiry - now
    let expiry := record.expiry
    .error (.rejected
      s!"record TTL {ttl}s exceeds the {maxRecordTtlSecs}s cap (expiry {expiry} at now {now}); sign a shorter-lived record")
  else
    let value ← (encodeProviderRecord record).mapError fun fault => .rejected (toString fault)
    let _ ← (decodeProviderAssertion value record.key now).mapError fun fault =>
      .rejected s!"record failed signature self-verification: {fault}"

/-- The empty record under which a withdrawal asks the authority about its key. -/
def probe (announcer : Announcer) (key : ContentKey) : ProviderRecord where
  key := key
  content := ⟨⟨List.replicate 32 0, by simp⟩⟩
  provider := announcer.nodeId
  offers := []
  sequence := 0
  issuedAt := 0
  expiry := 0
  signature := ⟨List.replicate 64 0, by simp⟩

def admitWithdraw (announcer : Announcer) (floor : SeqFloor) (key : ContentKey) (now : UInt64) :
    Except AnnounceError ProviderWithdrawal := do
  if floor.contains key = false then
    .error (.rejected
      s!"refusing to withdraw {key}: this node never announced it (self-serve v1 retracts only its own records; a tombstone for an unannounced key would emit an unauthorized record to the DHT)")
  else
    announcer.consult (announcer.probe key)
    let withdrawal := mintWithdrawal announcer.signingKey key (floor.lastPublished key) now
    let _ ← (encodeProviderWithdrawal withdrawal).mapError fun fault => .rejected (toString fault)
    return withdrawal

/-- Where one task stands, with the assertion its operation is about. -/
inductive Phase where
  | idle
  | advancing (op : ProviderAssertion)
  | locking (op : ProviderAssertion)
  | holding (op : ProviderAssertion)
  | writing (op : ProviderAssertion) (snapshot : List (ContentKey × LastPublished))
  | releasing (op : ProviderAssertion) (saved : Except String Unit)
  | providing (record : ProviderRecord)
  | putting (op : ProviderAssertion)
  | stopping (withdrawal : ProviderWithdrawal)
  | returned (result : Except AnnounceError String)
  deriving DecidableEq

def Phase.op? : Phase → Option ProviderAssertion
  | advancing op | locking op | holding op | writing op _ | releasing op _ | putting op => some op
  | providing record => some (.provide record)
  | stopping withdrawal => some (.withdraw withdrawal)
  | idle | returned _ => none

/-- How a write or a network call ended; one that reports failure may have taken effect. -/
inductive Reply where
  | ok
  | failed (landed : Bool) (why : String)

def Reply.landed : Reply → Bool
  | ok => true
  | failed landed _ => landed

def Reply.isOk : Reply → Bool
  | ok => true
  | failed _ _ => false

def Reply.result : Reply → Except String Unit
  | ok => .ok ()
  | failed _ why => .error why

inductive Event (Thread : Type) where
  | announce (thread : Thread) (record : ProviderRecord) (now : UInt64)
  | withdraw (thread : Thread) (key : ContentKey) (now : UInt64)
  | step (thread : Thread)
  | snapshot (thread : Thread) (order : IterOrder (ContentKey × LastPublished))
  | reply (thread : Thread) (reply : Reply)
  | deadline (thread : Thread) (landed : Bool)
  | crash

structure State (Thread : Type) where
  floor : SeqFloor
  disk : Option (List Char)
  lock : Option Thread
  phase : Thread → Phase
  published : List ProviderAssertion

/-- Persisting in `announce` is checked, in `withdraw` a failure is only logged. -/
def afterSave : ProviderAssertion → Except String Unit → Phase
  | .provide record, .ok () => .providing record
  | .provide _, .error why => .returned (.error (.persist why))
  | .withdraw withdrawal, _ => .stopping withdrawal

def afterPut : ProviderAssertion → Reply → Phase
  | .provide _, .ok => .returned (.ok "libp2p-kad")
  | .withdraw withdrawal, .ok => .advancing (.withdraw withdrawal)
  | _, .failed _ why => .returned (.error (.unreachable why))

def afterProvide (record : ProviderRecord) : Reply → Phase
  | .ok => .putting (.provide record)
  | .failed _ why => .returned (.error (.unreachable why))

namespace State

variable {Thread : Type}

def start (disk : Option (List Char)) (published : List ProviderAssertion) : State Thread :=
  ⟨SeqFloor.fromDisk disk, disk, none, fun _ => .idle, published⟩

def publish (state : State Thread) (op : ProviderAssertion) (landed : Bool) : State Thread :=
  if landed then { state with published := op :: state.published } else state

variable [DecidableEq Thread]

def enter (state : State Thread) (thread : Thread) (phase : Phase) : State Thread :=
  { state with phase := Function.update state.phase thread phase }

def takeStep (state : State Thread) (thread : Thread) : State Thread :=
  match state.phase thread with
  | .advancing op =>
    { state with floor := state.floor.advance op.key op.sequence op.expiry }.enter thread (.locking op)
  | .locking op =>
    if state.lock = none then { state with lock := some thread }.enter thread (.holding op) else state
  | .releasing op saved => { state with lock := none }.enter thread (afterSave op saved)
  | .stopping _ => state.enter thread (.returned (.ok "libp2p-kad-withdraw"))
  | _ => state

def takeSnapshot (state : State Thread) (thread : Thread)
    (order : IterOrder (ContentKey × LastPublished)) : State Thread :=
  match state.phase thread with
  | .holding op => state.enter thread (.writing op (state.floor.snapshot order))
  | _ => state

def takeReply (state : State Thread) (thread : Thread) (reply : Reply) : State Thread :=
  match state.phase thread with
  | .writing op snapshot =>
    { state with disk := if reply.landed then some (serializeSeqs snapshot) else state.disk }.enter
      thread (.releasing op reply.result)
  | .providing record => state.enter thread (afterProvide record reply)
  | .putting op => (state.publish op reply.landed).enter thread (afterPut op reply)
  | _ => state

/-- Only the publishing half of an announcement runs under the deadline. -/
def takeDeadline (state : State Thread) (thread : Thread) (landed : Bool) : State Thread :=
  match state.phase thread with
  | .providing _ => state.enter thread (.returned (.error .deadlineExceeded))
  | .putting (.provide record) =>
    (state.publish (.provide record) landed).enter thread (.returned (.error .deadlineExceeded))
  | _ => state

/-- A task without an operation under way begins one, or answers at once with a refusal. -/
def begin (state : State Thread) (thread : Thread) (admitted : Except AnnounceError Phase) :
    State Thread :=
  match (state.phase thread).op? with
  | some _ => state
  | none =>
    match admitted with
    | .ok phase => state.enter thread phase
    | .error fault => state.enter thread (.returned (.error fault))

def step (announcer : Announcer) (state : State Thread) : Event Thread → State Thread
  | .announce thread record now =>
    state.begin thread ((announcer.admitAnnounce record now).map fun _ => .advancing (.provide record))
  | .withdraw thread key now =>
    state.begin thread ((announcer.admitWithdraw state.floor key now).map fun withdrawal =>
      .putting (.withdraw withdrawal))
  | .step thread => state.takeStep thread
  | .snapshot thread order => state.takeSnapshot thread order
  | .reply thread reply => state.takeReply thread reply
  | .deadline thread landed => state.takeDeadline thread landed
  | .crash => start state.disk state.published

@[simp] theorem enter_phase_self (state : State Thread) (thread : Thread) (phase : Phase) :
    (state.enter thread phase).phase thread = phase :=
  Function.update_self ..

theorem enter_phase_of_ne (state : State Thread) {thread other : Thread} (hother : other ≠ thread)
    (phase : Phase) : (state.enter thread phase).phase other = state.phase other :=
  Function.update_of_ne hother ..

end State

/-- Nothing of the floor or of the network depends on the task any more. -/
def Phase.Quiet : Phase → Prop
  | idle | returned _ | providing _ | stopping _ => True
  | _ => False

theorem Phase.quiet_of_free {phase : Phase} (hfree : phase.op? = none) : phase.Quiet := by
  cases phase with
  | idle | returned => trivial
  | _ => cases hfree

section Moves

variable {Thread : Type} [DecidableEq Thread] {announcer : Announcer} {state : State Thread}

inductive Moves (announcer : Announcer) (state : State Thread) : Event Thread → State Thread → Prop
  | stay (event : Event Thread) : Moves announcer state event state
  | announce {thread : Thread} {record : ProviderRecord} {now : UInt64}
      (hfree : (state.phase thread).op? = none)
      (hadmitted : announcer.admitAnnounce record now = .ok ()) :
      Moves announcer state (.announce thread record now)
        (state.enter thread (.advancing (.provide record)))
  | withdraw {thread : Thread} {key : ContentKey} {now : UInt64} {withdrawal : ProviderWithdrawal}
      (hfree : (state.phase thread).op? = none)
      (hadmitted : announcer.admitWithdraw state.floor key now = .ok withdrawal) :
      Moves announcer state (.withdraw thread key now)
        (state.enter thread (.putting (.withdraw withdrawal)))
  | settle {thread : Thread} (event : Event Thread) (hquiet : (state.phase thread).Quiet)
      (result : Except AnnounceError String) :
      Moves announcer state event (state.enter thread (.returned result))
  | advance {thread : Thread} {op : ProviderAssertion} (hphase : state.phase thread = .advancing op) :
      Moves announcer state (.step thread)
        ({ state with floor := state.floor.advance op.key op.sequence op.expiry }.enter thread
          (.locking op))
  | lock {thread : Thread} {op : ProviderAssertion} (hphase : state.phase thread = .locking op)
      (hlock : state.lock = none) :
      Moves announcer state (.step thread)
        ({ state with lock := some thread }.enter thread (.holding op))
  | snapshot {thread : Thread} {op : ProviderAssertion} (hphase : state.phase thread = .holding op)
      (order : IterOrder (ContentKey × LastPublished)) :
      Moves announcer state (.snapshot thread order)
        (state.enter thread (.writing op (state.floor.snapshot order)))
  | write {thread : Thread} {op : ProviderAssertion} {snapshot : List (ContentKey × LastPublished)}
      (hphase : state.phase thread = .writing op snapshot) (reply : Reply) :
      Moves announcer state (.reply thread reply)
        ({ state with
            disk := if reply.landed then some (serializeSeqs snapshot) else state.disk }.enter
          thread (.releasing op reply.result))
  | release {thread : Thread} {op : ProviderAssertion} {saved : Except String Unit}
      (hphase : state.phase thread = .releasing op saved) :
      Moves announcer state (.step thread)
        ({ state with lock := none }.enter thread (afterSave op saved))
  | provide {thread : Thread} {record : ProviderRecord}
      (hphase : state.phase thread = .providing record) :
      Moves announcer state (.reply thread .ok) (state.enter thread (.putting (.provide record)))
  | put {thread : Thread} {op : ProviderAssertion} (hphase : state.phase thread = .putting op)
      (reply : Reply) :
      Moves announcer state (.reply thread reply)
        ((state.publish op reply.landed).enter thread (afterPut op reply))
  | expire {thread : Thread} {record : ProviderRecord}
      (hphase : state.phase thread = .putting (.provide record)) (landed : Bool) :
      Moves announcer state (.deadline thread landed)
        ((state.publish (.provide record) landed).enter thread
          (.returned (.error .deadlineExceeded)))
  | crash : Moves announcer state .crash (State.start state.disk state.published)

theorem begin_moves {thread : Thread} {admitted : Except AnnounceError Phase} (event : Event Thread)
    (hok : ∀ phase, (state.phase thread).op? = none → admitted = .ok phase →
      Moves announcer state event (state.enter thread phase)) :
    Moves announcer state event (state.begin thread admitted) := by
  unfold State.begin
  cases hop : (state.phase thread).op? with
  | some op => exact .stay event
  | none =>
    cases admitted with
    | ok phase => exact hok phase hop rfl
    | error fault => exact .settle event (Phase.quiet_of_free hop) _

theorem takeStep_moves (thread : Thread) :
    Moves announcer state (.step thread) (state.takeStep thread) := by
  unfold State.takeStep
  cases hphase : state.phase thread with
  | advancing op => exact .advance hphase
  | locking op =>
    by_cases hlock : state.lock = none
    · simp only [if_pos hlock]
      exact .lock hphase hlock
    · simp only [if_neg hlock]
      exact .stay _
  | releasing op saved => exact .release hphase
  | stopping withdrawal => exact .settle _ (by rw [hphase]; trivial) _
  | _ => exact .stay _

theorem takeSnapshot_moves (thread : Thread) (order : IterOrder (ContentKey × LastPublished)) :
    Moves announcer state (.snapshot thread order) (state.takeSnapshot thread order) := by
  unfold State.takeSnapshot
  cases hphase : state.phase thread with
  | holding op => exact .snapshot hphase order
  | _ => exact .stay _

theorem takeReply_moves (thread : Thread) (reply : Reply) :
    Moves announcer state (.reply thread reply) (state.takeReply thread reply) := by
  unfold State.takeReply
  cases hphase : state.phase thread with
  | writing op snapshot => exact .write hphase reply
  | providing record =>
    cases reply with
    | ok => exact .provide hphase
    | failed landed why => exact .settle _ (by rw [hphase]; trivial) _
  | putting op => exact .put hphase reply
  | _ => exact .stay _

theorem takeDeadline_moves (thread : Thread) (landed : Bool) :
    Moves announcer state (.deadline thread landed) (state.takeDeadline thread landed) := by
  unfold State.takeDeadline
  cases hphase : state.phase thread with
  | providing record => exact .settle _ (by rw [hphase]; trivial) _
  | putting op =>
    cases op with
    | provide record => exact .expire hphase landed
    | withdraw withdrawal => exact .stay _
  | _ => exact .stay _

theorem step_moves (announcer : Announcer) (state : State Thread) (event : Event Thread) :
    Moves announcer state event (state.step announcer event) := by
  cases event with
  | announce thread record now =>
    apply begin_moves
    intro phase hfree hadmitted
    obtain ⟨_, hrecord, rfl⟩ := map_eq_ok_iff.mp hadmitted
    exact .announce hfree hrecord
  | withdraw thread key now =>
    apply begin_moves
    intro phase hfree hadmitted
    obtain ⟨withdrawal, hwithdrawal, rfl⟩ := map_eq_ok_iff.mp hadmitted
    exact .withdraw hfree hwithdrawal
  | step thread => exact takeStep_moves thread
  | snapshot thread order => exact takeSnapshot_moves thread order
  | reply thread reply => exact takeReply_moves thread reply
  | deadline thread landed => exact takeDeadline_moves thread landed
  | crash => exact .crash

end Moves

end Announcer

end NixP2p
