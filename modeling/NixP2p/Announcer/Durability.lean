import NixP2p.Announcer.Machine
import NixP2p.Base.Run

/-!
# No durable advance is lost

Any number of tasks save the floor at once. The lock is held from the snapshot to the end of the write, so a snapshot about to be written lies between the file and the table, and replacing the file only raises it. A task that was told its save succeeded had advanced the table before it took the snapshot, so its sequence is in the file, and from there on the file only rises.
-/

namespace NixP2p.Announcer

open HashTable SeqFloor

section Laws

variable [Ed25519]

def Phase.Critical : Phase → Prop
  | holding _ | writing _ _ | releasing _ _ => True
  | _ => False

/-- What a task at this point relies on, of the table and of the file. -/
def Phase.Relies (floor disk : SeqFloor) : Phase → Prop
  | locking op | holding op => floor.Covers op.key op.sequence
  | writing op snapshot =>
    disk.Below (ofEntries snapshot) ∧ Below (ofEntries snapshot) floor ∧
      Covers (ofEntries snapshot) op.key op.sequence
  | releasing op saved => saved = .ok () → disk.Covers op.key op.sequence
  | providing record | putting (.provide record) => disk.Covers record.key record.sequence
  | _ => True

theorem Phase.Relies.mono {floor floor' disk disk' : SeqFloor} {phase : Phase}
    (hrelies : phase.Relies floor disk) (hfloor : floor.Below floor') (hdisk : disk.Below disk')
    (hcritical : phase.Critical → disk' = disk) : phase.Relies floor' disk' := by
  cases phase with
  | locking op | holding op => exact hfloor _ _ hrelies
  | writing op snapshot =>
    obtain ⟨hbelow, habove, hcovers⟩ := hrelies
    rw [hcritical trivial]
    exact ⟨hbelow, habove.trans hfloor, hcovers⟩
  | releasing op saved => exact fun hsaved => hdisk _ _ (hrelies hsaved)
  | providing record => exact hdisk _ _ hrelies
  | putting op =>
    cases op with
    | provide record => exact hdisk _ _ hrelies
    | withdraw withdrawal => trivial
  | _ => trivial

namespace State

variable {Thread : Type}

def onDisk (state : State Thread) : SeqFloor := fromDisk state.disk

structure Sound (state : State Thread) : Prop where
  below : state.onDisk.Below state.floor
  owner : ∀ thread, (state.phase thread).Critical → state.lock = some thread
  relies : ∀ thread, (state.phase thread).Relies state.floor state.onDisk

theorem sound_start (disk : Option (List Char)) (published : List ProviderAssertion) :
    (start disk published : State Thread).Sound where
  below := Below.refl _
  owner _ hcritical := hcritical.elim
  relies _ := trivial

variable {state : State Thread} {thread : Thread}

theorem Sound.exclusive (hsound : state.Sound) {other : Thread} (hthread : (state.phase thread).Critical)
    (hother : (state.phase other).Critical) : other = thread := by
  have howner := hsound.owner thread hthread
  rw [hsound.owner other hother] at howner
  exact Option.some.inj howner

@[simp] theorem publish_disk (state : State Thread) (op : ProviderAssertion) (landed : Bool) :
    (state.publish op landed).disk = state.disk := by
  cases landed <;> rfl

variable (hsound : state.Sound)

include hsound

theorem Sound.publish (op : ProviderAssertion) (landed : Bool) : (state.publish op landed).Sound := by
  obtain ⟨hbelow, howner, hrelies⟩ := hsound
  cases landed with
  | true => exact ⟨hbelow, howner, hrelies⟩
  | false => exact ⟨hbelow, howner, hrelies⟩

variable [DecidableEq Thread]

/-- One task moves on; the others keep what they rely on, since no other is inside when the file or the lock changes. -/
theorem Sound.enter {floor' : SeqFloor} {disk' : Option (List Char)} {lock' : Option Thread} {phase : Phase}
    (hfloor : state.floor.Below floor') (hdisk : state.onDisk.Below (fromDisk disk'))
    (hbelow : (fromDisk disk').Below floor')
    (hothers : ∀ other, other ≠ thread → (state.phase other).Critical → disk' = state.disk ∧ lock' = state.lock)
    (howner : phase.Critical → lock' = some thread) (hrelies : phase.Relies floor' (fromDisk disk')) :
    ({ state with floor := floor', disk := disk', lock := lock' }.enter thread phase).Sound where
  below := hbelow
  owner other hcritical := by
    by_cases hother : other = thread
    · subst hother
      rw [enter_phase_self] at hcritical
      exact howner hcritical
    · rw [enter_phase_of_ne _ hother] at hcritical
      exact (hothers other hother hcritical).2.trans (hsound.owner other hcritical)
  relies other := by
    by_cases hother : other = thread
    · subst hother
      rw [enter_phase_self]
      exact hrelies
    rw [enter_phase_of_ne _ hother]
    apply (hsound.relies other).mono hfloor hdisk
    intro hcritical
    exact congrArg fromDisk (hothers other hother hcritical).1

theorem Sound.enter_outside {phase : Phase} (houtside : ¬ phase.Critical)
    (hrelies : phase.Relies state.floor state.onDisk) :
    (state.enter thread phase).Sound :=
  hsound.enter (Below.refl _) (Below.refl _) hsound.below (fun _ _ _ => ⟨rfl, rfl⟩)
    (fun hcritical => (houtside hcritical).elim) hrelies

variable {op : ProviderAssertion}

theorem Sound.lock (hphase : state.phase thread = .locking op) (hlock : state.lock = none) :
    ({ state with lock := some thread }.enter thread (.holding op)).Sound := by
  have hrelies := hsound.relies thread
  rw [hphase] at hrelies
  refine hsound.enter (Below.refl _) (Below.refl _) hsound.below ?_ (fun _ => rfl) hrelies
  intro other _ hcritical
  have howner := hsound.owner other hcritical
  rw [hlock] at howner
  cases howner

theorem Sound.snapshot (hphase : state.phase thread = .holding op)
    (order : IterOrder (ContentKey × LastPublished)) :
    (state.enter thread (.writing op (state.floor.snapshot order))).Sound := by
  have hrelies := hsound.relies thread
  have howner := hsound.owner thread
  rw [hphase] at hrelies howner
  refine hsound.enter (Below.refl _) (Below.refl _) hsound.below (fun _ _ _ => ⟨rfl, rfl⟩)
    (fun _ => howner trivial) ⟨?_, ?_, covers_snapshot.mpr hrelies⟩
  · exact fun key sequence hcovers => covers_snapshot.mpr (hsound.below key sequence hcovers)
  · exact fun key sequence hcovers => covers_snapshot.mp hcovers

theorem Sound.write {snapshot : List (ContentKey × LastPublished)}
    (hphase : state.phase thread = .writing op snapshot) (reply : Reply) :
    state.onDisk.Below
        (fromDisk (if reply.landed then some (serializeSeqs snapshot) else state.disk)) ∧
      ({ state with
          disk := if reply.landed then some (serializeSeqs snapshot) else state.disk }.enter
        thread (.releasing op reply.result)).Sound := by
  have hrelies := hsound.relies thread
  have howner := hsound.owner thread
  rw [hphase] at hrelies howner
  obtain ⟨hdisk, hfloor, hcovers⟩ := hrelies
  cases hlanded : reply.landed with
  | true =>
    simp only [if_true]
    rw [← fromDisk_serializeSeqs] at hdisk hfloor hcovers
    refine ⟨hdisk, hsound.enter (Below.refl _) hdisk hfloor ?_ (fun _ => howner trivial)
      fun _ => hcovers⟩
    intro other hne hcritical
    exact (hne (hsound.exclusive (by rw [hphase]; trivial) hcritical)).elim
  | false =>
    simp only [Bool.false_eq_true, if_false]
    refine ⟨Below.refl _, hsound.enter (Below.refl _) (Below.refl _) hsound.below
      (fun _ _ _ => ⟨rfl, rfl⟩) (fun _ => howner trivial) fun hsaved => ?_⟩
    -- a write that did not land did not report success
    cases reply with
    | ok => cases hlanded
    | failed landed why => cases hsaved

theorem Sound.release {saved : Except String Unit} (hphase : state.phase thread = .releasing op saved) :
    ({ state with lock := none }.enter thread (afterSave op saved)).Sound := by
  have hrelies := hsound.relies thread
  rw [hphase] at hrelies
  have houtside : ¬ (afterSave op saved).Critical := by
    cases op <;> cases saved <;> exact id
  refine hsound.enter (Below.refl _) (Below.refl _) hsound.below ?_
    (fun hcritical => (houtside hcritical).elim) ?_
  · intro other hne hcritical
    exact (hne (hsound.exclusive (by rw [hphase]; trivial) hcritical)).elim
  · cases op with
    | provide record =>
      cases saved with
      | ok => exact hrelies rfl
      | error why => trivial
    | withdraw withdrawal => trivial

theorem Sound.advance (op : ProviderAssertion) :
    ({ state with floor := state.floor.advance op.key op.sequence op.expiry }.enter thread
      (.locking op)).Sound :=
  hsound.enter (below_advance _ _ _ _) (Below.refl _) (hsound.below.trans (below_advance _ _ _ _))
    (fun _ _ _ => ⟨rfl, rfl⟩) (fun hcritical => hcritical.elim)
    (covers_advance.mpr (.inr ⟨rfl, UInt64.le_refl _⟩))

theorem Sound.provide {record : ProviderRecord} (hphase : state.phase thread = .providing record) :
    (state.enter thread (.putting (.provide record))).Sound := by
  have hrelies := hsound.relies thread
  rw [hphase] at hrelies
  exact hsound.enter_outside id hrelies

theorem Sound.put (thread : Thread) (op : ProviderAssertion) (reply : Reply) :
    ((state.publish op reply.landed).enter thread (afterPut op reply)).Sound := by
  apply (hsound.publish op reply.landed).enter_outside
  · cases op <;> cases reply <;> exact id
  · cases op <;> cases reply <;> trivial

theorem Sound.moves {next : State Thread} {announcer : Announcer} {event : Event Thread}
    (hmoves : Moves announcer state event next) : next.Sound ∧ state.onDisk.Below next.onDisk := by
  cases hmoves with
  | stay => exact ⟨hsound, Below.refl _⟩
  | announce hfree hadmitted => exact ⟨hsound.enter_outside id trivial, Below.refl _⟩
  | withdraw hfree hadmitted => exact ⟨hsound.enter_outside id trivial, Below.refl _⟩
  | settle _ hquiet result => exact ⟨hsound.enter_outside id trivial, Below.refl _⟩
  | advance hphase => exact ⟨hsound.advance _, Below.refl _⟩
  | lock hphase hlock => exact ⟨hsound.lock hphase hlock, Below.refl _⟩
  | snapshot hphase order => exact ⟨hsound.snapshot hphase order, Below.refl _⟩
  | write hphase reply => exact (hsound.write hphase reply).symm
  | release hphase => exact ⟨hsound.release hphase, Below.refl _⟩
  | provide hphase => exact ⟨hsound.provide hphase, Below.refl _⟩
  | put hphase reply =>
    refine ⟨hsound.put _ _ reply, ?_⟩
    change state.onDisk.Below (fromDisk (state.publish _ _).disk)
    rw [publish_disk]
    exact Below.refl _
  | expire hphase landed =>
    refine ⟨(hsound.publish _ landed).enter_outside id trivial, ?_⟩
    change state.onDisk.Below (fromDisk (state.publish _ _).disk)
    rw [publish_disk]
    exact Below.refl _
  | crash => exact ⟨sound_start _ _, Below.refl _⟩

theorem Sound.run (announcer : Announcer) (events : List (Event Thread)) :
    (events.foldl (step announcer) state).Sound ∧
      state.onDisk.Below (events.foldl (step announcer) state).onDisk := by
  refine List.foldlRecOn events (step announcer)
    (motive := fun next => next.Sound ∧ state.onDisk.Below next.onDisk) ⟨hsound, Below.refl _⟩ ?_
  intro next hnext event _
  obtain ⟨hsound', hbelow⟩ := hnext.1.moves (step_moves announcer next event)
  exact ⟨hsound', hnext.2.trans hbelow⟩

end State

/-- Once a save reported success the file holds at least that sequence for its key ever after, whatever the interleaving. -/
theorem durable_advance_kept {Thread : Type} [DecidableEq Thread] (announcer : Announcer)
    (file : Option (List Char)) (events later : List (Event Thread)) :
    let reached := events.foldl (State.step announcer) (State.start file [])
    let final := later.foldl (State.step announcer) reached
    (∀ thread op, reached.phase thread = .releasing op (.ok ()) →
      final.onDisk.Covers op.key op.sequence) ∧
    ∀ key sequence, reached.onDisk.Covers key sequence → final.onDisk.Covers key sequence := by
  intro reached final
  have hsound : reached.Sound := ((State.sound_start file []).run announcer events).1
  have hbelow : reached.onDisk.Below final.onDisk := (hsound.run announcer later).2
  refine ⟨fun thread op hphase => ?_, hbelow⟩
  have hrelies := hsound.relies thread
  rw [hphase] at hrelies
  exact hbelow _ _ (hrelies rfl)

end Laws

section Golden

attribute [local instance] goldenScheme

def goldenTombstone (sequence : UInt64) (signature : Wire.Bytes 64) : ProviderWithdrawal :=
  ⟨goldenKey, goldenProvider, sequence, 200, 86600, signature⟩

def tombstoneSignature : Wire.Bytes 64 :=
  ⟨Wire.beBytes 64 0xb1c9a8d998a0dcab8893650a590c5f629c3783bc4a0cd30a3ffdb883d2624e6b2997ed4899a17c87ec083e17c5f8fbf719d027d815b69c3fa7ebc078cd8c3507, by simp⟩

def laterTombstoneSignature : Wire.Bytes 64 :=
  ⟨Wire.beBytes 64 0x432075d7b9c3f87604845aca0f25458c8bd7c0387763ee0a284d5595c0d62f5e17447b923afa84fcb5b6729b19493a42e940bed92efaa94134ba5ab4c3fb4f00, by simp⟩

def goldenAnnouncer : Announcer where
  signingKey :=
    ⟨goldenProvider.bytes, fun message =>
      if message = providerWithdrawalSigningBytes (goldenTombstone 22 goldenSignature) then
        tombstoneSignature
      else laterTombstoneSignature⟩
  nodeId := goldenProvider
  eligibility _ := .ok ()
  selfServe := rfl

/-- The file of a provider that last published the sequence before the golden record's. -/
def goldenFile : Option (List Char) := some (serializeSeqs [(goldenKey, ⟨21, 900⟩)])

def goldenSavers : List (Event Bool) :=
  [.announce false goldenHolder 100, .step false, .step false, .withdraw true goldenKey 200,
   .reply true .ok, .step true, .step true, .snapshot false (IterOrder.id _), .reply false .ok]

def goldenTurn : List (Event Bool) :=
  [.step false, .step true, .snapshot true (IterOrder.id _), .reply true (.failed true "dir fsync"), .crash]

theorem durable_advance_kept_golden :
    (goldenSavers.foldl (State.step goldenAnnouncer) (State.start goldenFile [])).phase false =
        .releasing goldenAssertion (.ok ()) ∧
      (goldenTurn.foldl (State.step goldenAnnouncer)
        (goldenSavers.foldl (State.step goldenAnnouncer) (State.start goldenFile []))).onDisk.Covers
          goldenKey 22 := by
  have hsaved : (goldenSavers.foldl (State.step goldenAnnouncer) (State.start goldenFile [])).phase
      false = .releasing goldenAssertion (.ok ()) := by decide +kernel
  exact ⟨hsaved, (durable_advance_kept goldenAnnouncer goldenFile goldenSavers goldenTurn).1 false
    goldenAssertion hsaved⟩

end Golden

end NixP2p.Announcer
