import Mathlib.Data.Fintype.Basic
import NixP2p.Announcer.Durability

/-!
# No sequence is published twice

An announcement saves its sequence and then publishes; a withdrawal publishes its tombstone and then saves. Whatever was published is in the file or on its way there, as long as every tombstone that reached the network also reaches the file before the process dies. A crash between the two halves of a withdrawal breaks this.
-/

namespace NixP2p.Announcer

open HashTable SeqFloor Fallible

section Laws

variable [Ed25519]

/-! ### How far an operation has come -/

namespace Phase

def pending? : Phase → Option ProviderAssertion
  | putting op => some op
  | phase => phase.op?.filter fun op => !op.isWithdrawal

/-- The tombstone that is on the network and not yet in the table. -/
def unentered? : Phase → Option ProviderAssertion
  | advancing op => (some op).filter ProviderAssertion.isWithdrawal
  | _ => none

/-- The tombstone that is on the network and not yet in the file. -/
def unsaved? : Phase → Option ProviderAssertion
  | advancing op | locking op | holding op | writing op _ =>
    (some op).filter ProviderAssertion.isWithdrawal
  | _ => none

/-- The call of a withdrawal does not end with the tombstone on the network and the task unaware of it, nor with its save undone. -/
def delivers (reply : Reply) : Phase → Bool
  | putting (.withdraw _) => reply.isOk || !reply.landed
  | writing (.withdraw _) _ => reply.landed
  | _ => true

variable {phase : Phase} {op : ProviderAssertion}

theorem op?_of_pending? (h : phase.pending? = some op) : phase.op? = some op := by
  cases phase with
  | putting other => exact h
  | _ => exact Option.eq_some_of_filter_eq_some (p := fun other : ProviderAssertion => !other.isWithdrawal) h

theorem op?_of_unsaved? (h : phase.unsaved? = some op) : phase.op? = some op := by
  cases phase with
  | advancing | locking | holding | writing => exact Option.eq_some_of_filter_eq_some h
  | _ => cases h

theorem isWithdrawal_of_unsaved? (h : phase.unsaved? = some op) : op.isWithdrawal = true := by
  cases phase with
  | advancing other | locking other | holding other | writing other _ =>
    change (some other).filter ProviderAssertion.isWithdrawal = some op at h
    exact (Option.filter_eq_some_iff.mp h).2
  | _ => cases h

theorem withdrawal_of_unentered? (h : phase.unentered? = some op) :
    ∃ withdrawal, phase = advancing (.withdraw withdrawal) ∧ op = .withdraw withdrawal := by
  cases phase with
  | advancing other =>
    cases other with
    | provide record => cases h
    | withdraw withdrawal => exact ⟨withdrawal, rfl, (Option.some.inj h).symm⟩
  | _ => cases h

theorem unsaved?_of_unentered? (h : phase.unentered? = some op) : phase.unsaved? = some op := by
  cases phase with
  | advancing => exact h
  | _ => cases h

end Phase

namespace State

variable {Thread : Type} {announcer : Announcer}

theorem admitWithdraw_ok {floor : SeqFloor} {key : ContentKey} {now : UInt64} {withdrawal : ProviderWithdrawal}
    (h : announcer.admitWithdraw floor key now = .ok withdrawal) :
    withdrawal.key = key ∧ withdrawal.sequence = floor.nextSequence key := by
  unfold admitWithdraw at h
  split at h
  · cases h
  simp only [bind_eq_ok_iff, pure_eq_ok_iff] at h
  obtain ⟨-, -, -, -, rfl⟩ := h
  exact ⟨rfl, rfl⟩

/-! ### What the runs are assumed to do -/

def Untouched (state : State Thread) (key : ContentKey) : Prop :=
  ∀ thread, ∀ op ∈ (state.phase thread).op?, op.key ≠ key

/-- A record is signed with the next sequence of its key, a key has one operation at a time, and the numbers do not run out. -/
def Disciplined (state : State Thread) : Event Thread → Prop
  | .announce _ record _ =>
    record.sequence = state.floor.nextSequence record.key ∧ state.Untouched record.key ∧
      record.sequence < u64Max
  | .withdraw _ key _ => state.Untouched key ∧ state.floor.nextSequence key < u64Max
  | _ => True

/-- A tombstone that reaches the network is reported as stored, its save takes effect, and the process does not die in between. -/
def SavesTombstones (state : State Thread) : Event Thread → Prop
  | .crash => ∀ thread, (state.phase thread).unsaved? = none
  | .reply thread reply => (state.phase thread).delivers reply = true
  | _ => True

section Decidable

variable [Fintype Thread]

instance (state : State Thread) (key : ContentKey) : Decidable (state.Untouched key) :=
  Fintype.decidableForallFintype

instance (state : State Thread) : (event : Event Thread) → Decidable (state.Disciplined event)
  | .announce .. | .withdraw .. => instDecidableAnd
  | .step _ | .snapshot .. | .reply .. | .deadline .. | .crash => .isTrue trivial

instance (state : State Thread) : (event : Event Thread) → Decidable (state.SavesTombstones event)
  | .crash => Fintype.decidableForallFintype
  | .reply .. => instDecidableEqBool _ _
  | .announce .. | .withdraw .. | .step _ | .snapshot .. | .deadline .. => .isTrue trivial

end Decidable

/-! ### The invariant -/

/-- In the table, or a tombstone whose task is about to enter it. -/
def Entered (state : State Thread) (op : ProviderAssertion) : Prop :=
  state.floor.Covers op.key op.sequence ∨ ∃ thread, (state.phase thread).unentered? = some op

/-- In the file, or a tombstone whose task is about to write it. -/
def Saved (state : State Thread) (op : ProviderAssertion) : Prop :=
  state.onDisk.Covers op.key op.sequence ∨ ∃ thread, (state.phase thread).unsaved? = some op

def Distinct (published : List ProviderAssertion) : Prop :=
  ∀ op ∈ published, ∀ other ∈ published, op.key = other.key → op.sequence = other.sequence → op = other

variable {op : ProviderAssertion} {published : List ProviderAssertion}

theorem Distinct.cons (hdistinct : Distinct published)
    (hahead : ∀ earlier ∈ published, earlier.key = op.key → earlier.sequence < op.sequence) :
    Distinct (op :: published) := by
  intro first hfirst second hsecond hkey hsequence
  rcases List.mem_cons.mp hfirst with heq | hfirst' <;>
    rcases List.mem_cons.mp hsecond with heq' | hsecond'
  · rw [heq, heq']
  · subst heq
    exact (UInt64.ne_of_lt (hahead second hsecond' hkey.symm) hsequence.symm).elim
  · subst heq'
    exact (UInt64.ne_of_lt (hahead first hfirst' hkey) hsequence).elim
  · exact hdistinct first hfirst' second hsecond' hkey hsequence

structure Fresh (state : State Thread) : Prop where
  sound : state.Sound
  room : ∀ key, ¬ state.floor.Covers key u64Max
  bounded : ∀ thread op, (state.phase thread).op? = some op → op.sequence < u64Max
  alone : ∀ thread other op op', (state.phase thread).op? = some op →
    (state.phase other).op? = some op' → op.key = op'.key → thread = other
  ahead : ∀ thread op, (state.phase thread).pending? = some op →
    ∀ earlier ∈ state.published, earlier.key = op.key → earlier.sequence < op.sequence
  entered : ∀ op ∈ state.published, state.Entered op
  saved : ∀ op ∈ state.published, state.Saved op
  distinct : Distinct state.published

theorem fresh_start {disk : Option (List Char)} (hroom : ∀ key, ¬ (fromDisk disk).Covers key u64Max)
    (hsaved : ∀ op ∈ published, (fromDisk disk).Covers op.key op.sequence) (hdistinct : Distinct published) :
    (start disk published : State Thread).Fresh where
  sound := sound_start disk published
  room := hroom
  bounded := fun _ _ h => nomatch h
  alone := fun _ _ _ _ h => nomatch h
  ahead := fun _ _ h => nomatch h
  entered := fun op hop => .inl (hsaved op hop)
  saved := fun op hop => .inl (hsaved op hop)
  distinct := hdistinct

variable {state : State Thread}

theorem Fresh.lt_nextSequence (hfresh : state.Fresh) (hop : op ∈ state.published)
    (hidle : ∀ thread other, (state.phase thread).unentered? = some other → other.key ≠ op.key) :
    op.sequence < state.floor.nextSequence op.key := by
  rcases hfresh.entered op hop with hcovers | ⟨thread, hthread⟩
  · exact SeqFloor.lt_nextSequence hcovers (hfresh.room op.key)
  · exact (hidle thread op hthread rfl).elim

variable [DecidableEq Thread] {query : Phase → Option ProviderAssertion} {thread : Thread} {phase : Phase}

/-- A tombstone is still with the task that had it, unless the moving task lets go of it. -/
theorem exists_enter (hexists : ∃ other, query (state.phase other) = some op) {settled : Prop}
    (hthread : query (state.phase thread) = some op → query phase = some op ∨ settled) :
    settled ∨ ∃ other, query ((state.enter thread phase).phase other) = some op := by
  obtain ⟨other, hother⟩ := hexists
  by_cases heq : other = thread
  · subst heq
    rcases hthread hother with hnext | hsettled
    · exact .inr ⟨other, by rw [enter_phase_self]; exact hnext⟩
    · exact .inl hsettled
  · exact .inr ⟨other, by rw [enter_phase_of_ne _ heq]; exact hother⟩

/-- What the tasks are at work on after one of them moves was there before, if the moving task brings in nothing new. -/
theorem of_enter {other : Thread} (hthread : ∀ op, query phase = some op → query (state.phase thread) = some op)
    (h : query ((state.enter thread phase).phase other) = some op) : query (state.phase other) = some op := by
  by_cases hother : other = thread
  · subst hother
    rw [enter_phase_self] at h
    exact hthread op h
  · rwa [enter_phase_of_ne _ hother] at h

theorem held_publish {recorded : ProviderAssertion → Prop}
    (hbefore : ∀ op ∈ state.published, recorded op ∨ ∃ other, query (state.phase other) = some op)
    (hquiet : query (state.phase thread) = none) (hnew : recorded op ∨ query phase = some op) :
    ∀ op' ∈ op :: state.published,
      recorded op' ∨ ∃ other, query ((state.enter thread phase).phase other) = some op' := by
  intro op' hmem
  rcases List.mem_cons.mp hmem with rfl | hearlier
  · rcases hnew with hrecorded | hnext
    · exact .inl hrecorded
    · exact .inr ⟨thread, by rw [enter_phase_self]; exact hnext⟩
  rcases hbefore op' hearlier with hrecorded | hexists
  · exact .inl hrecorded
  refine exists_enter hexists fun h => ?_
  rw [hquiet] at h
  cases h

variable (hfresh : state.Fresh)

include hfresh

/-- One task goes on with its operation, or ends it: the rest of the invariant follows when nothing published depended on the step. -/
theorem Fresh.enter {floor' : SeqFloor} {disk' : Option (List Char)} {lock' : Option Thread}
    (hsound : ({ state with floor := floor', disk := disk', lock := lock' }.enter thread phase).Sound)
    (hfloor : state.floor.Below floor') (hdisk : state.onDisk.Below (fromDisk disk'))
    (hroom : ∀ key, ¬ floor'.Covers key u64Max)
    (hop : ∀ op, phase.op? = some op → (state.phase thread).op? = some op)
    (hpending : ∀ op, phase.pending? = some op → (state.phase thread).pending? = some op)
    (hunentered : ∀ op, (state.phase thread).unentered? = some op → phase.unentered? = some op ∨ floor'.Covers op.key op.sequence)
    (hunsaved : ∀ op, (state.phase thread).unsaved? = some op → phase.unsaved? = some op ∨ (fromDisk disk').Covers op.key op.sequence) :
    ({ state with floor := floor', disk := disk', lock := lock' }.enter thread phase).Fresh := by
  refine ⟨hsound, hroom, ?_, ?_, ?_, ?_, ?_, hfresh.distinct⟩
  · intro other op h
    exact hfresh.bounded other op (of_enter hop h)
  · intro first second op op' h h' hkey
    exact hfresh.alone first second op op' (of_enter hop h) (of_enter hop h') hkey
  · intro other op h
    exact hfresh.ahead other op (of_enter hpending h)
  · intro op hmem
    rcases hfresh.entered op hmem with hcovers | hexists
    · exact .inl (hfloor _ _ hcovers)
    · exact exists_enter hexists (hunentered op)
  · intro op hmem
    rcases hfresh.saved op hmem with hcovers | hexists
    · exact .inl (hdisk _ _ hcovers)
    · exact exists_enter hexists (hunsaved op)

theorem Fresh.begin (hsound : (state.enter thread phase).Sound) (hfree : (state.phase thread).op? = none)
    (hop : phase.op? = some op) (huntouched : state.Untouched op.key)
    (hsequence : op.sequence = state.floor.nextSequence op.key) (hbound : op.sequence < u64Max) :
    (state.enter thread phase).Fresh := by
  have hcases : ∀ other op', ((state.enter thread phase).phase other).op? = some op' →
      other = thread ∧ op' = op ∨ other ≠ thread ∧ (state.phase other).op? = some op' := by
    intro other op' h
    by_cases hother : other = thread
    · subst hother
      rw [enter_phase_self, hop] at h
      exact .inl ⟨rfl, (Option.some.inj h).symm⟩
    · rw [enter_phase_of_ne _ hother] at h
      exact .inr ⟨hother, h⟩
  have hidle : ∀ op', (state.phase thread).unsaved? ≠ some op' := by
    intro op' h
    rw [Phase.op?_of_unsaved? h] at hfree
    cases hfree
  have hlater : ∀ earlier ∈ state.published, earlier.key = op.key → earlier.sequence < op.sequence := by
    intro earlier hearlier hkey
    rw [hsequence, ← hkey]
    apply hfresh.lt_nextSequence hearlier
    intro other op' h
    rw [hkey]
    exact huntouched other op' (Phase.op?_of_unsaved? (Phase.unsaved?_of_unentered? h))
  refine ⟨hsound, hfresh.room, ?_, ?_, ?_, ?_, ?_, hfresh.distinct⟩
  · intro other op' h
    rcases hcases other op' h with ⟨-, rfl⟩ | ⟨-, h'⟩
    · exact hbound
    · exact hfresh.bounded other op' h'
  · intro first second op₁ op₂ h₁ h₂ hkey
    rcases hcases first op₁ h₁ with ⟨rfl, rfl⟩ | ⟨-, h₁'⟩
    · rcases hcases second op₂ h₂ with ⟨rfl, -⟩ | ⟨-, h₂'⟩
      · rfl
      · exact (huntouched second op₂ h₂' hkey.symm).elim
    rcases hcases second op₂ h₂ with ⟨rfl, rfl⟩ | ⟨-, h₂'⟩
    · exact (huntouched first op₁ h₁' hkey).elim
    · exact hfresh.alone first second op₁ op₂ h₁' h₂' hkey
  · intro other op' h
    rcases hcases other op' (Phase.op?_of_pending? h) with ⟨-, rfl⟩ | ⟨hother, -⟩
    · exact hlater
    · rw [enter_phase_of_ne _ hother] at h
      exact hfresh.ahead other op' h
  · intro op' hmem
    rcases hfresh.entered op' hmem with hcovers | hexists
    · exact .inl hcovers
    · exact exists_enter hexists fun h => (hidle op' (Phase.unsaved?_of_unentered? h)).elim
  · intro op' hmem
    rcases hfresh.saved op' hmem with hcovers | hexists
    · exact .inl hcovers
    · exact exists_enter hexists fun h => (hidle op' h).elim

theorem Fresh.publish (hphase : state.phase thread = .putting op)
    (hsound : ((state.publish op true).enter thread phase).Sound) (hop : phase.op? = none ∨ phase.op? = some op)
    (hpending : phase.pending? = none)
    (hentered : state.floor.Covers op.key op.sequence ∨ phase.unentered? = some op)
    (hsaved : state.onDisk.Covers op.key op.sequence ∨ phase.unsaved? = some op) :
    ((state.publish op true).enter thread phase).Fresh := by
  have hthread : (state.phase thread).op? = some op := by rw [hphase]; rfl
  have hahead := hfresh.ahead thread op (by rw [hphase]; rfl)
  have hkeep : ∀ op', phase.op? = some op' → (state.phase thread).op? = some op' := by
    intro op' h
    rcases hop with hnone | hsome
    · rw [hnone] at h
      cases h
    · rw [hthread, ← hsome, h]
  refine ⟨hsound, hfresh.room, ?_, ?_, ?_, ?_, ?_, hfresh.distinct.cons hahead⟩
  · intro other op' h
    exact hfresh.bounded other op' (of_enter hkeep h)
  · intro first second op₁ op₂ h₁ h₂ hkey
    exact hfresh.alone first second op₁ op₂ (of_enter hkeep h₁) (of_enter hkeep h₂) hkey
  · intro other op' h earlier hearlier hkey
    by_cases hother : other = thread
    · subst hother
      rw [enter_phase_self, hpending] at h
      cases h
    rw [enter_phase_of_ne _ hother] at h
    rcases List.mem_cons.mp hearlier with rfl | hbefore
    · -- two tasks would be at work on one key
      exact (hother (hfresh.alone other thread op' earlier (Phase.op?_of_pending? h) hthread
        hkey.symm)).elim
    · exact hfresh.ahead other op' h earlier hbefore hkey
  · exact held_publish hfresh.entered (by rw [hphase]; rfl) hentered
  · exact held_publish hfresh.saved (by rw [hphase]; rfl) hsaved

/-! ### Every event keeps it -/

theorem Fresh.settle (hunsaved : (state.phase thread).unsaved? = none) (result : Except AnnounceError String) :
    (state.enter thread (.returned result)).Fresh := by
  have hsound : (state.enter thread (.returned result)).Sound :=
    hfresh.sound.enter_outside id trivial
  apply hfresh.enter hsound (Below.refl _) (Below.refl _) hfresh.room
  · exact fun op h => nomatch h
  · exact fun op h => nomatch h
  · intro op h
    rw [Phase.unsaved?_of_unentered? h] at hunsaved
    cases hunsaved
  · intro op h
    rw [h] at hunsaved
    cases hunsaved

theorem Fresh.advance (hphase : state.phase thread = .advancing op) :
    ({ state with floor := state.floor.advance op.key op.sequence op.expiry }.enter thread
      (.locking op)).Fresh := by
  have hbound := hfresh.bounded thread op (by rw [hphase]; rfl)
  apply hfresh.enter (hfresh.sound.advance op) (below_advance _ _ _ _) (Below.refl _)
  · intro key hcovers
    rcases covers_advance.mp hcovers with hbefore | ⟨-, hle⟩
    · exact hfresh.room key hbefore
    · exact UInt64.not_lt.mpr hle hbound
  all_goals
    intro op' h
    rw [hphase] at *
  · exact h
  · exact h
  · obtain rfl := Option.some.inj (Phase.op?_of_unsaved? (Phase.unsaved?_of_unentered? h))
    exact .inr (covers_advance.mpr (.inr ⟨rfl, UInt64.le_refl _⟩))
  · exact .inl h

theorem Fresh.lock (hphase : state.phase thread = .locking op) (hlock : state.lock = none) :
    ({ state with lock := some thread }.enter thread (.holding op)).Fresh := by
  apply hfresh.enter (hfresh.sound.lock hphase hlock) (Below.refl _) (Below.refl _) hfresh.room <;>
    intro op' h <;> rw [hphase] at *
  · exact h
  · exact h
  · cases h
  · exact .inl h

theorem Fresh.snapshot (hphase : state.phase thread = .holding op)
    (order : IterOrder (ContentKey × LastPublished)) :
    (state.enter thread (.writing op (state.floor.snapshot order))).Fresh := by
  apply hfresh.enter (hfresh.sound.snapshot hphase order) (Below.refl _) (Below.refl _) hfresh.room <;>
    intro op' h <;> rw [hphase] at *
  · exact h
  · exact h
  · cases h
  · exact .inl h

variable {reply : Reply}

theorem Fresh.write {snapshot : List (ContentKey × LastPublished)}
    (hphase : state.phase thread = .writing op snapshot) (hlanded : op.isWithdrawal = true → reply.landed = true) :
    ({ state with
        disk := if reply.landed then some (serializeSeqs snapshot) else state.disk }.enter
      thread (.releasing op reply.result)).Fresh := by
  have hrelies := hfresh.sound.relies thread
  rw [hphase] at hrelies
  obtain ⟨hdisk, hsound⟩ := hfresh.sound.write hphase reply
  apply hfresh.enter hsound (Below.refl _) hdisk hfresh.room <;> intro op' h <;> rw [hphase] at *
  · exact h
  · exact h
  · cases h
  · obtain rfl := Option.some.inj (Phase.op?_of_unsaved? h)
    right
    rw [hlanded (Phase.isWithdrawal_of_unsaved? h), if_pos rfl, fromDisk_serializeSeqs]
    exact hrelies.2.2

theorem Fresh.release {saved : Except String Unit} (hphase : state.phase thread = .releasing op saved) :
    ({ state with lock := none }.enter thread (afterSave op saved)).Fresh := by
  apply hfresh.enter (hfresh.sound.release hphase) (Below.refl _) (Below.refl _) hfresh.room <;>
    intro op' h <;> rw [hphase] at *
  · cases op <;> cases saved <;> first | exact h | cases h
  · cases op <;> cases saved <;> first | exact h | cases h
  · cases h
  · cases h

variable {record : ProviderRecord}

theorem Fresh.provide (hphase : state.phase thread = .providing record) :
    (state.enter thread (.putting (.provide record))).Fresh := by
  apply hfresh.enter (hfresh.sound.provide hphase) (Below.refl _) (Below.refl _) hfresh.room <;>
    intro op' h <;> rw [hphase] at *
  · exact h
  · exact h
  · cases h
  · cases h

theorem Fresh.publish_record (hphase : state.phase thread = .putting (.provide record)) (landed : Bool)
    (result : Except AnnounceError String) :
    ((state.publish (.provide record) landed).enter thread (.returned result)).Fresh := by
  have hrelies := hfresh.sound.relies thread
  rw [hphase] at hrelies
  cases landed with
  | false => exact hfresh.settle (by rw [hphase]; rfl) result
  | true =>
    exact hfresh.publish hphase ((hfresh.sound.publish _ true).enter_outside id trivial) (.inl rfl) rfl
      (.inl (hfresh.sound.below _ _ hrelies)) (.inl hrelies)

theorem Fresh.put (hphase : state.phase thread = .putting op)
    (hreported : op.isWithdrawal = true → (reply.isOk || !reply.landed) = true) :
    ((state.publish op reply.landed).enter thread (afterPut op reply)).Fresh := by
  cases op with
  | provide record =>
    cases reply with
    | ok => exact hfresh.publish_record hphase true _
    | failed landed why => exact hfresh.publish_record hphase landed _
  | withdraw withdrawal =>
    cases reply with
    | ok =>
      exact hfresh.publish hphase (hfresh.sound.put thread _ .ok) (.inr rfl) rfl (.inr rfl) (.inr rfl)
    | failed landed why =>
      cases landed with
      | true => cases hreported rfl
      | false => exact hfresh.settle (by rw [hphase]; rfl) _

theorem Fresh.moves {next : State Thread} {event : Event Thread} (hmoves : Moves announcer state event next)
    (hdisciplined : state.Disciplined event) (hsaves : state.SavesTombstones event) : next.Fresh := by
  have hsound := (hfresh.sound.moves hmoves).1
  cases hmoves with
  | stay => exact hfresh
  | announce hfree hadmitted =>
    obtain ⟨hsequence, huntouched, hbound⟩ := hdisciplined
    exact hfresh.begin hsound hfree rfl huntouched hsequence hbound
  | withdraw hfree hadmitted =>
    obtain ⟨huntouched, hbound⟩ := hdisciplined
    obtain ⟨hkey, hsequence⟩ := admitWithdraw_ok hadmitted
    subst hkey
    exact hfresh.begin hsound hfree rfl huntouched hsequence (by
      change ProviderWithdrawal.sequence _ < u64Max
      rw [hsequence]
      exact hbound)
  | settle _ hquiet result =>
    apply hfresh.settle
    revert hquiet
    cases state.phase _ <;> simp [Phase.Quiet, Phase.unsaved?]
  | advance hphase => exact hfresh.advance hphase
  | lock hphase hlock => exact hfresh.lock hphase hlock
  | snapshot hphase order => exact hfresh.snapshot hphase order
  | @write thread op snapshot hphase reply =>
    apply hfresh.write hphase
    intro htombstone
    cases op with
    | provide record => cases htombstone
    | withdraw withdrawal =>
      change (state.phase thread).delivers reply = true at hsaves
      rwa [hphase] at hsaves
  | release hphase => exact hfresh.release hphase
  | provide hphase => exact hfresh.provide hphase
  | @put thread op hphase reply =>
    apply hfresh.put hphase
    intro htombstone
    cases op with
    | provide record => cases htombstone
    | withdraw withdrawal =>
      change (state.phase thread).delivers reply = true at hsaves
      rwa [hphase] at hsaves
  | expire hphase landed => exact hfresh.publish_record hphase landed _
  | crash =>
    apply fresh_start
    · intro key hcovers
      exact hfresh.room key (hfresh.sound.below _ _ hcovers)
    · intro op hop
      rcases hfresh.saved op hop with hcovers | ⟨thread, hthread⟩
      · exact hcovers
      · rw [hsaves thread] at hthread
        cases hthread
    · exact hfresh.distinct

end State

end Laws

section Golden

attribute [local instance] goldenScheme

def goldenAnnouncement : List (Event Bool) :=
  [.announce false goldenHolder 100, .step false, .step false, .snapshot false (IterOrder.id _),
   .reply false .ok, .step false, .reply false .ok, .reply false .ok]

def goldenRetraction : List (Event Bool) :=
  [.withdraw true goldenKey 200, .reply true .ok, .step true, .step true,
   .snapshot true (IterOrder.id _), .reply true .ok, .step true, .step true, .crash]

/-- A process dies after its tombstone is on the network and before it is saved. -/
def goldenCrash : List (Event Bool) :=
  [.withdraw true goldenKey 200, .reply true .ok, .crash]

end Golden

end NixP2p.Announcer
