import Mathlib.Data.List.Chain
import NixP2p.Base.Fallible
import NixP2p.Publication.Publisher

/-!
# What a publisher writes

Every state a publisher writes is one of four successors of the one before: a new target, a packet prepared above the high-water sequence, a packet committed, or a prepared packet given up. What was put is below the high-water sequence of the last state.
-/

namespace NixP2p

open Checked Effect Publish

section History

variable [NodeRecordCodec]

def StoredPacket.Reads (stored : StoredPacket) : Prop :=
  ∃ record, decodeNodeRecord stored.packet = .ok record ∧ record.sequence = stored.sequence ∧
    record.state = stored.kind

namespace PublicationStateBody

inductive Advance (old : PublicationStateBody) : PublicationStateBody → Prop
  | target (revision : UInt64) (locations : List Location) (hnewer : old.desiredRevision < revision) :
    Advance old { old with desiredRevision := revision, desiredLocations := locations }
  | prepare (packet : StoredPacket) (hnone : old.pending = none) (hreads : packet.Reads)
    (hnewer : old.highWaterSequence < packet.sequence) :
    Advance old { old with pending := some packet, highWaterSequence := packet.sequence }
  | commit (packet : StoredPacket) (hpending : old.pending = some packet) :
    Advance old { old with committed := some packet, pending := none }
  | retire (packet : StoredPacket) (hpending : old.pending = some packet) :
    Advance old { old with pending := none }

/-- The prepared packet is the one at the high-water sequence, and the committed one is before it. -/
structure WellFormed (body : PublicationStateBody) : Prop where
  pending : ∀ packet ∈ body.pending, packet.Reads ∧ packet.sequence = body.highWaterSequence
  committed : ∀ packet ∈ body.committed, packet.Reads ∧ packet.sequence ≤ body.highWaterSequence
  below : ∀ earlier ∈ body.committed, ∀ later ∈ body.pending, earlier.sequence < later.sequence

variable {old new : PublicationStateBody}

theorem wellFormed_fresh (identity : PublicationIdentity) (settings : PublicationSettings) :
    (fresh identity settings).WellFormed where
  pending := fun _ h => nomatch h
  committed := fun _ h => nomatch h
  below := fun _ h => nomatch h

theorem WellFormed.advance (h : old.WellFormed) (hadvance : old.Advance new) : new.WellFormed := by
  cases hadvance with
  | target revision locations hnewer => exact ⟨h.pending, h.committed, h.below⟩
  | prepare packet hnone hreads hnewer =>
    refine ⟨?_, fun earlier hearlier => ?_, ?_⟩
    · rintro _ ⟨⟩
      exact ⟨hreads, rfl⟩
    · have hcommitted := h.committed earlier hearlier
      exact ⟨hcommitted.1, UInt64.le_of_lt (UInt64.lt_of_le_of_lt hcommitted.2 hnewer)⟩
    · rintro earlier hearlier _ ⟨⟩
      exact UInt64.lt_of_le_of_lt (h.committed earlier hearlier).2 hnewer
  | commit packet hpending =>
    obtain ⟨hreads, hsequence⟩ := h.pending packet hpending
    refine ⟨fun _ h => (nomatch h), ?_, fun _ _ _ h => nomatch h⟩
    rintro _ ⟨⟩
    exact ⟨hreads, UInt64.le_of_eq hsequence⟩
  | retire packet hpending =>
    exact ⟨fun _ h => (nomatch h), h.committed, fun _ _ _ h => nomatch h⟩

theorem Advance.identity (h : old.Advance new) : new.identity = old.identity := by
  cases h <;> rfl

theorem WellFormed.unique {body : PublicationStateBody} (h : body.WellFormed) {left right : StoredPacket}
    (hleft : left ∈ body.packets) (hright : right ∈ body.packets)
    (hleftSequence : left.sequence = body.highWaterSequence)
    (hrightSequence : right.sequence = body.highWaterSequence) : left = right := by
  have hnotBoth : ∀ earlier ∈ body.committed, ∀ later ∈ body.pending,
      earlier.sequence = body.highWaterSequence → later.sequence = body.highWaterSequence → False := by
    intro earlier hearlier later hlater hsame hsame'
    have hlt := h.below earlier hearlier later hlater
    rw [hsame, hsame'] at hlt
    exact UInt64.lt_irrefl _ hlt
  rw [packets, List.mem_append, Option.mem_toList, Option.mem_toList] at hleft hright
  rcases hleft with hleft | hleft <;> rcases hright with hright | hright
  · exact Option.some.inj (hleft.symm.trans hright)
  · exact (hnotBoth left hleft right hright hleftSequence hrightSequence).elim
  · exact (hnotBoth right hright left hleft hrightSequence hleftSequence).elim
  · exact Option.some.inj (hleft.symm.trans hright)

theorem WellFormed.reads {body : PublicationStateBody} (h : body.WellFormed) {stored : StoredPacket}
    (hstored : stored ∈ body.packets) : stored.Reads ∧ stored.sequence ≤ body.highWaterSequence := by
  rw [packets, List.mem_append, Option.mem_toList, Option.mem_toList] at hstored
  rcases hstored with hstored | hstored
  · exact h.committed stored hstored
  · exact ⟨(h.pending stored hstored).1, UInt64.le_of_eq (h.pending stored hstored).2⟩

end PublicationStateBody

/-! ### What has been put -/

def Submission.AtHighWater (submission : Submission) : Prop :=
  ∀ record, decodeNodeRecord submission.packet = .ok record → record.sequence = submission.highWater

/-- The later packet has a larger sequence, or is the same packet. -/
def Submission.Follows (earlier later : Submission) : Prop :=
  ∀ record record', decodeNodeRecord earlier.packet = .ok record →
    decodeNodeRecord later.packet = .ok record' →
    record.sequence ≤ record'.sequence ∧
      (record.sequence = record'.sequence → earlier.packet = later.packet)

/-- The log against the last state written: each packet is readable and below the high-water sequence, or is the one packet there. -/
structure PutBelow (body : PublicationStateBody) (puts : List Submission) : Prop where
  readable : ∀ put ∈ puts, ∃ record, decodeNodeRecord put.packet = .ok record ∧
    (put.byShutdown = true → record.state = .withdrawn) ∧
    record.sequence ≤ body.highWaterSequence ∧
    (record.sequence = body.highWaterSequence →
      ∀ stored ∈ body.packets, stored.sequence = body.highWaterSequence → stored.packet = put.packet)
  ordered : (∀ put ∈ puts, put.AtHighWater) → puts.Pairwise Submission.Follows

variable {puts : List Submission}

theorem PutBelow.advance {old new : PublicationStateBody} (h : PutBelow old puts) (hadvance : old.Advance new) :
    PutBelow new puts := by
  refine ⟨fun put hput => ?_, h.ordered⟩
  obtain ⟨record, hrecord, hshutdown, hle, hsame⟩ := h.readable put hput
  refine ⟨record, hrecord, hshutdown, ?_⟩
  cases hadvance with
  | target revision locations hnewer => exact ⟨hle, hsame⟩
  | prepare packet hnone hreads hnewer =>
    have hlt := UInt64.lt_of_le_of_lt hle hnewer
    exact ⟨UInt64.le_of_lt hlt, fun heq => absurd (heq ▸ hlt) (UInt64.lt_irrefl _)⟩
  | commit packet hpending =>
    refine ⟨hle, fun heq stored hstored => hsame heq stored ?_⟩
    rw [PublicationStateBody.packets, List.mem_append, Option.mem_toList, Option.mem_toList] at hstored ⊢
    rcases hstored with hstored | hstored
    · exact .inr (hpending.trans hstored)
    · cases hstored
  | retire packet hpending =>
    refine ⟨hle, fun heq stored hstored => hsame heq stored ?_⟩
    rw [PublicationStateBody.packets, List.mem_append, Option.mem_toList, Option.mem_toList] at hstored ⊢
    exact hstored.imp_right fun hnone => nomatch hnone

variable {stored : StoredPacket}

theorem PutBelow.put {body : PublicationStateBody} (h : PutBelow body puts) (hbody : body.WellFormed)
    (hstored : stored ∈ body.packets) {closing : Bool} (hclosing : closing = true → stored.kind = .withdrawn) :
    PutBelow body (puts ++ [⟨stored.packet, body.highWaterSequence, closing⟩]) := by
  obtain ⟨⟨record, hrecord, hsequence, hkind⟩, hle⟩ := hbody.reads hstored
  constructor
  · intro put hput
    rcases List.mem_append.mp hput with hput | hput
    · exact h.readable put hput
    obtain rfl := List.mem_singleton.mp hput
    refine ⟨record, hrecord, fun hshutdown => hkind.trans (hclosing hshutdown), hsequence ▸ hle, ?_⟩
    intro heq other hother hotherSequence
    rw [hbody.unique hother hstored hotherSequence (hsequence.symm.trans heq)]
  · intro hhigh
    have hput : record.sequence = body.highWaterSequence :=
      hhigh _ (List.mem_append_right puts List.mem_cons_self) record hrecord
    refine List.pairwise_append.mpr ⟨h.ordered fun put hput => hhigh put (List.mem_append_left _ hput),
      List.pairwise_singleton _ _, fun earlier hearlier later hlater => ?_⟩
    obtain rfl := List.mem_singleton.mp hlater
    intro left right hleft hright
    obtain ⟨found, hfound, -, hbelow, hsame⟩ := h.readable earlier hearlier
    obtain rfl := Except.ok.inj (hfound.symm.trans hleft)
    obtain rfl := Except.ok.inj (hrecord.symm.trans hright)
    rw [hput]
    exact ⟨hbelow, fun heq => (hsame heq stored hstored (hsequence.symm.trans hput)).symm⟩

variable {now : UInt64}

theorem nextSequence_newer {sequence : UInt64} {state : PublicationStateBody} (hnow : 0 < now)
    (h : nextSequence now state.lastSequence = .ok sequence) : state.highWaterSequence < sequence := by
  unfold PublicationStateBody.lastSequence at h
  by_cases hzero : state.highWaterSequence = 0
  · rw [if_neg (not_not.mpr hzero)] at h
    obtain rfl := Except.ok.inj h
    rw [hzero]
    exact hnow
  rw [if_pos hzero] at h
  unfold nextSequence at h
  dsimp only at h
  by_cases hlast : state.highWaterSequence = UInt64.ofNat (2 ^ 64 - 1)
  · rw [if_pos hlast] at h
    cases h
  rw [if_neg hlast] at h
  obtain rfl := Except.ok.inj h
  have hadd : (state.highWaterSequence + 1).toNat = state.highWaterSequence.toNat + 1 := by
    have hne : state.highWaterSequence.toNat ≠ 2 ^ 64 - 1 := fun heq =>
      hlast (UInt64.toNat_inj.mp (heq.trans (by decide)))
    have hlt := state.highWaterSequence.toNat_lt
    rw [UInt64.toNat_add, UInt64.toNat_one, Nat.mod_eq_of_lt]
    omega
  have hroom : state.highWaterSequence < state.highWaterSequence + 1 := by
    rw [UInt64.lt_iff_toNat_lt, hadd]
    omega
  refine UInt64.lt_of_lt_of_le hroom ?_
  change _ ≤ if now ≤ state.highWaterSequence + 1 then state.highWaterSequence + 1 else now
  split
  · exact UInt64.le_refl _
  · exact UInt64.le_of_lt (UInt64.not_le.mp ‹_›)

/-! ### The effects -/

variable {P E : PublicationSession → Prop} {α : Type}

theorem ensures_ask {Q : α → PublicationSession → Prop} {select : PublicationAnswer → Option α}
    (h : ∀ session answer script value, P session → session.script = answer :: script → select answer = some value → Q value { session with script })
    (hstop : ∀ session, P session → E session) : Ensures P (ask select) Q E := by
  refine ensures_get_bind fun seen => ?_
  cases hscript : seen.script with
  | nil => exact ensures_throw fun state hstate => hstop state hstate.1
  | cons answer script =>
    cases hselect : select answer with
    | none =>
      simp only [hselect]
      exact ensures_throw fun state hstate => hstop state hstate.1
    | some value =>
      simp only [hselect]
      refine (ensures_modify (Q := fun _ => Q value) ?_).bind fun _ => ensures_pure fun _ h => h
      rintro state ⟨hstate, rfl⟩
      exact h state answer script value hstate hscript hselect

theorem ensures_lift {Q : α → PublicationSession → Prop} {result : Except PublicationError α}
    (h : ∀ value session, result = .ok value → P session → Q value session)
    (hstop : ∀ session, P session → E session) : Ensures P (lift result) Q E := by
  cases result with
  | ok value => exact ensures_pure fun session hsession => h value session rfl hsession
  | error why => exact ensures_throw hstop

theorem ensures_ensureHealthy (hstop : ∀ session, P session → E session) :
    Ensures P ensureHealthy (fun _ session => P session ∧ session.poisoned = false) E := by
  refine ensures_get_bind fun seen => ?_
  by_cases hpoisoned : seen.poisoned
  · rw [if_pos hpoisoned]
    exact ensures_throw fun state hstate => hstop state hstate.1
  rw [if_neg hpoisoned]
  refine ensures_pure ?_
  rintro state ⟨hstate, rfl⟩
  exact ⟨hstate, Bool.not_eq_true _ ▸ hpoisoned⟩

/-! ### The files -/

variable [Blake3]

/-- The states written are a chain of successors, and the anchor witnesses the last of them or the one before. -/
structure PublicationDisk.Consistent (started : PublicationSettings → Prop) (identity : PublicationIdentity)
    (disk : PublicationDisk) : Prop where
  latest : disk.stateFile = disk.written.getLast?
  chain : disk.written.IsChain PublicationStateBody.Advance
  wellFormed : ∀ body ∈ disk.written, body.WellFormed
  owner : ∀ body ∈ disk.stateFile, body.identity = identity
  unwritten : disk.stateFile = none → ∀ anchor ∈ disk.anchorFile,
    ∃ settings, started settings ∧ anchor = .fromState (.fresh identity settings)
  witnessed : ∀ body ∈ disk.stateFile,
    ∃ seen ∈ disk.written, disk.anchorFile = some (.fromState seen) ∧ (seen = body ∨ seen.Advance body)

variable {started : PublicationSettings → Prop} {identity : PublicationIdentity} {disk : PublicationDisk}
  {old body : PublicationStateBody}

theorem PublicationDisk.Consistent.mem_written (h : disk.Consistent started identity)
    (hstate : disk.stateFile = some body) : body ∈ disk.written :=
  List.mem_of_getLast? (h.latest.symm.trans hstate)

theorem PublicationDisk.Consistent.advance (h : disk.Consistent started identity)
    (hstate : disk.stateFile = some old) (hadvance : old.Advance body)
    {anchor : PublicationAnchorBody} (hchoice : anchor = .fromState old ∨ anchor = .fromState body) :
    PublicationDisk.Consistent started identity
      { stateFile := some body, anchorFile := some anchor, written := disk.written ++ [body] } where
  latest := List.getLast?_concat.symm
  chain := by
    refine List.isChain_append.mpr ⟨h.chain, List.isChain_singleton body, ?_⟩
    intro last hlast next hnext
    have hold : last = old := Option.some.inj ((h.latest.trans hlast).symm.trans hstate)
    obtain rfl : next = body := (Option.some.inj hnext).symm
    rwa [hold]
  wellFormed := by
    intro next hnext
    rcases List.mem_append.mp hnext with hnext | hnext
    · exact h.wellFormed next hnext
    · obtain rfl := List.mem_singleton.mp hnext
      exact (h.wellFormed old (h.mem_written hstate)).advance hadvance
  owner := by
    rintro _ ⟨⟩
    exact hadvance.identity.trans (h.owner old hstate)
  unwritten := fun hnone => nomatch hnone
  witnessed := by
    rintro _ ⟨⟩
    rcases hchoice with rfl | rfl
    · exact ⟨old, List.mem_append_left _ (h.mem_written hstate), rfl, .inr hadvance⟩
    · exact ⟨body, List.mem_concat_self, rfl, .inl rfl⟩

theorem PublicationDisk.Consistent.begin (h : disk.Consistent started identity)
    (hnone : disk.stateFile = none) (settings : PublicationSettings) :
    PublicationDisk.Consistent started identity
      { stateFile := some (.fresh identity settings)
        anchorFile := some (.fromState (.fresh identity settings))
        written := disk.written ++ [.fresh identity settings] } where
  latest := List.getLast?_concat.symm
  chain := by
    have hempty : disk.written = [] := List.getLast?_eq_none_iff.mp (h.latest.symm.trans hnone)
    rw [hempty]
    exact List.isChain_singleton _
  wellFormed := by
    have hempty : disk.written = [] := List.getLast?_eq_none_iff.mp (h.latest.symm.trans hnone)
    intro next hnext
    rw [hempty] at hnext
    obtain rfl := List.mem_singleton.mp hnext
    exact PublicationStateBody.wellFormed_fresh identity settings
  owner := by
    rintro _ ⟨⟩
    rfl
  unwritten := fun hsome => nomatch hsome
  witnessed := by
    rintro _ ⟨⟩
    exact ⟨_, List.mem_concat_self, rfl, .inl rfl⟩

/-- What holds of the files, the log and the script whoever runs. -/
structure PublicationSession.Kept (started : PublicationSettings → Prop) (session : PublicationSession) :
    Prop where
  disk : session.disk.Consistent started session.identity
  silent : session.disk.stateFile = none → session.puts = []
  puts : ∀ body ∈ session.disk.stateFile, PutBelow body session.puts
  ticking : ∀ now, .clock (.ok now) ∈ session.script → 0 < now

/-- A process that is not poisoned works from the last state, which the anchor witnesses. -/
structure PublicationSession.Sound (started : PublicationSettings → Prop) (closing : Bool)
    (session : PublicationSession) : Prop extends session.Kept started where
  current : session.poisoned = false → session.disk.stateFile = some session.state ∧
    session.disk.anchorFile = some (.fromState session.state)
  latch : session.closing = closing

variable {closing : Bool} {session : PublicationSession} {answer : PublicationAnswer}

theorem PublicationSession.Kept.pop (h : session.Kept started) {script : List PublicationAnswer}
    (hscript : session.script = answer :: script) : { session with script }.Kept started :=
  { h with ticking := fun now hnow => h.ticking now (hscript ▸ List.mem_cons_of_mem answer hnow) }

theorem PublicationSession.Sound.pop (h : session.Sound started closing) {script : List PublicationAnswer}
    (hscript : session.script = answer :: script) : { session with script }.Sound started closing :=
  { h.toKept.pop hscript with current := h.current, latch := h.latch }

/-! ### Writing -/

/-- A write leaves both files new, both as they were, or poisons the store in between. -/
theorem ensures_write {Q : Unit → PublicationSession → Prop}
    (hpop : ∀ session answer script, P session → session.script = answer :: script → P { session with script })
    (hstop : ∀ session, P session → E session)
    (hdone : ∀ session, P session → session.poisoned = false →
      Q () (putAnchor (.fromState body) (putState body session)))
    (hhalf : ∀ session, P session → session.poisoned = false → E (poison (putState body session)))
    (hboth : ∀ session, P session → session.poisoned = false →
      E (poison (putAnchor (.fromState body) (putState body session)))) :
    Ensures P (write body) Q E := by
  refine (ensures_ensureHealthy hstop).bind fun _ => ?_
  refine (ensures_ask (Q := fun _ session => P session ∧ session.poisoned = false) ?_ ?_).bind
    fun outcome => ?_
  · intro session answer script value hsession hscript _
    exact ⟨hpop session answer script hsession.1 hscript, hsession.2⟩
  · exact fun session hsession => hstop session hsession.1
  · cases outcome with
    | done => exact ensures_modify fun session hsession => hdone session hsession.1 hsession.2
    | failed why => exact ensures_throw fun session hsession => hstop session hsession.1
    | stateOnly why =>
      refine (ensures_modify (Q := fun _ => E) fun session hsession => ?_).bind fun _ =>
        ensures_throw fun _ h => h
      exact hhalf session hsession.1 hsession.2
    | stateAndAnchor why =>
      refine (ensures_modify (Q := fun _ => E) fun session hsession => ?_).bind fun _ =>
        ensures_throw fun _ h => h
      exact hboth session hsession.1 hsession.2

theorem PublicationSession.Sound.putState (h : session.Sound started closing)
    (hhealthy : session.poisoned = false) (hadvance : session.state.Advance body) :
    (Publish.putState body session).Kept started ∧
      (putAnchor (.fromState body) (Publish.putState body session)).Kept started := by
  obtain ⟨hstate, hanchor⟩ := h.current hhealthy
  have hputs : ∀ next ∈ some body, PutBelow next session.puts := by
    rintro _ ⟨⟩
    exact (h.puts session.state hstate).advance hadvance
  refine ⟨⟨?_, fun hnone => (nomatch hnone), hputs, h.ticking⟩,
    ⟨h.disk.advance hstate hadvance (.inr rfl), fun hnone => (nomatch hnone), hputs, h.ticking⟩⟩
  have hdisk := h.disk.advance hstate hadvance (.inl rfl)
  rw [← hanchor] at hdisk
  exact hdisk

def Working (started : PublicationSettings → Prop) (closing : Bool) (body : PublicationStateBody)
    (session : PublicationSession) : Prop :=
  session.Sound started closing ∧ session.poisoned = false ∧ session.state = body

theorem Working.wellFormed (h : Working started closing body session) : body.WellFormed := by
  obtain ⟨hsound, hhealthy, rfl⟩ := h
  exact hsound.disk.wellFormed _ (hsound.disk.mem_written (hsound.current hhealthy).1)

theorem Working.pop (h : Working started closing body session) {script : List PublicationAnswer}
    (hscript : session.script = answer :: script) : Working started closing body { session with script } :=
  ⟨h.1.pop hscript, h.2⟩

variable {candidate : PublicationStateBody}

theorem ensures_commitState :
    Ensures (fun session => session.Sound started closing ∧ session.state.Advance candidate)
      (commitState candidate) (fun _ => Working started closing candidate)
      (fun session => session.Sound started closing) := by
  refine Ensures.bind (Q := fun _ session => session.Kept started ∧ session.closing = closing ∧
    session.poisoned = false ∧ session.disk.stateFile = some candidate ∧
    session.disk.anchorFile = some (.fromState candidate)) ?_ fun _ => ?_
  · refine ensures_write ?_ (fun session hsession => hsession.1) ?_ ?_ ?_
    · intro session answer script hsession hscript
      exact ⟨hsession.1.pop hscript, hsession.2⟩
    · intro session hsession hhealthy
      exact ⟨(hsession.1.putState hhealthy hsession.2).2, hsession.1.latch, hhealthy, rfl, rfl⟩
    · intro session hsession hhealthy
      have hkept := (hsession.1.putState hhealthy hsession.2).1
      exact { hkept with current := fun hclean => (nomatch hclean), latch := hsession.1.latch }
    · intro session hsession hhealthy
      have hkept := (hsession.1.putState hhealthy hsession.2).2
      exact { hkept with current := fun hclean => (nomatch hclean), latch := hsession.1.latch }
  · refine ensures_modify ?_
    rintro session ⟨hkept, hlatch, hhealthy, hstate, hanchor⟩
    exact ⟨{ hkept with current := fun _ => ⟨hstate, hanchor⟩, latch := hlatch }, hhealthy, rfl⟩

theorem ensures_commitState_of_working (hadvance : body.Advance candidate) :
    Ensures (Working started closing body) (commitState candidate)
      (fun _ => Working started closing candidate) (fun session => session.Sound started closing) := by
  refine ensures_commitState.weaken ?_ (fun _ _ h => h) (fun _ h => h)
  rintro session ⟨hsound, -, rfl⟩
  exact ⟨hsound, hadvance⟩

/-! ### The calls -/

theorem ensures_wallUnixMicros : Ensures (Working started closing body) wallUnixMicros
    (fun now session => Working started closing body session ∧ 0 < now)
    (fun session => session.Sound started closing) := by
  refine (ensures_ask (Q := fun reading session => Working started closing body session ∧
    ∀ now, reading = .ok now → 0 < now) ?_ fun _ h => h.1).bind fun reading => ?_
  · intro session answer script reading hsession hscript hselect
    refine ⟨hsession.pop hscript, fun now hnow => hsession.1.ticking now ?_⟩
    cases answer with
    | clock value =>
      obtain rfl := Option.some.inj hselect
      rw [hscript, hnow]
      exact List.mem_cons_self
    | _ => cases hselect
  · refine ensures_lift ?_ fun _ h => h.1.1
    intro now session hnow hsession
    exact ⟨hsession.1, hsession.2 now hnow⟩

theorem ensures_putExact (hstored : stored ∈ body.packets) (hclosing : closing = true → stored.kind = .withdrawn) :
    Ensures (Working started closing body) (putExact stored.packet)
      (fun _ => Working started closing body) (fun session => session.Sound started closing) := by
  refine (ensures_modify (Q := fun _ => Working started closing body) ?_).bind fun _ => ?_
  · rintro session ⟨hsound, hhealthy, rfl⟩
    obtain ⟨hstate, -⟩ := hsound.current hhealthy
    refine ⟨{ hsound with silent := fun hnone => ?_, puts := ?_ }, hhealthy, rfl⟩
    · exact nomatch hstate.symm.trans hnone
    · intro latest hlatest
      obtain rfl := Option.some.inj (hlatest.symm.trans hstate)
      have hput := (hsound.puts _ hstate).put (hsound.disk.wellFormed _ (hsound.disk.mem_written hstate)) hstored hclosing
      rw [← hsound.latch] at hput
      exact hput
  · refine (ensures_ask (Q := fun _ => Working started closing body) ?_ fun _ h => h.1).bind fun reply => ?_
    · exact fun session answer script _ hsession hscript _ => hsession.pop hscript
    · cases reply with
      | error why => exact ensures_throw fun _ h => h.1
      | ok reply =>
        dsimp only
        split
        · exact ensures_pure fun _ h => h
        · exact ensures_throw fun _ h => h.1

theorem ensures_verifyVisible (expected : List UInt8) :
    Ensures (Working started closing body) (verifyVisible expected)
      (fun _ => Working started closing body) (fun session => session.Sound started closing) := by
  refine ensures_get_bind fun seen => ?_
  refine (ensures_ask (Q := fun _ => Working started closing body) ?_ fun _ h => h.1.1).bind fun reply => ?_
  · exact fun session answer script _ hsession hscript _ => hsession.1.pop hscript
  · cases reply with
    | error why => exact ensures_throw fun _ h => h.1
    | ok reply => exact ensures_lift (fun _ _ _ h => h) fun _ h => h.1

theorem ensures_get_working {Q : α → PublicationSession → Prop} {rest : PublicationSession → Publish α}
    (h : ∀ seen, seen.state = body → Ensures (Working started closing body) (rest seen) Q E) :
    Ensures (Working started closing body) (get >>= rest) Q E :=
  fun session hsession => h session hsession.2.2 session hsession

variable {pending : StoredPacket}

theorem ensures_retirePending (hpending : body.pending = some pending) :
    Ensures (Working started closing body) retirePending
      (fun _ => Working started closing { body with pending := none })
      (fun session => session.Sound started closing) := by
  refine ensures_get_working fun seen hseen => ?_
  subst hseen
  exact ensures_commitState_of_working (.retire pending hpending)

theorem ensures_submitPending (hpending : body.pending = some pending)
    (hclosing : closing = true → pending.kind = .withdrawn) :
    Ensures (Working started closing body) submitPending
      (fun _ => Working started closing { body with committed := some pending, pending := none })
      (fun session => session.Sound started closing) := by
  refine ensures_get_working fun seen hseen => ?_
  subst hseen
  simp only [hpending]
  have hstored : pending ∈ seen.state.packets :=
    List.mem_append_right _ (Option.mem_toList.mpr hpending)
  refine (ensures_putExact hstored hclosing).bind fun _ => ?_
  refine (ensures_verifyVisible pending.packet).bind fun _ => ?_
  refine (ensures_lift (Q := fun _ => Working started closing seen.state) (fun _ _ _ h => h)
    fun _ h => h.1).bind fun record => ?_
  refine ensures_get_working fun last hlast => ?_
  rw [hlast]
  exact (ensures_commitState_of_working (.commit pending hpending)).bind fun _ => ensures_pure fun _ h => h

def Settled (started : PublicationSettings → Prop) (closing : Bool) (session : PublicationSession) : Prop :=
  ∃ body, Working started closing body session ∧ body.pending = none

theorem ensures_recoverPending : Ensures (Working started false body) recoverPending
    (fun _ => Settled started false) (fun session => session.Sound started false) := by
  refine ensures_get_working fun seen hseen => ?_
  subst hseen
  cases hpending : seen.state.pending with
  | none => exact ensures_pure fun session hsession => ⟨_, hsession, hpending⟩
  | some pending =>
    have hretired : Ensures (Working started false seen.state) (do retirePending; return none)
        (fun (_ : Option PublicationReceipt) => Settled started false)
        (fun session => session.Sound started false) :=
      (ensures_retirePending hpending).bind fun _ => ensures_pure fun _ h => ⟨_, h, rfl⟩
    dsimp only
    split
    · exact hretired
    refine ensures_wallUnixMicros.bind fun now => ?_
    refine (ensures_lift (Q := fun _ => Working started false seen.state) (fun _ _ _ h => h.1)
      fun _ h => h.1.1).bind fun minimumRemaining => ?_
    split
    · exact hretired
    · have hquiet : false = true → pending.kind = .withdrawn := fun h => nomatch h
      exact (ensures_submitPending hpending hquiet).bind fun _ => ensures_pure fun _ h => ⟨_, h, rfl⟩

theorem ensures_retireInterrupted : Ensures (Working started closing body) retireInterrupted
    (fun _ => Settled started closing) (fun session => session.Sound started closing) := by
  refine ensures_get_working fun seen hseen => ?_
  subst hseen
  cases hpending : seen.state.pending with
  | none => exact ensures_pure fun session hsession => ⟨_, hsession, hpending⟩
  | some pending => exact (ensures_retirePending hpending).bind fun _ => ensures_pure fun _ h => ⟨_, h, rfl⟩

variable {locations : List Location}

theorem ensures_reuseCommitted {margin : UInt64} (hclosing : closing = true → locations = []) :
    Ensures (Working started closing body) (reuseCommitted locations now margin)
      (fun _ => Working started closing body) (fun session => session.Sound started closing) := by
  refine ensures_get_working fun seen hseen => ?_
  subst hseen
  cases hcommitted : seen.state.committed with
  | none => exact ensures_pure fun _ h => h
  | some committed =>
    dsimp only
    have hstored : committed ∈ seen.state.packets :=
      List.mem_append_left _ (Option.mem_toList.mpr hcommitted)
    refine (ensures_lift (Q := fun record session => Working started closing seen.state session ∧
      decodeNodeRecord committed.packet = .ok record) ?_ fun _ h => h.1).bind fun record => ?_
    · intro record session hrecord hsession
      exact ⟨hsession, Fallible.mapError_eq_ok_iff.mp hrecord⟩
    · split
      · rename_i hserves
        rintro session ⟨hsession, hdecode⟩
        have hkind : closing = true → committed.kind = .withdrawn := by
          intro hclosed
          obtain ⟨found, hfound, -, hfoundKind⟩ := (hsession.wellFormed.reads hstored).1
          obtain rfl := Except.ok.inj (hdecode.symm.trans hfound)
          have hstate := (of_decide_eq_true hserves).1
          rw [hclosing hclosed] at hstate
          exact hfoundKind.symm.trans hstate
        refine Ensures.bind (ensures_putExact hstored hkind) (fun _ => ?_) session hsession
        exact (ensures_verifyVisible committed.packet).bind fun _ => ensures_pure fun _ h => h
      · exact ensures_pure fun _ h => h.1

theorem ensures_preparePending (hnow : 0 < now) (hnone : body.pending = none) :
    Ensures (Working started closing body) (preparePending locations now)
      (fun _ session => ∃ prepared, Working started closing prepared session ∧
        ∃ pending, prepared.pending = some pending ∧ pending.kind = desiredState locations)
      (fun session => session.Sound started closing) := by
  refine ensures_get_working fun seen hseen => ?_
  subst hseen
  refine (ensures_lift (Q := fun sequence session => Working started closing seen.state session ∧
    seen.state.highWaterSequence < sequence) ?_ fun _ h => h.1).bind fun sequence => ?_
  · exact fun sequence session hsequence hsession => ⟨hsession, nextSequence_newer hnow hsequence⟩
  refine (ensures_lift (fun _ _ _ h => h) fun _ h => h.1.1).bind fun ttlMicros => ?_
  refine (ensures_lift (fun _ _ _ h => h) fun _ h => h.1.1).bind fun expires => ?_
  refine (ensures_lift (Q := fun packet session => (Working started closing seen.state session ∧
    seen.state.highWaterSequence < sequence) ∧
    encodeNodeRecord (nextRecord seen locations sequence expires) = .ok packet) ?_ fun _ h => h.1.1).bind
    fun packet => ?_
  · exact fun packet session hpacket hsession => ⟨hsession, Fallible.mapError_eq_ok_iff.mp hpacket⟩
  · rintro session ⟨⟨hsession, hnewer⟩, hencode⟩
    obtain ⟨canonical, hdecode⟩ := NodeRecordCodec.decode_encode hencode
    have hprepare := PublicationStateBody.Advance.prepare
      ⟨sequence, seen.state.desiredRevision, expires, desiredState locations, packet⟩ hnone
      ⟨_, hdecode, rfl, rfl⟩ hnewer
    refine (ensures_commitState_of_working hprepare).weaken (fun _ h => h) ?_ (fun _ h => h) session hsession
    exact fun _ _ h => ⟨_, h, _, rfl, rfl⟩

theorem ensures_transitionLocked {recoverFirst : Bool} (hclosing : closing = true → locations = [])
    (hrecover : recoverFirst = true → closing = false) :
    Ensures (fun session => session.Sound started closing) (transitionLocked locations recoverFirst)
      (fun _ session => session.Sound started closing) (fun session => session.Sound started closing) := by
  refine (ensures_ensureHealthy fun _ h => h).bind fun _ => ?_
  refine Ensures.bind (Q := fun _ => Settled started closing) ?_ fun recovered => ?_
  · rintro session ⟨hsound, hhealthy⟩
    cases recoverFirst with
    | true =>
      obtain rfl := hrecover rfl
      exact ensures_recoverPending session ⟨hsound, hhealthy, rfl⟩
    | false => exact ensures_retireInterrupted session ⟨hsound, hhealthy, rfl⟩
  refine ensures_exists fun body => ?_
  rintro session ⟨hsession, hnone⟩
  refine Ensures.bind (P := Working started closing body) ensures_wallUnixMicros (fun now => ?_) session hsession
  rintro session ⟨hsession, hnow⟩
  refine ensures_get_working (fun seen _ => ?_) session hsession
  refine (ensures_lift (Q := fun _ => Working started closing body) (fun _ _ _ h => h) fun _ h => h.1).bind
    fun reserve => ?_
  refine (ensures_lift (Q := fun _ => Working started closing body) (fun _ _ _ h => h) fun _ h => h.1).bind
    fun startMargin => ?_
  cases recovered.filter fun receipt => serves seen locations now reserve receipt.record with
  | some receipt => exact ensures_pure fun _ h => h.1
  | none =>
    refine (ensures_reuseCommitted hclosing).bind fun reused => ?_
    cases reused with
    | some receipt => exact ensures_pure fun _ h => h.1
    | none =>
      refine (ensures_preparePending hnow hnone).bind fun _ => ?_
      refine ensures_exists fun prepared => ?_
      rintro session ⟨hworking, pending, hpending, hkind⟩
      have hwithdrawn : closing = true → pending.kind = .withdrawn := by
        intro hclosed
        rw [hkind, hclosing hclosed]
        rfl
      exact (ensures_submitPending hpending hwithdrawn).weaken (fun _ h => h) (fun _ _ h => h.1)
        (fun _ h => h) session hworking

theorem ensures_persistLatestDesired : Ensures (fun session => session.Sound started closing)
    persistLatestDesired (fun _ session => session.Sound started closing)
    (fun session => session.Sound started closing) := by
  refine Ensures.bind (Q := fun _ session => session.Sound started closing) ?_ fun _ => ?_
  · refine ensures_get_bind fun seen => ?_
    by_cases hnewer : seen.state.desiredRevision < seen.desiredIntent.1
    · rw [if_pos hnewer]
      refine ensures_commitState.weaken ?_ (fun _ _ h => h.1) (fun _ h => h)
      rintro session ⟨hsound, rfl⟩
      exact ⟨hsound, .target _ _ hnewer⟩
    · rw [if_neg hnewer]
      exact ensures_pure fun _ h => h.1
  · exact ensures_get_bind fun seen => ensures_lift (fun _ _ _ h => h.1) fun _ h => h.1

theorem ensures_refreshCurrent : Ensures (fun session => session.Sound started closing) refreshCurrent
    (fun _ session => session.Sound started closing) (fun session => session.Sound started closing) := by
  refine ensures_get_bind fun seen => ?_
  by_cases hclosing : seen.closing
  · rw [if_pos hclosing]
    exact ensures_throw fun _ h => h.1
  rw [if_neg hclosing]
  rintro session ⟨hsound, rfl⟩
  have hopen : closing = false := by
    rw [← hsound.latch]
    exact Bool.not_eq_true _ ▸ hclosing
  refine ensures_persistLatestDesired.bind (fun locations => ?_) session hsound
  refine ensures_transitionLocked (fun hclosed => ?_) fun _ => hopen
  rw [hopen] at hclosed
  cases hclosed

theorem ensures_recordDesiredIntent (locations : List Location) :
    Ensures (fun session => session.Sound started closing) (recordDesiredIntent locations)
      (fun _ session => session.Sound started closing) (fun session => session.Sound started closing) := by
  refine ensures_get_bind fun seen => ?_
  by_cases hclosing : seen.closing
  · rw [if_pos hclosing]
    exact ensures_throw fun _ h => h.1
  rw [if_neg hclosing]
  refine (ensures_lift (Q := fun _ session => session.Sound started closing) (fun _ _ _ h => h.1)
    fun _ h => h.1).bind fun locations => ?_
  refine (ensures_lift (Q := fun _ session => session.Sound started closing) (fun _ _ _ h => h)
    fun _ h => h).bind fun desiredIntent => ?_
  exact ensures_modify fun session h => { h with }

theorem ensures_withdrawForShutdown : Ensures (fun session => session.Sound started closing)
    withdrawForShutdown (fun _ session => ∃ closing, session.Sound started closing)
    (fun session => ∃ closing, session.Sound started closing) := by
  have hclosed : Ensures (fun session => session.Sound started closing) withdrawForShutdown
      (fun _ session => session.Sound started true) (fun session => session.Sound started true) := by
    refine Ensures.bind (Q := fun _ session => session.Sound started true) ?_ fun _ => ?_
    · refine (ensures_modify (Q := fun _ session => session.Sound started true) fun session h =>
        { h with latch := rfl }).bind fun _ => ?_
      refine ensures_get_bind fun seen => ?_
      refine (ensures_lift (Q := fun _ session => session.Sound started true) (fun _ _ _ h => h.1)
        fun _ h => h.1).bind fun desiredIntent => ?_
      exact ensures_modify fun session h => { h with }
    · refine ensures_persistLatestDesired.bind fun locations => ?_
      by_cases hempty : locations.isEmpty
      · rw [if_pos hempty]
        exact ensures_transitionLocked (fun _ => List.isEmpty_iff.mp hempty) fun h => nomatch h
      · rw [if_neg hempty]
        exact ensures_throw fun _ h => h
  exact hclosed.weaken (fun _ h => h) (fun _ _ h => ⟨true, h⟩) fun _ h => ⟨true, h⟩

/-! ### Opening -/

structure Opening (started : PublicationSettings → Prop) (hadState : Bool) (body : PublicationStateBody)
    (session : PublicationSession) : Prop where
  kept : session.Kept started
  healthy : session.poisoned = false
  latch : session.closing = false
  started : started session.settings
  found : hadState = true → session.disk.stateFile = some body
  made : hadState = false → session.disk.stateFile = none ∧
    body = .fresh session.identity session.settings

variable {hadState : Bool}

theorem Opening.pop (h : Opening started hadState body session) {script : List PublicationAnswer}
    (hscript : session.script = answer :: script) :
    Opening started hadState body { session with script } :=
  { h with kept := h.kept.pop hscript }

theorem Opening.putAnchor (h : Opening started hadState body session) :
    Opening started hadState body (Publish.putAnchor (.fromState body) session) := by
  have hdisk : (Publish.putAnchor (.fromState body) session).disk.Consistent started session.identity := by
    refine { h.kept.disk with unwritten := fun hnone => ?_, witnessed := fun found hfound => ?_ }
    · cases hadState with
      | true => exact nomatch (h.found rfl).symm.trans hnone
      | false =>
        rintro _ ⟨⟩
        exact ⟨session.settings, h.started, by rw [(h.made rfl).2]⟩
    · cases hadState with
      | true =>
        obtain rfl := Option.some.inj (hfound.symm.trans (h.found rfl))
        exact ⟨found, h.kept.disk.mem_written hfound, rfl, .inl rfl⟩
      | false => exact nomatch hfound.symm.trans (h.made rfl).1
  exact { h with kept := { h.kept with disk := hdisk } }

theorem ensures_writeAnchor : Ensures (Opening started hadState body) (writeAnchor (.fromState body))
    (fun _ session => Opening started hadState body session ∧
      session.disk.anchorFile = some (.fromState body))
    (fun session => session.Kept started) := by
  refine (ensures_ask (Q := fun _ => Opening started hadState body) ?_ fun _ h => h.kept).bind
    fun outcome => ?_
  · exact fun session answer script _ hsession hscript _ => hsession.pop hscript
  · cases outcome with
    | done => exact ensures_modify fun session hsession => ⟨hsession.putAnchor, rfl⟩
    | failed why => exact ensures_throw fun _ h => h.kept
    | renamed why =>
      exact (ensures_modify (Q := fun _ => Opening started hadState body) fun _ h => h.putAnchor).bind
        fun _ => ensures_throw fun _ h => h.kept

theorem ensures_validateOrInitializeAnchor :
    Ensures (Opening started hadState body) (validateOrInitializeAnchor body hadState)
      (fun _ session => Opening started hadState body session ∧
        session.disk.anchorFile = some (.fromState body))
      (fun session => session.Kept started) := by
  refine ensures_get_bind fun seen => ?_
  cases hanchor : seen.disk.anchorFile with
  | none =>
    dsimp only
    split
    · exact ensures_throw fun _ h => h.1.kept
    · exact ensures_writeAnchor.weaken (fun _ h => h.1) (fun _ _ h => h) fun _ h => h
  | some anchor =>
    refine (ensures_lift (Q := fun _ session => Opening started hadState body session ∧ session = seen)
      (fun _ _ _ h => h) fun _ h => h.1.kept).bind fun _ => ?_
    by_cases hcurrent : PublicationAnchorBody.fromState body = anchor
    · rw [if_neg (not_not.mpr hcurrent)]
      refine ensures_pure ?_
      rintro session ⟨hopening, rfl⟩
      exact ⟨hopening, hanchor.trans (congrArg some hcurrent.symm)⟩
    · rw [if_pos hcurrent]
      exact ensures_writeAnchor.weaken (fun _ h => h.1) (fun _ _ h => h) fun _ h => h

def Opened (started : PublicationSettings → Prop) (body : PublicationStateBody)
    (session : PublicationSession) : Prop :=
  session.Kept started ∧ session.closing = false ∧ session.disk.stateFile = some body ∧
    session.disk.anchorFile = some (.fromState body)

theorem ensures_write_first : Ensures (fun session => Opening started false body session ∧
      session.disk.anchorFile = some (.fromState body)) (write body)
    (fun _ => Opened started body) (fun session => session.Kept started) := by
  have hfirst : ∀ session : PublicationSession, (Opening started false body session ∧
      session.disk.anchorFile = some (.fromState body)) →
      (putState body session).Kept started ∧
        (putAnchor (.fromState body) (putState body session)).Kept started := by
    rintro session ⟨hopening, hanchor⟩
    obtain ⟨hnone, rfl⟩ := hopening.made rfl
    have hputs : ∀ next ∈ some (PublicationStateBody.fresh session.identity session.settings),
        PutBelow next session.puts := by
      intro next _
      rw [hopening.kept.silent hnone]
      exact ⟨fun _ h => (nomatch h), fun _ => .nil⟩
    have hdisk := hopening.kept.disk.begin hnone session.settings
    refine ⟨⟨?_, fun h => (nomatch h), hputs, hopening.kept.ticking⟩,
      ⟨hdisk, fun h => (nomatch h), hputs, hopening.kept.ticking⟩⟩
    rw [← hanchor] at hdisk
    exact hdisk
  refine ensures_write ?_ (fun _ h => h.1.kept) ?_ ?_ ?_
  · exact fun session answer script h hscript => ⟨h.1.pop hscript, h.2⟩
  · exact fun session h _ => ⟨(hfirst session h).2, h.1.latch, rfl, rfl⟩
  · intro session h _
    exact { (hfirst session h).1 with }
  · intro session h _
    exact { (hfirst session h).2 with }

theorem ensures_openStore : Ensures (fun session => session.Kept started ∧ session.poisoned = false ∧
      session.closing = false ∧ started session.settings)
    openStore (Opened started) (fun session => session.Kept started) := by
  refine ensures_get_bind fun seen => ?_
  cases hstate : seen.disk.stateFile with
  | some body =>
    refine (ensures_lift (Q := fun _ => Opening started true body) ?_ fun _ h => h.1.1).bind fun _ => ?_
    · rintro _ session - ⟨⟨hkept, hhealthy, hclosing, hstarted⟩, rfl⟩
      exact ⟨hkept, hhealthy, hclosing, hstarted, fun _ => hstate, fun h => nomatch h⟩
    refine ensures_validateOrInitializeAnchor.bind fun _ => ensures_pure fun session hsession => ?_
    exact ⟨hsession.1.kept, hsession.1.latch, hsession.1.found rfl, hsession.2⟩
  | none =>
    refine Ensures.bind (Q := fun _ session => Opening started false
      (.fresh seen.identity seen.settings) session ∧ session.disk.anchorFile =
        some (.fromState (.fresh seen.identity seen.settings))) ?_ fun _ => ?_
    · refine ensures_validateOrInitializeAnchor.weaken ?_ (fun _ _ h => h) fun _ h => h
      rintro session ⟨⟨hkept, hhealthy, hclosing, hstarted⟩, rfl⟩
      exact ⟨hkept, hhealthy, hclosing, hstarted, fun h => (nomatch h), fun _ => ⟨hstate, rfl⟩⟩
    · exact ensures_write_first.bind fun _ => ensures_pure fun _ h => h

theorem ensures_openPublisher : Ensures (fun session => session.Kept started ∧ session.poisoned = false ∧
      session.closing = false ∧ started session.settings)
    openPublisher (fun _ session => session.Sound started false) (fun session => session.Kept started) := by
  refine ensures_openStore.bind fun body => ?_
  refine (ensures_lift (Q := fun _ => Opened started body) (fun _ _ _ h => h) fun _ h => h.1).bind
    fun desired => ?_
  refine ensures_modify ?_
  rintro session ⟨hkept, hclosing, hstate, hanchor⟩
  exact { hkept with current := fun _ => ⟨hstate, hanchor⟩, latch := hclosing }

/-! ### Whole histories -/

def PublisherEvent.script : PublisherEvent → List PublicationAnswer
  | .start _ script => script
  | .refresh script => script
  | .shutdown script => script
  | _ => []

def PublisherEvent.Ticking (event : PublisherEvent) : Prop :=
  ∀ now, .clock (.ok now) ∈ event.script → 0 < now

namespace PublisherHost

def Sound (started : PublicationSettings → Prop) (host : PublisherHost) : Prop :=
  host.session.Kept started ∧ (host.running = true → ∃ closing, host.session.Sound started closing)

omit [Blake3] in
theorem satisfies_call {α : Type} {program : Publish α} {session : PublicationSession}
    {P E : PublicationSession → Prop} (h : Ensures P program (fun _ => E) E) (hsession : P session) :
    E (call program session) := by
  have hprogram := h session hsession
  unfold call
  cases hresult : program session with
  | ok value next =>
    rw [hresult] at hprogram
    exact hprogram
  | error why next =>
    rw [hresult] at hprogram
    exact hprogram

variable {host : PublisherHost}

theorem sound_of_call {α : Type} {program : Publish α} {session : PublicationSession}
    (hsession : ∃ closing, session.Sound started closing)
    (hprogram : ∀ closing, Ensures (fun session => session.Sound started closing) program
      (fun _ session => ∃ closing, session.Sound started closing)
      (fun session => ∃ closing, session.Sound started closing)) (running : Bool) :
    Sound started ⟨running, call program session⟩ := by
  obtain ⟨closing, hsound⟩ := hsession
  obtain ⟨later, hlater⟩ := satisfies_call (hprogram closing) hsound
  exact ⟨hlater.toKept, fun _ => ⟨later, hlater⟩⟩

theorem Sound.withScript (h : host.Sound started) (hrunning : host.running = true)
    {script : List PublicationAnswer} (hticking : ∀ now, .clock (.ok now) ∈ script → 0 < now) :
    ∃ closing, { host.session with script }.Sound started closing := by
  obtain ⟨closing, hsound⟩ := h.2 hrunning
  exact ⟨closing, { hsound with ticking := hticking }⟩

theorem Sound.step (h : host.Sound started) {event : PublisherEvent} (hticking : event.Ticking)
    (hstarted : ∀ settings script, event = .start settings script → started settings) :
    (host.step event).Sound started := by
  cases event with
  | start settings script =>
    rw [PublisherHost.step]
    split
    · exact h
    have hboot : (host.boot settings script).Kept started :=
      ⟨h.1.disk, h.1.silent, h.1.puts, hticking⟩
    have hopen := ensures_openPublisher (host.boot settings script)
      ⟨hboot, rfl, rfl, hstarted settings script rfl⟩
    unfold opens call
    cases hresult : openPublisher (host.boot settings script) with
    | ok value next =>
      rw [hresult] at hopen
      exact ⟨hopen.toKept, fun _ => ⟨false, hopen⟩⟩
    | error why next =>
      rw [hresult] at hopen
      exact ⟨hopen, fun hrunning => nomatch hrunning⟩
  | setDesired locations =>
    rw [PublisherHost.step]
    split
    · rename_i hrunning
      refine sound_of_call (h.2 hrunning) (fun closing => ?_) host.running
      exact (ensures_recordDesiredIntent locations).weaken (fun _ h => h) (fun _ _ h => ⟨closing, h⟩)
        fun _ h => ⟨closing, h⟩
    · exact h
  | refresh script =>
    rw [PublisherHost.step]
    split
    · rename_i hrunning
      refine sound_of_call (h.withScript hrunning hticking) (fun closing => ?_) host.running
      exact ensures_refreshCurrent.weaken (fun _ h => h) (fun _ _ h => ⟨closing, h⟩) fun _ h => ⟨closing, h⟩
    · exact h
  | shutdown script =>
    rw [PublisherHost.step]
    split
    · rename_i hrunning
      exact sound_of_call (h.withScript hrunning hticking) (fun _ => ensures_withdrawForShutdown) host.running
    · exact h
  | crash => exact ⟨h.1, fun hrunning => nomatch hrunning⟩

def StartedIn (events : List PublisherEvent) (settings : PublicationSettings) : Prop :=
  ∃ script, PublisherEvent.start settings script ∈ events

theorem sound_first (started : PublicationSettings → Prop) (identity : PublicationIdentity) :
    (first identity).Sound started := by
  refine ⟨⟨⟨rfl, .nil, fun _ h => (nomatch h), fun _ h => (nomatch h), fun _ _ h => (nomatch h),
    fun _ h => (nomatch h)⟩, fun _ => rfl, fun _ h => (nomatch h), fun _ h => (nomatch h)⟩, fun h => nomatch h⟩

theorem sound_run (identity : PublicationIdentity) {events : List PublisherEvent}
    (hticking : ∀ event ∈ events, event.Ticking) : (run identity events).Sound (StartedIn events) := by
  refine List.foldlRecOn events step (sound_first _ identity) fun host hhost event hevent => ?_
  refine hhost.step (hticking event hevent) fun settings script heq => ⟨script, ?_⟩
  rw [← heq]
  exact hevent

end PublisherHost

end History

end NixP2p
