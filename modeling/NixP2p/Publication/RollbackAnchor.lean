import NixP2p.Publication.Submissions

/-!
# The rollback anchor

Opening accepts a state that is the one witnessed or its successor, and refuses every earlier one: along the states written the revision and the high-water sequence never fall, and where neither rises a prepared packet has been settled. The one gap is the first anchor, which is written before the first state.
-/

namespace NixP2p

open Effect Publish

section Anchor

variable [NodeRecordCodec]

namespace PublicationStateBody

/-- A prepared packet was committed or given up, and nothing else happened. -/
structure Settles (old new : PublicationStateBody) (packet : StoredPacket) : Prop where
  pending : old.pending = some packet
  settled : new.pending = none
  highWater : new.highWaterSequence = old.highWaterSequence
  committed : new.committed = some packet ∨ new.committed = old.committed

/-- What separates a state from every later one. -/
structure Precedes (old new : PublicationStateBody) : Prop where
  revision : old.desiredRevision ≤ new.desiredRevision
  highWater : old.highWaterSequence ≤ new.highWaterSequence
  progress : old.desiredRevision < new.desiredRevision ∨ old.highWaterSequence < new.highWaterSequence ∨
    ∃ packet, old.Settles new packet

variable {old mid new : PublicationStateBody}

theorem Advance.precedes (h : old.Advance new) : old.Precedes new := by
  cases h with
  | target revision locations hnewer =>
    exact ⟨UInt64.le_of_lt hnewer, UInt64.le_refl _, .inl hnewer⟩
  | prepare packet hnone hreads hnewer =>
    exact ⟨UInt64.le_refl _, UInt64.le_of_lt hnewer, .inr (.inl hnewer)⟩
  | commit packet hpending =>
    exact ⟨UInt64.le_refl _, UInt64.le_refl _, .inr (.inr ⟨packet, hpending, rfl, rfl, .inl rfl⟩)⟩
  | retire packet hpending =>
    exact ⟨UInt64.le_refl _, UInt64.le_refl _, .inr (.inr ⟨packet, hpending, rfl, rfl, .inr rfl⟩)⟩

theorem Precedes.trans (h : old.Precedes mid) (hnext : mid.Precedes new) : old.Precedes new := by
  refine ⟨UInt64.le_trans h.revision hnext.revision, UInt64.le_trans h.highWater hnext.highWater, ?_⟩
  rcases h.progress with hlt | hlt | ⟨packet, hsettles⟩
  · exact .inl (UInt64.lt_of_lt_of_le hlt hnext.revision)
  · exact .inr (.inl (UInt64.lt_of_lt_of_le hlt hnext.highWater))
  · rcases hnext.progress with hlt | hlt | ⟨other, hother⟩
    · exact .inl (UInt64.lt_of_le_of_lt h.revision hlt)
    · exact .inr (.inl (UInt64.lt_of_le_of_lt h.highWater hlt))
    -- What is settled once holds no packet to settle again.
    · cases hsettles.settled.symm.trans hother.pending

instance : Trans Precedes Precedes Precedes := ⟨Precedes.trans⟩

end PublicationStateBody

variable [Blake3]

/-- What opening asks of the witness of a state, given the anchor found. -/
structure PublicationAnchorBody.Accepted (current anchor : PublicationAnchorBody) : Prop where
  identity : anchor.identity = current.identity
  highWater : anchor.highWaterSequence ≤ current.highWaterSequence
  revision : anchor.desiredRevision ≤ current.desiredRevision
  locations : current.desiredRevision = anchor.desiredRevision →
    current.desiredLocationsBlake3Hex = anchor.desiredLocationsBlake3Hex
  packet : current.highWaterSequence = anchor.highWaterSequence →
    current.latestPacketSequence ≠ anchor.latestPacketSequence ∨
      current.latestPacketBlake3Hex ≠ anchor.latestPacketBlake3Hex →
    anchor.latestPacketCommitted = false ∧
      anchor.latestPacketSequence = some anchor.highWaterSequence ∧
      current.latestPacketSequence ≠ some current.highWaterSequence
  committed : current.highWaterSequence = anchor.highWaterSequence →
    current.latestPacketSequence = anchor.latestPacketSequence → anchor.latestPacketCommitted = true →
    current.latestPacketCommitted = true

omit [NodeRecordCodec] [Blake3] in
theorem checkAnchor_eq_ok_iff {current anchor : PublicationAnchorBody} :
    checkAnchor current anchor = .ok () ↔ current.Accepted anchor := by
  constructor
  · intro hok
    unfold checkAnchor at hok
    by_cases hidentity : anchor.identity = current.identity
    swap
    · rw [if_pos hidentity] at hok
      cases hok
    rw [if_neg (not_not.mpr hidentity)] at hok
    split at hok
    · cases hok
    rename_i hregressed
    rw [not_or, UInt64.not_lt, UInt64.not_lt] at hregressed
    split at hok
    · cases hok
    rename_i hlocations
    refine ⟨hidentity, hregressed.1, hregressed.2, fun hrevision => ?_, fun hsame hchanged => ?_,
      fun hsame hsequence hcommitted => ?_⟩
    · exact not_not.mp fun hne => hlocations ⟨hrevision, hne⟩
    all_goals
      rw [if_pos hsame] at hok
      dsimp only at hok
      split at hok
      · cases hok
      rename_i hretired
      split at hok
      · cases hok
      rename_i hcommit
    · exact not_not.mp fun hnot => hretired ⟨hchanged, hnot⟩
    · exact (Bool.not_eq_false _).mp fun hnot => hcommit ⟨hcommitted, hnot, hsequence⟩
  · intro h
    unfold checkAnchor
    rw [if_neg (not_not.mpr h.identity),
      if_neg (not_or.mpr ⟨UInt64.not_lt.mpr h.highWater, UInt64.not_lt.mpr h.revision⟩),
      if_neg fun hne => hne.2 (h.locations hne.1)]
    split
    · rename_i hsame
      dsimp only
      rw [if_neg fun hne => hne.2 (h.packet hsame hne.1), if_neg fun hne => ?_]
      exact Bool.noConfusion (hne.2.1.symm.trans (h.committed hsame hne.2.2 hne.1))
    · rfl

omit [NodeRecordCodec] [Blake3] in
theorem accepted_self (anchor : PublicationAnchorBody) : anchor.Accepted anchor where
  identity := rfl
  highWater := UInt64.le_refl _
  revision := UInt64.le_refl _
  locations := fun _ => rfl
  packet := fun _ hchanged => hchanged.elim (absurd rfl) (absurd rfl)
  committed := fun _ _ hcommitted => hcommitted

namespace PublicationStateBody

variable {old new : PublicationStateBody}

theorem Advance.accepted (h : old.Advance new) (hold : old.WellFormed) :
    (PublicationAnchorBody.fromState new).Accepted (.fromState old) := by
  cases h with
  | target revision locations hnewer =>
    have hself := accepted_self (.fromState old)
    refine ⟨rfl, UInt64.le_refl _, UInt64.le_of_lt hnewer, fun hsame => ?_, hself.packet, hself.committed⟩
    have heq : revision = old.desiredRevision := hsame
    exact absurd (heq ▸ hnewer) (UInt64.lt_irrefl _)
  | prepare packet hnone hreads hnewer =>
    have hlt : old.highWaterSequence < packet.sequence := hnewer
    have hne : packet.sequence ≠ old.highWaterSequence := fun heq => UInt64.lt_irrefl _ (heq ▸ hlt)
    exact ⟨rfl, UInt64.le_of_lt hlt, UInt64.le_refl _, fun _ => rfl, fun hsame => absurd hsame hne,
      fun hsame => absurd hsame hne⟩
  | commit packet hpending =>
    have hlatest : old.latestPacket = some (packet, false) := by
      rw [latestPacket, hpending]
      rfl
    refine ⟨rfl, UInt64.le_refl _, UInt64.le_refl _, fun _ => rfl, fun _ hchanged => ?_,
      fun _ _ _ => rfl⟩
    simp only [PublicationAnchorBody.fromState, hlatest] at hchanged
    exact hchanged.elim (absurd rfl) (absurd rfl)
  | retire packet hpending =>
    have hlatest : old.latestPacket = some (packet, false) := by
      rw [latestPacket, hpending]
      rfl
    have hcommitted : (PublicationAnchorBody.fromState old).latestPacketCommitted = false := by
      simp only [PublicationAnchorBody.fromState, hlatest]
      rfl
    refine ⟨rfl, UInt64.le_refl _, UInt64.le_refl _, fun _ => rfl, fun _ _ => ⟨hcommitted, ?_, ?_⟩,
      fun _ _ htrue => Bool.noConfusion (hcommitted.symm.trans htrue)⟩
    · simp only [PublicationAnchorBody.fromState, hlatest]
      exact congrArg some (hold.pending packet hpending).2
    · -- The packet before the retired one is strictly below it.
      cases hbefore : old.committed with
      | none => simp [PublicationAnchorBody.fromState, latestPacket]
      | some earlier =>
        have hbelow := hold.below earlier hbefore packet hpending
        rw [(hold.pending packet hpending).2] at hbelow
        have hne : earlier.sequence ≠ old.highWaterSequence := fun heq =>
          UInt64.lt_irrefl _ (heq ▸ hbelow)
        simpa [PublicationAnchorBody.fromState, latestPacket, hbefore] using hne

theorem Precedes.refused (h : old.Precedes new) (hold : old.WellFormed) :
    ¬(PublicationAnchorBody.fromState old).Accepted (.fromState new) := by
  intro haccepted
  rcases h.progress with hlt | hlt | ⟨packet, hsettles⟩
  · exact UInt64.not_le.mpr hlt haccepted.revision
  · exact UInt64.not_le.mpr hlt haccepted.highWater
  · have hlatest : old.latestPacket = some (packet, false) := by
      rw [latestPacket, hsettles.pending]
      rfl
    have hsequence := (hold.pending packet hsettles.pending).2
    have hcurrent : (PublicationAnchorBody.fromState old).latestPacketSequence =
        some old.highWaterSequence := by
      simp only [PublicationAnchorBody.fromState, hlatest]
      exact congrArg some hsequence
    rcases hsettles.committed with hcommit | hretire
    · -- The anchor says committed where the state is back to prepared.
      have hnew : new.latestPacket = some (packet, true) := by
        rw [latestPacket, hsettles.settled, hcommit]
        rfl
      have hregress := haccepted.committed hsettles.highWater.symm
        (by simp only [PublicationAnchorBody.fromState, hlatest, hnew, Option.map_some])
        (by simp only [PublicationAnchorBody.fromState, hnew]; rfl)
      simp only [PublicationAnchorBody.fromState, hlatest] at hregress
      cases hregress
    -- The anchor has an older packet, or none, at the same high-water sequence.
    have hother : (PublicationAnchorBody.fromState new).latestPacketSequence ≠
        some old.highWaterSequence := by
      cases hbefore : old.committed with
      | none => simp [PublicationAnchorBody.fromState, latestPacket, hsettles.settled, hretire, hbefore]
      | some earlier =>
        have hbelow := hold.below earlier hbefore packet hsettles.pending
        rw [hsequence] at hbelow
        have hne : earlier.sequence ≠ old.highWaterSequence := fun heq =>
          UInt64.lt_irrefl _ (heq ▸ hbelow)
        simpa [PublicationAnchorBody.fromState, latestPacket, hsettles.settled, hretire, hbefore] using hne
    have hlegit := haccepted.packet hsettles.highWater.symm (.inl (hcurrent ▸ hother.symm))
    exact hlegit.2.2 hcurrent

end PublicationStateBody

namespace PublisherHost

/-- The anchor is compared for what the state file holds, and nothing fails on the way. -/
def reopens (host : PublisherHost) (settings : PublicationSettings) : Except Halt Unit :=
  match validateOrInitializeAnchor
      (host.session.disk.stateFile.getD (.fresh host.session.identity settings))
      host.session.disk.stateFile.isSome (host.boot settings [.anchor .done]) with
  | .ok _ _ => .ok ()
  | .error halt _ => .error halt

/-- Only the state file is put back. -/
def restoreState (host : PublisherHost) (body : PublicationStateBody) : PublisherHost :=
  { host with session := { host.session with disk := { host.session.disk with stateFile := some body } } }

omit [Blake3] in
theorem lift_ok_bind {α β : Type} (value : α) (rest : α → Publish β) :
    (lift (.ok value) >>= rest) = rest value := rfl

variable {host : PublisherHost} {settings : PublicationSettings} {anchor : PublicationAnchorBody}

theorem reopens_of_anchor (hanchor : host.session.disk.anchorFile = some anchor) :
    host.reopens settings = (checkAnchor (.fromState (host.session.disk.stateFile.getD
      (.fresh host.session.identity settings))) anchor).mapError .failed := by
  have hboot : (host.boot settings [.anchor .done]).disk.anchorFile = some anchor := hanchor
  unfold reopens validateOrInitializeAnchor
  rw [get_bind_apply]
  simp only [hboot]
  cases checkAnchor (.fromState (host.session.disk.stateFile.getD
    (.fresh host.session.identity settings))) anchor with
  | error why => rfl
  | ok _ =>
    rw [lift_ok_bind]
    split_ifs <;> rfl

theorem reopens_of_none (hanchor : host.session.disk.anchorFile = none)
    (hstate : host.session.disk.stateFile = none) : host.reopens settings = .ok () := by
  have hboot : (host.boot settings [.anchor .done]).disk.anchorFile = none := hanchor
  unfold reopens validateOrInitializeAnchor
  rw [get_bind_apply]
  simp only [hboot, hstate]
  rfl

variable {started : PublicationSettings → Prop}

theorem reopens_of_kept (h : host.session.Kept started)
    (hsame : host.session.disk.stateFile = none →
      ∀ other, started other → other.initialLocations = settings.initialLocations) :
    host.reopens settings = .ok () := by
  cases hstate : host.session.disk.stateFile with
  | none =>
    cases hanchor : host.session.disk.anchorFile with
    | none => exact reopens_of_none hanchor hstate
    | some anchor =>
      obtain ⟨other, hother, rfl⟩ := h.disk.unwritten hstate anchor hanchor
      have hfresh : PublicationStateBody.fresh host.session.identity other =
          .fresh host.session.identity settings := by
        rw [PublicationStateBody.fresh, PublicationStateBody.fresh, hsame hstate other hother]
      rw [reopens_of_anchor hanchor, hstate, Option.getD_none, hfresh,
        checkAnchor_eq_ok_iff.mpr (accepted_self _), Fallible.mapError_ok]
  | some body =>
    obtain ⟨seen, hseen, hanchor, hnext⟩ := h.disk.witnessed body hstate
    rw [reopens_of_anchor hanchor, hstate, Option.getD_some]
    rcases hnext with rfl | hadvance
    · rw [checkAnchor_eq_ok_iff.mpr (accepted_self _), Fallible.mapError_ok]
    · rw [checkAnchor_eq_ok_iff.mpr (hadvance.accepted (h.disk.wellFormed seen hseen)), Fallible.mapError_ok]

theorem restoreState_refused (h : host.session.Kept started) {body earlier : PublicationStateBody}
    {before after : List PublicationStateBody} (hstate : host.session.disk.stateFile = some body)
    (hanchor : host.session.disk.anchorFile = some (.fromState body))
    (hwritten : host.session.disk.written = before ++ earlier :: after) (hafter : after ≠ []) :
    ∃ error, (host.restoreState earlier).reopens settings = .error (.failed error) := by
  have hlast : body ∈ after := by
    obtain ⟨init, last, rfl⟩ := (List.eq_nil_or_concat' after).resolve_left hafter
    have hlatest := h.disk.latest.symm.trans hstate
    rw [hwritten, ← List.cons_append, ← List.append_assoc, List.getLast?_concat] at hlatest
    obtain rfl := Option.some.inj hlatest
    exact List.mem_concat_self
  have hordered := (h.disk.chain.imp fun _ _ hadvance => hadvance.precedes).pairwise
  rw [hwritten] at hordered
  have hprecedes : earlier.Precedes body :=
    (List.pairwise_cons.mp (List.pairwise_append.mp hordered).2.1).1 body hlast
  have hwellFormed : earlier.WellFormed :=
    h.disk.wellFormed earlier (hwritten ▸ List.mem_append_right before List.mem_cons_self)
  have hrestored : (host.restoreState earlier).session.disk.anchorFile = some (.fromState body) := hanchor
  rw [reopens_of_anchor hrestored]
  change ∃ error, (checkAnchor (.fromState earlier) (.fromState body)).mapError _ = _
  cases hcheck : checkAnchor (.fromState earlier) (.fromState body) with
  | ok _ => exact absurd (checkAnchor_eq_ok_iff.mp hcheck) (hprecedes.refused hwellFormed)
  | error why => exact ⟨why, Fallible.mapError_error _ _⟩

end PublisherHost

end Anchor

attribute [local instance] plainCodec plainBlake3

/-- The anchor is there and the first state is not. -/
def interruptedEvents : List PublisherEvent :=
  [.start (plainSettings [1]) [.anchor .done, .write (.failed "no space")], .crash]

/-- A packet is prepared at sequence zero, and the process stops before the anchor follows. -/
def zeroStateEvents : List PublisherEvent :=
  [.start (plainSettings [1]) [.anchor .done, .write .done],
    .refresh [.clock (.ok 0), .write (.stateOnly "lost directory sync")], .crash]

def zeroAnchorEvents : List PublisherEvent :=
  [.start (plainSettings [1]) [.anchor .done, .write .done],
    .refresh [.clock (.ok 0), .write .done, .put (.error "timed out")], .crash]

def refusal (result : Except Halt Unit) : Option String :=
  match result with
  | .error (.failed error) => some error.message
  | _ => none

end NixP2p
