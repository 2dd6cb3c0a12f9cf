import NixP2p.Base.Fallible
import NixP2p.Publication.NodeLookup
import NixP2p.Publication.Visibility

/-!
# Replays are refused

The table of a lookup runtime changes in one way only: a node gets an entry with a higher sequence, made from a record at the clock reading of that moment. Everything a lookup may return is read off this. Packets are told apart by their hashes, so the statement is for histories whose packets have distinct ones.
-/

namespace NixP2p

open HashTable

theorem remainingMicros_eq_zero {expires now : UInt64} (h : expires ≤ now) : remainingMicros expires now = 0 := by
  unfold remainingMicros
  by_cases hlt : expires < now
  · rw [if_pos hlt]
  · rw [if_neg hlt, UInt64.le_antisymm h (UInt64.not_lt.mp hlt), UInt64.sub_self]

/-- Refusals of a record that is from the future, stale, conflicting or one node too many, among the others of their kinds. -/
def NodeLookupUnavailableKind.keepsTable : NodeLookupUnavailableKind → Bool
  | .malformedOrUntrustedRecord => true
  | .staleSequence => true
  | .conflictingReplay => true
  | .capacity => true
  | _ => false

def DistinctHashes [Blake3] (carried : List UInt8 → Prop) : Prop :=
  ∀ left right, carried left → carried right → Blake3.hash left = Blake3.hash right → left = right

section Replay

variable [NodeRecordCodec]

namespace LookupState

/-- An entry is kept, or gives way to one of a higher sequence; the last wall clock does not go back. -/
structure Follows (old new : LookupState) : Prop where
  entries : ∀ nodeId entry, old.highWater.lookup nodeId = some entry →
    ∃ later, new.highWater.lookup nodeId = some later ∧ (later = entry ∨ entry.sequence < later.sequence)
  wall : ∀ last, old.lastWallUnixMicros = some last → ∃ later, new.lastWallUnixMicros = some later ∧ last ≤ later

variable {old mid new state : LookupState}

theorem Follows.refl (state : LookupState) : state.Follows state :=
  ⟨fun _ entry hentry => ⟨entry, hentry, .inl rfl⟩, fun last hlast => ⟨last, hlast, UInt64.le_refl last⟩⟩

theorem Follows.trans (h : old.Follows mid) (hnext : mid.Follows new) : old.Follows new := by
  constructor
  · intro nodeId entry hentry
    obtain ⟨between, hbetween, hfirst⟩ := h.entries nodeId entry hentry
    obtain ⟨later, hlater, hsecond⟩ := hnext.entries nodeId between hbetween
    refine ⟨later, hlater, ?_⟩
    rcases hfirst with rfl | hlt
    · exact hsecond
    rcases hsecond with rfl | hlt'
    · exact .inr hlt
    · exact .inr (UInt64.lt_trans hlt hlt')
  · intro last hlast
    obtain ⟨between, hbetween, hfirst⟩ := h.wall last hlast
    obtain ⟨later, hlater, hsecond⟩ := hnext.wall between hbetween
    exact ⟨later, hlater, UInt64.le_trans hfirst hsecond⟩

def Forward (state : LookupState) (wall : UInt64) : Prop :=
  ∀ last, state.lastWallUnixMicros = some last → last ≤ wall

theorem readAndObserveClock_cases (state : LookupState) (clock : LookupOutcome ClockReading) :
    (∃ error, state.readAndObserveClock clock = (.error error, state)) ∨
    ∃ reading, clock = .ok reading ∧ state.Forward reading.wallUnixMicros ∧
      state.readAndObserveClock clock =
        (.ok reading, { state with lastWallUnixMicros := some reading.wallUnixMicros }) := by
  cases clock with
  | error error => exact .inl ⟨error, rfl⟩
  | ok reading =>
    unfold readAndObserveClock observeWallClock
    cases hlast : state.lastWallUnixMicros with
    | none =>
      refine .inr ⟨reading, rfl, fun last h => ?_, rfl⟩
      rw [hlast] at h
      cases h
    | some previous =>
      dsimp only
      by_cases hback : reading.wallUnixMicros < previous
      · rw [if_pos hback]
        exact .inl ⟨_, rfl⟩
      rw [if_neg hback]
      refine .inr ⟨reading, rfl, fun last h => ?_, rfl⟩
      rw [hlast] at h
      obtain rfl := Option.some.inj h
      exact UInt64.not_lt.mp hback

variable {capacity : Nat} {nodeId : String} {record : NodeRecord Location} {packetHash : Hash}
  {reading : ClockReading}

theorem Forward.readAndObserveClock (h : state.Forward reading.wallUnixMicros) :
    state.readAndObserveClock (.ok reading) =
      (.ok reading, { state with lastWallUnixMicros := some reading.wallUnixMicros }) := by
  unfold LookupState.readAndObserveClock observeWallClock
  cases hlast : state.lastWallUnixMicros with
  | none => rfl
  | some previous =>
    dsimp only
    rw [if_neg (UInt64.not_lt.mpr (h previous hlast))]

/-- A record is refused with the table as it was, found at its own sequence, or entered above it. -/
theorem validateAndAdvance_cases (state : LookupState) (capacity : Nat) (nodeId : String)
    (record : NodeRecord Location) (packetHash : Hash) (reading : ClockReading) :
    (∃ error, state.validateAndAdvance capacity nodeId record packetHash reading = (.error error, state)) ∨
    (∃ existing, state.highWater.lookup nodeId = some existing ∧ record.sequence = existing.sequence ∧
      packetHash = existing.packetHash ∧
      state.validateAndAdvance capacity nodeId record packetHash reading =
        (replay existing record reading, state)) ∨
    ((∀ existing, state.highWater.lookup nodeId = some existing → existing.sequence < record.sequence) ∧
      (state.highWater.lookup nodeId = none → state.highWater.entries.length < capacity) ∧
      state.validateAndAdvance capacity nodeId record packetHash reading =
        state.advance nodeId record packetHash reading) := by
  unfold validateAndAdvance
  split
  · exact .inl ⟨_, rfl⟩
  cases hlookup : state.highWater.lookup nodeId with
  | some existing =>
    dsimp only
    split
    · exact .inl ⟨_, rfl⟩
    rename_i hnotStale
    split
    · exact .inl ⟨_, rfl⟩
    rename_i hagree
    split
    · rename_i hsame
      have hhash : packetHash = existing.packetHash := not_not.mp fun hne => hagree ⟨hsame, hne⟩
      exact .inr (.inl ⟨existing, rfl, hsame, hhash, rfl⟩)
    rename_i hne
    refine .inr (.inr ⟨fun found hfound => ?_, fun hnone => (nomatch hnone), rfl⟩)
    obtain rfl := Option.some.inj hfound
    exact UInt64.lt_of_le_of_ne (UInt64.not_lt.mp hnotStale) fun heq => hne heq.symm
  | none =>
    dsimp only
    split
    · exact .inl ⟨_, rfl⟩
    · rename_i hroom
      exact .inr (.inr ⟨fun _ h => (nomatch h), fun _ => Nat.not_le.mp hroom, rfl⟩)

theorem advance_state (state : LookupState) (nodeId : String) (record : NodeRecord Location)
    (packetHash : Hash) (reading : ClockReading) :
    (state.advance nodeId record packetHash reading).2 =
      { state with highWater := state.highWater.insert nodeId (highWaterOf record packetHash reading) } := by
  unfold advance
  dsimp only
  cases newStateError record reading.wallUnixMicros <;> rfl

variable {result : NodeLookupResult}

theorem advance_ok (h : (state.advance nodeId record packetHash reading).1 = .ok result) :
    newStateError record reading.wallUnixMicros = none ∧ result = .fromRecord record packetHash := by
  unfold advance at h
  cases hnew : newStateError record reading.wallUnixMicros with
  | none =>
    rw [hnew] at h
    exact ⟨rfl, (Except.ok.inj h).symm⟩
  | some error =>
    rw [hnew] at h
    cases h

theorem replay_ok {existing : HighWater} (h : replay existing record reading = .ok result) :
    reading.wallUnixMicros < record.expiresUnixMicros ∧
      reading.monotonic < existing.observedMonotonic + existing.validForAtObservation ∧
      existing.cached = some result := by
  unfold replay at h
  split at h
  · cases h
  rename_i hcurrent
  rw [not_or, UInt64.not_le, Nat.not_le] at hcurrent
  refine ⟨hcurrent.1, by omega, ?_⟩
  split at h
  · rename_i cached hcached
    rw [hcached, Except.ok.inj h]
  · cases h

variable {wall : UInt64}

theorem newStateError_eq_none (h : newStateError record wall = none) :
    wall < record.expiresUnixMicros ∧ record.state = .live := by
  unfold newStateError at h
  split at h
  · cases h
  rename_i hremaining
  refine ⟨?_, ?_⟩
  · by_contra hnot
    exact hremaining (remainingMicros_eq_zero (UInt64.not_lt.mp hnot))
  · split at h
    · cases h
    · assumption

theorem cached_highWaterOf (h : (highWaterOf record packetHash reading).cached = some result) :
    newStateError record reading.wallUnixMicros = none ∧ result = .fromRecord record packetHash := by
  unfold highWaterOf at h
  dsimp only at h
  split at h
  · rename_i hnone
    exact ⟨Option.isNone_iff_eq_none.mp hnone, (Option.some.inj h).symm⟩
  · cases h

variable {error : NodeLookupUnavailable}

theorem keepsTable_newStateError (h : newStateError record wall = some error) : error.kind.keepsTable = false := by
  unfold newStateError at h
  split at h
  · rw [← Option.some.inj h]
    rfl
  split at h
  · rw [← Option.some.inj h]
    rfl
  split at h
  · rw [← Option.some.inj h]
    rfl
  · cases h

theorem advance_error (h : (state.advance nodeId record packetHash reading).1 = .error error) :
    error.kind.keepsTable = false := by
  unfold advance at h
  cases hnew : newStateError record reading.wallUnixMicros with
  | none =>
    rw [hnew] at h
    cases h
  | some found =>
    rw [hnew] at h
    obtain rfl := Except.error.inj h
    exact keepsTable_newStateError hnew

variable [Blake3]

inductive Moves (carried : List UInt8 → Prop) (capacity : Nat) (old : LookupState) : LookupState → Prop
  | stay : Moves carried capacity old old
  | tick (wall : UInt64) (hforward : old.Forward wall) :
    Moves carried capacity old { old with lastWallUnixMicros := some wall }
  | enter (nodeId : String) (packet : List UInt8) (record : NodeRecord Location) (reading : ClockReading)
    (hforward : old.Forward reading.wallUnixMicros)
    (hcarried : carried packet) (hrecord : decodeNodeRecord packet = .ok record)
    (hnewer : ∀ existing, old.highWater.lookup nodeId = some existing → existing.sequence < record.sequence)
    (hroom : old.highWater.lookup nodeId = none → old.highWater.entries.length < capacity) :
    Moves carried capacity old {
      highWater := old.highWater.insert nodeId (highWaterOf record (Blake3.hash packet) reading)
      lastWallUnixMicros := some reading.wallUnixMicros }

def Recorded (carried : List UInt8 → Prop) (state : LookupState) : Prop :=
  ∀ nodeId entry, state.highWater.lookup nodeId = some entry →
    ∃ packet record reading, carried packet ∧ decodeNodeRecord packet = .ok record ∧
      entry = highWaterOf record (Blake3.hash packet) reading

variable {carried : List UInt8 → Prop}

section

variable (h : Moves carried capacity old new)

include h

theorem Moves.follows : old.Follows new := by
  cases h with
  | stay => exact .refl old
  | tick wall hforward =>
    exact ⟨fun _ entry hentry => ⟨entry, hentry, .inl rfl⟩, fun last hlast => ⟨wall, rfl, hforward last hlast⟩⟩
  | enter nodeId packet record reading hforward hcarried hrecord hnewer hroom =>
    refine ⟨fun other entry hentry => ?_, fun last hlast => ⟨_, rfl, hforward last hlast⟩⟩
    dsimp only
    rw [lookup_insert]
    by_cases hown : other = nodeId
    · subst hown
      exact ⟨_, if_pos rfl, .inr (hnewer entry hentry)⟩
    · exact ⟨entry, (if_neg hown).trans hentry, .inl rfl⟩

theorem Moves.size (hold : old.highWater.entries.length ≤ capacity) : new.highWater.entries.length ≤ capacity := by
  cases h with
  | stay => exact hold
  | tick wall hforward => exact hold
  | enter nodeId packet record reading hforward hcarried hrecord hnewer hroom =>
    dsimp only
    rw [size_insert]
    cases hlookup : old.highWater.lookup nodeId with
    | none =>
      rw [size_erase_of_none hlookup]
      exact hroom hlookup
    | some existing =>
      rw [size_erase_of_isSome (by rw [hlookup]; rfl)]
      exact hold

theorem Moves.recorded (hold : old.Recorded carried) : new.Recorded carried := by
  cases h with
  | stay => exact hold
  | tick wall hforward => exact hold
  | enter nodeId packet record reading hforward hcarried hrecord hnewer hroom =>
    intro other entry hentry
    dsimp only at hentry
    rw [lookup_insert] at hentry
    by_cases hown : other = nodeId
    · rw [if_pos hown] at hentry
      exact ⟨packet, record, reading, hcarried, hrecord, (Option.some.inj hentry).symm⟩
    · rw [if_neg hown] at hentry
      exact hold other entry hentry

theorem Moves.mono {wider : List UInt8 → Prop} (hwider : ∀ packet, carried packet → wider packet) :
    Moves wider capacity old new := by
  cases h with
  | stay => exact .stay
  | tick wall hforward => exact .tick wall hforward
  | enter nodeId packet record reading hforward hcarried hrecord hnewer hroom =>
    exact .enter nodeId packet record reading hforward (hwider packet hcarried) hrecord hnewer hroom

end

variable {packet : List UInt8}

theorem validate_moves (hforward : state.Forward reading.wallUnixMicros) (hcarried : carried packet)
    (hrecord : decodeNodeRecord packet = .ok record) :
    state.Moves carried capacity (validateAndAdvance
      { state with lastWallUnixMicros := some reading.wallUnixMicros } capacity nodeId record
      (Blake3.hash packet) reading).2 := by
  rcases validateAndAdvance_cases { state with lastWallUnixMicros := some reading.wallUnixMicros } capacity
      nodeId record (Blake3.hash packet) reading with
    ⟨error, hrefused⟩ | ⟨existing, -, -, -, hreplayed⟩ | ⟨hnewer, hroom, hadvanced⟩
  · rw [hrefused]
    exact .tick _ hforward
  · rw [hreplayed]
    exact .tick _ hforward
  · rw [hadvanced, advance_state]
    exact .enter nodeId packet record reading hforward hcarried hrecord hnewer hroom

theorem Recorded.of_packetHash (h : state.Recorded carried) (hdistinct : DistinctHashes carried)
    {entry : HighWater} (hentry : state.highWater.lookup nodeId = some entry) (hcarried : carried packet)
    (hrecord : decodeNodeRecord packet = .ok record) (hhash : entry.packetHash = Blake3.hash packet) :
    ∃ seen, entry = highWaterOf record (Blake3.hash packet) seen := by
  obtain ⟨source, found, seen, hsource, hfound, rfl⟩ := h nodeId entry hentry
  obtain rfl := hdistinct source packet hsource hcarried hhash
  obtain rfl := Except.ok.inj (hfound.symm.trans hrecord)
  exact ⟨seen, rfl⟩

end LookupState

/-! ### One answer -/

variable [SignedPacketCodec] [Blake3]

/-- A packet that the answer of an event holds for some key. -/
def LookupEvent.Carries (event : LookupEvent) (packet : List UInt8) : Prop :=
  ∃ lookup moment reply key signed, event = .conclude lookup moment ∧ moment.response = .ok reply ∧
    SignedPacketCodec.fromRelayPayload key reply.body = .ok signed ∧
    SignedPacketCodec.asBytes signed = packet

namespace NodeLookupCore

variable {core : NodeLookupCore} {target : LookupTarget} {late : Bool}

omit [Blake3] in
theorem readAnswer_ok {response : Except PinnedHttpError HttpReply} {packet : List UInt8}
    {record : NodeRecord Location} (h : core.readAnswer target response late = .ok (packet, record)) :
    decodeNodeRecord packet = .ok record ∧ ∃ reply signed, response = .ok reply ∧
      SignedPacketCodec.fromRelayPayload target.publicKey reply.body = .ok signed ∧
      SignedPacketCodec.asBytes signed = packet := by
  unfold readAnswer at h
  split at h
  · cases h
  rename_i reply
  split at h
  · cases h
  split at h
  · cases h
  split at h
  · cases h
  split at h
  · cases h
  rename_i signed hsigned
  split at h
  · cases h
  split at h
  · cases h
  rename_i found hfound
  split at h
  · cases h
  split at h
  · cases h
  split at h
  · cases h
  split at h
  · cases h
  · cases h
    exact ⟨hfound, reply, signed, rfl, hsigned, rfl⟩

variable {carried : List UInt8 → Prop} {nodeId : String} {packet : List UInt8} {record : NodeRecord Location}

omit [SignedPacketCodec] [Blake3] in
theorem store_fst (core : NodeLookupCore) (validated : LookupOutcome NodeLookupResult × LookupState) :
    (core.store validated).1 = validated.1 := rfl

omit [SignedPacketCodec] [Blake3] in
theorem store_state (core : NodeLookupCore) (validated : LookupOutcome NodeLookupResult × LookupState) :
    (core.store validated).2.state = validated.2 := rfl

omit [SignedPacketCodec] [Blake3] in
theorem store_capacity (core : NodeLookupCore) (validated : LookupOutcome NodeLookupResult × LookupState) :
    (core.store validated).2.capacity = core.capacity := rfl

omit [SignedPacketCodec] [Blake3] in
theorem deliver_snd (late : Bool) (sequence : UInt64) (packetHash : Hash)
    (settled : LookupOutcome NodeLookupResult × NodeLookupCore) :
    (deliver late sequence packetHash settled).2 = settled.2 := by
  cases late <;> rfl

variable {packetHash : Hash} {result : NodeLookupResult} {settled : LookupOutcome NodeLookupResult × NodeLookupCore}

variable {sequence : UInt64}

omit [SignedPacketCodec] [Blake3] in
theorem deliver_ok (h : (deliver late sequence packetHash settled).1 = .ok result) : settled.1 = .ok result := by
  unfold deliver at h
  cases late with
  | true => cases h
  | false => exact Fallible.mapError_eq_ok_iff.mp h

variable {error : NodeLookupUnavailable}

omit [SignedPacketCodec] [Blake3] in
theorem deliver_refused (h : (deliver late sequence packetHash settled).1 = .error error)
    (hkind : error.kind.keepsTable = true) : ∃ why, settled.1 = .error why ∧ why.kind.keepsTable = true := by
  unfold deliver at h
  cases late with
  | true =>
    obtain rfl := Except.error.inj h
    cases hkind
  | false =>
    cases hsettled : settled.1 with
    | ok result =>
      rw [hsettled] at h
      cases h
    | error why =>
      rw [hsettled] at h
      obtain rfl := Except.error.inj h
      exact ⟨why, rfl, hkind⟩

omit [SignedPacketCodec] [Blake3] in
theorem settle_of_forward {reading : ClockReading} (h : core.state.Forward reading.wallUnixMicros) :
    core.settle nodeId record packetHash (.ok reading) =
      core.store (LookupState.validateAndAdvance
        { core.state with lastWallUnixMicros := some reading.wallUnixMicros }
        core.capacity nodeId record packetHash reading) := by
  rw [settle, h.readAndObserveClock]

omit [SignedPacketCodec] in
theorem settle_moves (core : NodeLookupCore) (nodeId : String) (clock : LookupOutcome ClockReading)
    (hcarried : carried packet) (hrecord : decodeNodeRecord packet = .ok record) :
    core.state.Moves carried core.capacity (core.settle nodeId record (Blake3.hash packet) clock).2.state ∧
      (core.settle nodeId record (Blake3.hash packet) clock).2.capacity = core.capacity := by
  rcases core.state.readAndObserveClock_cases clock with ⟨error, hclock⟩ | ⟨reading, rfl, hforward, -⟩
  · rw [settle, hclock]
    exact ⟨.stay, rfl⟩
  · rw [settle_of_forward hforward, store_state, store_capacity]
    exact ⟨LookupState.validate_moves hforward hcarried hrecord, rfl⟩

omit [SignedPacketCodec] [Blake3] in
theorem settle_refused {clock : LookupOutcome ClockReading}
    (h : (core.settle nodeId record packetHash clock).1 = .error error) (hkind : error.kind.keepsTable = true) :
    (core.settle nodeId record packetHash clock).2.state.highWater = core.state.highWater := by
  rcases core.state.readAndObserveClock_cases clock with ⟨why, hclock⟩ | ⟨reading, rfl, hforward, -⟩
  · rw [settle, hclock]
  rw [settle_of_forward hforward] at h ⊢
  rw [store_fst] at h
  rw [store_state]
  rcases LookupState.validateAndAdvance_cases
      { core.state with lastWallUnixMicros := some reading.wallUnixMicros } core.capacity nodeId record
      packetHash reading with
    ⟨why, hrefused⟩ | ⟨existing, -, -, -, hreplayed⟩ | ⟨-, -, hadvanced⟩
  · rw [hrefused]
  · rw [hreplayed]
  · rw [hadvanced] at h
    rw [LookupState.advance_error h] at hkind
    cases hkind

variable {moment : AnswerMoment}

theorem conclude_inTime
    (hanswer : core.readAnswer target moment.response moment.lateResponse = .ok (packet, record))
    (hinTime : moment.lateValidation = false ∧ moment.lateLock = false) :
    core.conclude target moment = deliver moment.lateOutcome record.sequence (Blake3.hash packet)
      (core.settle target.nodeId record (Blake3.hash packet) moment.clock) := by
  rw [conclude, hanswer, hinTime.1, hinTime.2]
  rfl

/-- A lookup ends early with the core as it was, or its record is held against the table. -/
theorem conclude_cases (core : NodeLookupCore) (target : LookupTarget) (moment : AnswerMoment) :
    (∃ error, core.conclude target moment = (.error error, core)) ∨
    ∃ packet record, core.readAnswer target moment.response moment.lateResponse = .ok (packet, record) ∧
      moment.lateValidation = false ∧ moment.lateLock = false := by
  unfold conclude
  cases hanswer : core.readAnswer target moment.response moment.lateResponse with
  | error error => exact .inl ⟨error, rfl⟩
  | ok pair =>
    obtain ⟨packet, record⟩ := pair
    dsimp only
    cases hvalidation : moment.lateValidation with
    | true => exact .inl ⟨_, rfl⟩
    | false =>
      cases hlock : moment.lateLock with
      | true => exact .inl ⟨_, rfl⟩
      | false => exact .inr ⟨packet, record, rfl, rfl, rfl⟩

theorem conclude_ok (h : (core.conclude target moment).1 = .ok result) :
    ∃ packet record reading,
      core.readAnswer target moment.response moment.lateResponse = .ok (packet, record) ∧
      (moment.lateValidation = false ∧ moment.lateLock = false) ∧ moment.clock = .ok reading ∧
      core.state.Forward reading.wallUnixMicros ∧
      (LookupState.validateAndAdvance { core.state with lastWallUnixMicros := some reading.wallUnixMicros }
        core.capacity target.nodeId record (Blake3.hash packet) reading).1 = .ok result := by
  rcases core.conclude_cases target moment with ⟨error, hearly⟩ | ⟨packet, record, hanswer, hinTime⟩
  · rw [hearly] at h
    cases h
  rw [conclude_inTime hanswer hinTime] at h
  have hsettle := deliver_ok h
  rcases core.state.readAndObserveClock_cases moment.clock with
    ⟨error, hclock⟩ | ⟨reading, hreading, hforward, -⟩
  · rw [settle, hclock] at hsettle
    cases hsettle
  · rw [hreading, settle_of_forward hforward, store_fst] at hsettle
    exact ⟨packet, record, reading, hanswer, hinTime, hreading, hforward, hsettle⟩

theorem conclude_refused (h : (core.conclude target moment).1 = .error error)
    (hkind : error.kind.keepsTable = true) :
    (core.conclude target moment).2.state.highWater = core.state.highWater := by
  rcases core.conclude_cases target moment with ⟨why, hearly⟩ | ⟨packet, record, hanswer, hinTime⟩
  · rw [hearly]
  rw [conclude_inTime hanswer hinTime] at h ⊢
  obtain ⟨why, hsettle, hwhy⟩ := deliver_refused h hkind
  rw [deliver_snd]
  exact settle_refused hsettle hwhy

theorem conclude_moves (core : NodeLookupCore) (target : LookupTarget) (moment : AnswerMoment)
    (hcarried : ∀ reply key signed, moment.response = .ok reply →
      SignedPacketCodec.fromRelayPayload key reply.body = .ok signed → carried (SignedPacketCodec.asBytes signed)) :
    core.state.Moves carried core.capacity (core.conclude target moment).2.state ∧
      (core.conclude target moment).2.capacity = core.capacity := by
  rcases core.conclude_cases target moment with ⟨why, hearly⟩ | ⟨packet, record, hanswer, hinTime⟩
  · rw [hearly]
    exact ⟨.stay, rfl⟩
  obtain ⟨hrecord, reply, signed, hreply, hsigned, hbytes⟩ := readAnswer_ok hanswer
  have hpacket := hcarried reply target.publicKey signed hreply hsigned
  rw [hbytes] at hpacket
  rw [conclude_inTime hanswer hinTime, deliver_snd]
  exact core.settle_moves target.nodeId moment.clock hpacket hrecord

omit [SignedPacketCodec] [Blake3] in
theorem preflight_moves [Blake3] (core : NodeLookupCore) (nodeId : String) (moment : PreflightMoment) :
    core.state.Moves carried core.capacity (core.preflight nodeId moment).2.state ∧
      (core.preflight nodeId moment).2.capacity = core.capacity := by
  unfold preflight
  split
  · exact ⟨.stay, rfl⟩
  split
  · exact ⟨.stay, rfl⟩
  split
  · exact ⟨.stay, rfl⟩
  rcases core.state.readAndObserveClock_cases moment.clock with
    ⟨error, hclock⟩ | ⟨reading, -, hforward, hclock⟩
  · rw [hclock]
    exact ⟨.stay, rfl⟩
  rw [hclock]
  dsimp only
  split
  · exact ⟨.tick _ hforward, rfl⟩
  split
  · exact ⟨.tick _ hforward, rfl⟩
  · exact ⟨.tick _ hforward, rfl⟩

end NodeLookupCore

/-! ### Whole runs -/

namespace LookupRuntime

variable {carried : List UInt8 → Prop}

omit [SignedPacketCodec] [Blake3] in
theorem finish_eq [SignedPacketCodec] (runtime : LookupRuntime) (lookup : Nat)
    (concluded : LookupOutcome NodeLookupResult × NodeLookupCore) :
    (runtime.finish lookup concluded).1 = some concluded.1 ∧
      (runtime.finish lookup concluded).2.core = concluded.2 := ⟨rfl, rfl⟩

theorem conclude_waiting {runtime : LookupRuntime} {lookup : Nat} {moment : AnswerMoment} {target : LookupTarget}
    (hwaiting : runtime.waiting.lookup lookup = some target) :
    (runtime.conclude lookup moment).1 = some (runtime.core.conclude target moment).1 ∧
      (runtime.conclude lookup moment).2.core = (runtime.core.conclude target moment).2 := by
  rw [LookupRuntime.conclude, hwaiting]
  exact runtime.finish_eq lookup _

theorem step_moves (runtime : LookupRuntime) (event : LookupEvent) :
    runtime.core.state.Moves event.Carries runtime.core.capacity (runtime.step event).core.state ∧
      (runtime.step event).core.capacity = runtime.core.capacity := by
  cases event with
  | preflight lookup target moment =>
    have hmoves : runtime.core.state.Moves (LookupEvent.preflight lookup target moment).Carries
        runtime.core.capacity (runtime.core.preflight target.nodeId moment).2.state ∧
        (runtime.core.preflight target.nodeId moment).2.capacity = runtime.core.capacity :=
      runtime.core.preflight_moves target.nodeId moment
    rw [LookupRuntime.step]
    split
    · rename_i hpreflight
      rw [hpreflight] at hmoves
      exact hmoves
    rename_i hpreflight
    rw [hpreflight] at hmoves
    exact hmoves
  | conclude lookup moment =>
    rw [LookupRuntime.step]
    cases hwaiting : runtime.waiting.lookup lookup with
    | none =>
      rw [LookupRuntime.conclude, hwaiting]
      exact ⟨.stay, rfl⟩
    | some target =>
      rw [(conclude_waiting hwaiting).2]
      exact runtime.core.conclude_moves target moment fun reply key signed hreply hsigned =>
        ⟨lookup, moment, reply, key, signed, rfl, hreply, hsigned, rfl⟩
  | drop lookup => exact ⟨.stay, rfl⟩
  | close => exact ⟨.stay, rfl⟩

theorem foldl_follows (runtime : LookupRuntime) (events : List LookupEvent) :
    runtime.core.state.Follows (events.foldl LookupRuntime.step runtime).core.state := by
  induction events generalizing runtime with
  | nil => exact .refl _
  | cons event events ih => exact (runtime.step_moves event).1.follows.trans (ih (runtime.step event))

variable {config : NodeLookupConfig} {capacity : Nat}

theorem run_append (events later : List LookupEvent) :
    run config capacity (events ++ later) = later.foldl LookupRuntime.step (run config capacity events) :=
  List.foldl_append

/-- The table is within its capacity, and each entry comes from a packet that was carried. -/
structure Bounded (carried : List UInt8 → Prop) (capacity : Nat) (runtime : LookupRuntime) : Prop where
  kept : runtime.core.capacity = capacity
  size : runtime.core.state.highWater.entries.length ≤ capacity
  recorded : runtime.core.state.Recorded carried

theorem Bounded.step {runtime : LookupRuntime} (h : Bounded carried capacity runtime) {event : LookupEvent}
    (hcarried : ∀ packet, event.Carries packet → carried packet) :
    Bounded carried capacity (runtime.step event) := by
  obtain ⟨hmoves, hsame⟩ := runtime.step_moves event
  rw [h.kept] at hmoves
  exact ⟨hsame.trans h.kept, hmoves.size h.size, (hmoves.mono hcarried).recorded h.recorded⟩

theorem bounded_run {events : List LookupEvent}
    (hcarried : ∀ event ∈ events, ∀ packet, event.Carries packet → carried packet) :
    Bounded carried capacity (run config capacity events) :=
  List.foldlRecOn events LookupRuntime.step
    ⟨rfl, Nat.zero_le _, fun _ _ hentry => nomatch hentry⟩
    fun _ h event hevent => h.step (hcarried event hevent)

/-- The record of an answer was held against the table, and the table holds it then. -/
structure Validates (runtime : LookupRuntime) (lookup : Nat) (moment : AnswerMoment) (target : LookupTarget)
    (packet : List UInt8) (record : NodeRecord Location) (reading : ClockReading) : Prop where
  waiting : runtime.waiting.lookup lookup = some target
  answer : runtime.core.readAnswer target moment.response moment.lateResponse = .ok (packet, record)
  inTime : moment.lateValidation = false ∧ moment.lateLock = false
  clock : moment.clock = .ok reading
  forward : runtime.core.state.Forward reading.wallUnixMicros
  held : ∃ entry, (runtime.conclude lookup moment).2.core.state.highWater.lookup target.nodeId = some entry ∧
    entry.sequence = record.sequence ∧ entry.packetHash = Blake3.hash packet

variable {runtime : LookupRuntime} {lookup : Nat} {moment : AnswerMoment} {target : LookupTarget}
  {packet : List UInt8} {record : NodeRecord Location} {reading : ClockReading}

theorem conclude_state (hwaiting : runtime.waiting.lookup lookup = some target)
    (hanswer : runtime.core.readAnswer target moment.response moment.lateResponse = .ok (packet, record))
    (hinTime : moment.lateValidation = false ∧ moment.lateLock = false) (hclock : moment.clock = .ok reading)
    (hforward : runtime.core.state.Forward reading.wallUnixMicros) :
    (runtime.conclude lookup moment).2.core.state =
      (LookupState.validateAndAdvance { runtime.core.state with lastWallUnixMicros := some reading.wallUnixMicros }
        runtime.core.capacity target.nodeId record (Blake3.hash packet) reading).2 := by
  rw [(conclude_waiting hwaiting).2, NodeLookupCore.conclude_inTime hanswer hinTime,
    NodeLookupCore.deliver_snd, hclock, NodeLookupCore.settle_of_forward hforward,
    NodeLookupCore.store_state]

variable {carried : List UInt8 → Prop}

/-- What is returned was validated, comes from the packet that was read, and is in time; the table had no higher sequence, and at the same one this packet. -/
theorem returned (hruntime : Bounded carried capacity runtime) (hdistinct : DistinctHashes carried)
    (hcarried : ∀ packet, (LookupEvent.conclude lookup moment).Carries packet → carried packet)
    {result : NodeLookupResult} (h : (runtime.conclude lookup moment).1 = some (.ok result)) :
    ∃ target packet record reading, Validates runtime lookup moment target packet record reading ∧
      carried packet ∧ decodeNodeRecord packet = .ok record ∧
      result = .fromRecord record (Blake3.hash packet) ∧
      reading.wallUnixMicros < record.expiresUnixMicros ∧
      ∀ entry, runtime.core.state.highWater.lookup target.nodeId = some entry →
        entry.sequence < record.sequence ∨
        (entry.sequence = record.sequence ∧ entry.packetHash = Blake3.hash packet ∧
          entry.cached = some result ∧
          reading.monotonic < entry.observedMonotonic + entry.validForAtObservation) := by
  cases hwaiting : runtime.waiting.lookup lookup with
  | none =>
    rw [LookupRuntime.conclude, hwaiting] at h
    cases h
  | some target =>
    rw [(conclude_waiting hwaiting).1] at h
    obtain ⟨packet, record, reading, hanswer, hinTime, hclock, hforward, hvalidated⟩ :=
      NodeLookupCore.conclude_ok (Option.some.inj h)
    have hstate := conclude_state hwaiting hanswer hinTime hclock hforward
    obtain ⟨hrecord, reply, signed, hreply, hsigned, hbytes⟩ := NodeLookupCore.readAnswer_ok hanswer
    have hpacket : carried packet :=
      hcarried packet ⟨lookup, moment, reply, target.publicKey, signed, rfl, hreply, hsigned, hbytes⟩
    rcases LookupState.validateAndAdvance_cases
        { runtime.core.state with lastWallUnixMicros := some reading.wallUnixMicros } runtime.core.capacity
        target.nodeId record (Blake3.hash packet) reading with
      ⟨error, hrefused⟩ | ⟨existing, hexisting, hsame, hhash, hreplayed⟩ | ⟨hnewer, -, hadvanced⟩
    · rw [hrefused] at hvalidated
      cases hvalidated
    · rw [hreplayed] at hvalidated hstate
      obtain ⟨hwall, hmonotonic, hcached⟩ := LookupState.replay_ok hvalidated
      obtain ⟨seen, rfl⟩ :=
        hruntime.recorded.of_packetHash hdistinct hexisting hpacket hrecord hhash.symm
      refine ⟨target, packet, record, reading, ⟨hwaiting, hanswer, hinTime, hclock, hforward, _, ?_, hsame.symm,
        rfl⟩, hpacket, hrecord, (LookupState.cached_highWaterOf hcached).2, hwall, fun entry hentry => .inr ?_⟩
      · rw [hstate]
        exact hexisting
      · obtain rfl := Option.some.inj (hexisting.symm.trans hentry)
        exact ⟨hsame.symm, rfl, hcached, hmonotonic⟩
    · rw [hadvanced] at hvalidated hstate
      rw [LookupState.advance_state] at hstate
      obtain ⟨hnone, hresult⟩ := LookupState.advance_ok hvalidated
      refine ⟨target, packet, record, reading, ⟨hwaiting, hanswer, hinTime, hclock, hforward,
        LookupState.highWaterOf record (Blake3.hash packet) reading, ?_, rfl, rfl⟩, hpacket, hrecord, hresult,
        (LookupState.newStateError_eq_none hnone).1, fun entry hentry => .inl (hnewer entry hentry)⟩
      rw [hstate]
      exact (lookup_insert _ _ _ _).trans (if_pos rfl)

theorem Validates.entered (h : Validates runtime lookup moment target packet record reading)
    (hruntime : Bounded carried capacity runtime) (hdistinct : DistinctHashes carried)
    (hcarried : ∀ packet, (LookupEvent.conclude lookup moment).Carries packet → carried packet) :
    carried packet ∧
      (runtime.conclude lookup moment).2.core.state.lastWallUnixMicros = some reading.wallUnixMicros ∧
      ∃ seen, (runtime.conclude lookup moment).2.core.state.highWater.lookup target.nodeId =
          some (LookupState.highWaterOf record (Blake3.hash packet) seen) ∧
        ((∀ entry, runtime.core.state.highWater.lookup target.nodeId = some entry →
          entry.sequence < record.sequence) → seen = reading) := by
  have hstate := conclude_state h.waiting h.answer h.inTime h.clock h.forward
  obtain ⟨hrecord, reply, signed, hreply, hsigned, hbytes⟩ := NodeLookupCore.readAnswer_ok h.answer
  have hpacket : carried packet :=
    hcarried packet ⟨lookup, moment, reply, target.publicKey, signed, rfl, hreply, hsigned, hbytes⟩
  obtain ⟨entry, hentry, hsequence, hhash⟩ := h.held
  refine ⟨hpacket, ?_⟩
  -- Where the table is as it was, the entry was there before, so this is not its first observation.
  have hunchanged : (runtime.conclude lookup moment).2.core.state =
      { runtime.core.state with lastWallUnixMicros := some reading.wallUnixMicros } →
      (runtime.conclude lookup moment).2.core.state.lastWallUnixMicros = some reading.wallUnixMicros ∧
      ∃ seen, (runtime.conclude lookup moment).2.core.state.highWater.lookup target.nodeId =
          some (LookupState.highWaterOf record (Blake3.hash packet) seen) ∧
        ((∀ entry, runtime.core.state.highWater.lookup target.nodeId = some entry →
          entry.sequence < record.sequence) → seen = reading) := by
    intro hsame
    rw [hsame] at hentry ⊢
    obtain ⟨seen, rfl⟩ := hruntime.recorded.of_packetHash hdistinct hentry hpacket hrecord hhash
    refine ⟨rfl, seen, hentry, fun hfirst => ?_⟩
    exact absurd (hsequence ▸ hfirst _ hentry) (UInt64.lt_irrefl _)
  rcases LookupState.validateAndAdvance_cases
      { runtime.core.state with lastWallUnixMicros := some reading.wallUnixMicros } runtime.core.capacity
      target.nodeId record (Blake3.hash packet) reading with
    ⟨error, hrefused⟩ | ⟨existing, -, -, -, hreplayed⟩ | ⟨-, -, hadvanced⟩
  · rw [hrefused] at hstate
    exact hunchanged hstate
  · rw [hreplayed] at hstate
    exact hunchanged hstate
  · rw [hadvanced, LookupState.advance_state] at hstate
    rw [hstate]
    exact ⟨rfl, reading, (lookup_insert _ _ _ _).trans (if_pos rfl), fun _ => rfl⟩

theorem table_of_refused {error : NodeLookupUnavailable}
    (h : (runtime.conclude lookup moment).1 = some (.error error)) (hkind : error.kind.keepsTable = true) :
    (runtime.conclude lookup moment).2.core.state.highWater = runtime.core.state.highWater := by
  cases hwaiting : runtime.waiting.lookup lookup with
  | none =>
    rw [LookupRuntime.conclude, hwaiting] at h
    cases h
  | some target =>
    rw [(conclude_waiting hwaiting).1] at h
    rw [(conclude_waiting hwaiting).2]
    exact NodeLookupCore.conclude_refused (Option.some.inj h) hkind

end LookupRuntime

open LookupRuntime in
/-- Over every interleaving of lookups: the table's sequences only grow, within its capacity; and a lookup returns only a record in time by both clocks, not below any sequence validated before for its node, of the one packet of that sequence, and above every withdrawal or expired record. -/
theorem lookup_rejects_replay (config : NodeLookupConfig) (capacity : Nat) (events : List LookupEvent) :
    (∀ before after nodeId entry, events = before ++ after →
      (run config capacity before).core.state.highWater.lookup nodeId = some entry →
      ∃ later, (run config capacity events).core.state.highWater.lookup nodeId = some later ∧
        entry.sequence ≤ later.sequence) ∧
    (run config capacity events).core.state.highWater.entries.length ≤ capacity ∧
    (∀ lookup moment error, ((run config capacity events).conclude lookup moment).1 = some (.error error) →
      error.kind.keepsTable = true →
      ((run config capacity events).conclude lookup moment).2.core.state.highWater =
        (run config capacity events).core.state.highWater) ∧
    ∀ lookup moment result,
      DistinctHashes (fun packet => ∃ event ∈ events ++ [.conclude lookup moment], event.Carries packet) →
      ((run config capacity events).conclude lookup moment).1 = some (.ok result) →
      ∃ target packet record reading,
        Validates (run config capacity events) lookup moment target packet record reading ∧
        result = .fromRecord record (Blake3.hash packet) ∧
        reading.wallUnixMicros < record.expiresUnixMicros ∧
        ∀ before earlier moment' after target' packet' record' reading',
          events = before ++ .conclude earlier moment' :: after →
          Validates (run config capacity before) earlier moment' target' packet' record' reading' →
          target'.nodeId = target.nodeId →
          record'.sequence ≤ record.sequence ∧
          (record'.sequence = record.sequence → packet' = packet) ∧
          (record'.sequence = record.sequence →
            (∀ entry, (run config capacity before).core.state.highWater.lookup target.nodeId = some entry →
              entry.sequence < record'.sequence) →
            reading.monotonic < reading'.monotonic +
              (remainingMicros record'.expiresUnixMicros reading'.wallUnixMicros).toNat * 1000) ∧
          (record'.state = .withdrawn ∨ record'.expiresUnixMicros ≤ reading'.wallUnixMicros →
            record'.sequence < record.sequence) := by
  refine ⟨?_, ?_, fun lookup moment error => table_of_refused, ?_⟩
  · intro before after nodeId entry hevents hentry
    obtain ⟨later, hlater, hfollows⟩ :=
      (foldl_follows (run config capacity before) after).entries nodeId entry hentry
    rw [hevents, run_append]
    refine ⟨later, hlater, ?_⟩
    rcases hfollows with rfl | hlt
    · exact UInt64.le_refl _
    · exact UInt64.le_of_lt hlt
  · have hbounded : Bounded (fun _ => True) capacity (run config capacity events) :=
      bounded_run fun _ _ _ _ => trivial
    exact hbounded.size
  · intro lookup moment result hdistinct hreturned
    have hcarried : ∀ event ∈ events, ∀ packet, event.Carries packet →
        ∃ event ∈ events ++ [.conclude lookup moment], event.Carries packet :=
      fun event hevent packet hpacket => ⟨event, List.mem_append_left _ hevent, hpacket⟩
    obtain ⟨target, packet, record, reading, hvalidates, hpacket, hrecord, hresult, hwall, htable⟩ :=
      returned (bounded_run hcarried) hdistinct
        (fun packet hpacket => ⟨_, List.mem_concat_self, hpacket⟩) hreturned
    refine ⟨target, packet, record, reading, hvalidates, hresult, hwall, ?_⟩
    intro before earlier moment' after target' packet' record' reading' hevents hearlier hnode
    have hmem : ∀ event ∈ before ++ [.conclude earlier moment'], event ∈ events := by
      intro event hevent
      rw [hevents, ← List.singleton_append, ← List.append_assoc]
      exact List.mem_append_left after hevent
    obtain ⟨hpacket', hlast, seen, hentry, hfirst⟩ := hearlier.entered
      (bounded_run fun event hevent => hcarried event (hmem event (List.mem_append_left _ hevent))) hdistinct
      (hcarried _ (hmem _ List.mem_concat_self))
    have hfollows := foldl_follows ((run config capacity before).conclude earlier moment').2 after
    have hrun : after.foldl LookupRuntime.step ((run config capacity before).conclude earlier moment').2 =
        run config capacity events := by
      rw [hevents, run_append]
      rfl
    rw [hrun] at hfollows
    obtain ⟨later, hlater, hgrown⟩ := hfollows.entries _ _ hentry
    obtain ⟨last, hlastLater, hlastLe⟩ := hfollows.wall _ hlast
    rw [hnode] at hlater
    have hstrict : record'.sequence < record.sequence →
        record'.sequence ≤ record.sequence ∧ (record'.sequence = record.sequence → packet' = packet) ∧
        (record'.sequence = record.sequence →
          (∀ entry, (run config capacity before).core.state.highWater.lookup target.nodeId = some entry →
            entry.sequence < record'.sequence) →
          reading.monotonic < reading'.monotonic +
            (remainingMicros record'.expiresUnixMicros reading'.wallUnixMicros).toNat * 1000) ∧
        (record'.state = .withdrawn ∨ record'.expiresUnixMicros ≤ reading'.wallUnixMicros →
          record'.sequence < record.sequence) := by
      intro hlt
      have hne : record'.sequence ≠ record.sequence := fun heq => UInt64.lt_irrefl _ (heq ▸ hlt)
      exact ⟨UInt64.le_of_lt hlt, fun heq => absurd heq hne, fun heq => absurd heq hne, fun _ => hlt⟩
    have hbelow : record'.sequence ≤ later.sequence := by
      rcases hgrown with rfl | hlt
      · exact UInt64.le_refl _
      · exact UInt64.le_of_lt hlt
    rcases htable later hlater with hlt | ⟨hsame, hhash, hcached, hmonotonic⟩
    · exact hstrict (UInt64.lt_of_le_of_lt hbelow hlt)
    rcases hgrown with rfl | hlt
    · -- The entry is still the one of the earlier validation, so both are of one packet.
      obtain rfl := hdistinct packet' packet hpacket' hpacket hhash
      have hrecord' := (NodeLookupCore.readAnswer_ok hearlier.answer).1
      obtain rfl := Except.ok.inj (hrecord'.symm.trans hrecord)
      obtain ⟨hcurrent, hlive⟩ :=
        LookupState.newStateError_eq_none (LookupState.cached_highWaterOf hcached).1
      refine ⟨UInt64.le_refl _, fun _ => rfl, fun _ hobserved => ?_, fun hunusable => ?_⟩
      · obtain rfl := hfirst fun entry hentry => hobserved entry (hnode ▸ hentry)
        exact hmonotonic
      · rcases hunusable with hwithdrawn | hexpired
        · rw [hlive] at hwithdrawn
          cases hwithdrawn
        · have hpast := UInt64.le_trans hexpired (UInt64.le_trans hlastLe (hvalidates.forward last hlastLater))
          exact absurd hwall (UInt64.not_lt.mpr hpast)
    · exact hstrict (hsame ▸ hlt)

end Replay

/-! ### A history -/

attribute [local instance] plainCodec plainBlake3 plainPackets

def plainLookup : NodeLookupConfig := ⟨"space", "all"⟩

def plainTarget : LookupTarget := ⟨"node", ("node" : String)⟩

def plainAnswer (wall : UInt64) (monotonic : Nat) : AnswerMoment where
  response := .ok ⟨200, plainPacket .live 1000000 [1]⟩
  lateResponse := false
  lateValidation := false
  lateLock := false
  clock := .ok ⟨wall, monotonic⟩
  lateOutcome := false

/-- The packet is validated by one lookup, and another has begun. -/
def repeatedEvents : List LookupEvent :=
  [.preflight 0 plainTarget ⟨false, false, false, .ok ⟨1000000, 0⟩⟩, .conclude 0 (plainAnswer 1000000 0),
    .preflight 1 plainTarget ⟨false, false, false, .ok ⟨2000000, 1000000000⟩⟩]

theorem lookup_rejects_replay_repeated :
    ∃ target packet record reading,
      (LookupRuntime.run plainLookup 1 repeatedEvents).Validates 1 (plainAnswer 2000000 1000000000) target packet
        record reading ∧ reading.wallUnixMicros < record.expiresUnixMicros := by
  obtain ⟨-, -, -, hreturned⟩ := lookup_rejects_replay plainLookup 1 repeatedEvents
  have hcarried : ∀ event ∈ repeatedEvents ++ [.conclude 1 (plainAnswer 2000000 1000000000)],
      ∀ packet, event.Carries packet → packet = plainPacket .live 1000000 [1] := by
    intro event hevent packet hpacket
    obtain ⟨lookup, moment, reply, key, signed, rfl, hreply, hsigned, rfl⟩ := hpacket
    obtain rfl := Except.ok.inj hsigned
    have hmoments : ∃ wall monotonic, moment = plainAnswer wall monotonic := by
      simp only [repeatedEvents, List.cons_append, List.nil_append, List.mem_cons, List.not_mem_nil, or_false,
        reduceCtorEq, false_or, LookupEvent.conclude.injEq] at hevent
      rcases hevent with ⟨-, rfl⟩ | ⟨-, rfl⟩
      · exact ⟨_, _, rfl⟩
      · exact ⟨_, _, rfl⟩
    obtain ⟨wall, monotonic, rfl⟩ := hmoments
    rw [← Except.ok.inj hreply]
    rfl
  have hdistinct : DistinctHashes fun packet =>
      ∃ event ∈ repeatedEvents ++ [.conclude 1 (plainAnswer 2000000 1000000000)], event.Carries packet := by
    intro left right hleft hright _
    obtain ⟨event, hevent, hleft⟩ := hleft
    obtain ⟨event', hevent', hright⟩ := hright
    rw [hcarried event hevent left hleft, hcarried event' hevent' right hright]
  obtain ⟨target, packet, record, reading, hvalidates, -, hcurrent, -⟩ :=
    hreturned 1 (plainAnswer 2000000 1000000000)
      (.fromRecord (plainRecord .live 1000000 [1]) (Blake3.hash (plainPacket .live 1000000 [1])))
      hdistinct (by decide +kernel)
  exact ⟨target, packet, record, reading, hvalidates, hcurrent⟩

end NixP2p
