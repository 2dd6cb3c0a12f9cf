import NixP2p.Publication.Authority
import NixP2p.Publication.Submissions

/-!
# What an authority shows

Along every history the entry of a signer is only followed by one of a higher sequence, or by itself with the expiry latch set. Both the process and the state file move this way, the process never ahead of the file, and while the store is healthy the two agree. A packet that is shown is therefore the newest ever written for its signer, and one that was found expired is not shown again.
-/

namespace NixP2p

open HashTable

namespace AuthorityEntry

/-- A higher sequence, or the same packet with the latch set or not yet. -/
def Follows (old new : AuthorityEntry) : Prop :=
  old.highWaterSequence < new.highWaterSequence ∨
    (new.highWaterSequence = old.highWaterSequence ∧ new.packet = old.packet ∧
      (old.expired = true → new.expired = true))

variable {old mid new : AuthorityEntry}

theorem Follows.refl (entry : AuthorityEntry) : entry.Follows entry := .inr ⟨rfl, rfl, id⟩

theorem Follows.le (h : old.Follows new) : old.highWaterSequence ≤ new.highWaterSequence := by
  rcases h with hlt | ⟨heq, -⟩
  · exact UInt64.le_of_lt hlt
  · exact UInt64.le_of_eq heq.symm

theorem Follows.trans (h : old.Follows mid) (hnext : mid.Follows new) : old.Follows new := by
  rcases h with hlt | ⟨hsame, hpacket, hlatch⟩
  · exact .inl (UInt64.lt_of_lt_of_le hlt hnext.le)
  rcases hnext with hlt | ⟨hsame', hpacket', hlatch'⟩
  · exact .inl (hsame ▸ hlt)
  · exact .inr ⟨hsame'.trans hsame, hpacket'.trans hpacket, fun hold => hlatch' (hlatch hold)⟩

/-- Below an entry that is not latched, the same sequence is the same packet and was not latched either. -/
theorem Follows.same (h : old.Follows new) (hsequence : old.highWaterSequence = new.highWaterSequence)
    (hopen : new.expired = false) : old.packet = new.packet ∧ old.expired = false := by
  rcases h with hlt | ⟨-, hpacket, hlatch⟩
  · rw [hsequence] at hlt
    exact absurd hlt (UInt64.lt_irrefl _)
  refine ⟨hpacket.symm, Bool.eq_false_iff.mpr fun hold => ?_⟩
  rw [hlatch hold] at hopen
  cases hopen

end AuthorityEntry

def EntriesFollow (old new : String → Option AuthorityEntry) : Prop :=
  ∀ signer entry, old signer = some entry → ∃ later, new signer = some later ∧ entry.Follows later

variable {old new : String → Option AuthorityEntry}

theorem EntriesFollow.trans {mid : String → Option AuthorityEntry} (h : EntriesFollow old mid)
    (hnext : EntriesFollow mid new) : EntriesFollow old new := by
  intro signer entry hentry
  obtain ⟨between, hbetween, hfollows⟩ := h signer entry hentry
  obtain ⟨later, hlater, hfollows'⟩ := hnext signer between hbetween
  exact ⟨later, hlater, hfollows.trans hfollows'⟩

theorem EntriesFollow.of_eq (h : ∀ signer, new signer = old signer) :
    EntriesFollow old new :=
  fun signer entry hentry => ⟨entry, (h signer).trans hentry, .refl entry⟩

def AuthorityStateBody.entryFor? (body : AuthorityStateBody) (signer : String) : Option AuthorityEntry :=
  body.records.lookup signer

namespace AuthorityFiles

def entryFor? (files : AuthorityFiles) (signer : String) : Option AuthorityEntry :=
  files.stateFile.bind fun body => body.entryFor? signer

def Accepted (files : AuthorityFiles) (signer : String) (entry : AuthorityEntry) : Prop :=
  ∃ body ∈ files.written, body.entryFor? signer = some entry

end AuthorityFiles

section Visibility

variable [NodeRecordCodec]

def AuthorityEntry.Reads (entry : AuthorityEntry) : Prop :=
  ∃ record, decodeNodeRecord entry.packet = .ok record ∧
    record.sequence = entry.highWaterSequence ∧ record.expiresUnixMicros = entry.expiresUnixMicros

/-- One change of a state: the entry of one signer moves on, and no other. -/
structure AuthorityStateBody.Succeeds (signer : String) (old new : AuthorityStateBody) : Prop where
  others : ∀ other, other ≠ signer → new.entryFor? other = old.entryFor? other
  follows : EntriesFollow old.entryFor? new.entryFor?
  reads : (∀ entry, old.entryFor? signer = some entry → entry.Reads) →
    ∀ entry, new.entryFor? signer = some entry → entry.Reads

namespace AuthorityStateBody

variable {signer : String} {body : AuthorityStateBody}

theorem succeeds_of_entries {new : AuthorityStateBody} (h : new.records = body.records) :
    Succeeds signer body new := by
  have heq : ∀ other, new.entryFor? other = body.entryFor? other := fun other => by
    rw [entryFor?, entryFor?, h]
  refine ⟨fun other _ => heq other, .of_eq heq, fun hreads entry hentry => hreads entry ?_⟩
  rw [← heq, hentry]

theorem succeeds_insert {entry : AuthorityEntry} {wallClock : UInt64}
    (hfollows : ∀ old, body.entryFor? signer = some old → old.Follows entry)
    (hreads : (∀ old, body.entryFor? signer = some old → old.Reads) → entry.Reads) :
    Succeeds signer body { body with
      wallClockHighWaterUnixMicros := wallClock, records := body.records.insert signer entry } := by
  have hlookup : ∀ other, entryFor? { body with
      wallClockHighWaterUnixMicros := wallClock, records := body.records.insert signer entry } other =
      if other = signer then some entry else body.entryFor? other :=
    fun other => lookup_insert body.records signer other entry
  refine ⟨fun other hne => ?_, fun other old hold => ?_, fun hold new hnew => ?_⟩
  · rw [hlookup, if_neg hne]
  · rw [hlookup]
    by_cases hown : other = signer
    · subst hown
      exact ⟨entry, if_pos rfl, hfollows old hold⟩
    · exact ⟨old, (if_neg hown).trans hold, .refl old⟩
  · rw [hlookup, if_pos rfl] at hnew
    obtain rfl := Option.some.inj hnew
    exact hreads hold

end AuthorityStateBody

/-! ### The files -/

namespace AuthorityFiles

/-- The state file follows everything it has held. -/
structure Consistent (files : AuthorityFiles) : Prop where
  newest : ∀ signer entry, files.Accepted signer entry →
    ∃ later, files.entryFor? signer = some later ∧ entry.Follows later
  recorded : ∀ signer entry, files.entryFor? signer = some entry → files.Accepted signer entry
  reads : ∀ signer entry, files.entryFor? signer = some entry → entry.Reads

variable {files : AuthorityFiles} {body : AuthorityStateBody}

theorem Consistent.putState (h : files.Consistent) (hfollows : EntriesFollow files.entryFor? body.entryFor?)
    (hreads : ∀ signer entry, body.entryFor? signer = some entry → entry.Reads) :
    (files.putState body).Consistent where
  newest := by
    intro signer entry haccepted
    obtain ⟨found, hfound, hentry⟩ := haccepted
    rcases List.mem_append.mp hfound with hfound | hfound
    · obtain ⟨later, hlater, hnext⟩ := h.newest signer entry ⟨found, hfound, hentry⟩
      obtain ⟨last, hlast, hnext'⟩ := hfollows signer later hlater
      exact ⟨last, hlast, hnext.trans hnext'⟩
    · rw [List.mem_singleton.mp hfound] at hentry
      exact ⟨entry, hentry, .refl entry⟩
  recorded := fun signer entry hentry => ⟨body, List.mem_concat_self, hentry⟩
  reads := hreads

end AuthorityFiles

/-! ### One request -/

namespace AuthorityInner

/-- A healthy process works from the state file, and any process from a state the file has gone through. -/
structure Sound (inner : AuthorityInner) : Prop where
  files : inner.files.Consistent
  healthy : inner.poisoned = false → ∀ signer, inner.files.entryFor? signer = inner.state.entryFor? signer
  behind : EntriesFollow inner.state.entryFor? inner.files.entryFor?

/-- What a request of one signer may change. -/
structure Changes (signer : String) (old new : AuthorityInner) : Prop where
  state : ∀ other, other ≠ signer → new.state.entryFor? other = old.state.entryFor? other
  files : ∀ other, other ≠ signer → new.files.entryFor? other = old.files.entryFor? other
  follows : EntriesFollow old.state.entryFor? new.state.entryFor?
  sound : new.Sound

variable {inner next : AuthorityInner} {signer : String} {candidate : AuthorityStateBody}

theorem Sound.changes (h : inner.Sound) (signer : String) : Changes signer inner inner :=
  ⟨fun _ _ => rfl, fun _ _ => rfl, .of_eq fun _ => rfl, h⟩

theorem Changes.withDeadlines (h : Changes signer inner next) (deadlines : Table String Nat) :
    Changes signer inner { next with monotonicExpiry := deadlines } :=
  ⟨h.state, h.files, h.follows, ⟨h.sound.files, h.sound.healthy, h.sound.behind⟩⟩

theorem Sound.consistent_putState (h : inner.Sound) (hhealthy : inner.poisoned = false)
    (hsucceeds : AuthorityStateBody.Succeeds signer inner.state candidate) :
    (inner.files.putState candidate).Consistent := by
  have hagree := h.healthy hhealthy
  refine h.files.putState ?_ fun other entry hentry => ?_
  · exact .trans (.of_eq fun other => (hagree other).symm) hsucceeds.follows
  · by_cases hown : other = signer
    · subst hown
      exact hsucceeds.reads (fun old hold => h.files.reads other old ((hagree other).trans hold)) entry hentry
    · rw [hsucceeds.others other hown, ← hagree] at hentry
      exact h.files.reads other entry hentry

variable [Blake3]

theorem Sound.commit (h : inner.Sound) (hhealthy : inner.poisoned = false)
    (hsucceeds : AuthorityStateBody.Succeeds signer inner.state candidate) (outcome : AuthorityWrite) :
    Changes signer inner (inner.commit candidate outcome).2 := by
  have hagree := h.healthy hhealthy
  have hput := h.consistent_putState hhealthy hsucceeds
  have hothers : ∀ other, other ≠ signer →
      (inner.files.putState candidate).entryFor? other = inner.files.entryFor? other := by
    intro other hne
    rw [hagree]
    exact hsucceeds.others other hne
  -- The anchor is in none of this, so both ways of leaving it are alike.
  have hkeep : ∀ anchorKept, (inner.files.keep candidate true anchorKept).Consistent ∧
      (inner.files.keep candidate true anchorKept).entryFor? = candidate.entryFor? := by
    intro anchorKept
    cases anchorKept
    · exact ⟨hput, rfl⟩
    · exact ⟨⟨hput.newest, hput.recorded, hput.reads⟩, rfl⟩
  have hstay : ∀ anchorKept, (inner.files.keep candidate false anchorKept).Consistent ∧
      (inner.files.keep candidate false anchorKept).entryFor? = inner.files.entryFor? := by
    intro anchorKept
    cases anchorKept
    · exact ⟨h.files, rfl⟩
    · exact ⟨⟨h.files.newest, h.files.recorded, h.files.reads⟩, rfl⟩
  cases outcome with
  | done =>
    exact ⟨hsucceeds.others, hothers, hsucceeds.follows, (hkeep true).1, fun _ _ => rfl, .of_eq fun _ => rfl⟩
  | failed why => exact h.changes signer
  | ambiguous stateKept anchorKept why =>
    cases stateKept with
    | true =>
      refine ⟨fun _ _ => rfl, fun other hne => ?_, .of_eq fun _ => rfl, (hkeep anchorKept).1,
        fun hclean => (nomatch hclean), ?_⟩
      · exact (congrFun (hkeep anchorKept).2 other).trans (hothers other hne)
      · exact hsucceeds.follows.trans (.of_eq fun other => congrFun (hkeep anchorKept).2 other)
    | false =>
      refine ⟨fun _ _ => rfl, fun other _ => congrFun (hstay anchorKept).2 other, .of_eq fun _ => rfl,
        (hstay anchorKept).1, fun hclean => (nomatch hclean), ?_⟩
      exact h.behind.trans (.of_eq fun other => congrFun (hstay anchorKept).2 other)

variable [SignedPacketCodec] {moment : RequestMoment}

theorem Sound.serveGet (h : inner.Sound) (hhealthy : inner.poisoned = false) (signer : String)
    (moment : RequestMoment) : Changes signer inner (inner.serveGet signer moment).2 := by
  unfold AuthorityInner.serveGet
  cases hentry : inner.state.records.lookup signer with
  | none => exact h.changes signer
  | some entry =>
    have hlatched : AuthorityStateBody.Succeeds signer inner.state
        (inner.latched signer entry moment.now) := by
      refine AuthorityStateBody.succeeds_insert (fun old hold => ?_) fun hreads => ?_
      · obtain rfl := Option.some.inj (hentry.symm.trans hold)
        exact .inr ⟨rfl, rfl, fun _ => rfl⟩
      · exact hreads entry hentry
    have hlatch := h.commit hhealthy hlatched moment.outcome
    have hticked : AuthorityStateBody.Succeeds signer inner.state
        { inner.state with wallClockHighWaterUnixMicros := moment.now } :=
      AuthorityStateBody.succeeds_of_entries rfl
    have hclock := h.commit hhealthy hticked moment.outcome
    dsimp only
    split
    · exact h.changes signer
    split
    · split
      · rename_i hcommit
        rw [hcommit] at hlatch
        exact hlatch
      rename_i hcommit
      rw [hcommit] at hlatch
      exact hlatch.withDeadlines _
    split
    · split
      · rename_i hcommit
        rw [hcommit] at hclock
        exact hclock
      rename_i hcommit
      rw [hcommit] at hclock
      exact hclock
    · exact h.changes signer

variable {record : NodeRecord Location}

omit [Blake3] in
theorem readPut_ok {config : PublicationAuthorityConfig} {body : List UInt8} {now : UInt64}
    {signed : SignedPacket} (h : readPut config signer body now = .ok (signed, record)) :
    ∃ key, SignedPacketCodec.fromZ32 signer = some key ∧
      SignedPacketCodec.fromRelayPayload key body = .ok signed ∧
      decodeNodeRecord (SignedPacketCodec.asBytes signed) = .ok record := by
  unfold readPut at h
  split at h
  · cases h
  rename_i key hkey
  split at h
  · cases h
  rename_i found hfound
  split at h
  · cases h
  split at h
  · cases h
  rename_i seen hseen
  split at h
  · cases h
  split at h
  · cases h
  split at h
  · cases h
  · cases h
    exact ⟨key, hkey, hfound, hseen⟩

variable {packet : List UInt8}

omit [Blake3] [SignedPacketCodec] in
theorem lt_of_superseded {existing : AuthorityEntry} (h : superseded existing record packet = none) :
    existing.highWaterSequence < record.sequence := by
  unfold superseded at h
  split at h
  · cases h
  split at h
  · cases h
  rename_i hnotLess
  split at h
  · split at h <;> cases h
  · rename_i hne
    exact UInt64.lt_of_le_of_ne (UInt64.not_lt.mp hnotLess) fun heq => hne heq.symm

theorem Sound.servePut (h : inner.Sound) (hhealthy : inner.poisoned = false) (signer : String)
    (body : List UInt8) (moment : RequestMoment) :
    Changes signer inner (inner.servePut signer body moment).2 := by
  unfold AuthorityInner.servePut
  cases hread : readPut inner.config signer body moment.now with
  | error reply => exact h.changes signer
  | ok pair =>
    obtain ⟨signed, record⟩ := pair
    obtain ⟨-, -, -, hrecord⟩ := readPut_ok hread
    dsimp only
    split
    · exact h.changes signer
    rename_i hnone
    have haccepting : AuthorityStateBody.Succeeds signer inner.state (inner.accepting signer
        (entryOf record (SignedPacketCodec.asBytes signed)) moment.now) := by
      refine AuthorityStateBody.succeeds_insert (fun old hold => .inl ?_) fun _ => ⟨record, hrecord, rfl, rfl⟩
      have hlookup : inner.state.records.lookup signer = some old := hold
      rw [hlookup] at hnone
      exact lt_of_superseded hnone
    have haccept := h.commit hhealthy haccepting moment.outcome
    split
    · rename_i hcommit
      rw [hcommit] at haccept
      exact haccept
    rename_i hcommit
    rw [hcommit] at haccept
    split
    · exact haccept
    · exact haccept.withDeadlines _

theorem Sound.applyRequestAt (h : inner.Sound) (request : AuthorityRequest) (moment : RequestMoment) :
    Changes request.signer inner (inner.applyRequestAt request moment).2 := by
  unfold AuthorityInner.applyRequestAt
  split
  · exact h.changes request.signer
  split
  · exact h.changes request.signer
  rename_i hhealthy
  have hclean : inner.poisoned = false := Bool.eq_false_iff.mpr hhealthy
  split
  · exact h.changes request.signer
  cases request.method with
  | get => exact h.serveGet hclean request.signer moment
  | put => exact h.servePut hclean request.signer request.body moment

/-! ### The answers -/

variable {response : AuthorityResponse}

omit [Blake3] [NodeRecordCodec] in
theorem status_showPacket (h : showPacket packet = .ok response) : response.status = 200 := by
  unfold showPacket at h
  split at h
  · cases h
  · cases h
    rfl

omit [NodeRecordCodec] in
theorem shown_of_serveGet (h : (inner.serveGet signer moment).1 = .ok response) (hstatus : response.status = 200) :
    ∃ entry, inner.state.entryFor? signer = some entry ∧ entry.expired = false ∧
      moment.now < entry.expiresUnixMicros ∧ showPacket entry.packet = .ok response := by
  have hnotFound : (.ok .notFound : AuthorityReply) ≠ .ok response := by
    intro heq
    obtain rfl := Except.ok.inj heq
    exact absurd hstatus (by decide)
  unfold AuthorityInner.serveGet at h
  cases hentry : inner.state.records.lookup signer with
  | none =>
    rw [hentry] at h
    exact absurd h hnotFound
  | some entry =>
    rw [hentry] at h
    dsimp only at h
    split at h
    · exact absurd h hnotFound
    rename_i hopen
    split at h
    · split at h
      · cases h
      · exact absurd h hnotFound
    rename_i hcurrent
    rw [not_or, UInt64.not_le] at hcurrent
    refine ⟨entry, hentry, Bool.eq_false_iff.mpr hopen, hcurrent.1, ?_⟩
    split at h
    · split at h
      · cases h
      · exact h
    · exact h

omit [NodeRecordCodec] in
theorem latched_of_serveGet {entry : AuthorityEntry} (hentry : inner.state.entryFor? signer = some entry)
    (h : (inner.serveGet signer moment).1 = .ok response) (hstatus : response.status = 404) :
    ∃ later, (inner.serveGet signer moment).2.state.entryFor? signer = some later ∧
      later.highWaterSequence = entry.highWaterSequence ∧ later.expired = true := by
  have hshown : showPacket entry.packet ≠ .ok response := by
    intro heq
    rw [status_showPacket heq] at hstatus
    exact absurd hstatus (by decide)
  have hlookup : inner.state.records.lookup signer = some entry := hentry
  unfold AuthorityInner.serveGet at h ⊢
  rw [hlookup] at h ⊢
  dsimp only at h ⊢
  split
  · rename_i hlatched
    exact ⟨entry, hentry, rfl, hlatched⟩
  rename_i hopen
  rw [if_neg hopen] at h
  split
  · rename_i hexpired
    rw [if_pos hexpired] at h
    cases houtcome : moment.outcome with
    | done =>
      refine ⟨{ entry with expired := true }, ?_, rfl, rfl⟩
      exact (lookup_insert inner.state.records signer signer _).trans (if_pos rfl)
    | failed why =>
      rw [houtcome] at h
      cases h
    | ambiguous stateKept anchorKept why =>
      rw [houtcome] at h
      cases h
  · rename_i hcurrent
    rw [if_neg hcurrent] at h
    split at h
    · split at h
      · cases h
      · exact absurd h hshown
    · exact absurd h hshown

end AuthorityInner

variable [SignedPacketCodec] [Blake3]

/-- The packet that a request carries for its signer, with the record in it. -/
def AuthorityRequest.packet? (request : AuthorityRequest) : Option (SignedPacket × NodeRecord Location) :=
  (SignedPacketCodec.fromZ32 request.signer).bind fun key =>
    (SignedPacketCodec.fromRelayPayload key request.body).toOption.bind fun signed =>
      (decodeNodeRecord (SignedPacketCodec.asBytes signed)).toOption.map fun record => (signed, record)

namespace AuthorityInner

variable {inner : AuthorityInner} {request : AuthorityRequest} {moment : RequestMoment}

variable {config : PublicationAuthorityConfig}

variable {now : UInt64}

omit [Blake3] in
theorem packet?_of_readPut {pair : SignedPacket × NodeRecord Location}
    (h : readPut config request.signer request.body now = .ok pair) : request.packet? = some pair := by
  obtain ⟨key, hkey, hsigned, hrecord⟩ := readPut_ok h
  rw [AuthorityRequest.packet?, hkey, Option.bind_some, hsigned]
  change (decodeNodeRecord (SignedPacketCodec.asBytes pair.1)).toOption.map (fun record => (pair.1, record)) = _
  rw [hrecord]
  rfl

variable {record : NodeRecord Location} {signed : SignedPacket} {entry : AuthorityEntry}

theorem servePut_of_le (hpacket : request.packet? = some (signed, record))
    (hentry : inner.state.entryFor? request.signer = some entry)
    (hle : record.sequence ≤ entry.highWaterSequence) :
    (inner.servePut request.signer request.body moment).2 = inner := by
  unfold AuthorityInner.servePut
  cases hread : readPut inner.config request.signer request.body moment.now with
  | error reply => rfl
  | ok pair =>
    obtain rfl := Option.some.inj ((packet?_of_readPut hread).symm.trans hpacket)
    have hlookup : inner.state.records.lookup request.signer = some entry := hentry
    dsimp only
    rw [hlookup, Option.bind_some]
    split
    · rfl
    · rename_i hnone
      exact absurd hle (UInt64.not_le.mpr (lt_of_superseded hnone))

variable {response : AuthorityResponse}

omit [Blake3] in
theorem status_of_readPut (h : readPut config request.signer request.body now = .error (.ok response)) :
    response.status = 422 := by
  have hunprocessable : ∀ {reply : AuthorityReply}, reply = .ok .unprocessable → reply = .ok response →
      response.status = 422 := by
    intro reply hreply hresponse
    obtain rfl := Except.ok.inj (hreply.symm.trans hresponse)
    rfl
  unfold readPut at h
  split at h
  · exact hunprocessable rfl (Except.error.inj h)
  split at h
  · exact hunprocessable rfl (Except.error.inj h)
  split at h
  · exact hunprocessable rfl (Except.error.inj h)
  split at h
  · exact hunprocessable rfl (Except.error.inj h)
  split at h
  · exact hunprocessable rfl (Except.error.inj h)
  split at h
  · cases h
  split at h
  · exact hunprocessable rfl (Except.error.inj h)
  · cases h

omit [Blake3] [SignedPacketCodec] in
theorem status_of_superseded {existing : AuthorityEntry} {packet : List UInt8}
    (h : superseded existing record packet = some response) : response.status = 409 ∨ response.status = 200 := by
  unfold superseded at h
  split at h
  · exact .inl (Option.some.inj h ▸ rfl)
  split at h
  · exact .inl (Option.some.inj h ▸ rfl)
  split at h
  · split at h
    · exact .inr (Option.some.inj h ▸ rfl)
    · exact .inl (Option.some.inj h ▸ rfl)
  · cases h

theorem accepted_of_servePut (h : (inner.servePut request.signer request.body moment).1 = .ok response)
    (hstatus : response.status = 201) :
    ∃ signed record, request.packet? = some (signed, record) ∧
      (inner.servePut request.signer request.body moment).2.files.Accepted request.signer
        (entryOf record (SignedPacketCodec.asBytes signed)) := by
  unfold AuthorityInner.servePut at h ⊢
  cases hread : readPut inner.config request.signer request.body moment.now with
  | error reply =>
    rw [hread] at h
    dsimp only at h
    rw [h] at hread
    exact absurd (hstatus.symm.trans (status_of_readPut hread)) (by decide)
  | ok pair =>
    obtain ⟨signed, record⟩ := pair
    refine ⟨signed, record, packet?_of_readPut hread, ?_⟩
    rw [hread] at h
    dsimp only at h ⊢
    split at h
    · rename_i found hsome
      obtain rfl := Except.ok.inj h
      obtain ⟨existing, -, hsuperseded⟩ := Option.bind_eq_some_iff.mp hsome
      rcases status_of_superseded hsuperseded with hother | hother
      · exact absurd (hstatus.symm.trans hother) (by decide)
      · exact absurd (hstatus.symm.trans hother) (by decide)
    cases houtcome : moment.outcome with
    | failed why =>
      rw [houtcome] at h
      cases h
    | ambiguous stateKept anchorKept why =>
      rw [houtcome] at h
      cases h
    | done =>
      have hentry := (lookup_insert inner.state.records request.signer request.signer
        (entryOf record (SignedPacketCodec.asBytes signed))).trans (if_pos rfl)
      dsimp only [AuthorityInner.commit]
      split
      · exact ⟨_, List.mem_concat_self, hentry⟩
      · exact ⟨_, List.mem_concat_self, hentry⟩

theorem applyRequestAt_of_ok (hadmits : inner.config.admits request.signer = true)
    (h : (inner.applyRequestAt request moment).1 = .ok response) :
    inner.poisoned = false ∧ inner.applyRequestAt request moment =
      match request.method with
      | .get => inner.serveGet request.signer moment
      | .put => inner.servePut request.signer request.body moment := by
  unfold AuthorityInner.applyRequestAt at h ⊢
  rw [hadmits] at h ⊢
  change (if inner.poisoned = true then _ else _ : AuthorityReply × AuthorityInner).1 = _ at h
  change _ ∧ (if inner.poisoned = true then _ else _ : AuthorityReply × AuthorityInner) = _
  by_cases hpoisoned : inner.poisoned = true
  · rw [if_pos hpoisoned] at h
    cases h
  rw [if_neg hpoisoned] at h ⊢
  by_cases hregressed : clockRegressed inner.state moment.now = true
  · rw [if_pos hregressed] at h
    cases h
  · rw [if_neg hregressed]
    exact ⟨Bool.eq_false_iff.mpr hpoisoned, rfl⟩

theorem applyRequestAt_of_le (hmethod : request.method = .put)
    (hpacket : request.packet? = some (signed, record))
    (hentry : inner.state.entryFor? request.signer = some entry)
    (hle : record.sequence ≤ entry.highWaterSequence) : (inner.applyRequestAt request moment).2 = inner := by
  unfold AuthorityInner.applyRequestAt
  split
  · rfl
  split
  · rfl
  split
  · rfl
  · rw [hmethod]
    exact servePut_of_le hpacket hentry hle

theorem applyRequestAt_of_regressed (h : clockRegressed inner.state moment.now = true) :
    (inner.applyRequestAt request moment).2 = inner := by
  unfold AuthorityInner.applyRequestAt
  split
  · rfl
  split
  · rfl
  · rfl

theorem admits_of_status (h : (inner.applyRequestAt request moment).1 = .ok response)
    (hstatus : response.status = 200 ∨ response.status = 201) : inner.config.admits request.signer = true := by
  by_contra hnot
  rw [Bool.not_eq_true] at hnot
  unfold AuthorityInner.applyRequestAt at h
  rw [hnot] at h
  change Except.ok (if request.method = .get then AuthorityResponse.notFound else .forbidden) = _ at h
  obtain rfl := Except.ok.inj h
  revert hstatus
  split <;> decide

end AuthorityInner

/-! ### Histories -/

namespace AuthorityFiles

omit [NodeRecordCodec] [SignedPacketCodec] [Blake3] in
theorem writeAnchor_state (files : AuthorityFiles) (anchor : AuthorityAnchorBody) (outcome : AnchorAnswer) :
    (files.writeAnchor anchor outcome).2.stateFile = files.stateFile ∧
      (files.writeAnchor anchor outcome).2.written = files.written := by
  cases outcome <;> exact ⟨rfl, rfl⟩

omit [NodeRecordCodec] [SignedPacketCodec] in
theorem validateOrInitializeAnchor_state (files : AuthorityFiles) (body : AuthorityStateBody)
    (hadState : Bool) (outcome : AnchorAnswer) :
    (files.validateOrInitializeAnchor body hadState outcome).2.stateFile = files.stateFile ∧
      (files.validateOrInitializeAnchor body hadState outcome).2.written = files.written := by
  unfold validateOrInitializeAnchor
  dsimp only
  split
  · split
    · exact ⟨rfl, rfl⟩
    · exact files.writeAnchor_state _ outcome
  split
  · exact ⟨rfl, rfl⟩
  split
  · exact files.writeAnchor_state _ outcome
  · exact ⟨rfl, rfl⟩

theorem openStore_state (files : AuthorityFiles) (config : PublicationAuthorityConfig)
    (outcome : AnchorAnswer) (clock : Except AuthorityError UInt64) :
    (files.openStore config outcome clock).2.stateFile = files.stateFile ∧
      (files.openStore config outcome clock).2.written = files.written ∧
      ∀ body, (files.openStore config outcome clock).1 = .ok body → body = files.stateFile.getD (.fresh config) := by
  have hstate := files.validateOrInitializeAnchor_state (files.stateFile.getD (.fresh config))
    files.stateFile.isSome outcome
  unfold openStore
  dsimp only
  split
  · exact ⟨rfl, rfl, fun _ h => nomatch h⟩
  split
  · rename_i hanchor
    rw [hanchor] at hstate
    exact ⟨hstate.1, hstate.2, fun _ h => nomatch h⟩
  rename_i hanchor
  rw [hanchor] at hstate
  split
  · exact ⟨hstate.1, hstate.2, fun _ h => nomatch h⟩
  split
  · exact ⟨hstate.1, hstate.2, fun _ h => nomatch h⟩
  · exact ⟨hstate.1, hstate.2, fun _ h => (Except.ok.inj h).symm⟩

omit [SignedPacketCodec] [Blake3] in
theorem Consistent.congr {files other : AuthorityFiles} (h : files.Consistent)
    (hstate : other.stateFile = files.stateFile) (hwritten : other.written = files.written) :
    other.Consistent := by
  have hentry : other.entryFor? = files.entryFor? := by
    unfold entryFor?
    rw [hstate]
  have haccepted : other.Accepted = files.Accepted := by
    unfold Accepted
    rw [hwritten]
  constructor
  · rw [haccepted, hentry]
    exact h.newest
  · rw [haccepted, hentry]
    exact h.recorded
  · rw [hentry]
    exact h.reads

end AuthorityFiles

namespace AuthorityHost

/-- The entry of a signer as the process has it, or the file between processes. -/
def entryFor? (host : AuthorityHost) (signer : String) : Option AuthorityEntry :=
  if host.running then host.inner.state.entryFor? signer else host.inner.files.entryFor? signer

structure Sound (host : AuthorityHost) : Prop where
  files : host.inner.files.Consistent
  process : host.running = true → host.inner.Sound

variable {host : AuthorityHost}

theorem Sound.start (h : host.Sound) (hstopped : host.running = false) (config : PublicationAuthorityConfig)
    (moment : StartMoment) :
    (host.start config moment).Sound ∧ EntriesFollow host.entryFor? (host.start config moment).entryFor? := by
  have hview : host.entryFor? = host.inner.files.entryFor? := by
    funext signer
    rw [entryFor?, hstopped]
    rfl
  obtain ⟨hstate, hwritten, hbody⟩ :=
    host.inner.files.openStore_state config moment.anchor moment.opening
  have hfiles := h.files.congr hstate hwritten
  have hentry : (host.inner.files.openStore config moment.anchor moment.opening).2.entryFor? =
      host.inner.files.entryFor? := by
    unfold AuthorityFiles.entryFor?
    rw [hstate]
  rw [hview]
  unfold AuthorityHost.start
  cases hopen : host.inner.files.openStore config moment.anchor moment.opening with
  | mk result files =>
    rw [hopen] at hfiles hentry hbody
    cases result with
    | error why => exact ⟨⟨hfiles, fun hrunning => (nomatch hrunning)⟩, .of_eq fun signer => congrFun hentry signer⟩
    | ok body =>
      obtain rfl := hbody body rfl
      have hagree : ∀ signer, files.entryFor? signer =
          (host.inner.files.stateFile.getD (.fresh config)).entryFor? signer := by
        intro signer
        rw [congrFun hentry signer, AuthorityFiles.entryFor?]
        cases host.inner.files.stateFile <;> rfl
      refine ⟨⟨hfiles, fun _ => ⟨hfiles, fun _ => hagree, .of_eq hagree⟩⟩, .of_eq fun signer => ?_⟩
      exact (hagree signer).symm.trans (congrFun hentry signer)

theorem Sound.serve (h : host.Sound) (request : AuthorityRequest) (moment : RequestMoment) :
    (host.serve request moment).2.Sound ∧ EntriesFollow host.entryFor? (host.serve request moment).2.entryFor? := by
  unfold AuthorityHost.serve
  split
  · rename_i hrunning
    have hchanges := (h.process hrunning).applyRequestAt request moment
    refine ⟨⟨hchanges.sound.files, fun _ => hchanges.sound⟩, ?_⟩
    have hview : host.entryFor? = host.inner.state.entryFor? := by
      funext signer
      rw [entryFor?, if_pos hrunning]
    rw [hview]
    exact hchanges.follows
  · exact ⟨h, .of_eq fun _ => rfl⟩

theorem Sound.step (h : host.Sound) (event : AuthorityEvent) :
    (host.step event).Sound ∧ EntriesFollow host.entryFor? (host.step event).entryFor? := by
  cases event with
  | start config moment =>
    rw [AuthorityHost.step]
    split
    · exact ⟨h, .of_eq fun _ => rfl⟩
    · rename_i hstopped
      exact h.start (Bool.eq_false_iff.mpr hstopped) config moment
  | request request moment => exact h.serve request moment
  | crash =>
    refine ⟨⟨h.files, fun hrunning => (nomatch hrunning)⟩, ?_⟩
    change EntriesFollow host.entryFor? host.inner.files.entryFor?
    by_cases hrunning : host.running = true
    · have hview : host.entryFor? = host.inner.state.entryFor? := by
        funext signer
        rw [entryFor?, if_pos hrunning]
      rw [hview]
      exact (h.process hrunning).behind
    · refine .of_eq fun signer => ?_
      rw [entryFor?, if_neg hrunning]

theorem Sound.foldl (h : host.Sound) (events : List AuthorityEvent) :
    (events.foldl AuthorityHost.step host).Sound ∧
      EntriesFollow host.entryFor? (events.foldl AuthorityHost.step host).entryFor? := by
  induction events generalizing host with
  | nil => exact ⟨h, .of_eq fun _ => rfl⟩
  | cons event events ih =>
    obtain ⟨hnext, hfollows⟩ := h.step event
    obtain ⟨hlast, hfollows'⟩ := ih hnext
    exact ⟨hlast, hfollows.trans hfollows'⟩

omit [SignedPacketCodec] in
theorem sound_first : first.Sound := by
  refine ⟨⟨fun signer entry haccepted => ?_, fun _ _ hentry => (nomatch hentry), fun _ _ hentry => (nomatch hentry)⟩,
    fun hrunning => (nomatch hrunning)⟩
  obtain ⟨body, hbody, -⟩ := haccepted
  cases hbody

theorem sound_run (events : List AuthorityEvent) : (run events).Sound := (sound_first.foldl events).1

theorem run_append (events later : List AuthorityEvent) :
    run (events ++ later) = later.foldl AuthorityHost.step (run events) := List.foldl_append

theorem serve_running (hrunning : host.running = true) (request : AuthorityRequest) (moment : RequestMoment) :
    host.serve request moment = (some (host.inner.applyRequestAt request moment).1,
      ⟨true, (host.inner.applyRequestAt request moment).2⟩) := by
  rw [AuthorityHost.serve, if_pos hrunning]

omit [NodeRecordCodec] [SignedPacketCodec] [Blake3] in
theorem entryFor?_running (hrunning : host.running = true) (signer : String) :
    host.entryFor? signer = host.inner.state.entryFor? signer := by
  rw [entryFor?, if_pos hrunning]

variable {request : AuthorityRequest} {moment : RequestMoment}

theorem serve_unchanged (h : host.running = true → (host.inner.applyRequestAt request moment).2 = host.inner) :
    (host.serve request moment).2 = host := by
  by_cases hrunning : host.running = true
  · rw [serve_running hrunning, h hrunning, ← hrunning]
  · rw [AuthorityHost.serve, if_neg hrunning]

theorem running_of_reply {reply : AuthorityReply} (h : (host.serve request moment).1 = some reply) :
    host.running = true ∧ (host.inner.applyRequestAt request moment).1 = reply := by
  by_cases hrunning : host.running = true
  · rw [serve_running hrunning] at h
    exact ⟨hrunning, Option.some.inj h⟩
  · rw [AuthorityHost.serve, if_neg hrunning] at h
    cases h

theorem Sound.shown (h : host.Sound) {response : AuthorityResponse} (hmethod : request.method = .get)
    (hreply : (host.serve request moment).1 = some (.ok response)) (hstatus : response.status = 200) :
    ∃ entry, host.entryFor? request.signer = some entry ∧
      host.inner.files.entryFor? request.signer = some entry ∧ entry.expired = false ∧
      moment.now < entry.expiresUnixMicros ∧ AuthorityInner.showPacket entry.packet = .ok response := by
  obtain ⟨hrunning, hok⟩ := running_of_reply hreply
  obtain ⟨hhealthy, hserved⟩ :=
    AuthorityInner.applyRequestAt_of_ok (AuthorityInner.admits_of_status hok (.inl hstatus)) hok
  rw [hserved, hmethod] at hok
  obtain ⟨entry, hentry, hopen, hcurrent, hshown⟩ := AuthorityInner.shown_of_serveGet hok hstatus
  refine ⟨entry, (entryFor?_running hrunning _).trans hentry, ?_, hopen, hcurrent, hshown⟩
  rw [(h.process hrunning).healthy hhealthy, hentry]

end AuthorityHost

open AuthorityHost in
/-- Over every history: entries only move on; what is shown is the newest packet of its signer, in time, and never one that was answered as expired; a packet that is not newer, or a clock that went back, changes nothing. -/
theorem authority_never_resurrects (events : List AuthorityEvent) :
    (∀ later signer entry, (run events).entryFor? signer = some entry →
      ∃ next, (run (events ++ later)).entryFor? signer = some next ∧
        entry.highWaterSequence ≤ next.highWaterSequence) ∧
    (∀ request moment response, request.method = .get →
      ((run events).serve request moment).1 = some (.ok response) → response.status = 200 →
      ∃ entry record signed, (run events).inner.files.Accepted request.signer entry ∧
        decodeNodeRecord entry.packet = .ok record ∧ record.sequence = entry.highWaterSequence ∧
        moment.now < record.expiresUnixMicros ∧ SignedPacketCodec.fromBytes entry.packet = .ok signed ∧
        response.body = SignedPacketCodec.toRelayPayload signed ∧
        ∀ other, (run events).inner.files.Accepted request.signer other →
          other.highWaterSequence ≤ entry.highWaterSequence ∧
          (other.highWaterSequence = entry.highWaterSequence → other.packet = entry.packet)) ∧
    (∀ request moment response entry, request.method = .get →
      (run events).inner.config.admits request.signer = true →
      (run events).entryFor? request.signer = some entry →
      ((run events).serve request moment).1 = some (.ok response) → response.status = 404 →
      ∀ later request' moment' response', request'.method = .get → request'.signer = request.signer →
        ((run (events ++ .request request moment :: later)).serve request' moment').1 = some (.ok response') →
        response'.status = 200 →
        ∃ next, (run (events ++ .request request moment :: later)).entryFor? request.signer = some next ∧
          entry.highWaterSequence < next.highWaterSequence) ∧
    (∀ request moment response, request.method = .put →
      ((run events).serve request moment).1 = some (.ok response) → response.status = 201 →
      ∃ signed record, request.packet? = some (signed, record) ∧
        ((run events).serve request moment).2.inner.files.Accepted request.signer
          (AuthorityInner.entryOf record (SignedPacketCodec.asBytes signed))) ∧
    (∀ request moment signed record entry, request.method = .put → request.packet? = some (signed, record) →
      (run events).entryFor? request.signer = some entry → record.sequence ≤ entry.highWaterSequence →
      ((run events).serve request moment).2 = run events) ∧
    (∀ request moment, clockRegressed (run events).inner.state moment.now = true →
      ((run events).serve request moment).2 = run events) ∧
    ∀ request moment other, other ≠ request.signer →
      ((run events).serve request moment).2.entryFor? other = (run events).entryFor? other ∧
      ((run events).serve request moment).2.inner.files.entryFor? other = (run events).inner.files.entryFor? other := by
  have hsound := sound_run events
  refine ⟨?_, ?_, ?_, ?_, ?_, ?_, ?_⟩
  · intro later signer entry hentry
    obtain ⟨next, hnext, hfollows⟩ := (hsound.foldl later).2 signer entry hentry
    exact ⟨next, run_append events later ▸ hnext, hfollows.le⟩
  · intro request moment response hmethod hreply hstatus
    obtain ⟨entry, -, hfile, hopen, hcurrent, hshown⟩ := hsound.shown hmethod hreply hstatus
    obtain ⟨record, hrecord, hsequence, hexpires⟩ := hsound.files.reads _ entry hfile
    have hcodec : ∃ signed, SignedPacketCodec.fromBytes entry.packet = .ok signed ∧
        response.body = SignedPacketCodec.toRelayPayload signed := by
      unfold AuthorityInner.showPacket at hshown
      split at hshown
      · cases hshown
      · rename_i signed hsigned
        exact ⟨signed, hsigned, by rw [← Except.ok.inj hshown]⟩
    obtain ⟨signed, hsigned, hbody⟩ := hcodec
    refine ⟨entry, record, signed, hsound.files.recorded _ entry hfile, hrecord, hsequence,
      hexpires ▸ hcurrent, hsigned, hbody, fun other hother => ?_⟩
    obtain ⟨newest, hnewest, hfollows⟩ := hsound.files.newest _ other hother
    obtain rfl := Option.some.inj (hfile.symm.trans hnewest)
    exact ⟨hfollows.le, fun hsame => (hfollows.same hsame hopen).1⟩
  · intro request moment response entry hmethod hadmits hentry hreply hstatus later request' moment'
      response' hmethod' hsigner hreply' hstatus'
    obtain ⟨hrunning, hok⟩ := running_of_reply hreply
    obtain ⟨-, hserved⟩ := AuthorityInner.applyRequestAt_of_ok hadmits hok
    rw [hserved, hmethod] at hok
    rw [entryFor?_running hrunning] at hentry
    obtain ⟨latched, hlatched, hsame, hexpired⟩ := AuthorityInner.latched_of_serveGet hentry hok hstatus
    -- From the answer on, whatever the entry is follows the latched one.
    have hafter : (run (events ++ [.request request moment])).entryFor? request.signer = some latched := by
      rw [run_append]
      change ((run events).serve request moment).2.entryFor? request.signer = some latched
      rw [serve_running hrunning, entryFor?_running rfl, hserved, hmethod]
      exact hlatched
    have hsplit : events ++ .request request moment :: later =
        (events ++ [.request request moment]) ++ later := by rw [List.append_assoc, List.singleton_append]
    obtain ⟨next, hnext, -, hopen, -, -⟩ := (sound_run _).shown hmethod' hreply' hstatus'
    rw [hsigner] at hnext
    refine ⟨next, hnext, ?_⟩
    rw [hsplit, run_append] at hnext
    obtain ⟨found, hfound, hfollows⟩ := ((sound_run _).foldl later).2 _ latched hafter
    obtain rfl := Option.some.inj (hnext.symm.trans hfound)
    rw [← hsame]
    rcases hfollows with hlt | ⟨-, -, hlatch⟩
    · exact hlt
    · rw [hlatch hexpired] at hopen
      cases hopen
  · intro request moment response hmethod hreply hstatus
    obtain ⟨hrunning, hok⟩ := running_of_reply hreply
    obtain ⟨-, hserved⟩ :=
      AuthorityInner.applyRequestAt_of_ok (AuthorityInner.admits_of_status hok (.inr hstatus)) hok
    rw [hserved, hmethod] at hok
    rw [serve_running hrunning, hserved, hmethod]
    exact AuthorityInner.accepted_of_servePut hok hstatus
  · intro request moment signed record entry hmethod hpacket hentry hle
    refine serve_unchanged fun hrunning => ?_
    rw [entryFor?_running hrunning] at hentry
    exact AuthorityInner.applyRequestAt_of_le hmethod hpacket hentry hle
  · intro request moment hregressed
    exact serve_unchanged fun _ => AuthorityInner.applyRequestAt_of_regressed hregressed
  · intro request moment other hne
    by_cases hrunning : (run events).running = true
    · have hchanges := (hsound.process hrunning).applyRequestAt request moment
      rw [serve_running hrunning, entryFor?_running hrunning, entryFor?_running rfl]
      exact ⟨hchanges.state other hne, hchanges.files other hne⟩
    · rw [AuthorityHost.serve, if_neg hrunning]
      exact ⟨rfl, rfl⟩

end Visibility

/-! ### A history -/

@[reducible] def plainPackets : SignedPacketCodec where
  PublicKey := String
  decEqPublicKey := inferInstance
  SignedPacket := String × List UInt8
  fromZ32 := some
  toZ32 := fun key => key
  fromRelayPayload := fun key body => .ok (key, body)
  fromBytes := fun bytes => .ok ("node", bytes)
  publicKey := fun signed => signed.1
  asBytes := fun signed => signed.2
  toRelayPayload := fun signed => signed.2

attribute [local instance] plainCodec plainBlake3 plainPackets

def plainAuthority : PublicationAuthorityConfig := ⟨"space", "all", ["node"]⟩

def plainGet : AuthorityRequest := ⟨.get, "node", []⟩

/-- The packet of the first second is taken, shown at the next, and found expired after a minute. -/
def shownEvents : List AuthorityEvent :=
  [.start plainAuthority ⟨.done, .ok 1000000, 1000000, 0⟩,
    .request ⟨.put, "node", plainPacket .live 1000000 [1]⟩ ⟨1000000, 0, .done⟩,
    .request plainGet ⟨2000000, 1000000000, .done⟩]

theorem authority_never_resurrects_plain :
    (∃ entry record, (AuthorityHost.run shownEvents).inner.files.Accepted "node" entry ∧
      decodeNodeRecord entry.packet = .ok record ∧ 2000000 < record.expiresUnixMicros) ∧
    ∀ later moment response,
      ((AuthorityHost.run (shownEvents ++ .request plainGet ⟨61000000, 60000000000, .done⟩ :: later)).serve
        plainGet moment).1 = some (.ok response) → response.status = 200 →
      ∃ next, (AuthorityHost.run (shownEvents ++ .request plainGet ⟨61000000, 60000000000, .done⟩ :: later)).entryFor?
        "node" = some next ∧ 1000000 < next.highWaterSequence := by
  obtain ⟨-, hshown, hexpired, -⟩ := authority_never_resurrects shownEvents
  constructor
  · obtain ⟨entry, record, signed, haccepted, hrecord, -, hcurrent, -⟩ :=
      hshown plainGet ⟨2000000, 1000000000, .done⟩ ⟨200, "OK", plainPacket .live 1000000 [1]⟩ rfl
        (by decide +kernel) rfl
    exact ⟨entry, record, haccepted, hrecord, hcurrent⟩
  · intro later moment response hreply hstatus
    exact hexpired plainGet ⟨61000000, 60000000000, .done⟩ .notFound
      ⟨1000000, 61000000, .live, false, plainPacket .live 1000000 [1]⟩ rfl
      (by decide +kernel) (by decide +kernel) (by decide +kernel) rfl
      later plainGet moment response rfl rfl hreply hstatus

end NixP2p
