import NixP2p.Base.Holdings
import NixP2p.Base.Run
import NixP2p.Iroh.ServeGate

/-!
# The accounts of the admission gate

`Moves` says once what a step of a request may do to the in-flight table and to its phase, and every account is kept by each of these moves: an entry counts the live requests of its hash, and the reserved bytes stay below both bounds. What is stored has the size its entry was charged for, as long as no request produces a blob under an entry that others made.
-/

namespace NixP2p.Iroh

open Checked HashTable Holdings

/-! ### The moves of a request -/

/-- What a step of a request does to the gate and to its phase. -/
inductive Moves (gate : ServeGate) (blobs : BlobStore) (hash : Blake3Digest) :
    AdmitAction → AdmitPhase → ServeGate → AdmitPhase → Prop where
  | idle {action phase} : Moves gate blobs hash action phase gate phase
  | outside {action phase phase'} (hlive : phase.live = false) (hlive' : phase'.live = false) :
    Moves gate blobs hash action phase gate phase'
  | joined {supplied resident storeReadable entry phase'} (hentry : gate.inflight.lookup hash = some entry)
    (hphase : entry.state = some true ∧ (phase' = .granted ∨ ∃ size plan, phase' = .checking true size plan) ∨
      entry.state ≠ some true ∧ phase' = .following) :
    Moves gate blobs hash (.reserve supplied) (.planning resident storeReadable)
      { gate with inflight := put gate.inflight hash (some { entry with refs := entry.refs + 1 }) } phase'
  | created {supplied resident storeReadable size mustRegenerate phase'}
    (hentry : gate.inflight.lookup hash = none)
    (hsize : ¬gate.budget.maxNarBytesUncompressedNar < size)
    (hheld : ¬gate.budget.maxInflightBytesUncompressedNar < saturatingAddU64 gate.held size)
    (hphase : mustRegenerate = true ∧ (∃ plan, phase' = .checking false size plan) ∨
      mustRegenerate = false ∧ (phase' = .granted ∨ ∃ plan, phase' = .checking true size plan)) :
    Moves gate blobs hash (.reserve supplied) (.planning resident storeReadable)
      { gate with inflight := put gate.inflight hash (some (.fresh size mustRegenerate)) } phase'
  | told {entry} (hentry : gate.inflight.lookup hash = some entry) (hstate : entry.state = some true) :
    Moves gate blobs hash .poll .following gate .granted
  | refused {why} (hstate : ∀ entry, gate.inflight.lookup hash = some entry → entry.state = some false) :
    Moves gate blobs hash .poll .following gate (.declined why)
  | found {readable ready size plan} (hpresent : present blobs hash readable = true) :
    Moves gate blobs hash (.has readable) (.checking ready size plan) gate .granted
  | started {readable ready size plan} (hpresent : present blobs hash readable = false) :
    Moves gate blobs hash (.has readable) (.checking ready size (some plan)) gate (.supplying ⟨0, size, plan⟩)
  | supplied {answer job raw} (hlength : raw.length = job.reserved.toNat) :
    Moves gate blobs hash (.supply answer) (.supplying job) gate (.adding job raw)
  | added {result job raw} : Moves gate blobs hash (.add result) (.adding job raw) gate (.confirming job)
  | retried {readable job} : Moves gate blobs hash (.has readable) (.confirming job) gate
      (.supplying { job with attempt := job.attempt + 1 })
  | published {readable job} :
    Moves gate blobs hash (.has readable) (.confirming job) (gate.publish hash (some hash)) .granted
  | unplanned {readable ready size why} (hpresent : present blobs hash readable = false) :
    Moves gate blobs hash (.has readable) (.checking ready size none) (gate.publish hash none) (.declined why)
  | failed {action phase why} (hphase : phase.materialising = true) (haction : action ≠ .cancel) :
    Moves gate blobs hash action phase (gate.publish hash none) (.declined why)
  | dropped {phase declined} (hphase : phase = .granted ∨ ∃ why, phase = .declined why) :
    Moves gate blobs hash .drop phase (gate.release hash) (.over declined)
  | cancelled {phase} (hlive : phase.live = true) :
    Moves gate blobs hash .cancel phase (gate.release hash) (.over none)

section Moves

variable (gate : ServeGate) (blobs : BlobStore) (hash : Blake3Digest)

theorem moves_reserveTurn (supplied : Except String (Option SupplyPlan)) (resident : Option UInt64)
    (storeReadable : Bool) (size : UInt64) (mustRegenerate : Bool) (plan : Option SupplyPlan) :
    Moves gate blobs hash (.reserve supplied) (.planning resident storeReadable)
      (reserveTurn gate blobs hash size mustRegenerate plan).gate
      (reserveTurn gate blobs hash size mustRegenerate plan).phase := by
  unfold reserveTurn ServeGate.reserve
  by_cases hsize : gate.budget.maxNarBytesUncompressedNar < size
  · rw [if_pos hsize]
    exact .outside rfl rfl
  rw [if_neg hsize]
  cases hentry : gate.inflight.lookup hash with
  | some entry =>
    dsimp only
    by_cases hstate : entry.state = some true
    · rw [if_pos hstate]
      refine .joined hentry (.inl ⟨hstate, ?_⟩)
      dsimp only
      split
      · exact .inr ⟨_, _, rfl⟩
      · exact .inl rfl
    · rw [if_neg hstate]
      exact .joined hentry (.inr ⟨hstate, rfl⟩)
  | none =>
    dsimp only
    by_cases hheld : gate.budget.maxInflightBytesUncompressedNar < saturatingAddU64 gate.held size
    · rw [if_pos hheld]
      exact .outside rfl rfl
    rw [if_neg hheld]
    cases mustRegenerate with
    | true => exact .created hentry hsize hheld (.inl ⟨rfl, _, rfl⟩)
    | false =>
      rw [if_neg Bool.false_ne_true]
      refine .created hentry hsize hheld (.inr ⟨rfl, ?_⟩)
      dsimp only
      split
      · exact .inr ⟨_, rfl⟩
      · exact .inl rfl

theorem moves_admitTurn [Blake3] (phase : AdmitPhase) (action : AdmitAction) :
    Moves gate blobs hash action phase (admitTurn gate blobs hash phase action).gate
      (admitTurn gate blobs hash phase action).phase := by
  unfold admitTurn
  split
  case h_1 => exact .outside rfl rfl
  case h_2 =>
    unfold planTurn
    split
    · exact .outside rfl rfl
    · exact moves_reserveTurn gate blobs hash _ _ _ _ _ _
    · exact moves_reserveTurn gate blobs hash _ _ _ _ _ _
    · exact .outside rfl rfl
  case h_3 =>
    unfold followTurn
    split
    · rename_i hentry
      exact .refused fun entry h => absurd (h.symm.trans hentry) (Option.some_ne_none entry)
    rename_i entry hentry
    split
    · exact .idle
    · rename_i hstate
      exact .told hentry hstate
    · rename_i hstate
      refine .refused fun other h => ?_
      rw [← Option.some.inj (hentry.symm.trans h)]
      exact hstate
  case h_4 readable ready size plan =>
    unfold checkTurn
    by_cases hpresent : present blobs hash readable = true
    · rw [if_pos hpresent]
      exact .found hpresent
    rw [if_neg hpresent]
    cases plan with
    | none => exact .unplanned (Bool.eq_false_iff.mpr hpresent)
    | some plan => exact .started (Bool.eq_false_iff.mpr hpresent)
  case h_5 =>
    unfold supplyTurn
    split
    · exact .failed rfl (by simp)
    split
    · exact .failed rfl (by simp)
    · rename_i hlength
      exact .supplied (not_not.mp hlength)
  case h_6 =>
    unfold addTurn
    split
    · exact .failed rfl (by simp)
    dsimp only
    split
    · exact .failed rfl (by simp)
    · exact .added
  case h_7 =>
    unfold confirmTurn
    split
    · exact .published
    split
    · exact .retried
    · exact .failed rfl (by simp)
  case h_8 => exact .dropped (.inl rfl)
  case h_9 => exact .dropped (.inr ⟨_, rfl⟩)
  case h_10 =>
    unfold cancelTurn
    split
    · rename_i hlive
      exact .cancelled hlive
    rename_i hlive
    split
    · exact .idle
    · exact .outside (Bool.eq_false_iff.mpr hlive) rfl
  case h_11 => exact .idle

end Moves

/-! ### The table after a move -/

variable {gate gate' : ServeGate} {blobs : BlobStore} {hash : Blake3Digest} {action : AdmitAction}
  {phase phase' : AdmitPhase}

theorem lookup_modifyEntry (gate : ServeGate) (hash other : Blake3Digest) (update : Inflight → Option Inflight) :
    (gate.modifyEntry hash update).inflight.lookup other =
      if other = hash then (gate.inflight.lookup hash).bind update else gate.inflight.lookup other := by
  unfold ServeGate.modifyEntry
  cases hentry : gate.inflight.lookup hash with
  | none =>
    dsimp only
    split
    · rename_i h
      rw [h, hentry, Option.bind_none]
    · rfl
  | some entry => exact lookup_put gate.inflight hash other (update entry)

structure Rewrites (gate : ServeGate) (hash : Blake3Digest) (gate' : ServeGate) : Prop where
  budget : gate'.budget = gate.budget
  elsewhere : ∀ other, other ≠ hash → gate'.inflight.lookup other = gate.inflight.lookup other
  weigh : ∀ weight : Inflight → Nat, weigh weight gate'.inflight + (gate.inflight.lookup hash).elim 0 weight =
    weigh weight gate.inflight + (gate'.inflight.lookup hash).elim 0 weight

theorem Rewrites.refl (gate : ServeGate) (hash : Blake3Digest) : Rewrites gate hash gate :=
  ⟨rfl, fun _ _ => rfl, fun _ => rfl⟩

theorem Rewrites.put (gate : ServeGate) (hash : Blake3Digest) (next : Option Inflight) :
    Rewrites gate hash { gate with inflight := put gate.inflight hash next } := by
  refine ⟨rfl, fun other hother => ?_, fun weight => ?_⟩
  · rw [lookup_put, if_neg hother]
  · rw [weigh_put, lookup_put, if_pos rfl]

theorem Rewrites.modifyEntry (gate : ServeGate) (hash : Blake3Digest) (update : Inflight → Option Inflight) :
    Rewrites gate hash (gate.modifyEntry hash update) := by
  unfold ServeGate.modifyEntry
  split
  · exact .refl gate hash
  · exact .put gate hash _

theorem Moves.rewrites (hmoves : Moves gate blobs hash action phase gate' phase') : Rewrites gate hash gate' := by
  cases hmoves with
  | joined | created => exact .put gate hash _
  | published | unplanned | failed | dropped | cancelled => exact .modifyEntry gate hash _
  | _ => exact .refl gate hash

/-- What becomes of an entry, and of the guard of the request that moves. -/
inductive EntryMoves : Option Inflight → Bool → Option Inflight → Bool → Prop where
  | kept {entry live} : EntryMoves entry live entry live
  | joined {entry : Inflight} : EntryMoves (some entry) false (some { entry with refs := entry.refs + 1 }) true
  | created {size mustRegenerate} : EntryMoves none false (some (.fresh size mustRegenerate)) true
  | published {entry : Inflight} {tag : Option Blake3Digest} :
    EntryMoves (some entry) true (some { entry with tag := tag, state := some tag.isSome }) true
  | released {entry : Inflight} : EntryMoves (some entry) true
      (if entry.refs - 1 = 0 then none else some { entry with refs := entry.refs - 1 }) false

theorem entryMoves_publish {entry : Inflight} (hentry : gate.inflight.lookup hash = some entry)
    (tag : Option Blake3Digest) :
    EntryMoves (gate.inflight.lookup hash) true ((gate.publish hash tag).inflight.lookup hash) true := by
  rw [ServeGate.publish, lookup_modifyEntry, if_pos rfl, hentry]
  exact .published

theorem entryMoves_release {entry : Inflight} (hentry : gate.inflight.lookup hash = some entry) :
    EntryMoves (gate.inflight.lookup hash) true ((gate.release hash).inflight.lookup hash) false := by
  rw [ServeGate.release, lookup_modifyEntry, if_pos rfl, hentry]
  exact .released

theorem live_of_materialising (h : phase.materialising = true) : phase.live = true := by
  cases phase with
  | supplying | adding | confirming => rfl
  | _ => cases h

theorem live_of_producing (h : phase.producing = true) : phase.live = true := by
  cases phase with
  | checking => rfl
  | supplying | adding | confirming => rfl
  | _ => cases h

theorem Moves.entryMoves (hmoves : Moves gate blobs hash action phase gate' phase')
    (hentry : phase.live = true → ∃ entry, gate.inflight.lookup hash = some entry) :
    EntryMoves (gate.inflight.lookup hash) phase.live (gate'.inflight.lookup hash) phase'.live := by
  cases hmoves with
  | idle | told | refused | found | started | supplied | added | retried => exact .kept
  | outside hlive hlive' =>
    rw [hlive, hlive']
    exact .kept
  | joined hlookup hphase =>
    rw [lookup_put, if_pos rfl, hlookup]
    obtain ⟨-, rfl | ⟨_, _, rfl⟩⟩ | ⟨-, rfl⟩ := hphase
    all_goals exact .joined
  | created hlookup _ _ hphase =>
    rw [lookup_put, if_pos rfl, hlookup]
    obtain ⟨-, _, rfl⟩ | ⟨-, rfl | ⟨_, rfl⟩⟩ := hphase
    all_goals exact .created
  | published | unplanned =>
    obtain ⟨entry, hentry⟩ := hentry rfl
    exact entryMoves_publish hentry _
  | failed hphase =>
    have hlive := live_of_materialising hphase
    obtain ⟨entry, hentry⟩ := hentry hlive
    rw [hlive]
    exact entryMoves_publish hentry none
  | dropped hphase =>
    have hlive : phase.live = true := by
      obtain rfl | ⟨_, rfl⟩ := hphase
      all_goals rfl
    obtain ⟨entry, hentry⟩ := hentry hlive
    rw [hlive]
    exact entryMoves_release hentry
  | cancelled hlive =>
    obtain ⟨entry, hentry⟩ := hentry hlive
    rw [hlive]
    exact entryMoves_release hentry

/-! ### Entries count the live requests -/

def AdmitRequest.holds (hash : Blake3Digest) (request : AdmitRequest) : Nat :=
  if request.hash = hash then request.phase.live.toNat else 0

def liveAdmissions (requests : List AdmitRequest) (hash : Blake3Digest) : Nat :=
  total (AdmitRequest.holds hash) requests

structure Counted (inflight : Table Blake3Digest Inflight) (requests : List AdmitRequest) : Prop where
  refs : ∀ hash, (inflight.lookup hash).elim 0 Inflight.refs = liveAdmissions requests hash
  positive : ∀ hash entry, inflight.lookup hash = some entry → 0 < entry.refs

variable {requests : List AdmitRequest} {index : Nat} {request : AdmitRequest}

theorem holds_of_live (hlive : request.phase.live = true) : request.holds request.hash = 1 := by
  rw [AdmitRequest.holds, if_pos rfl, hlive]
  rfl

variable {inflight : Table Blake3Digest Inflight}

theorem Counted.entry_of_live (h : Counted inflight requests) (hrequest : requests[index]? = some request)
    (hlive : request.phase.live = true) : ∃ entry, inflight.lookup request.hash = some entry := by
  have hrefs := h.refs request.hash
  cases hlookup : inflight.lookup request.hash with
  | some entry => exact ⟨entry, rfl⟩
  | none =>
    have hle := weight_le_total (AdmitRequest.holds request.hash) (List.mem_of_getElem? hrequest)
    rw [hlookup, Option.elim_none] at hrefs
    rw [holds_of_live hlive] at hle
    unfold liveAdmissions at hrefs
    omega

theorem EntryMoves.refs {before after : Option Inflight} {live live' : Bool}
    (h : EntryMoves before live after live') (hpositive : ∀ entry, before = some entry → 0 < entry.refs) :
    after.elim 0 Inflight.refs + live.toNat = before.elim 0 Inflight.refs + live'.toNat ∧
      ∀ entry, after = some entry → 0 < entry.refs := by
  cases h with
  | kept => exact ⟨rfl, hpositive⟩
  | joined =>
    refine ⟨rfl, fun entry hentry => ?_⟩
    rw [← Option.some.inj hentry]
    exact Nat.succ_pos _
  | created =>
    refine ⟨rfl, fun entry hentry => ?_⟩
    rw [← Option.some.inj hentry]
    exact Nat.one_pos
  | @published old tag =>
    refine ⟨rfl, fun entry hentry => ?_⟩
    rw [← Option.some.inj hentry]
    exact hpositive old rfl
  | @released old =>
    have hpos := hpositive old rfl
    by_cases hlast : old.refs - 1 = 0
    · rw [if_pos hlast]
      refine ⟨?_, fun entry hentry => nomatch hentry⟩
      change 0 + 1 = old.refs + 0
      omega
    rw [if_neg hlast]
    refine ⟨?_, fun entry hentry => ?_⟩
    · change old.refs - 1 + 1 = old.refs + 0
      omega
    · rw [← Option.some.inj hentry]
      exact Nat.pos_of_ne_zero hlast

theorem Counted.moves (h : Counted gate.inflight requests) (hrequest : requests[index]? = some request)
    (hmoves : Moves gate blobs request.hash action request.phase gate' phase') :
    Counted gate'.inflight (requests.set index ⟨request.hash, phase'⟩) := by
  have hentry := hmoves.entryMoves (h.entry_of_live hrequest)
  obtain ⟨hrefs, hpositive⟩ := hentry.refs (h.positive request.hash)
  have helsewhere := hmoves.rewrites.elsewhere
  refine ⟨fun other => ?_, fun other entry hother => ?_⟩
  · have htotal := total_set (AdmitRequest.holds other) hrequest ⟨request.hash, phase'⟩
    have hbefore := h.refs other
    unfold liveAdmissions at hbefore ⊢
    by_cases hother : other = request.hash
    · subst hother
      simp only [AdmitRequest.holds, if_pos] at htotal
      omega
    have hholds : ∀ phase, AdmitRequest.holds other ⟨request.hash, phase⟩ = 0 := fun phase =>
      if_neg (Ne.symm hother)
    have hold : AdmitRequest.holds other request = 0 := hholds request.phase
    have hnew := hholds phase'
    rw [helsewhere other hother]
    omega
  · by_cases heq : other = request.hash
    · subst heq
      exact hpositive entry hother
    · rw [helsewhere other heq] at hother
      exact h.positive other entry hother

variable {request' : AdmitRequest}

theorem Counted.shared (h : Counted inflight requests) (hrequest : requests[index]? = some request)
    (hlive : request.phase.live = true) {other : Nat} (hne : other ≠ index)
    (hrequest' : requests[other]? = some request') (hlive' : request'.phase.live = true)
    (hhash : request'.hash = request.hash) {entry : Inflight}
    (hentry : inflight.lookup request.hash = some entry) : 2 ≤ entry.refs := by
  have hrefs := h.refs request.hash
  have hle := add_le_total (AdmitRequest.holds request.hash) hne hrequest' hrequest
  rw [holds_of_live hlive, ← hhash, holds_of_live hlive', hhash] at hle
  rw [hentry, Option.elim_some] at hrefs
  rw [hrefs]
  exact hle

/-- What a move leaves of the entry of a live request that does not move: its bytes, and what a publication has not changed. -/
theorem Counted.entry_kept (h : Counted gate.inflight requests) (hrequest : requests[index]? = some request)
    (hmoves : Moves gate blobs request.hash action request.phase gate' phase') {other : Nat}
    (hne : other ≠ index) (hrequest' : requests[other]? = some request') (hlive' : request'.phase.live = true)
    {entry : Inflight} (hentry : gate.inflight.lookup request'.hash = some entry) :
    ∃ entry', gate'.inflight.lookup request'.hash = some entry' ∧
      entry'.bytesUncompressedNar = entry.bytesUncompressedNar := by
  by_cases hhash : request'.hash = request.hash
  · have hstep := hmoves.entryMoves (h.entry_of_live hrequest)
    rw [hhash] at hentry ⊢
    rw [hentry] at hstep
    generalize gate'.inflight.lookup request.hash = after at hstep ⊢
    generalize hlive : request.phase.live = live at hstep
    generalize phase'.live = live' at hstep
    cases hstep with
    | kept | joined | published => exact ⟨_, rfl, rfl⟩
    | released =>
      have := h.shared hrequest hlive hne hrequest' hlive' hhash hentry
      rw [if_neg (by omega)]
      exact ⟨_, rfl, rfl⟩
  · exact ⟨entry, (hmoves.rewrites.elsewhere _ hhash).trans hentry, rfl⟩

/-! ### The reserved bytes -/

def reservedBytes (inflight : Table Blake3Digest Inflight) : Nat :=
  weigh (fun entry => entry.bytesUncompressedNar.toNat) inflight

structure WithinBudget (gate : ServeGate) : Prop where
  each : ∀ hash entry, gate.inflight.lookup hash = some entry →
    entry.bytesUncompressedNar ≤ gate.budget.maxNarBytesUncompressedNar
  together : reservedBytes gate.inflight ≤ gate.budget.maxInflightBytesUncompressedNar.toNat

theorem toNat_sum (sizes : List UInt64) (h : (sizes.map UInt64.toNat).sum < 2 ^ 64) :
    sizes.sum.toNat = (sizes.map UInt64.toNat).sum := by
  induction sizes with
  | nil => rfl
  | cons size sizes ih =>
    rw [List.map_cons, List.sum_cons] at h ⊢
    rw [List.sum_cons, UInt64.toNat_add, ih (by omega), Nat.mod_eq_of_lt h]

theorem toNat_held (gate : ServeGate) (h : reservedBytes gate.inflight < 2 ^ 64) :
    gate.held.toNat = reservedBytes gate.inflight := by
  have hsum : ((gate.inflight.entries.map fun entry => entry.2.bytesUncompressedNar).map UInt64.toNat).sum =
      reservedBytes gate.inflight := by
    rw [List.map_map]
    rfl
  rw [ServeGate.held, toNat_sum _ (hsum ▸ h), hsum]

/-- A size that the saturating test lets through fits, since a finite ceiling is below the saturated sum. -/
theorem fits_of_not_lt {held size ceiling : UInt64} (hfinite : ceiling.toNat < 2 ^ 64 - 1)
    (h : ¬ceiling < saturatingAddU64 held size) : held.toNat + size.toNat ≤ ceiling.toNat := by
  rw [UInt64.lt_iff_toNat_lt, toNat_saturatingAddU64] at h
  omega

theorem Moves.charged (hmoves : Moves gate blobs hash action phase gate' phase') {entry : Inflight}
    (hentry : gate'.inflight.lookup hash = some entry) :
    (∃ old, gate.inflight.lookup hash = some old ∧ entry.bytesUncompressedNar = old.bytesUncompressedNar) ∨
      gate.inflight.lookup hash = none ∧
        entry.bytesUncompressedNar ≤ gate.budget.maxNarBytesUncompressedNar ∧
        ¬gate.budget.maxInflightBytesUncompressedNar < saturatingAddU64 gate.held entry.bytesUncompressedNar := by
  have hmodified : ∀ update : Inflight → Option Inflight,
      (∀ old new, update old = some new → new.bytesUncompressedNar = old.bytesUncompressedNar) →
      (gate.modifyEntry hash update).inflight.lookup hash = some entry →
      ∃ old, gate.inflight.lookup hash = some old ∧ entry.bytesUncompressedNar = old.bytesUncompressedNar := by
    intro update hupdate h
    rw [lookup_modifyEntry, if_pos rfl] at h
    obtain ⟨old, hold, hnew⟩ := Option.bind_eq_some_iff.mp h
    exact ⟨old, hold, hupdate old entry hnew⟩
  have hpublish : ∀ tag, (gate.publish hash tag).inflight.lookup hash = some entry →
      ∃ old, gate.inflight.lookup hash = some old ∧ entry.bytesUncompressedNar = old.bytesUncompressedNar :=
    fun tag => hmodified _ fun old new hnew => by rw [← Option.some.inj hnew]
  have hrelease : (gate.release hash).inflight.lookup hash = some entry →
      ∃ old, gate.inflight.lookup hash = some old ∧ entry.bytesUncompressedNar = old.bytesUncompressedNar := by
    refine hmodified _ fun old new hnew => ?_
    split at hnew
    · cases hnew
    · rw [← Option.some.inj hnew]
  cases hmoves with
  | joined hlookup =>
    rw [lookup_put, if_pos rfl] at hentry
    rw [← Option.some.inj hentry]
    exact .inl ⟨_, hlookup, rfl⟩
  | created hlookup hsize hheld =>
    rw [lookup_put, if_pos rfl] at hentry
    rw [← Option.some.inj hentry]
    exact .inr ⟨hlookup, UInt64.not_lt.mp hsize, hheld⟩
  | published | unplanned | failed => exact .inl (hpublish _ hentry)
  | dropped | cancelled => exact .inl (hrelease hentry)
  | _ => exact .inl ⟨entry, hentry, rfl⟩

theorem WithinBudget.moves (hfinite : gate.budget.maxInflightBytesUncompressedNar.toNat < 2 ^ 64 - 1)
    (h : WithinBudget gate) (hmoves : Moves gate blobs hash action phase gate' phase') : WithinBudget gate' := by
  have hrewrites := hmoves.rewrites
  have hweigh := hrewrites.weigh fun entry => entry.bytesUncompressedNar.toNat
  have htogether := h.together
  refine ⟨fun other entry hother => ?_, ?_⟩
  · rw [hrewrites.budget]
    by_cases heq : other = hash
    · subst heq
      obtain ⟨old, hold, hsame⟩ | ⟨-, heach, -⟩ := hmoves.charged hother
      · rw [hsame]
        exact h.each other old hold
      · exact heach
    · rw [hrewrites.elsewhere other heq] at hother
      exact h.each other entry hother
  · rw [hrewrites.budget]
    unfold reservedBytes at htogether ⊢
    cases hentry : gate'.inflight.lookup hash with
    | none =>
      rw [hentry, Option.elim_none] at hweigh
      omega
    | some entry =>
      rw [hentry, Option.elim_some] at hweigh
      obtain ⟨old, hold, hsame⟩ | ⟨hnone, -, hheld⟩ := hmoves.charged hentry
      · rw [hold, Option.elim_some, hsame] at hweigh
        omega
      have hroom := fits_of_not_lt hfinite hheld
      rw [toNat_held gate (by unfold reservedBytes; omega)] at hroom
      rw [hnone, Option.elim_none] at hweigh
      unfold reservedBytes at hroom
      omega

/-! ### What is charged is what is stored -/

/-- The size a request was charged for, where it created its entry and has to produce the blob. -/
def AdmitPhase.charged? : AdmitPhase → Option UInt64
  | .checking false size _ => some size
  | .supplying job | .adding job _ | .confirming job => some job.reserved
  | _ => none

theorem live_of_charged {size : UInt64} (h : phase.charged? = some size) : phase.live = true := by
  cases phase with
  | following | checking | supplying | adding | confirming | granted | declined => rfl
  | _ => cases h

def FindsReady (blobs : BlobStore) (hash : Blake3Digest) (action : AdmitAction) (phase : AdmitPhase) : Prop :=
  ∀ readable size plan, action = .has readable → phase = .checking true size plan →
    present blobs hash readable = true

theorem Moves.charge_kept (hmoves : Moves gate blobs hash action phase gate' phase')
    (hready : FindsReady blobs hash action phase)
    (hcharged : ∀ size, phase.charged? = some size →
      ∃ entry, gate.inflight.lookup hash = some entry ∧ entry.bytesUncompressedNar = size)
    {size : UInt64} (hsize : phase'.charged? = some size) :
    ∃ entry, gate'.inflight.lookup hash = some entry ∧ entry.bytesUncompressedNar = size := by
  cases hmoves with
  | idle | supplied | added | retried => exact hcharged size hsize
  | outside hlive hlive' => exact nomatch hlive'.symm.trans (live_of_charged hsize)
  | joined _ hphase =>
    obtain ⟨-, rfl | ⟨_, _, rfl⟩⟩ | ⟨-, rfl⟩ := hphase
    all_goals cases hsize
  | created _ _ _ hphase =>
    obtain ⟨-, _, rfl⟩ | ⟨-, rfl | ⟨_, rfl⟩⟩ := hphase
    · obtain rfl := Option.some.inj hsize
      exact ⟨_, (lookup_put _ _ _ _).trans (if_pos rfl), rfl⟩
    all_goals cases hsize
  | @started readable ready _ plan hpresent =>
    cases ready with
    | true => exact nomatch hpresent.symm.trans (hready readable _ _ rfl rfl)
    | false => exact hcharged size hsize
  | _ => cases hsize

structure Matched (inflight : Table Blake3Digest Inflight) (requests : List AdmitRequest) : Prop where
  charged : ∀ (index : Nat) (request : AdmitRequest) (size : UInt64), requests[index]? = some request →
    request.phase.charged? = some size →
    ∃ entry, inflight.lookup request.hash = some entry ∧ entry.bytesUncompressedNar = size
  whole : ∀ (index : Nat) (request : AdmitRequest) (job : Materialisation) (raw : List UInt8),
    requests[index]? = some request → request.phase = .adding job raw → raw.length = job.reserved.toNat

theorem Matched.moves (h : Matched gate.inflight requests) (hcounted : Counted gate.inflight requests)
    (hrequest : requests[index]? = some request)
    (hmoves : Moves gate blobs request.hash action request.phase gate' phase')
    (hready : FindsReady blobs request.hash action request.phase) :
    Matched gate'.inflight (requests.set index ⟨request.hash, phase'⟩) := by
  refine ⟨fun other request' size hother hsize => ?_, fun other request' job raw hother hphase => ?_⟩
  · obtain ⟨rfl, rfl⟩ | ⟨hne, hbefore⟩ := of_getElem?_set hother
    · exact hmoves.charge_kept hready (fun size => h.charged other request size hrequest) hsize
    obtain ⟨entry, hentry, hbytes⟩ := h.charged other request' size hbefore hsize
    obtain ⟨entry', hentry', hsame⟩ :=
      hcounted.entry_kept hrequest hmoves hne hbefore (live_of_charged hsize) hentry
    exact ⟨entry', hentry', hsame.trans hbytes⟩
  · obtain ⟨rfl, rfl⟩ | ⟨-, hbefore⟩ := of_getElem?_set hother
    · have hwhole := h.whole other request job raw hrequest
      dsimp only at hphase
      subst hphase
      generalize request.phase = phase at hmoves hwhole
      cases hmoves with
      | idle => exact hwhole rfl
      | outside _ hlive' => cases hlive'
      | joined _ hphase => obtain ⟨-, h | ⟨_, _, h⟩⟩ | ⟨-, h⟩ := hphase <;> cases h
      | created _ _ _ hphase => obtain ⟨-, _, h⟩ | ⟨-, h | ⟨_, h⟩⟩ := hphase <;> cases h
      | supplied hlength => exact hlength
    · exact h.whole other request' job raw hbefore hphase

/-! ### A request that runs alone -/

/-- How the entry of a request differs from what it was before the request came. -/
inductive Lent : Option Inflight → Option Inflight → AdmitPhase → Prop where
  | outside {before phase} (hlive : phase.live = false) : Lent before before phase
  | joined {entry phase} (hlive : phase.live = true) (hproducing : phase.producing = false) :
    Lent (some entry) (some { entry with refs := entry.refs + 1 }) phase
  | created {entry phase} (hlive : phase.live = true) (hrefs : entry.refs = 1) : Lent none (some entry) phase

theorem producing_of_materialising (h : phase.materialising = true) : phase.producing = true := by
  cases phase with
  | supplying | adding | confirming => rfl
  | _ => cases h

theorem Lent.publish {before : Option Inflight} (h : Lent before (gate.inflight.lookup hash) phase)
    (hproducing : phase.producing = true) (hlive' : phase'.live = true) (tag : Option Blake3Digest) :
    Lent before ((gate.publish hash tag).inflight.lookup hash) phase' := by
  rw [ServeGate.publish, lookup_modifyEntry, if_pos rfl]
  generalize gate.inflight.lookup hash = now at h
  cases h with
  | outside hlive => exact nomatch hlive.symm.trans (live_of_producing hproducing)
  | joined _ hnot => exact nomatch hnot.symm.trans hproducing
  | created _ hrefs => exact .created hlive' hrefs

theorem Lent.release {before : Option Inflight} (h : Lent before (gate.inflight.lookup hash) phase)
    (hpositive : ∀ entry, before = some entry → 0 < entry.refs) (hlive : phase.live = true)
    (hlive' : phase'.live = false) :
    Lent before ((gate.release hash).inflight.lookup hash) phase' := by
  rw [ServeGate.release, lookup_modifyEntry, if_pos rfl]
  generalize gate.inflight.lookup hash = now at h
  cases h with
  | outside hnot => exact nomatch hnot.symm.trans hlive
  | @joined entry =>
    have := hpositive entry rfl
    rw [Option.bind_some]
    dsimp only
    rw [if_neg (by omega)]
    exact .outside hlive'
  | created _ hrefs =>
    rw [Option.bind_some, hrefs]
    exact .outside hlive'

theorem Lent.moves {before : Option Inflight} (h : Lent before (gate.inflight.lookup hash) phase)
    (hpositive : ∀ entry, before = some entry → 0 < entry.refs)
    (hmoves : Moves gate blobs hash action phase gate' phase') (hready : FindsReady blobs hash action phase) :
    Lent before (gate'.inflight.lookup hash) phase' := by
  have hmove : ∀ {phase phase'}, Lent before (gate.inflight.lookup hash) phase → phase.live = true →
      phase'.live = true → (phase.producing = false → phase'.producing = false) →
      Lent before (gate.inflight.lookup hash) phase' := by
    intro phase phase' h hlive hlive' hproducing
    generalize gate.inflight.lookup hash = now at h
    cases h with
    | outside hnot => exact nomatch hnot.symm.trans hlive
    | joined _ hnot => exact .joined hlive' (hproducing hnot)
    | created _ hrefs => exact .created hlive' hrefs
  cases hmoves with
  | idle => exact h
  | outside hlive hlive' =>
    generalize gate.inflight.lookup hash = now at h
    cases h with
    | outside => exact .outside hlive'
    | joined hnot | created hnot => exact nomatch hlive.symm.trans hnot
  | joined hlookup hphase =>
    rw [lookup_put, if_pos rfl]
    rw [hlookup] at h
    cases h with
    | joined hnot | created hnot => cases hnot
    | outside =>
      obtain ⟨-, rfl | ⟨_, _, rfl⟩⟩ | ⟨-, rfl⟩ := hphase
      all_goals exact .joined rfl rfl
  | created hlookup _ _ hphase =>
    rw [lookup_put, if_pos rfl]
    rw [hlookup] at h
    cases h with
    | outside =>
      obtain ⟨-, _, rfl⟩ | ⟨-, rfl | ⟨_, rfl⟩⟩ := hphase
      all_goals exact .created rfl rfl
  | told | refused | found => exact hmove h rfl rfl fun _ => rfl
  | @started readable ready size plan hpresent =>
    cases ready with
    | true => exact nomatch hpresent.symm.trans (hready readable _ _ rfl rfl)
    | false => exact hmove h rfl rfl nofun
  | supplied | added | retried => exact hmove h rfl rfl nofun
  | published => exact h.publish rfl rfl _
  | @unplanned readable ready size why hpresent =>
    cases ready with
    | true => exact nomatch hpresent.symm.trans (hready readable _ _ rfl rfl)
    | false => exact h.publish rfl rfl _
  | failed hphase => exact h.publish (producing_of_materialising hphase) rfl _
  | dropped hphase =>
    refine h.release hpositive ?_ rfl
    obtain rfl | ⟨_, rfl⟩ := hphase
    all_goals rfl
  | cancelled hlive => exact h.release hpositive hlive rfl

/-! ### Whole steps -/

theorem blobs_admitTurn [Blake3] (gate : ServeGate) (blobs : BlobStore) (hash : Blake3Digest)
    (phase : AdmitPhase) (action : AdmitAction) :
    (admitTurn gate blobs hash phase action).blobs = blobs ∨ ∃ job raw, phase = .adding job raw ∧
      (admitTurn gate blobs hash phase action).blobs = blobs.insert (Blake3Digest.fromRawNar raw) raw := by
  unfold admitTurn
  split
  case h_2 =>
    left
    unfold planTurn reserveTurn
    split
    · rfl
    all_goals first | rfl | (split <;> rfl)
  case h_3 =>
    left
    unfold followTurn
    split
    · rfl
    · split <;> rfl
  case h_4 =>
    left
    unfold checkTurn
    split
    · rfl
    · split <;> rfl
  case h_5 =>
    left
    unfold supplyTurn
    split
    · rfl
    · split <;> rfl
  case h_6 job raw result =>
    unfold addTurn
    split
    · exact .inl rfl
    refine .inr ⟨_, _, rfl, ?_⟩
    dsimp only
    split <;> rfl
  case h_7 =>
    left
    unfold confirmTurn
    split
    · rfl
    · split <;> rfl
  case h_10 =>
    left
    unfold cancelTurn
    split
    · rfl
    · split <;> rfl
  all_goals exact .inl rfl

namespace ServeSystem

/-- A step that leaves the table and every request as it is, except that one may come. -/
structure Quiet (system next : ServeSystem) : Prop where
  inflight : next.gate.inflight = system.gate.inflight
  budget : next.gate.budget = system.gate.budget
  requests : next.requests = system.requests ∨
    ∃ hash, next.requests = system.requests ++ [⟨hash, .asking⟩]

theorem counted_append {inflight : Table Blake3Digest Inflight} (h : Counted inflight requests)
    (hash : Blake3Digest) : Counted inflight (requests ++ [⟨hash, .asking⟩]) := by
  refine ⟨fun other => ?_, h.positive⟩
  have hnone : AdmitRequest.holds other ⟨hash, .asking⟩ = 0 := by
    unfold AdmitRequest.holds
    split <;> rfl
  rw [liveAdmissions, total_append, hnone]
  exact h.refs other

theorem counted_init (gate : ServeGate) (blobs : BlobStore) :
    Counted (init gate blobs).gate.inflight (init gate blobs).requests :=
  ⟨fun _ => rfl, fun _ _ h => nomatch h⟩

/-- A request that was told its blob is ready finds it in the store at this step. -/
def findsReady (system : ServeSystem) : GateEvent → Bool
  | .turn index (.has readable) =>
    match system.requests[index]? with
    | some ⟨hash, .checking true _ _⟩ => present system.blobs hash readable
    | _ => true
  | _ => true

theorem findsReady_turn {system : ServeSystem} {index : Nat} {action : AdmitAction} {request : AdmitRequest}
    (h : system.findsReady (.turn index action) = true) (hrequest : system.requests[index]? = some request) :
    FindsReady system.blobs request.hash action request.phase := by
  intro readable size plan haction hphase
  obtain ⟨hash, phase⟩ := request
  dsimp only at hphase
  subst haction hphase
  simp only [findsReady, hrequest] at h
  exact h

theorem quiet_sweepBegin (system : ServeSystem) : Quiet system system.sweepBegin := by
  unfold sweepBegin
  split
  · exact ⟨rfl, rfl, .inl rfl⟩
  · exact ⟨rfl, rfl, .inl rfl⟩
  · dsimp only
    split
    all_goals exact ⟨rfl, rfl, .inl rfl⟩

theorem quiet_sweepDelete (system : ServeSystem) (hash : Blake3Digest) :
    Quiet system (system.sweepDelete hash) := by
  unfold sweepDelete
  split
  · exact ⟨rfl, rfl, .inl rfl⟩
  · split
    all_goals exact ⟨rfl, rfl, .inl rfl⟩

variable [Blake3] {system : ServeSystem} {event : GateEvent}

theorem step_turn {index : Nat} {request : AdmitRequest} (hrequest : system.requests[index]? = some request)
    (action : AdmitAction) :
    system.step (.turn index action) =
      { system with
        gate := (admitTurn system.gate system.blobs request.hash request.phase action).gate
        blobs := (admitTurn system.gate system.blobs request.hash request.phase action).blobs
        requests := system.requests.set index
          ⟨request.hash, (admitTurn system.gate system.blobs request.hash request.phase action).phase⟩ } := by
  simp only [step, hrequest]

theorem step_cases (system : ServeSystem) (event : GateEvent) :
    Quiet system (system.step event) ∨ ∃ index action request phase', event = .turn index action ∧
      system.requests[index]? = some request ∧
      Moves system.gate system.blobs request.hash action request.phase (system.step event).gate phase' ∧
      (system.step event).requests = system.requests.set index ⟨request.hash, phase'⟩ := by
  cases event with
  | request hash => exact .inl ⟨rfl, rfl, .inr ⟨hash, rfl⟩⟩
  | seed | armSweep | sweepEnd => exact .inl ⟨rfl, rfl, .inl rfl⟩
  | sweepBegin => exact .inl (quiet_sweepBegin system)
  | sweepDelete hash => exact .inl (quiet_sweepDelete system hash)
  | turn index action =>
    cases hrequest : system.requests[index]? with
    | none =>
      left
      simp only [step, hrequest]
      exact ⟨rfl, rfl, .inl rfl⟩
    | some request =>
      refine .inr ⟨index, action, request,
        (admitTurn system.gate system.blobs request.hash request.phase action).phase, rfl, hrequest, ?_, ?_⟩
      · rw [step_turn hrequest]
        exact moves_admitTurn system.gate system.blobs request.hash request.phase action
      · rw [step_turn hrequest]

theorem blobs_turn {index : Nat} {request : AdmitRequest}
    (hrequest : system.requests[index]? = some request) (action : AdmitAction) :
    (system.step (.turn index action)).blobs = system.blobs ∨ ∃ job raw, request.phase = .adding job raw ∧
      (system.step (.turn index action)).blobs = system.blobs.insert (Blake3Digest.fromRawNar raw) raw := by
  rw [step_turn hrequest]
  exact blobs_admitTurn system.gate system.blobs request.hash request.phase action

theorem counted_step (h : Counted system.gate.inflight system.requests) (event : GateEvent) :
    Counted (system.step event).gate.inflight (system.step event).requests := by
  obtain hquiet | ⟨index, action, request, phase', -, hrequest, hmoves, hrequests⟩ := step_cases system event
  · rw [hquiet.inflight]
    obtain hsame | ⟨hash, hcame⟩ := hquiet.requests
    · rw [hsame]
      exact h
    · rw [hcame]
      exact counted_append h hash
  · rw [hrequests]
    exact h.moves hrequest hmoves

/-- The accounts that hold in every state of a run. -/
structure Accounts (budget : ServeBudget) (system : ServeSystem) : Prop where
  budget : system.gate.budget = budget
  counted : Counted system.gate.inflight system.requests
  within : WithinBudget system.gate

variable {budget : ServeBudget}

theorem Accounts.step (hfinite : budget.maxInflightBytesUncompressedNar.toNat < 2 ^ 64 - 1)
    (h : Accounts budget system) (event : GateEvent) : Accounts budget (system.step event) := by
  have hcounted := counted_step h.counted event
  obtain hquiet | ⟨index, action, request, phase', -, hrequest, hmoves, -⟩ := step_cases system event
  · refine ⟨hquiet.budget.trans h.budget, hcounted, ?_, ?_⟩
    · rw [hquiet.inflight, hquiet.budget]
      exact h.within.each
    · rw [hquiet.inflight, hquiet.budget]
      exact h.within.together
  · exact ⟨hmoves.rewrites.budget.trans h.budget, hcounted, h.within.moves (h.budget ▸ hfinite) hmoves⟩

theorem Accounts.run (gate : ServeGate) (blobs : BlobStore) (events : List GateEvent)
    (hfinite : gate.budget.maxInflightBytesUncompressedNar.toNat < 2 ^ 64 - 1) :
    Accounts gate.budget (run gate blobs events) := by
  change Accounts gate.budget (events.foldl ServeSystem.step (init gate blobs))
  refine List.foldlRecOn events ServeSystem.step ?_ fun system h event _ => h.step hfinite event
  exact ⟨rfl, counted_init gate blobs, ⟨fun _ _ h => (nomatch h), Nat.zero_le _⟩⟩

theorem matched_step (hmatched : Matched system.gate.inflight system.requests)
    (hcounted : Counted system.gate.inflight system.requests) (hready : system.findsReady event = true) :
    Matched (system.step event).gate.inflight (system.step event).requests := by
  obtain hquiet | ⟨index, action, request, phase', rfl, hrequest, hmoves, hrequests⟩ := step_cases system event
  · rw [hquiet.inflight]
    obtain hsame | ⟨hash, hcame⟩ := hquiet.requests
    · rw [hsame]
      exact hmatched
    rw [hcame]
    refine ⟨fun index request size hrequest hsize => ?_, fun index request job raw hrequest hphase => ?_⟩
    · obtain hold | ⟨-, rfl⟩ := of_getElem?_append hrequest
      · exact hmatched.charged index request size hold hsize
      · cases hsize
    · obtain hold | ⟨-, rfl⟩ := of_getElem?_append hrequest
      · exact hmatched.whole index request job raw hold hphase
      · cases hphase
  · rw [hrequests]
    exact hmatched.moves hcounted hrequest hmoves (findsReady_turn hready hrequest)

/-- The accounts, and that what is charged is what is produced. -/
def Exact (budget : ServeBudget) (system : ServeSystem) : Prop :=
  Accounts budget system ∧ Matched system.gate.inflight system.requests

theorem exact_run (gate : ServeGate) (blobs : BlobStore) (events : List GateEvent)
    (hfinite : gate.budget.maxInflightBytesUncompressedNar.toNat < 2 ^ 64 - 1)
    (hready : Run.Always step (fun system event => system.findsReady event = true) (init gate blobs) events) :
    Exact gate.budget (run gate blobs events) := by
  have hinit : Exact gate.budget (init gate blobs) :=
    ⟨Accounts.run gate blobs [] hfinite, ⟨fun _ _ _ h => (nomatch h), fun _ _ _ _ h => (nomatch h)⟩⟩
  refine Run.foldl_of_always (fun system event h hfinds => ?_) hinit hready
  exact ⟨h.1.step hfinite event, matched_step h.2 h.1.counted hfinds⟩

/-! ### One request between two states -/

def sparesOthers (index : Nat) : GateEvent → Bool
  | .turn other _ => other = index
  | _ => true

/-- The table differs from an earlier one by what one request has borrowed. -/
structure Borrows (before : Table Blake3Digest Inflight) (index : Nat) (hash : Blake3Digest)
    (system : ServeSystem) : Prop where
  elsewhere : ∀ other, other ≠ hash → system.gate.inflight.lookup other = before.lookup other
  lent : ∃ phase, system.requests[index]? = some ⟨hash, phase⟩ ∧
    Lent (before.lookup hash) (system.gate.inflight.lookup hash) phase

theorem Borrows.step {before : Table Blake3Digest Inflight} {index : Nat} {hash : Blake3Digest}
    (h : Borrows before index hash system)
    (hpositive : ∀ entry, before.lookup hash = some entry → 0 < entry.refs)
    (hspares : sparesOthers index event = true) (hready : system.findsReady event = true) :
    Borrows before index hash (system.step event) := by
  obtain ⟨phase, hphase, hlent⟩ := h.lent
  obtain hquiet | ⟨other, action, request, phase', rfl, hrequest, hmoves, hrequests⟩ := step_cases system event
  · refine ⟨fun other hother => ?_, phase, ?_, ?_⟩
    · rw [hquiet.inflight]
      exact h.elsewhere other hother
    · obtain hsame | ⟨came, hcame⟩ := hquiet.requests
      · rw [hsame]
        exact hphase
      · rw [hcame, List.getElem?_append_left (List.getElem?_eq_some_iff.mp hphase).1]
        exact hphase
    · rw [hquiet.inflight]
      exact hlent
  obtain rfl : other = index := of_decide_eq_true hspares
  obtain rfl := Option.some.inj (hphase.symm.trans hrequest)
  have hrewrites := hmoves.rewrites
  refine ⟨fun other hother => ?_, phase', ?_, ?_⟩
  · rw [hrewrites.elsewhere other hother]
    exact h.elsewhere other hother
  · rw [hrequests, List.getElem?_set_self (List.getElem?_eq_some_iff.mp hphase).1]
  · exact hlent.moves hpositive hmoves (findsReady_turn hready hrequest)

omit [Blake3] in
theorem Borrows.returned {before : Table Blake3Digest Inflight} {index : Nat} {hash : Blake3Digest}
    (h : Borrows before index hash system) {declined : Option Declined}
    (hover : system.requests[index]? = some ⟨hash, .over declined⟩) (other : Blake3Digest) :
    system.gate.inflight.lookup other = before.lookup other := by
  obtain ⟨phase, hphase, hlent⟩ := h.lent
  by_cases hother : other = hash
  · subst hother
    obtain ⟨-, rfl⟩ := AdmitRequest.mk.inj (Option.some.inj (hphase.symm.trans hover))
    generalize system.gate.inflight.lookup other = now at hlent ⊢
    generalize before.lookup other = earlier at hlent
    cases hlent with
    | outside => rfl
    | joined hlive | created hlive => cases hlive
  · exact h.elsewhere other hother

theorem borrows_request (system : ServeSystem) (hash : Blake3Digest) :
    Borrows system.gate.inflight system.requests.length hash (system.step (.request hash)) := by
  refine ⟨fun _ _ => rfl, .asking, ?_, .outside rfl⟩
  change (system.requests ++ [⟨hash, .asking⟩])[system.requests.length]? = _
  rw [List.getElem?_append_right (Nat.le_refl _), Nat.sub_self]
  rfl

end ServeSystem

open ServeSystem

/-! ### Runs -/

def lengthDigest (raw : List UInt8) : Wire.Bytes 32 := ⟨List.replicate 31 0 ++ [UInt8.ofNat raw.length], rfl⟩

@[reducible] def lengthBlake3 : Blake3 :=
  ⟨lengthDigest, fun _ => lengthDigest, fun digest _ => digest, fun digest _ => digest⟩

attribute [local instance] lengthBlake3

def sweptGate : ServeGate := ⟨⟨100, 100⟩, some ⟨false, true⟩, ∅⟩

def twoBytes : Blake3Digest := Blake3Digest.fromRawNar [1, 2]

def twoBytesStore : BlobStore := (∅ : BlobStore).insert twoBytes [1, 2]

/-- A plan that declares three bytes for the blob of two. -/
def threeBytesPlan : SupplyPlan := ⟨3, .memory [1, 2, 3]⟩

/-- A resident blob is being served when a sweep that began before takes it, and a second request joins the entry. -/
def joinedEvents : List GateEvent :=
  [.request twoBytes, .turn 0 (.status true), .sweepBegin, .turn 0 (.reserve (.ok none)), .turn 0 (.has true),
    .sweepDelete twoBytes, .request twoBytes, .turn 1 (.status true), .turn 1 (.reserve (.ok (some threeBytesPlan))),
    .turn 1 (.has true), .turn 1 (.supply (.error "")) ]

/-- A request for another blob comes while the first is served, and the store rejects what its source produced. -/
def rejectedEvents : List GateEvent :=
  [.turn 1 (.status true), .turn 1 (.reserve (.ok (some threeBytesPlan))), .turn 1 (.has true),
    .turn 1 (.supply (.error "")), .turn 1 (.add (.error "full")), .turn 1 .drop]

end NixP2p.Iroh
