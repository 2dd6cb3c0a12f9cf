import NixP2p.Iroh.ServeLedger

/-!
# One producer for each entry

An entry is undecided exactly while one request produces its blob, as long as a request that is told its blob is ready finds it in the store, a request that is told to produce it does not, and no producer is dropped while others share its entry. The gate ensures none of the three.
-/

namespace NixP2p.Iroh

open HashTable Holdings ServeSystem

/-- The check of a request finds what the request was told, and a producer that is dropped was alone. -/
def ServeSystem.undisturbed (system : ServeSystem) : GateEvent → Bool
  | .turn index (.has readable) =>
    match system.requests[index]? with
    | some ⟨hash, .checking ready _ _⟩ => present system.blobs hash readable = ready
    | _ => true
  | .turn index .cancel =>
    match system.requests[index]? with
    | some ⟨hash, phase⟩ =>
      !phase.producing || (system.gate.inflight.lookup hash).all fun entry => entry.refs = 1
    | none => true
  | _ => true

structure Undisturbed (gate : ServeGate) (blobs : BlobStore) (hash : Blake3Digest) (action : AdmitAction)
    (phase : AdmitPhase) : Prop where
  check : ∀ readable ready size plan, action = .has readable → phase = .checking ready size plan →
    present blobs hash readable = ready
  cancel : action = .cancel → phase.producing = true →
    ∀ entry, gate.inflight.lookup hash = some entry → entry.refs = 1

theorem undisturbed_turn {system : ServeSystem} {index : Nat} {action : AdmitAction} {request : AdmitRequest}
    (h : system.undisturbed (.turn index action) = true) (hrequest : system.requests[index]? = some request) :
    Undisturbed system.gate system.blobs request.hash action request.phase := by
  obtain ⟨hash, phase⟩ := request
  refine ⟨fun readable ready size plan haction hphase => ?_, fun haction hproducing entry hentry => ?_⟩
  · dsimp only at hphase
    subst haction hphase
    simp only [undisturbed, hrequest] at h
    exact of_decide_eq_true h
  · dsimp only at hproducing hentry
    subst haction
    simp only [undisturbed, hrequest, hproducing, hentry] at h
    exact of_decide_eq_true h

def AdmitRequest.produces (hash : Blake3Digest) (request : AdmitRequest) : Nat :=
  if request.hash = hash then request.phase.producing.toNat else 0

def producers (requests : List AdmitRequest) (hash : Blake3Digest) : Nat :=
  total (AdmitRequest.produces hash) requests

def undecided (entry : Option Inflight) : Nat := if entry.map Inflight.state = some none then 1 else 0

def AdmitPhase.Relies (phase : AdmitPhase) (state : Option Bool) : Prop :=
  match phase with
  | .granted | .checking true _ _ => state = some true
  | .declined _ => state ≠ none
  | _ => True

structure Decided (inflight : Table Blake3Digest Inflight) (requests : List AdmitRequest) : Prop where
  one : ∀ hash, producers requests hash = undecided (inflight.lookup hash)
  relies : ∀ (index : Nat) (request : AdmitRequest) (entry : Inflight), requests[index]? = some request →
    request.phase.live = true → inflight.lookup request.hash = some entry → request.phase.Relies entry.state

variable {gate gate' : ServeGate} {blobs : BlobStore} {hash : Blake3Digest} {action : AdmitAction}
  {phase phase' : AdmitPhase} {requests : List AdmitRequest} {index : Nat} {request : AdmitRequest}
  {entry : Inflight}

theorem undecided_of_isSome (h : entry.state ≠ none) : undecided (some entry) = 0 :=
  if_neg fun hnone => h (Option.some.inj hnone)

theorem undecided_of_none (h : entry.state = none) : undecided (some entry) = 1 :=
  if_pos (congrArg some h)

theorem Relies.of_none (h : phase.Relies none) (state : Option Bool) : phase.Relies state := by
  cases phase with
  | granted => cases h
  | declined => exact absurd rfl h
  | checking ready =>
    cases ready with
    | true => cases h
    | false => trivial
  | _ => trivial

theorem produces_of_producing (h : request.phase.producing = true) : request.produces request.hash = 1 := by
  rw [AdmitRequest.produces, if_pos rfl, h]
  rfl

variable {inflight : Table Blake3Digest Inflight}

theorem Decided.open_of_producing (h : Decided inflight requests) (hrequest : requests[index]? = some request)
    (hproducing : request.phase.producing = true) (hentry : inflight.lookup request.hash = some entry) :
    entry.state = none := by
  have hone := h.one request.hash
  have hle := weight_le_total (AdmitRequest.produces request.hash) (List.mem_of_getElem? hrequest)
  rw [produces_of_producing hproducing] at hle
  by_contra hstate
  rw [hentry, undecided_of_isSome hstate] at hone
  unfold producers at hone
  omega

theorem Decided.producer_of_open (h : Decided inflight requests) (hentry : inflight.lookup hash = some entry)
    (hstate : entry.state = none) :
    ∃ (index : Nat) (request : AdmitRequest), requests[index]? = some request ∧ request.hash = hash ∧
      request.phase.producing = true := by
  have hone := h.one hash
  rw [hentry, undecided_of_none hstate] at hone
  by_contra hnone
  have hzero : producers requests hash = 0 := by
    refine total_eq_zero fun request hrequest => ?_
    obtain ⟨index, hindex⟩ := List.mem_iff_getElem?.mp hrequest
    unfold AdmitRequest.produces
    by_cases hhash : request.hash = hash
    · cases hproducing : request.phase.producing with
      | true => exact absurd ⟨index, request, hindex, hhash, hproducing⟩ hnone
      | false => rw [if_pos hhash]; rfl
    · rw [if_neg hhash]
  omega

theorem not_producing_of_not_live (h : phase.live = false) : phase.producing = false := by
  cases hproducing : phase.producing with
  | false => rfl
  | true => exact nomatch h.symm.trans (live_of_producing hproducing)

/-- What the proofs below know of a request and of its entry before it moves. -/
structure Knows (gate : ServeGate) (hash : Blake3Digest) (phase : AdmitPhase) : Prop where
  entry : phase.live = true → ∃ entry, gate.inflight.lookup hash = some entry
  producing : phase.producing = true → ∀ entry, gate.inflight.lookup hash = some entry → entry.state = none
  relies : phase.live = true → ∀ entry, gate.inflight.lookup hash = some entry → phase.Relies entry.state
  shared : phase.live = true → phase.producing = false →
    ∀ entry, gate.inflight.lookup hash = some entry → entry.state = none → 2 ≤ entry.refs

theorem undecided_publish (hentry : gate.inflight.lookup hash = some entry) (tag : Option Blake3Digest) :
    undecided ((gate.publish hash tag).inflight.lookup hash) = 0 := by
  rw [ServeGate.publish, lookup_modifyEntry, if_pos rfl, hentry]
  exact undecided_of_isSome (Option.some_ne_none _)

/-- A request that gives up its guard leaves the verdict of the entry open only to a producer that stays. -/
theorem undecided_release (hentry : gate.inflight.lookup hash = some entry)
    (hstays : entry.state = none → 2 ≤ entry.refs) :
    undecided ((gate.release hash).inflight.lookup hash) = undecided (gate.inflight.lookup hash) := by
  rw [ServeGate.release, lookup_modifyEntry, if_pos rfl, hentry, Option.bind_some]
  by_cases hstate : entry.state = none
  · have := hstays hstate
    rw [if_neg (by omega)]
    rfl
  rw [undecided_of_isSome hstate]
  split
  · rfl
  · exact undecided_of_isSome hstate

section

variable (hmoves : Moves gate blobs hash action phase gate' phase')

include hmoves

variable (hsteady : Undisturbed gate blobs hash action phase)

include hsteady

theorem Moves.undecided (hknows : Knows gate hash phase) :
    undecided (gate'.inflight.lookup hash) + phase.producing.toNat =
      undecided (gate.inflight.lookup hash) + phase'.producing.toNat := by
  have hpublished : phase.producing = true → phase'.producing = false → ∀ tag,
      Iroh.undecided ((gate.publish hash tag).inflight.lookup hash) + phase.producing.toNat =
        Iroh.undecided (gate.inflight.lookup hash) + phase'.producing.toNat := by
    intro hproducing hproducing' tag
    obtain ⟨entry, hentry⟩ := hknows.entry (live_of_producing hproducing)
    have hopen := hknows.producing hproducing entry hentry
    rw [undecided_publish hentry, hproducing, hproducing', hentry, undecided_of_none hopen]
    rfl
  cases hmoves with
  | idle | told | refused | supplied | added | retried => rfl
  | outside hlive hlive' => rw [not_producing_of_not_live hlive, not_producing_of_not_live hlive']
  | joined hlookup hphase =>
    rw [lookup_put, if_pos rfl, hlookup]
    obtain ⟨-, rfl | ⟨_, _, rfl⟩⟩ | ⟨-, rfl⟩ := hphase
    all_goals rfl
  | created hlookup _ _ hphase =>
    rw [lookup_put, if_pos rfl, hlookup]
    obtain ⟨rfl, _, rfl⟩ | ⟨rfl, rfl | ⟨_, rfl⟩⟩ := hphase
    all_goals rfl
  | @found readable ready size plan hpresent =>
    obtain rfl : true = ready := hpresent.symm.trans (hsteady.check readable ready size plan rfl rfl)
    rfl
  | @started readable ready size plan hpresent =>
    obtain rfl : false = ready := hpresent.symm.trans (hsteady.check readable ready size _ rfl rfl)
    rfl
  | published => exact hpublished rfl rfl _
  | @unplanned readable ready size why hpresent =>
    obtain rfl : false = ready := hpresent.symm.trans (hsteady.check readable ready size _ rfl rfl)
    exact hpublished rfl rfl _
  | failed hphase => exact hpublished (producing_of_materialising hphase) rfl _
  | dropped hphase =>
    have hsettled : phase.live = true ∧ phase.producing = false ∧ ∀ state, phase.Relies state → state ≠ none := by
      obtain rfl | ⟨_, rfl⟩ := hphase
      · exact ⟨rfl, rfl, fun state h hnone => nomatch h.symm.trans hnone⟩
      · exact ⟨rfl, rfl, fun _ h => h⟩
    obtain ⟨entry, hentry⟩ := hknows.entry hsettled.1
    have hstate := hsettled.2.2 _ (hknows.relies hsettled.1 entry hentry)
    rw [undecided_release hentry fun h => absurd h hstate, hsettled.2.1]
    rfl
  | cancelled hlive =>
    obtain ⟨entry, hentry⟩ := hknows.entry hlive
    cases hproducing : phase.producing with
    | false =>
      rw [undecided_release hentry (hknows.shared hlive hproducing entry hentry)]
      rfl
    | true =>
      have hlast := hsteady.cancel rfl hproducing entry hentry
      have hopen := hknows.producing hproducing entry hentry
      rw [ServeGate.release, lookup_modifyEntry, if_pos rfl, hentry, Option.bind_some, hlast,
        undecided_of_none hopen]
      rfl

theorem Moves.relies (hknows : Knows gate hash phase) (hlive' : phase'.live = true)
    (hentry : gate'.inflight.lookup hash = some entry) : phase'.Relies entry.state := by
  have hpublished : ∀ tag, (gate.publish hash tag).inflight.lookup hash = some entry →
      entry.state = some tag.isSome := by
    intro tag h
    rw [ServeGate.publish, lookup_modifyEntry, if_pos rfl] at h
    obtain ⟨old, -, hnew⟩ := Option.bind_eq_some_iff.mp h
    rw [← Option.some.inj hnew]
  cases hmoves with
  | idle => exact hknows.relies hlive' entry hentry
  | outside _ hlive => exact absurd (hlive.symm.trans hlive') Bool.false_ne_true
  | joined hlookup hphase =>
    rw [lookup_put, if_pos rfl] at hentry
    rw [← Option.some.inj hentry]
    obtain ⟨hstate, rfl | ⟨_, _, rfl⟩⟩ | ⟨-, rfl⟩ := hphase
    · exact hstate
    · exact hstate
    · trivial
  | created hlookup _ _ hphase =>
    rw [lookup_put, if_pos rfl] at hentry
    rw [← Option.some.inj hentry]
    obtain ⟨rfl, _, rfl⟩ | ⟨rfl, rfl | ⟨_, rfl⟩⟩ := hphase
    · trivial
    · rfl
    · rfl
  | told hlookup hstate =>
    rw [← Option.some.inj (hlookup.symm.trans hentry)]
    exact hstate
  | refused hstate =>
    intro hnone
    exact absurd ((hstate entry hentry).symm.trans hnone) (Option.some_ne_none _)
  | @found readable ready size plan hpresent =>
    obtain rfl : true = ready := hpresent.symm.trans (hsteady.check readable ready size plan rfl rfl)
    exact hknows.relies rfl entry hentry
  | started | supplied | added | retried => trivial
  | published => exact hpublished _ hentry
  | unplanned | failed =>
    intro hnone
    exact absurd ((hpublished _ hentry).symm.trans hnone) (Option.some_ne_none _)
  | dropped | cancelled => cases hlive'

theorem Moves.state_kept (hknows : Knows gate hash phase) {entry' : Inflight}
    (hentry : gate.inflight.lookup hash = some entry) (hentry' : gate'.inflight.lookup hash = some entry') :
    entry'.state = entry.state ∨ entry.state = none := by
  have hreleased : (gate.release hash).inflight.lookup hash = some entry' → entry'.state = entry.state := by
    intro h
    rw [ServeGate.release, lookup_modifyEntry, if_pos rfl, hentry, Option.bind_some] at h
    split at h
    · cases h
    · rw [← Option.some.inj h]
  cases hmoves with
  | joined hlookup =>
    rw [lookup_put, if_pos rfl] at hentry'
    rw [← Option.some.inj hentry', Option.some.inj (hentry.symm.trans hlookup)]
    exact .inl rfl
  | created hlookup => exact absurd (hentry.symm.trans hlookup) (Option.some_ne_none _)
  | published => exact .inr (hknows.producing rfl entry hentry)
  | @unplanned readable ready size why hpresent =>
    obtain rfl : false = ready := hpresent.symm.trans (hsteady.check readable ready size _ rfl rfl)
    exact .inr (hknows.producing rfl entry hentry)
  | failed hphase => exact .inr (hknows.producing (producing_of_materialising hphase) entry hentry)
  | dropped | cancelled => exact .inl (hreleased hentry')
  | _ =>
    rw [Option.some.inj (hentry.symm.trans hentry')]
    exact .inl rfl

end

theorem Decided.knows (h : Decided gate.inflight requests) (hcounted : Counted gate.inflight requests)
    (hrequest : requests[index]? = some request) : Knows gate request.hash request.phase := by
  refine ⟨hcounted.entry_of_live hrequest, fun hproducing entry hentry => ?_, fun hlive entry hentry => ?_,
    fun hlive hproducing entry hentry hstate => ?_⟩
  · exact h.open_of_producing hrequest hproducing hentry
  · exact h.relies index request entry hrequest hlive hentry
  · obtain ⟨other, request', hrequest', hhash, hproducing'⟩ := h.producer_of_open hentry hstate
    have hne : other ≠ index := by
      intro heq
      subst heq
      obtain rfl := Option.some.inj (hrequest.symm.trans hrequest')
      exact nomatch hproducing.symm.trans hproducing'
    exact hcounted.shared hrequest hlive hne hrequest' (live_of_producing hproducing') hhash hentry

theorem Decided.moves (h : Decided gate.inflight requests) (hcounted : Counted gate.inflight requests)
    (hrequest : requests[index]? = some request)
    (hmoves : Moves gate blobs request.hash action request.phase gate' phase')
    (hsteady : Undisturbed gate blobs request.hash action request.phase) :
    Decided gate'.inflight (requests.set index ⟨request.hash, phase'⟩) := by
  have hknows := h.knows hcounted hrequest
  have hundecided := hmoves.undecided hsteady hknows
  have helsewhere := hmoves.rewrites.elsewhere
  refine ⟨fun other => ?_, fun other request' entry' hother hlive hentry' => ?_⟩
  · have htotal := total_set (AdmitRequest.produces other) hrequest ⟨request.hash, phase'⟩
    have hbefore := h.one other
    unfold producers at hbefore ⊢
    by_cases hhash : other = request.hash
    · subst hhash
      simp only [AdmitRequest.produces, if_pos] at htotal
      omega
    have hnone : ∀ phase, AdmitRequest.produces other ⟨request.hash, phase⟩ = 0 := fun phase =>
      if_neg (Ne.symm hhash)
    have hold : AdmitRequest.produces other request = 0 := hnone request.phase
    have hnew := hnone phase'
    rw [helsewhere other hhash]
    omega
  · obtain ⟨rfl, rfl⟩ | ⟨hne, hrequest'⟩ := of_getElem?_set hother
    · exact hmoves.relies hsteady hknows hlive hentry'
    by_cases hhash : request'.hash = request.hash
    · obtain ⟨entry, hentry⟩ := hcounted.entry_of_live hrequest' hlive
      have hrelies := h.relies other request' entry hrequest' hlive hentry
      rw [hhash] at hentry hentry'
      obtain hsame | hopen := hmoves.state_kept hsteady hknows hentry hentry'
      · rw [hsame]
        exact hrelies
      · rw [hopen] at hrelies
        exact Relies.of_none hrelies entry'.state
    · rw [helsewhere _ hhash] at hentry'
      exact h.relies other request' entry' hrequest' hlive hentry'

/-- The entries count their requests, and every open entry has its one producer. -/
def Flown (system : ServeSystem) : Prop :=
  Counted system.gate.inflight system.requests ∧ Decided system.gate.inflight system.requests

theorem Decided.append (h : Decided inflight requests) (hash : Blake3Digest) :
    Decided inflight (requests ++ [⟨hash, .asking⟩]) := by
  refine ⟨fun other => ?_, fun index request entry hrequest hlive hentry => ?_⟩
  · have hnone : AdmitRequest.produces other ⟨hash, .asking⟩ = 0 := by
      unfold AdmitRequest.produces
      split <;> rfl
    rw [producers, total_append, hnone]
    exact h.one other
  · obtain hold | ⟨-, rfl⟩ := of_getElem?_append hrequest
    · exact h.relies index request entry hold hlive hentry
    · cases hlive

section Runs

variable [Blake3] {system : ServeSystem} {event : GateEvent}

theorem flown_step (h : Flown system) (hsteady : system.undisturbed event = true) :
    Flown (system.step event) := by
  refine ⟨counted_step h.1 event, ?_⟩
  obtain hquiet | ⟨index, action, request, phase', rfl, hrequest, hmoves, hrequests⟩ := step_cases system event
  · rw [hquiet.inflight]
    obtain hsame | ⟨hash, hcame⟩ := hquiet.requests
    · rw [hsame]
      exact h.2
    · rw [hcame]
      exact h.2.append hash
  · rw [hrequests]
    exact h.2.moves h.1 hrequest hmoves (undisturbed_turn hsteady hrequest)

theorem flown_run (gate : ServeGate) (blobs : BlobStore) (events : List GateEvent)
    (hsteady : Run.Always step (fun system event => system.undisturbed event = true) (init gate blobs) events) :
    Flown (run gate blobs events) := by
  have hinit : Flown (init gate blobs) :=
    ⟨counted_init gate blobs, ⟨fun _ => rfl, fun _ _ _ h => nomatch h⟩⟩
  exact Run.foldl_of_always (fun _ _ h => flown_step h) hinit hsteady

end Runs

/-- A request that is declined finds no other let in under its entry, or does not touch the entry. -/
theorem Moves.spares_granted (hmoves : Moves gate blobs request.hash action request.phase gate' phase')
    (hsteady : Undisturbed gate blobs request.hash action request.phase)
    (hcounted : Counted gate.inflight requests) (hdecided : Decided gate.inflight requests)
    (hrequest : requests[index]? = some request) {why : Declined} (hphase : phase' = .declined why) {other : Nat}
    {request' : AdmitRequest} (hrequest' : requests[other]? = some request')
    (hhash : request'.hash = request.hash) (hgranted : request'.phase = .granted) :
    gate'.inflight.lookup request.hash = gate.inflight.lookup request.hash := by
  have hknows := hdecided.knows hcounted hrequest
  have hlive : request'.phase.live = true := by
    rw [hgranted]
    rfl
  obtain ⟨entry, hentry⟩ := hcounted.entry_of_live hrequest' hlive
  have hrelies := hdecided.relies other request' entry hrequest' hlive hentry
  rw [hgranted] at hrelies
  have hnot : request.phase.producing = true → False := by
    intro hproducing
    exact nomatch (hknows.producing hproducing entry (hhash ▸ hentry)).symm.trans hrelies
  subst hphase
  generalize request.phase = phase at hmoves hsteady hnot
  cases hmoves with
  | idle | refused => rfl
  | outside _ hlive' => cases hlive'
  | joined _ hphase => obtain ⟨-, h | ⟨_, _, h⟩⟩ | ⟨-, h⟩ := hphase <;> cases h
  | created _ _ _ hphase => obtain ⟨-, _, h⟩ | ⟨-, h | ⟨_, h⟩⟩ := hphase <;> cases h
  | @unplanned readable ready size why hpresent =>
    obtain rfl : false = ready := hpresent.symm.trans (hsteady.check readable ready size _ rfl rfl)
    exact (hnot rfl).elim
  | failed hphase => exact (hnot (producing_of_materialising hphase)).elim

/-- As long as checks find what was told and no producer is dropped from under others, at most one request materialises a blob, every open entry has a producer, and a failure spares the entries of requests let in. -/
theorem single_flight [Blake3] (gate : ServeGate) (blobs : BlobStore) (events : List GateEvent)
    (hsteady : Run.Always step (fun system event => system.undisturbed event = true) (init gate blobs) events) :
    (∀ (index other : Nat) (request request' : AdmitRequest),
      (run gate blobs events).requests[index]? = some request →
      (run gate blobs events).requests[other]? = some request' → request.hash = request'.hash →
      request.phase.materialising = true → request'.phase.materialising = true → index = other) ∧
    (∀ hash entry, (run gate blobs events).gate.inflight.lookup hash = some entry → entry.state = none →
      ∃ (index : Nat) (request : AdmitRequest), (run gate blobs events).requests[index]? = some request ∧
        request.hash = hash ∧ request.phase.producing = true) ∧
    ∀ (index other : Nat) (action : AdmitAction) (request request' : AdmitRequest) (why : Declined),
      (run gate blobs events).undisturbed (.turn index action) = true →
      (run gate blobs events).requests[index]? = some request →
      ((run gate blobs events).step (.turn index action)).requests[index]? =
        some ⟨request.hash, .declined why⟩ →
      (run gate blobs events).requests[other]? = some request' → request'.hash = request.hash →
      request'.phase = .granted →
      ((run gate blobs events).step (.turn index action)).gate.inflight.lookup request.hash =
        (run gate blobs events).gate.inflight.lookup request.hash := by
  obtain ⟨hcounted, hdecided⟩ := flown_run gate blobs events hsteady
  generalize run gate blobs events = system at hcounted hdecided ⊢
  refine ⟨?_, fun hash entry hentry hstate => hdecided.producer_of_open hentry hstate, ?_⟩
  · intro index other request request' hrequest hrequest' hhash hmaterialising hmaterialising'
    by_contra hne
    have hone := hdecided.one request.hash
    have hle := add_le_total (AdmitRequest.produces request.hash) hne hrequest hrequest'
    have hright := produces_of_producing (producing_of_materialising hmaterialising')
    rw [← hhash] at hright
    rw [produces_of_producing (producing_of_materialising hmaterialising), hright] at hle
    unfold producers undecided at hone
    split at hone <;> omega
  · intro index other action request request' why hsteady hrequest hdeclined hrequest' hhash hgranted
    obtain hquiet | ⟨_, _, _, phase', hevent, hmover, hmoves, hrequests⟩ :=
      step_cases system (.turn index action)
    · rw [hquiet.inflight]
    obtain ⟨rfl, rfl⟩ := GateEvent.turn.inj hevent
    obtain rfl := Option.some.inj (hrequest.symm.trans hmover)
    rw [hrequests, List.getElem?_set_self (List.getElem?_eq_some_iff.mp hrequest).1] at hdeclined
    have hphase := (AdmitRequest.mk.inj (Option.some.inj hdeclined)).2
    exact hmoves.spares_granted (undisturbed_turn hsteady hrequest) hcounted hdecided hrequest hphase
      hrequest' hhash hgranted

attribute [local instance] lengthBlake3

def twoBytesPlan : SupplyPlan := ⟨2, .memory [1, 2]⟩

def keptGate : ServeGate := ⟨⟨100, 100⟩, none, ∅⟩

/-- A second request waits for the first, which then reaches its deadline. -/
def strandedEvents : List GateEvent :=
  [.request twoBytes, .turn 0 (.status true), .turn 0 (.reserve (.ok (some twoBytesPlan))), .turn 0 (.has true),
    .request twoBytes, .turn 1 (.status true), .turn 1 (.reserve (.ok (some twoBytesPlan))), .turn 0 .cancel]

/-- The blob is stored by another task after the first request has asked for it, so that the request is let in without a verdict. -/
def seededEvents : List GateEvent :=
  [.request twoBytes, .turn 0 (.status true), .seed [1, 2], .turn 0 (.reserve (.ok (some twoBytesPlan))),
    .turn 0 (.has true), .request twoBytes, .turn 1 (.status true), .turn 1 (.reserve (.ok (some twoBytesPlan)))]

/-- Two requests are told that a resident blob is ready, and the sweep that began before them takes it. -/
def sweptEvents : List GateEvent :=
  [.request twoBytes, .turn 0 (.status true), .request twoBytes, .turn 1 (.status true), .sweepBegin,
    .turn 0 (.reserve (.ok (some twoBytesPlan))), .turn 1 (.reserve (.ok (some twoBytesPlan))),
    .sweepDelete twoBytes, .turn 0 (.has true), .turn 1 (.has true)]

/-- An open entry without a producer; two materialisations of one blob; and a failure that turns the verdict of a request being served. -/
theorem flights_collide :
    ((run keptGate ∅ strandedEvents).gate.inflight.lookup twoBytes = some ⟨1, 2, none, none⟩ ∧
      (run keptGate ∅ strandedEvents).requests = [⟨twoBytes, .over none⟩, ⟨twoBytes, .following⟩]) ∧
    ((run keptGate ∅ seededEvents).gate.inflight.lookup twoBytes = some ⟨2, 2, none, none⟩ ∧
      (run keptGate ∅ seededEvents).requests = [⟨twoBytes, .granted⟩, ⟨twoBytes, .following⟩]) ∧
    (run sweptGate twoBytesStore sweptEvents).requests =
      [⟨twoBytes, .supplying ⟨0, 2, twoBytesPlan⟩⟩, ⟨twoBytes, .supplying ⟨0, 2, twoBytesPlan⟩⟩] ∧
    ((run sweptGate twoBytesStore joinedEvents).requests[0]? = some ⟨twoBytes, .granted⟩ ∧
      (run sweptGate twoBytesStore joinedEvents).gate.inflight.lookup twoBytes = some ⟨2, 2, none, some true⟩ ∧
      (run sweptGate twoBytesStore (joinedEvents ++ [.turn 1 (.add (.ok ()))])).gate.inflight.lookup twoBytes =
        some ⟨2, 2, none, some false⟩) := by
  decide +kernel

/-- The second request waits for the first, which has its source produce the blob. -/
def followedEvents : List GateEvent := strandedEvents.take 7

theorem single_flight_followed :
    ∃ (index : Nat) (request : AdmitRequest), (run keptGate ∅ followedEvents).requests[index]? = some request ∧
      request.hash = twoBytes ∧ request.phase.producing = true :=
  (single_flight keptGate ∅ followedEvents (by decide +kernel)).2.1 twoBytes ⟨2, 2, none, none⟩
    (by decide +kernel) rfl

end NixP2p.Iroh
