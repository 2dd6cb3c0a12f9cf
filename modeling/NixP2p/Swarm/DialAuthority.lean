import NixP2p.Swarm.DialSteps

/-!
# Which connections an exact dial may use

The invariant of one connection is kept by every step of its life. `exact_dials_authorized` concludes that a processed cancel keeps its connection out of the routes for good, that a recorded route of an exact dial is one its caller permits, and that a step moves no route but that of the connection it is about.
-/

namespace NixP2p

open HashTable

variable {PeerId : Type} [DecidableEq PeerId]

structure DialView.Sound (view : DialView PeerId) : Prop where
  fresh : view.link = .unused → view.caller = none
  untouched : view.link = .unused ∨ view.link = .reserved →
    view.pending = none ∧ ∀ peer, view.route peer = none
  registered : view.link = .dialing → ∃ caller, view.caller = some caller ∧
    (view.pending = some (.active caller.peer caller.permittedRelays) ∨
      view.pending = some (.tombstone caller.peer))
  exclusive : view.pending ≠ none → ∀ peer, view.route peer = none
  authorized : ∀ caller, view.caller = some caller → ∀ peer route, view.route peer = some route →
    peer = caller.peer ∧ connectionRouteAllowed caller.permittedRelays route = true
  cancelled : ∀ peer ∈ view.cancels, ∃ caller, view.caller = some caller ∧ caller.peer = peer ∧
    caller.phase ≠ .waiting
  queued : ∀ command ∈ view.commands, view.link = .reserved ∧ ∃ caller, view.caller = some caller ∧
    caller.peer = command.peer ∧ caller.permittedRelays = command.permittedRelays
  single : view.commands.length ≤ 1

variable {view : DialView PeerId}

section

variable (h : view.Sound)

include h

theorem DialView.Sound.commands_eq_nil (hlink : view.link ≠ .reserved) : view.commands = [] :=
  List.eq_nil_iff_forall_not_mem.mpr fun command hcommand => hlink (h.queued command hcommand).1

variable {command : DialCommand PeerId} {commands : List (DialCommand PeerId)}

theorem DialView.Sound.commands_tail (hcommands : view.commands = command :: commands) : commands = [] := by
  have := h.single
  rw [hcommands, List.length_cons] at this
  exact List.length_eq_zero_iff.mp (by omega)

theorem DialView.Sound.pending_peer {dial : PendingExactDial PeerId} (hpending : view.pending = some dial)
    (hlink : view.link = .dialing) : ∃ caller, view.caller = some caller ∧ dial.peer = caller.peer := by
  obtain ⟨caller, hcaller, hactive | htombstone⟩ := h.registered hlink
  · rw [hpending] at hactive
    exact ⟨caller, hcaller, by rw [Option.some.inj hactive]; rfl⟩
  · rw [hpending] at htombstone
    exact ⟨caller, hcaller, by rw [Option.some.inj htombstone]; rfl⟩

variable {cancels : List PeerId} {peer : PeerId}

theorem DialView.Sound.caller_of_mem (hcancels : view.cancels = peer :: cancels) :
    ∃ caller, view.caller = some caller ∧ caller.peer = peer ∧ caller.phase ≠ .waiting :=
  h.cancelled peer (by rw [hcancels]; exact List.mem_cons_self)

theorem DialView.Sound.dial (command : DialCommand PeerId) (hunused : view.link = .unused) :
    { view with
      link := .reserved
      caller := some ⟨command.peer, command.permittedRelays, .waiting⟩
      commands := view.commands ++ [command] }.Sound := by
  have hcaller := h.fresh hunused
  have huntouched := h.untouched (.inl hunused)
  have hcommands := h.commands_eq_nil (by rw [hunused]; exact Link.noConfusion)
  constructor
  case fresh => exact fun hlink => nomatch hlink
  case untouched => exact fun _ => huntouched
  case registered => exact fun hlink => nomatch hlink
  case exclusive => exact fun _ => huntouched.2
  case authorized => exact fun _ _ peer _ hsome => nomatch (huntouched.2 peer).symm.trans hsome
  case cancelled =>
    intro peer hpeer
    obtain ⟨caller, hsome, -⟩ := h.cancelled peer hpeer
    exact nomatch hcaller.symm.trans hsome
  case queued =>
    intro other hother
    rw [hcommands] at hother
    obtain rfl := List.mem_singleton.mp hother
    exact ⟨rfl, _, rfl, rfl, rfl⟩
  case single =>
    rw [hcommands]
    exact Nat.le_refl 1

/-- A caller that leaves keeps what it asked for, and may have sent its cancel. -/
theorem DialView.Sound.leave {caller : Caller PeerId} (hcaller : view.caller = some caller) {phase : WaiterPhase}
    (hphase : phase ≠ .waiting) (hcancels : ∀ peer ∈ cancels, peer ∈ view.cancels ∨ peer = caller.peer) :
    { view with caller := some { caller with phase }, cancels }.Sound where
  fresh hlink := nomatch hcaller.symm.trans (h.fresh hlink)
  untouched := h.untouched
  registered hlink := by
    obtain ⟨other, hother, hpending⟩ := h.registered hlink
    obtain rfl := Option.some.inj (hcaller.symm.trans hother)
    exact ⟨_, rfl, hpending⟩
  exclusive := h.exclusive
  authorized other hother := by
    obtain rfl := Option.some.inj hother
    exact h.authorized caller hcaller
  cancelled peer hpeer := by
    refine ⟨_, rfl, ?_, hphase⟩
    obtain hold | hnew := hcancels peer hpeer
    · obtain ⟨other, hother, hsame, -⟩ := h.cancelled peer hold
      rw [Option.some.inj (hcaller.symm.trans hother)]
      exact hsame
    · exact hnew.symm
  queued command hcommand := by
    obtain ⟨hlink, other, hother, hsame⟩ := h.queued command hcommand
    obtain rfl := Option.some.inj (hcaller.symm.trans hother)
    exact ⟨hlink, _, rfl, hsame⟩
  single := h.single

variable {after : DialView PeerId}

/-- A connection that is up or over owes only what its routes and its cancels say. -/
theorem DialView.Sound.ended (hlink : after.link = .up ∨ after.link = .over)
    (hcaller : after.caller = view.caller) (hcancels : after.cancels = view.cancels)
    (hcommands : after.commands = []) (hexclusive : after.pending ≠ none → ∀ peer, after.route peer = none)
    (hauthorized : ∀ caller, view.caller = some caller → ∀ peer route, after.route peer = some route → peer = caller.peer ∧ connectionRouteAllowed caller.permittedRelays route = true) :
    after.Sound where
  fresh hunused := by
    rw [hunused] at hlink
    exact hlink.elim (fun hlink => nomatch hlink) fun hlink => nomatch hlink
  untouched hbefore := by
    obtain hlink | hlink := hlink <;> rw [hlink] at hbefore <;>
      exact hbefore.elim (fun hbefore => nomatch hbefore) fun hbefore => nomatch hbefore
  registered hdialing := by
    rw [hdialing] at hlink
    exact hlink.elim (fun hlink => nomatch hlink) fun hlink => nomatch hlink
  exclusive := hexclusive
  authorized := hcaller ▸ hauthorized
  cancelled := by
    rw [hcancels, hcaller]
    exact h.cancelled
  queued command hcommand := by
    rw [hcommands] at hcommand
    exact absurd hcommand List.not_mem_nil
  single := by
    rw [hcommands]
    exact Nat.zero_le 1

theorem DialView.Sound.refuse (hcommands : view.commands = command :: commands)
    (pending : Option (PendingExactDial PeerId)) : { view with link := .over, commands, pending }.Sound := by
  have hreserved := (h.queued command (by rw [hcommands]; exact List.mem_cons_self)).1
  exact h.ended (.inr rfl) rfl rfl (h.commands_tail hcommands)
    (fun _ => (h.untouched (.inr hreserved)).2) h.authorized

theorem DialView.Sound.register (hcommands : view.commands = command :: commands) :
    { view with
      link := .dialing
      commands
      pending := some (.active command.peer command.permittedRelays) }.Sound := by
  obtain ⟨hreserved, caller, hcaller, hpeer, hrelays⟩ :=
    h.queued command (by rw [hcommands]; exact List.mem_cons_self)
  obtain ⟨-, hroute⟩ := h.untouched (.inr hreserved)
  obtain rfl := h.commands_tail hcommands
  constructor
  case fresh => exact fun hlink => nomatch hlink
  case untouched => exact fun hlink => hlink.elim (fun hlink => nomatch hlink) fun hlink => nomatch hlink
  case registered => exact fun _ => ⟨caller, hcaller, .inl (by rw [hpeer, hrelays])⟩
  case exclusive => exact fun _ => hroute
  case authorized => exact h.authorized
  case cancelled => exact h.cancelled
  case queued => exact fun _ hmem => absurd hmem List.not_mem_nil
  case single => exact Nat.zero_le 1

theorem DialView.Sound.tombstone {dial : PendingExactDial PeerId} (hpending : view.pending = some dial)
    (hcancels : ∀ peer ∈ cancels, peer ∈ view.cancels) :
    { view with pending := some (.tombstone dial.peer), cancels }.Sound where
  fresh := h.fresh
  untouched hlink := nomatch hpending.symm.trans (h.untouched hlink).1
  registered hlink := by
    obtain ⟨caller, hcaller, hpeer⟩ := h.pending_peer hpending hlink
    exact ⟨caller, hcaller, .inr (by rw [hpeer])⟩
  exclusive _ := h.exclusive (by rw [hpending]; exact Option.some_ne_none dial)
  authorized := h.authorized
  cancelled peer hpeer := h.cancelled peer (hcancels peer hpeer)
  queued := h.queued
  single := h.single

theorem DialView.Sound.cancelSettled (hcancels : view.cancels = peer :: cancels) (hpending : view.pending = none) :
    { view with
      cancels
      route := fun other => if other = peer then none else view.route other
      pending := if (view.route peer).isSome then some (.tombstone peer) else none }.Sound := by
  obtain ⟨caller, hcaller, rfl, -⟩ := h.caller_of_mem hcancels
  -- the caller's peer is the only one the connection can be routed to
  have hroute : ∀ other, (if other = caller.peer then none else view.route other) = none := by
    intro other
    split
    · rfl
    rename_i hne
    cases hsome : view.route other with
    | none => rfl
    | some route => exact absurd (h.authorized caller hcaller other route hsome).1 hne
  constructor
  case fresh => exact h.fresh
  case untouched =>
    intro hlink
    refine ⟨?_, hroute⟩
    rw [(h.untouched hlink).2]
    rfl
  case registered =>
    intro hlink
    obtain ⟨_, -, hactive | htombstone⟩ := h.registered hlink
    · exact nomatch hpending.symm.trans hactive
    · exact nomatch hpending.symm.trans htombstone
  case exclusive => exact fun _ => hroute
  case authorized => exact fun _ _ other _ hsome => nomatch (hroute other).symm.trans hsome
  case cancelled =>
    intro other hother
    exact h.cancelled other (by rw [hcancels]; exact List.mem_cons_of_mem _ hother)
  case queued => exact h.queued
  case single => exact h.single

theorem DialView.Sound.accept {route : ConnectionRoute PeerId}
    (hlink : view.link = .dialing ∨ view.link = .unused)
    (haccept : ∀ dial, view.pending = some dial → ∃ permittedRelays, dial = .active peer permittedRelays ∧ connectionRouteAllowed permittedRelays route = true ∧ view.caller.any (fun caller => caller.phase = .waiting) = true) :
    { view with
      link := .up
      pending := none
      route := fun other => if other = peer then some route else view.route other }.Sound := by
  have hcommands : view.commands = [] := h.commands_eq_nil (by
    obtain hlink | hlink := hlink <;> rw [hlink] <;> exact Link.noConfusion)
  refine h.ended (.inl rfl) rfl rfl hcommands (fun hpending => absurd rfl hpending) ?_
  intro caller hcaller other recorded hrecorded
  -- an exact dial is pending until this event, for the peer and the relays of its caller
  have hdialing : view.link = .dialing := hlink.resolve_right fun hunused =>
    nomatch hcaller.symm.trans (h.fresh hunused)
  obtain ⟨dialer, hdialer, hpending⟩ := h.registered hdialing
  obtain rfl := Option.some.inj (hcaller.symm.trans hdialer)
  obtain hactive | htombstone := hpending
  · obtain ⟨permittedRelays, hdial, hallowed, -⟩ := haccept _ hactive
    obtain ⟨rfl, rfl⟩ := PendingExactDial.active.inj hdial
    dsimp only at hrecorded
    split at hrecorded
    · rename_i hpeer
      rw [← Option.some.inj hrecorded]
      exact ⟨hpeer, hallowed⟩
    · have hnone := h.exclusive (by rw [hactive]; exact Option.some_ne_none _) other
      exact nomatch hnone.symm.trans hrecorded
  · obtain ⟨_, hdial, -⟩ := haccept _ htombstone
    exact nomatch hdial

/-- A dial that fails, or whose connection is not admitted, records nothing. -/
theorem DialView.Sound.reject {link : Link} (hlink : view.link = .dialing ∨ view.link = .unused)
    (hended : link = .up ∨ link = .over) : { view with link, pending := none }.Sound := by
  have hcommands : view.commands = [] := h.commands_eq_nil (by
    obtain hlink | hlink := hlink <;> rw [hlink] <;> exact Link.noConfusion)
  exact h.ended hended rfl rfl hcommands (fun hpending => absurd rfl hpending) h.authorized

theorem DialView.Sound.close (peer : PeerId) (hup : view.link = .up) :
    { view with
      link := .over
      pending := none
      route := fun other => if other = peer then none else view.route other }.Sound := by
  have hcommands : view.commands = [] := h.commands_eq_nil (by rw [hup]; exact Link.noConfusion)
  refine h.ended (.inr rfl) rfl rfl hcommands (fun hpending => absurd rfl hpending) ?_
  intro caller hcaller other route hroute
  dsimp only at hroute
  split at hroute
  · cases hroute
  · exact h.authorized caller hcaller other route hroute

end

variable {before : DialView PeerId}

theorem DialView.Sound.step (h : before.Sound) (hstep : before.Step after) : after.Sound := by
  cases hstep with
  | dial command hunused => exact h.dial command hunused
  | leave phase hcaller hphase => exact h.leave hcaller hphase fun _ => .inl
  | sendCancel hcaller =>
    refine h.leave hcaller WaiterPhase.noConfusion fun peer hpeer => ?_
    exact (List.mem_append.mp hpeer).imp_right List.mem_singleton.mp
  | refuse pending hcommands _ => exact h.refuse hcommands pending
  | register hcommands => exact h.register hcommands
  | cancelPending hcancels hpending =>
    exact h.tombstone hpending fun peer hpeer => by rw [hcancels]; exact List.mem_cons_of_mem _ hpeer
  | cancelSettled hcancels hpending => exact h.cancelSettled hcancels hpending
  | tombstone hpending => exact h.tombstone hpending fun _ => id
  | accept peer route hlink haccept => exact h.accept hlink haccept
  | reject link hlink hended => exact h.reject hlink hended
  | close peer hup => exact h.close peer hup

/-- The caller of the dial is gone and its connection is not routed. -/
def DialView.Barred (view : DialView PeerId) : Prop :=
  (∃ caller, view.caller = some caller ∧ caller.phase ≠ .waiting) ∧ ∀ peer, view.route peer = none

theorem DialView.Barred.step (h : before.Barred) (hsound : before.Sound) (hstep : before.Step after) :
    after.Barred := by
  obtain ⟨⟨caller, hcaller, hphase⟩, hroute⟩ := h
  cases hstep with
  | dial command hunused => exact nomatch hcaller.symm.trans (hsound.fresh hunused)
  | leave phase hother hgone => exact ⟨⟨_, rfl, hgone⟩, hroute⟩
  | sendCancel hother => exact ⟨⟨_, rfl, WaiterPhase.noConfusion⟩, hroute⟩
  | refuse pending hcommands _ => exact ⟨⟨caller, hcaller, hphase⟩, hroute⟩
  | register hcommands => exact ⟨⟨caller, hcaller, hphase⟩, hroute⟩
  | cancelPending hcancels hpending => exact ⟨⟨caller, hcaller, hphase⟩, hroute⟩
  | tombstone hpending => exact ⟨⟨caller, hcaller, hphase⟩, hroute⟩
  | reject link hlink hended => exact ⟨⟨caller, hcaller, hphase⟩, hroute⟩
  | cancelSettled hcancels hpending =>
    refine ⟨⟨caller, hcaller, hphase⟩, fun other => ?_⟩
    simp only [hroute, ite_self]
  | close peer hup =>
    refine ⟨⟨caller, hcaller, hphase⟩, fun other => ?_⟩
    simp only [hroute, ite_self]
  | accept peer route hlink haccept =>
    -- the dial is still pending, so it was admitted to a caller that waits
    exfalso
    have hdialing : before.link = .dialing := hlink.resolve_right fun hunused =>
      nomatch hcaller.symm.trans (hsound.fresh hunused)
    obtain ⟨_, -, hpending⟩ := hsound.registered hdialing
    obtain ⟨dial, hdial⟩ : ∃ dial, before.pending = some dial := hpending.elim (⟨_, ·⟩) (⟨_, ·⟩)
    obtain ⟨_, -, -, hwaits⟩ := haccept dial hdial
    rw [hcaller] at hwaits
    exact hphase (of_decide_eq_true hwaits)

namespace DialSystem

def Sound (system : DialSystem PeerId) : Prop := ∀ connection, (system.view connection).Sound

theorem sound_init : (init : DialSystem PeerId).Sound := fun connection => by
  constructor
  case fresh => exact fun _ => rfl
  case untouched => exact fun _ => ⟨rfl, fun _ => rfl⟩
  case registered => exact fun hlink => nomatch hlink
  case exclusive => exact fun hpending => absurd rfl hpending
  case authorized => exact fun _ hcaller => nomatch hcaller
  case cancelled => exact fun _ hpeer => absurd hpeer List.not_mem_nil
  case queued => exact fun _ hcommand => absurd hcommand List.not_mem_nil
  case single => exact Nat.zero_le 1

variable {system : DialSystem PeerId}

theorem Sound.step (h : system.Sound) (event : DialEvent PeerId) : (system.step event).Sound := by
  intro connection
  obtain hsame | hstep := system.view_step event connection
  · rw [hsame]
    exact h connection
  · exact (h connection).step hstep

theorem Sound.run (h : system.Sound) (events : List (DialEvent PeerId)) :
    (system.run events).Sound :=
  List.foldlRecOn events DialSystem.step h fun _ hbefore event _ => hbefore.step event

variable {connection : ConnectionId}

theorem barred_run (h : system.Sound) (hbarred : (system.view connection).Barred)
    (events : List (DialEvent PeerId)) : ((system.run events).view connection).Barred := by
  induction events generalizing system with
  | nil => exact hbarred
  | cons event events ih =>
    refine ih (h.step event) ?_
    obtain hsame | hstep := system.view_step event connection
    · rw [hsame]
      exact hbarred
    · exact hbarred.step (h connection) hstep

theorem barred_onCancel (h : system.Sound) {peer : PeerId} {cancels : List (PeerId × ConnectionId)}
    (hcancels : system.cancels = (peer, connection) :: cancels) :
    ((system.step .cancel).view connection).Barred := by
  have hsound := h connection
  obtain ⟨caller, hcaller, rfl, hphase⟩ := hsound.cancelled peer (by
    change peer ∈ system.cancels.filterMap _
    simp only [hcancels, List.filterMap_cons, if_true, List.mem_cons, true_or])
  have hstep : system.step .cancel =
      { system with
        cancels
        ledger := (system.ledger.applyExactDialCancel caller.peer connection).1 } := by
    rw [step, onCancel, hcancels]
  rw [hstep]
  refine ⟨⟨caller, hcaller, hphase⟩, fun other => ?_⟩
  change (system.ledger.applyExactDialCancel caller.peer connection).1.route? other connection = none
  rw [DialLedger.route?_cancel]
  split
  · rfl
  rename_i hother
  cases hpending : system.ledger.pending.lookup connection with
  | some dial => exact hsound.exclusive (fun hnone => by cases hpending.symm.trans hnone) other
  | none =>
    cases hroute : system.ledger.route? other connection with
    | none => rfl
    | some route =>
      exact absurd ⟨hpending, (hsound.authorized caller hcaller other route hroute).1, rfl⟩ hother

end DialSystem

theorem connectionRouteAllowed_iff {permittedRelays : List PeerId} {route : ConnectionRoute PeerId} :
    connectionRouteAllowed permittedRelays route = true ↔
      route = .direct ∨ ∃ relay ∈ permittedRelays, route = .relayed relay := by
  cases route with
  | direct => simp [connectionRouteAllowed]
  | relayed relay => simp [connectionRouteAllowed]
  | relayedUnknown => simp [connectionRouteAllowed]

/-- A processed cancel keeps its connection out of the routes for good, a route of an exact dial leads to the peer of its caller, directly or through a relay the caller permits, and a step moves no other route. -/
theorem exact_dials_authorized (events : List (DialEvent PeerId)) :
    (∀ peer connection cancels,
      (DialSystem.init.run events).cancels = (peer, connection) :: cancels →
      ∀ after other,
        (((DialSystem.init.run events).step .cancel).run after).ledger.route? other connection = none) ∧
    (∀ connection caller, (DialSystem.init.run events).callers connection = some caller →
      ∀ peer route, (DialSystem.init.run events).ledger.route? peer connection = some route →
        peer = caller.peer ∧
          (route = .direct ∨ ∃ relay ∈ caller.permittedRelays, route = .relayed relay)) ∧
    ∀ event connection, (DialSystem.init.run events).about event ≠ some connection →
      ∀ peer, ((DialSystem.init.run events).step event).ledger.route? peer connection =
        (DialSystem.init.run events).ledger.route? peer connection := by
  have hsound := DialSystem.sound_init.run events
  refine ⟨fun peer connection cancels hcancels after => ?_,
    fun connection caller hcaller peer route hroute => ?_, fun event connection habout peer => ?_⟩
  · exact (DialSystem.barred_run (hsound.step .cancel) (DialSystem.barred_onCancel hsound hcancels) after).2
  · obtain ⟨hpeer, hallowed⟩ := (hsound connection).authorized caller hcaller peer route hroute
    exact ⟨hpeer, connectionRouteAllowed_iff.mp hallowed⟩
  · by_cases hsweep : ∃ walk, event = .sweep walk
    · obtain ⟨walk, rfl⟩ := hsweep
      have hmarked := (DialSystem.init.run events).marked_sweep walk
      exact congrArg (fun routes => cell? routes peer connection) hmarked.routes
    · have hview := DialSystem.view_step_ne habout fun walk h => hsweep ⟨walk, h⟩
      exact congrArg (fun view => view.route peer) hview

/-- The dial of connection 1 succeeds and its caller gives up before it reads the reply. -/
def lateCancelEvents : List (DialEvent Nat) :=
  [.dial 1 7 [], .command none, .established 1 7 .direct, .closeReply 1, .sendCancel 1]

theorem exact_dials_authorized_late_cancel :
    (DialSystem.init.run lateCancelEvents).ledger.route? 7 1 = some .direct ∧
      ∀ after other,
        (((DialSystem.init.run lateCancelEvents).step .cancel).run after).ledger.route? other 1 = none :=
  ⟨rfl, (exact_dials_authorized lateCancelEvents).1 7 1 [] rfl⟩

end NixP2p
