import NixP2p.Swarm.ExactDial

/-!
# The steps of one connection

Each step of the dial system is about one connection and leaves what the system holds of the others as it is; only the sweep touches several, and it does no more than mark them. `DialView.Step` lists what can happen to one connection, and `DialSystem.view_step` says that every step of the system is such a step, or none, at every connection.
-/

namespace NixP2p

open HashTable

variable {PeerId : Type}

/-- Marking dials that are pending moves no route, keeps the number of entries, and leaves each dial pending for its peer. -/
structure DialLedger.Marked (before after : DialLedger PeerId) : Prop where
  routes : after.routes = before.routes
  size : after.pending.entries.length = before.pending.entries.length
  pending : ∀ connection, after.pending.lookup connection = before.pending.lookup connection ∨
    ∃ dial, before.pending.lookup connection = some dial ∧
      after.pending.lookup connection = some (.tombstone dial.peer)

theorem DialLedger.Marked.trans {first second third : DialLedger PeerId} (h : first.Marked second)
    (h' : second.Marked third) : first.Marked third := by
  refine ⟨h'.routes.trans h.routes, h'.size.trans h.size, fun connection => ?_⟩
  obtain hsecond | ⟨dial, hsecond, hthird⟩ := h'.pending connection
  · rw [hsecond]
    exact h.pending connection
  right
  obtain hfirst | ⟨older, hfirst, hmark⟩ := h.pending connection
  · exact ⟨dial, hfirst.symm.trans hsecond, hthird⟩
  · obtain rfl : dial = .tombstone older.peer := Option.some.inj (hsecond.symm.trans hmark)
    exact ⟨older, hfirst, hthird⟩

variable {connection : ConnectionId}

theorem DialLedger.Marked.isSome {before after : DialLedger PeerId} (h : before.Marked after)
    (hsome : (before.pending.lookup connection).isSome) : (after.pending.lookup connection).isSome := by
  obtain heq | ⟨dial, -, hmark⟩ := h.pending connection
  · rw [heq]
    exact hsome
  · rw [hmark]
    rfl

variable [DecidableEq PeerId]

/-! ### The two transitions of the ledger -/

namespace DialLedger

variable (ledger : DialLedger PeerId) (peer : PeerId) (connection : ConnectionId)

/-- The authority under which an established connection is entered in the routes. -/
def Admits (route : ConnectionRoute PeerId) (waiting : Bool) : Prop :=
  ∀ dial, ledger.pending.lookup connection = some dial →
    ∃ permittedRelays, dial = .active peer permittedRelays ∧
      connectionRouteAllowed permittedRelays route = true ∧ waiting = true

theorem applyConnectionEstablished_cases (route : ConnectionRoute PeerId) (waiting : Bool) :
    (ledger.Admits peer connection route waiting ∧
      (ledger.applyConnectionEstablished peer connection route waiting).1 =
        recordRoute { ledger with pending := ledger.pending.erase connection } peer connection route) ∨
    (ledger.applyConnectionEstablished peer connection route waiting).1 =
      { ledger with pending := ledger.pending.erase connection } := by
  unfold applyConnectionEstablished
  cases hdial : ledger.pending.lookup connection with
  | none => exact .inl ⟨fun _ h => (nomatch hdial.symm.trans h), rfl⟩
  | some dial =>
    cases dial with
    | tombstone expected => exact .inr rfl
    | active expected permittedRelays =>
      dsimp only
      split
      · exact .inr rfl
      rename_i hallowed
      obtain ⟨hpeer, hroute⟩ := not_or.mp hallowed
      cases waiting with
      | false => exact .inr rfl
      | true =>
        refine .inl ⟨fun dial h => ⟨permittedRelays, ?_, eq_true_of_ne_false hroute, rfl⟩, rfl⟩
        rw [← not_not.mp hpeer]
        exact (Option.some.inj (hdial.symm.trans h)).symm

theorem route?_recordRoute (route : ConnectionRoute PeerId) (other : PeerId) (link : ConnectionId) :
    (ledger.recordRoute peer connection route).route? other link =
      if other = peer ∧ link = connection then some route else ledger.route? other link :=
  cell?_insertCell ledger.routes peer other connection link route

theorem route?_removeConnectionRoute (other : PeerId) (link : ConnectionId) :
    (ledger.removeConnectionRoute peer connection).1.route? other link =
      if other = peer ∧ link = connection then none else ledger.route? other link :=
  cell?_eraseCell ledger.routes peer other connection link

theorem pending_applyConnectionEstablished (route : ConnectionRoute PeerId) (waiting : Bool) :
    (ledger.applyConnectionEstablished peer connection route waiting).1.pending =
      ledger.pending.erase connection := by
  obtain ⟨-, h⟩ | h := applyConnectionEstablished_cases ledger peer connection route waiting
  · rw [h]
    rfl
  · rw [h]

theorem applyExactDialCancel_pending {dial : PendingExactDial PeerId}
    (h : ledger.pending.lookup connection = some dial) :
    (ledger.applyExactDialCancel peer connection).1 =
      { ledger with pending := ledger.pending.insert connection (.tombstone dial.peer) } := by
  rw [applyExactDialCancel, h]

/-- A connection that is not pending loses its route to this peer, and is marked if it had one. -/
theorem applyExactDialCancel_settled (h : ledger.pending.lookup connection = none) :
    (ledger.applyExactDialCancel peer connection).1 =
      { (ledger.removeConnectionRoute peer connection).1 with
        pending :=
          if (ledger.route? peer connection).isSome then
            ledger.pending.insert connection (.tombstone peer)
          else ledger.pending } := by
  rw [applyExactDialCancel, h]
  dsimp only [removeConnectionRoute]
  split <;> rfl

theorem pending_cancel_ne {link : ConnectionId} (hne : link ≠ connection) :
    (ledger.applyExactDialCancel peer connection).1.pending.lookup link = ledger.pending.lookup link := by
  cases hdial : ledger.pending.lookup connection with
  | some dial =>
    rw [applyExactDialCancel_pending ledger peer connection hdial]
    exact AList.lookup_insert_ne hne
  | none =>
    rw [applyExactDialCancel_settled ledger peer connection hdial]
    dsimp only
    split
    · exact AList.lookup_insert_ne hne
    · rfl

theorem route?_cancel (other : PeerId) (link : ConnectionId) :
    (ledger.applyExactDialCancel peer connection).1.route? other link =
      if ledger.pending.lookup connection = none ∧ other = peer ∧ link = connection then none
      else ledger.route? other link := by
  cases hdial : ledger.pending.lookup connection with
  | some dial =>
    rw [applyExactDialCancel_pending ledger peer connection hdial, if_neg fun h => nomatch h.1]
    rfl
  | none =>
    rw [applyExactDialCancel_settled ledger peer connection hdial]
    simp only [true_and]
    exact route?_removeConnectionRoute ledger peer connection other link

end DialLedger

/-! ### One connection of the system -/

@[ext] structure DialView (PeerId : Type) where
  link : Link
  caller : Option (Caller PeerId)
  pending : Option (PendingExactDial PeerId)
  route : PeerId → Option (ConnectionRoute PeerId)
  cancels : List PeerId
  commands : List (DialCommand PeerId)

/-- The life of one connection: what a step of the system can do to what it holds of it. -/
inductive DialView.Step : DialView PeerId → DialView PeerId → Prop where
  | dial {view : DialView PeerId} (command : DialCommand PeerId) (hunused : view.link = .unused) :
    Step view { view with
      link := .reserved
      caller := some ⟨command.peer, command.permittedRelays, .waiting⟩
      commands := view.commands ++ [command] }
  | leave {view : DialView PeerId} {caller : Caller PeerId} (phase : WaiterPhase)
    (hcaller : view.caller = some caller) (hphase : phase ≠ .waiting) :
    Step view { view with caller := some { caller with phase } }
  | sendCancel {view : DialView PeerId} {caller : Caller PeerId} (hcaller : view.caller = some caller) :
    Step view { view with
      caller := some { caller with phase := .gone }
      cancels := view.cancels ++ [caller.peer] }
  | refuse {view : DialView PeerId} {command : DialCommand PeerId} {commands : List (DialCommand PeerId)}
    (pending : Option (PendingExactDial PeerId)) (hcommands : view.commands = command :: commands)
    (hpending : pending = view.pending ∨ pending = none) :
    Step view { view with link := .over, commands, pending }
  | register {view : DialView PeerId} {command : DialCommand PeerId}
    {commands : List (DialCommand PeerId)} (hcommands : view.commands = command :: commands) :
    Step view { view with
      link := .dialing
      commands
      pending := some (.active command.peer command.permittedRelays) }
  | cancelPending {view : DialView PeerId} {peer : PeerId} {cancels : List PeerId}
    {dial : PendingExactDial PeerId} (hcancels : view.cancels = peer :: cancels)
    (hpending : view.pending = some dial) :
    Step view { view with cancels, pending := some (.tombstone dial.peer) }
  | cancelSettled {view : DialView PeerId} {peer : PeerId} {cancels : List PeerId}
    (hcancels : view.cancels = peer :: cancels) (hpending : view.pending = none) :
    Step view { view with
      cancels
      route := fun other => if other = peer then none else view.route other
      pending := if (view.route peer).isSome then some (.tombstone peer) else none }
  | tombstone {view : DialView PeerId} {dial : PendingExactDial PeerId} (hpending : view.pending = some dial) :
    Step view { view with pending := some (.tombstone dial.peer) }
  | accept {view : DialView PeerId} (peer : PeerId) (route : ConnectionRoute PeerId)
    (hlink : view.link = .dialing ∨ view.link = .unused)
    (haccept : ∀ dial, view.pending = some dial → ∃ permittedRelays,
      dial = .active peer permittedRelays ∧ connectionRouteAllowed permittedRelays route = true ∧
        view.caller.any (fun caller => caller.phase = .waiting) = true) :
    Step view { view with
      link := .up
      pending := none
      route := fun other => if other = peer then some route else view.route other }
  | reject {view : DialView PeerId} (link : Link) (hlink : view.link = .dialing ∨ view.link = .unused)
    (hended : link = .up ∨ link = .over) :
    Step view { view with link, pending := none }
  | close {view : DialView PeerId} (peer : PeerId) (hup : view.link = .up) :
    Step view { view with
      link := .over
      pending := none
      route := fun other => if other = peer then none else view.route other }

theorem DialView.Step.of_eq {before after after' : DialView PeerId} (h : before.Step after)
    (heq : after' = after) : before.Step after' :=
  heq ▸ h

namespace DialSystem

def view (system : DialSystem PeerId) (connection : ConnectionId) : DialView PeerId where
  link := system.links connection
  caller := system.callers connection
  pending := system.ledger.pending.lookup connection
  route := fun peer => system.ledger.route? peer connection
  cancels := system.cancels.filterMap fun entry => if entry.2 = connection then some entry.1 else none
  commands := system.commands.filter fun command => command.connection = connection

def about (system : DialSystem PeerId) : DialEvent PeerId → Option ConnectionId
  | .dial connection _ _ | .closeReply connection | .sendCancel connection | .receive connection
  | .established connection _ _ | .outgoingError connection _ _ | .closed connection _ => some connection
  | .command _ => system.commands.head?.map DialCommand.connection
  | .cancel => system.cancels.head?.map Prod.snd
  | .sweep _ => none

def Follows (before after : DialView PeerId) : Prop := after = before ∨ before.Step after

/-- The connection stays as it is or takes a step of its life, and the other connections stay as they are. -/
structure Affects (connection : ConnectionId) (before after : DialSystem PeerId) : Prop where
  own : Follows (before.view connection) (after.view connection)
  others : ∀ other, other ≠ connection → after.view other = before.view other

variable (system : DialSystem PeerId) (connection : ConnectionId)

/-! ### Each step at its own connection and at the others -/

theorem affects_nothing : Affects connection system system :=
  ⟨.inl rfl, fun _ _ => rfl⟩

theorem affects_setCaller {caller : Caller PeerId} (phase : WaiterPhase)
    (hcaller : system.callers connection = some caller) (hphase : phase ≠ .waiting) :
    Affects connection system (system.setCaller connection { caller with phase }) := by
  refine ⟨.inr ?_, fun other hne => DialView.ext rfl (Function.update_of_ne hne _ _) rfl rfl rfl rfl⟩
  have hview : (system.view connection).caller = some caller := hcaller
  refine (DialView.Step.leave phase hview hphase).of_eq ?_
  exact DialView.ext rfl (Function.update_self _ _ _) rfl rfl rfl rfl

theorem affects_dialExact (peer : PeerId) (permittedRelays : List PeerId) :
    Affects connection system (system.dialExact connection peer permittedRelays) := by
  unfold dialExact
  split
  · rename_i hunused
    have hlink : (system.view connection).link = .unused := hunused
    refine ⟨.inr ((DialView.Step.dial ⟨connection, peer, permittedRelays⟩ hlink).of_eq ?_),
      fun other hne => ?_⟩
    · refine DialView.ext (Function.update_self _ _ _) (Function.update_self _ _ _) rfl rfl rfl ?_
      change (system.commands ++ [_]).filter _ = system.commands.filter _ ++ [_]
      rw [List.filter_append, List.filter_singleton, decide_eq_true rfl]
      rfl
    · refine DialView.ext (Function.update_of_ne hne _ _) (Function.update_of_ne hne _ _) rfl rfl rfl ?_
      change (system.commands ++ [_]).filter _ = _
      rw [List.filter_append, List.filter_singleton, decide_eq_false (Ne.symm hne)]
      exact List.append_nil _
  · exact system.affects_nothing connection

theorem affects_closeReply : Affects connection system (system.closeReply connection) := by
  unfold closeReply
  split
  · rename_i hwaiting
    exact system.affects_setCaller connection .dropping hwaiting WaiterPhase.noConfusion
  · exact system.affects_nothing connection

theorem affects_receive : Affects connection system (system.receive connection) := by
  unfold receive
  split
  · rename_i hwaiting _
    exact system.affects_setCaller connection .gone hwaiting WaiterPhase.noConfusion
  · exact system.affects_nothing connection

theorem affects_sendCancel : Affects connection system (system.sendCancel connection) := by
  unfold sendCancel
  split
  · rename_i hdropping
    have hcaller : (system.view connection).caller = some _ := hdropping
    refine ⟨.inr ((DialView.Step.sendCancel hcaller).of_eq ?_), fun other hne => ?_⟩
    · refine DialView.ext rfl (Function.update_self _ _ _) rfl rfl ?_ rfl
      change (system.cancels ++ [_]).filterMap _ = system.cancels.filterMap _ ++ [_]
      simp only [List.filterMap_append, List.filterMap_cons, List.filterMap_nil, if_true]
    · refine DialView.ext rfl (Function.update_of_ne hne _ _) rfl rfl ?_ rfl
      change (system.cancels ++ [_]).filterMap _ = _
      simp only [List.filterMap_append, List.filterMap_cons, if_neg (Ne.symm hne), List.filterMap_nil]
      exact List.append_nil _
  · exact system.affects_nothing connection

theorem affects_onCommand {command : DialCommand PeerId} {commands : List (DialCommand PeerId)}
    (hqueue : system.commands = command :: commands) (dialError : Option String) :
    Affects command.connection system (system.onCommand dialError) := by
  have hcommands : (system.view command.connection).commands =
      command :: commands.filter fun other => other.connection = command.connection := by
    change system.commands.filter _ = _
    simp only [hqueue, List.filter_cons, decide_true, if_true]
  have hothers : ∀ other, other ≠ command.connection →
      (commands.filter fun queued => queued.connection = other) =
        system.commands.filter fun queued => queued.connection = other := by
    intro other hne
    rw [hqueue, List.filter_cons_of_neg (by simpa using Ne.symm hne)]
  rw [onCommand, hqueue]
  dsimp only
  unfold onDialExact
  split
  · refine ⟨.inr ((DialView.Step.refuse _ hcommands (.inl rfl)).of_eq ?_), fun other hne => ?_⟩
    · exact DialView.ext (Function.update_self _ _ _) rfl rfl rfl rfl rfl
    · exact DialView.ext (Function.update_of_ne hne _ _) rfl rfl rfl rfl (hothers other hne)
  cases dialError with
  | none =>
    refine ⟨.inr ((DialView.Step.register hcommands).of_eq ?_), fun other hne => ?_⟩
    · exact DialView.ext (Function.update_self _ _ _) rfl (AList.lookup_insert _) rfl rfl rfl
    · exact DialView.ext (Function.update_of_ne hne _ _) rfl (AList.lookup_insert_ne hne) rfl rfl
        (hothers other hne)
  | some error =>
    refine ⟨.inr ((DialView.Step.refuse none hcommands (.inr rfl)).of_eq ?_), fun other hne => ?_⟩
    · exact DialView.ext (Function.update_self _ _ _) rfl (AList.lookup_erase _ _) rfl rfl rfl
    · exact DialView.ext (Function.update_of_ne hne _ _) rfl
        ((AList.lookup_erase_ne hne).trans (AList.lookup_insert_ne hne)) rfl rfl (hothers other hne)

theorem affects_onCancel {peer : PeerId} {cancels : List (PeerId × ConnectionId)}
    (hqueue : system.cancels = (peer, connection) :: cancels) :
    Affects connection system system.onCancel := by
  have hcancels : (system.view connection).cancels =
      peer :: cancels.filterMap fun entry => if entry.2 = connection then some entry.1 else none := by
    change system.cancels.filterMap _ = _
    simp only [hqueue, List.filterMap_cons, if_true]
  rw [onCancel, hqueue]
  dsimp only
  refine ⟨.inr ?_, fun other hne => ?_⟩
  · cases hdial : system.ledger.pending.lookup connection with
    | some dial =>
      have hpending : (system.view connection).pending = some dial := hdial
      refine (DialView.Step.cancelPending hcancels hpending).of_eq ?_
      rw [DialLedger.applyExactDialCancel_pending _ _ _ hdial]
      exact DialView.ext rfl rfl (AList.lookup_insert _) rfl rfl rfl
    | none =>
      have hpending : (system.view connection).pending = none := hdial
      refine (DialView.Step.cancelSettled hcancels hpending).of_eq ?_
      refine DialView.ext rfl rfl ?_ (funext fun other => ?_) rfl rfl
      · rw [DialLedger.applyExactDialCancel_settled _ _ _ hdial]
        change AList.lookup connection (if (system.ledger.route? peer connection).isSome then _ else _) = _
        rw [apply_ite (AList.lookup connection), AList.lookup_insert, hdial]
        rfl
      · refine (DialLedger.route?_cancel _ _ _ other connection).trans ?_
        simp only [hdial, true_and, and_true]
        rfl
  · refine DialView.ext rfl rfl (DialLedger.pending_cancel_ne _ _ _ hne) (funext fun which => ?_) ?_ rfl
    · refine (DialLedger.route?_cancel _ _ _ which other).trans ?_
      exact if_neg fun h => hne h.2.2
    · change cancels.filterMap _ = system.cancels.filterMap _
      simp only [hqueue, List.filterMap_cons, if_neg (Ne.symm hne)]

theorem affects_onEstablished (peer : PeerId) (route : ConnectionRoute PeerId) :
    Affects connection system (system.onEstablished connection peer route) := by
  unfold onEstablished
  split
  · rename_i hdialing
    have hlink : (system.view connection).link = .dialing ∨ (system.view connection).link = .unused :=
      hdialing
    dsimp only
    obtain ⟨hadmits, hledger⟩ | hledger := system.ledger.applyConnectionEstablished_cases peer connection
      route (system.waits connection)
    · rw [hledger]
      have hroute := fun other link => DialLedger.route?_recordRoute
        { system.ledger with pending := system.ledger.pending.erase connection } peer connection route other link
      refine ⟨.inr ((DialView.Step.accept peer route hlink hadmits).of_eq ?_), fun other hne => ?_⟩
      · refine DialView.ext (Function.update_self _ _ _) rfl (AList.lookup_erase _ _)
          (funext fun which => (hroute which connection).trans ?_) rfl rfl
        simp only [and_true]
        rfl
      · refine DialView.ext (Function.update_of_ne hne _ _) rfl (AList.lookup_erase_ne hne)
          (funext fun which => (hroute which other).trans ?_) rfl rfl
        exact if_neg fun h => hne h.2
    · rw [hledger]
      refine ⟨.inr ((DialView.Step.reject .up hlink (.inl rfl)).of_eq ?_), fun other hne => ?_⟩
      · exact DialView.ext (Function.update_self _ _ _) rfl (AList.lookup_erase _ _) rfl rfl rfl
      · exact DialView.ext (Function.update_of_ne hne _ _) rfl (AList.lookup_erase_ne hne) rfl rfl rfl
  · exact system.affects_nothing connection

theorem affects_onOutgoingError (peer : Option PeerId) (error : String) :
    Affects connection system (system.onOutgoingError connection peer error) := by
  unfold onOutgoingError
  split
  · rename_i hdialing
    have hlink : (system.view connection).link = .dialing ∨ (system.view connection).link = .unused :=
      hdialing
    refine ⟨.inr ((DialView.Step.reject .over hlink (.inr rfl)).of_eq ?_), fun other hne => ?_⟩
    · exact DialView.ext (Function.update_self _ _ _) rfl (AList.lookup_erase _ _) rfl rfl rfl
    · exact DialView.ext (Function.update_of_ne hne _ _) rfl (AList.lookup_erase_ne hne) rfl rfl rfl
  · exact system.affects_nothing connection

theorem affects_onClosed (peer : PeerId) :
    Affects connection system (system.onClosed connection peer) := by
  unfold onClosed
  split
  · rename_i hup
    have hlink : (system.view connection).link = .up := hup
    have hroute := fun other link => DialLedger.route?_removeConnectionRoute
      { system.ledger with pending := system.ledger.pending.erase connection } peer connection other link
    refine ⟨.inr ((DialView.Step.close peer hlink).of_eq ?_), fun other hne => ?_⟩
    · refine DialView.ext (Function.update_self _ _ _) rfl (AList.lookup_erase _ _)
        (funext fun which => (hroute which connection).trans ?_) rfl rfl
      simp only [and_true]
      rfl
    · refine DialView.ext (Function.update_of_ne hne _ _) rfl (AList.lookup_erase_ne hne)
        (funext fun which => (hroute which other).trans ?_) rfl rfl
      exact if_neg fun h => hne h.2
  · exact system.affects_nothing connection

variable {system connection} {event : DialEvent PeerId}

theorem affects_step (habout : system.about event = some connection) :
    Affects connection system (system.step event) := by
  cases event with
  | dial link peer relays => cases habout; exact system.affects_dialExact connection peer relays
  | closeReply link => cases habout; exact system.affects_closeReply connection
  | sendCancel link => cases habout; exact system.affects_sendCancel connection
  | receive link => cases habout; exact system.affects_receive connection
  | command dialError =>
    obtain ⟨command, hhead, rfl⟩ := Option.map_eq_some_iff.mp habout
    obtain ⟨commands, hqueue⟩ := List.head?_eq_some_iff.mp hhead
    exact system.affects_onCommand hqueue dialError
  | cancel =>
    obtain ⟨⟨peer, link⟩, hhead, rfl⟩ := Option.map_eq_some_iff.mp habout
    obtain ⟨cancels, hqueue⟩ := List.head?_eq_some_iff.mp hhead
    exact system.affects_onCancel link hqueue
  | sweep walk => cases habout
  | established link peer route => cases habout; exact system.affects_onEstablished connection peer route
  | outgoingError link peer error => cases habout; exact system.affects_onOutgoingError connection peer error
  | closed link peer => cases habout; exact system.affects_onClosed connection peer

theorem step_of_about_none (habout : system.about event = none) :
    (∃ walk, event = .sweep walk) ∨ system.step event = system := by
  cases event with
  | command dialError =>
    have hqueue : system.commands = [] := List.head?_eq_none_iff.mp (Option.map_eq_none_iff.mp habout)
    right
    rw [step, onCommand, hqueue]
  | cancel =>
    have hqueue : system.cancels = [] := List.head?_eq_none_iff.mp (Option.map_eq_none_iff.mp habout)
    right
    rw [step, onCancel, hqueue]
  | sweep walk => exact .inl ⟨walk, rfl⟩
  | _ => cases habout

theorem view_step_ne {other : ConnectionId} (hne : system.about event ≠ some other)
    (hsweep : ∀ walk, event ≠ .sweep walk) : (system.step event).view other = system.view other := by
  cases habout : system.about event with
  | some connection => exact (affects_step habout).others other fun h => hne (h ▸ habout)
  | none =>
    obtain ⟨walk, heq⟩ | heq := step_of_about_none habout
    · exact absurd heq (hsweep walk)
    · rw [heq]

end DialSystem

/-! ### The sweep -/

variable {ledger : DialLedger PeerId}

theorem DialLedger.marked_cancel (peer : PeerId) (h : (ledger.pending.lookup connection).isSome) :
    ledger.Marked (ledger.applyExactDialCancel peer connection).1 := by
  obtain ⟨dial, hdial⟩ := Option.isSome_iff_exists.mp h
  rw [applyExactDialCancel_pending ledger peer connection hdial]
  refine ⟨rfl, (size_insert _ _ _).trans (size_erase_of_isSome h), fun link => ?_⟩
  by_cases hlink : link = connection
  · subst hlink
    exact .inr ⟨dial, hdial, AList.lookup_insert _⟩
  · exact .inl (AList.lookup_insert_ne hlink)

theorem DialLedger.marked_foldl {entries : List (PeerId × ConnectionId)}
    (h : ∀ entry ∈ entries, (ledger.pending.lookup entry.2).isSome) :
    ledger.Marked
      (entries.foldl (fun ledger entry => (ledger.applyExactDialCancel entry.1 entry.2).1) ledger) := by
  induction entries generalizing ledger with
  | nil => exact ⟨rfl, rfl, fun _ => .inl rfl⟩
  | cons entry entries ih =>
    obtain ⟨hentry, hentries⟩ := List.forall_mem_cons.mp h
    have hmarked := marked_cancel entry.1 hentry
    exact hmarked.trans (ih fun other hother => hmarked.isSome (hentries other hother))

theorem DialSystem.marked_sweep (system : DialSystem PeerId) (walk : IterOrder (PeerId × ConnectionId)) :
    system.ledger.Marked (system.tombstoneAbandonedExactDials walk).ledger := by
  refine DialLedger.marked_foldl fun entry hentry => ?_
  obtain ⟨⟨connection, dial⟩, hmem, hkept⟩ :=
    List.mem_filterMap.mp ((IterOrder.mem_arrange walk).mp hentry)
  have hdial := mem_toEntries.mp hmem
  cases dial with
  | tombstone peer => cases hkept
  | active peer permittedRelays =>
    dsimp only at hkept
    split at hkept
    · cases hkept
    cases hkept
    rw [hdial]
    rfl

theorem DialSystem.view_sweep (system : DialSystem PeerId) (walk : IterOrder (PeerId × ConnectionId))
    (connection : ConnectionId) :
    Follows (system.view connection) ((system.tombstoneAbandonedExactDials walk).view connection) := by
  have hmarked := system.marked_sweep walk
  have hroutes : ∀ peer, (system.tombstoneAbandonedExactDials walk).ledger.route? peer connection =
      system.ledger.route? peer connection := fun peer => by
    rw [DialLedger.route?, hmarked.routes, DialLedger.route?]
  obtain hsame | ⟨dial, hdial, hmark⟩ := hmarked.pending connection
  · exact .inl (DialView.ext rfl rfl hsame (funext hroutes) rfl rfl)
  have hpending : (system.view connection).pending = some dial := hdial
  exact .inr ((DialView.Step.tombstone hpending).of_eq
    (DialView.ext rfl rfl hmark (funext hroutes) rfl rfl))

/-- Whatever a step is about, each connection stays as it is or takes a step of its life. -/
theorem DialSystem.view_step (system : DialSystem PeerId) (event : DialEvent PeerId)
    (connection : ConnectionId) :
    Follows (system.view connection) ((system.step event).view connection) := by
  by_cases habout : system.about event = some connection
  · exact (affects_step habout).own
  by_cases hsweep : ∃ walk, event = .sweep walk
  · obtain ⟨walk, rfl⟩ := hsweep
    exact system.view_sweep walk connection
  · exact .inl (view_step_ne habout fun walk h => hsweep ⟨walk, h⟩)

end NixP2p
