import NixP2p.Availability.Backing
import NixP2p.Lan.Reload

/-!
# What the steps of the LAN tasks do

An event of a run leaves the index and the registry alone, or is a step of one worker, or one of the refresh. What each of them can do is said once here: which keys of the index survive it, how the registry changes, and when the refresh begins to retire a key.
-/

namespace NixP2p

open HashTable

/-! ### Keys of the index -/

namespace AvailabilityIndex

variable {index next : AvailabilityIndex} {key other : NarHashKey}

def registered (index : AvailabilityIndex) (key : NarHashKey) : Bool := (index.entries.lookup key).isSome

@[simp] theorem entries_retireSupplyRegistration (index : AvailabilityIndex) (gone : EntryRef) :
    (index.retireSupplyRegistration gone).entries = index.entries := by
  unfold retireSupplyRegistration
  cases index.arena[gone]? with
  | none => rfl
  | some entry => rfl

variable {storePath : StorePath}

theorem lookup_registerBinding {derived : DerivedNar} {save saved : Except PersistError Unit}
    (h : index.registerBinding key storePath (some derived) save = some (next, saved)) (other : NarHashKey) :
    (saved ≠ .ok () ∧ next.entries.lookup other = index.entries.lookup other) ∨
      next.entries.lookup other = if other = key then some index.arena.length else index.entries.lookup other := by
  unfold registerBinding at h
  rw [if_neg fun hboth => Bool.false_ne_true hboth.2] at h
  split at h
  · cases h
  cases save with
  | error error =>
    obtain ⟨rfl, rfl⟩ := Prod.mk.inj (Option.some.inj h)
    refine .inl ⟨nofun, ?_⟩
    rw [entries_retireSupplyRegistration, lookup_put, lookup_insert]
    by_cases hother : other = key
    · rw [if_pos hother, hother]
    · rw [if_neg hother, if_neg hother]
  | ok _ =>
    obtain ⟨rfl, rfl⟩ := Prod.mk.inj (Option.some.inj h)
    right
    cases hreplaced : index.entries.lookup key with
    | none => exact lookup_insert _ _ _ _
    | some replaced =>
      change (retireSupplyRegistration _ replaced).entries.lookup other = _
      rw [entries_retireSupplyRegistration]
      exact lookup_insert _ _ _ _

theorem registered_unregister (index : AvailabilityIndex) (world : World) (hother : other ≠ key) :
    (index.unregister world key).1.registered other = index.registered other := by
  unfold unregister
  split
  · rfl
  · rw [registered, remove, entries_retireSupplyRegistration, lookup_erase, if_neg hother, registered]

/-- A hold takes a key out of the index only where it still has the reference whose path was gone. -/
def dropsNow (index : AvailabilityIndex) (key : NarHashKey) : HoldThread → Bool
  | .dropping dropped ref => decide (dropped = key) && decide (index.entries.lookup key = some ref)
  | .pruneDropping dropped ref => decide (dropped = key) && decide (index.entries.lookup key = some ref)
  | _ => false

theorem registered_dropIfSame (world : World) {ref : EntryRef}
    (h : (decide (key = other) && decide (index.entries.lookup other = some ref)) = false) :
    (index.dropIfSame world key ref).1.registered other = index.registered other := by
  unfold dropIfSame
  split_ifs with hsame
  · have hother : other ≠ key := by
      intro heq
      rw [heq, hsame, decide_eq_true rfl, decide_eq_true rfl] at h
      exact absurd h.symm Bool.false_ne_true
    rw [registered, remove, entries_retireSupplyRegistration, lookup_erase, if_neg hother, registered]
  · rfl

variable [Sha256] [Blake3]

theorem registered_verifyAndRegister {world : World} {expectedSize : UInt64}
    {result : Except AvailabilityError DerivedNar}
    (h : index.verifyAndRegister world key storePath expectedSize = some (next, result)) :
    (∀ other, index.registered other = true → next.registered other = true) ∧
      ∀ derived, result = .ok derived →
        next.registered key = true ∧ derived.narSizeUncompressedNar = expectedSize := by
  rcases verifyAndRegister_eq_some h with ⟨rfl, error, rfl⟩ | ⟨raw, saved, _, _, hsize, hbinding, rfl⟩
  · exact ⟨fun _ hother => hother, nofun⟩
  refine ⟨fun other hother => ?_, fun derived hderived => ?_⟩
  · rcases lookup_registerBinding hbinding other with ⟨_, hsame⟩ | hnow
    · rwa [registered, hsame]
    rw [registered, hnow]
    split_ifs
    · rfl
    · exact hother
  · cases saved with
    | error error => cases hderived
    | ok _ =>
      cases hderived
      rcases lookup_registerBinding hbinding key with ⟨hfailed, _⟩ | hnow
      · exact absurd rfl hfailed
      · rw [if_pos rfl] at hnow
        exact ⟨by rw [registered, hnow]; rfl, hsize⟩

theorem entries_derive (world : World) (ref : EntryRef) (entry : Entry) :
    (index.derive world key ref entry).1.entries = index.entries := by
  unfold derive
  split
  · rfl
  · rfl
  · split
    · rfl
    · rfl
    · split
      · rfl
      dsimp only
      split_ifs
      · rfl
      · rfl

theorem registered_advance [NarDumper] (world : World) (thread : HoldThread) (h : index.dropsNow key thread = false) :
    (thread.advance index world).1.registered key = index.registered key := by
  cases thread with
  | dropping dropped ref =>
    have hdrop := registered_dropIfSame world h
    simp only [HoldThread.advance]
    split
    · rename_i hnext
      rwa [hnext] at hdrop
    · rename_i hnext
      rwa [hnext] at hdrop
  | pruneDropping dropped ref => exact registered_dropIfSame world h
  | materialised held ref =>
    simp only [HoldThread.advance]
    split
    · rfl
    · rw [registered, entries_derive, registered]
  | reading held | observed held ref | rereading held | failing held ref error | publishing held ref derived
  | pruning held | pruneObserved held ref | held answer | pruned answer =>
    simp only [HoldThread.advance]
    repeat' split
    all_goals rfl

end AvailabilityIndex

namespace Lan

open AvailabilityIndex

variable [Sha256] [Blake3] [NarDumper] [AliasJson] {config : LanConfig}

/-! ### Phases that matter to a key -/

/-- Whether the refresh has found no live alias of the key and is not done with it. -/
def RefreshPhase.retiring (key : NarHashKey) : RefreshPhase → Bool
  | .unregistering retired _ | .withdrawing retired _ | .removing retired _ => decide (retired = key)
  | _ => false

def AdmitWorker.committing (key : NarHashKey) (worker : AdmitWorker) : Bool :=
  match worker.phase with
  | .committing .. => decide (worker.key = key)
  | _ => false

def AdmitPhase.drops (index : AvailabilityIndex) (key : NarHashKey) : AdmitPhase → Bool
  | .holding thread => index.dropsNow key thread
  | _ => false

def RefreshPhase.drops (index : AvailabilityIndex) (key : NarHashKey) : RefreshPhase → Bool
  | .holding _ thread _ => index.dropsNow key thread
  | _ => false

/-! ### What a step does -/

section Steps

variable {system : LanSystem} {event : LanAction × LanWorld} {world : LanWorld} {index : AvailabilityIndex}
  {aliases : LanAliases} {worker : AdmitWorker} {phase : RefreshPhase} {key : NarHashKey}

structure AdmitWorker.Spawned (config : LanConfig) (worker : AdmitWorker) : Prop where
  sized : worker.size ≠ 0
  own : config.excluded.contains worker.key = false
  checking : worker.phase = .checking

/-- A step that leaves the index and the registry alone: it may spawn a worker, and the refresh retires nothing new. -/
structure LanSystem.Quiet (config : LanConfig) (system next : LanSystem) : Prop where
  index : next.index = system.index
  aliases : next.aliases = system.aliases
  workers : ∀ worker ∈ next.workers, worker ∈ system.workers ∨ worker.Spawned config
  refresh : ∀ key, next.refresh.retiring key = true → system.refresh.retiring key = true

structure LanSystem.Worked (config : LanConfig) (world : LanWorld) (worker : AdmitWorker) (position : Nat)
    (system next : LanSystem) : Prop where
  index : next.index = (workTurn config world system.index system.aliases worker).index
  aliases : next.aliases = (workTurn config world system.index system.aliases worker).aliases
  workers : next.workers = system.workers.set position
    { worker with phase := (workTurn config world system.index system.aliases worker).phase }
  refresh : next.refresh = system.refresh

structure LanSystem.Refreshed (config : LanConfig) (world : LanWorld) (system next : LanSystem) : Prop where
  index : next.index = (refreshTurn config world system.index system.aliases system.refresh).index
  aliases : next.aliases = (refreshTurn config world system.index system.aliases system.refresh).aliases
  workers : next.workers = system.workers
  refresh : next.refresh = (refreshTurn config world system.index system.aliases system.refresh).phase

omit [Sha256] [Blake3] [NarDumper] [AliasJson] in
theorem LanSystem.Quiet.refl (config : LanConfig) (system : LanSystem) : system.Quiet config system :=
  ⟨rfl, rfl, fun _ => .inl, fun _ => id⟩

omit [Sha256] [Blake3] [NarDumper] [AliasJson] in
theorem LanSystem.quiet_close (config : LanConfig) (system : LanSystem) (position : Nat) (request : LanRequest)
    (answered : Bool) : system.Quiet config (system.close position request answered) :=
  ⟨rfl, rfl, fun _ => .inl, fun _ => id⟩

omit [Sha256] [Blake3] [NarDumper] [AliasJson] in
theorem LanSystem.quiet_informed (system : LanSystem) (position : Nat) (request : LanRequest) (path : StorePath)
    (facts : PathFacts) : system.Quiet config (system.informed config world position request path facts) := by
  unfold LanSystem.informed
  split_ifs with hsize hexcluded hbudget
  · exact system.quiet_close config position request false
  · exact system.quiet_close config position request true
  · exact system.quiet_close config position request false
  · refine ⟨rfl, rfl, fun worker hworker => ?_, fun _ => id⟩
    rcases List.mem_append.mp hworker with hold | hnew
    · exact .inl hold
    · rw [List.mem_singleton.mp hnew]
      exact .inr ⟨fun hzero => hsize (.inl hzero), Bool.eq_false_iff.mpr hexcluded, rfl⟩

theorem LanSystem.worked_step (config : LanConfig) {position : Nat}
    (hworker : system.workers[position]? = some worker) (world : LanWorld) : system.Worked config world worker position (system.step config (.work position, world)) := by
  simp only [LanSystem.step, LanSystem.act, hworker]
  exact ⟨rfl, rfl, rfl, rfl⟩

theorem LanSystem.step_cases (config : LanConfig) (system : LanSystem) (event : LanAction × LanWorld) :
    system.Quiet config (system.step config event) ∨
      (∃ position worker, event.1 = .work position ∧ system.workers[position]? = some worker ∧
        system.Worked config event.2 worker position (system.step config event)) ∨
      system.Refreshed config event.2 (system.step config event) := by
  obtain ⟨action, world⟩ := event
  change system.Quiet config (system.act config world action) ∨ _ ∨ _
  cases action with
  | request hash => exact .inl ⟨rfl, rfl, fun _ => .inl, fun _ => id⟩
  | lock position =>
    left
    simp only [LanSystem.act]
    split
    · split_ifs
      · exact .refl config system
      · exact ⟨rfl, rfl, fun _ => .inl, fun _ => id⟩
      · exact ⟨rfl, rfl, fun _ => .inl, fun _ => id⟩
    · exact .refl config system
  | inform position listing facts =>
    left
    simp only [LanSystem.act]
    split
    · split
      · exact system.quiet_informed position _ _ _
      · exact system.quiet_close config position _ false
    · exact .refl config system
  | deliver position =>
    left
    simp only [LanSystem.act]
    split
    · split
      · split_ifs
        · exact ⟨rfl, rfl, fun _ => .inl, fun _ => id⟩
        · exact system.quiet_close config position _ false
      · exact .refl config system
    · exact .refl config system
  | announce position published =>
    left
    simp only [LanSystem.act]
    split
    · exact system.quiet_close config position _ published
    · exact .refl config system
  | leave position =>
    left
    simp only [LanSystem.act]
    split
    · exact .refl config system
    · exact system.quiet_close config position _ false
    · exact .refl config system
  | work position =>
    cases hworker : system.workers[position]? with
    | none =>
      left
      simp only [LanSystem.act]
      rw [hworker]
      exact .refl config system
    | some worker =>
      right
      left
      exact ⟨position, worker, rfl, hworker, worked_step config hworker world⟩
  | round order =>
    left
    simp only [LanSystem.act]
    split
    · exact ⟨rfl, rfl, fun _ => .inl, nofun⟩
    · exact ⟨rfl, rfl, fun _ => .inl, nofun⟩
    · exact .refl config system
  | refreshLock =>
    left
    simp only [LanSystem.act]
    split
    · split_ifs
      · exact .refl config system
      · exact ⟨rfl, rfl, fun _ => .inl, nofun⟩
    · exact .refl config system
  | refreshPermit =>
    left
    simp only [LanSystem.act]
    split
    · split_ifs
      · exact .refl config system
      · exact ⟨rfl, rfl, fun _ => .inl, nofun⟩
    · exact .refl config system
  | refresh => exact .inr (.inr ⟨rfl, rfl, rfl, rfl⟩)

/-! ### The turns of a worker and of the refresh -/

def AdmitWorker.Fits (worker : AdmitWorker) : AdmitPhase → Prop
  | .verifying hash => pathHash worker.path = some hash
  | .committing hash derived => pathHash worker.path = some hash ∧ derived.narSizeUncompressedNar = worker.size
  | _ => True

/-- Apart from committing, a worker leaves the registry alone, and it comes to a commit by registering its key. -/
theorem workTurn_cases (config : LanConfig) (world : LanWorld) (index : AvailabilityIndex) (aliases : LanAliases)
    (worker : AdmitWorker) :
    (∃ hash derived, worker.phase = .committing hash derived ∧
        workTurn config world index aliases worker = commitTurn config world index aliases worker hash derived) ∨
      (workTurn config world index aliases worker).aliases = aliases ∧
        (workTurn config world index aliases worker).commit = none ∧
        (worker.Fits worker.phase → worker.Fits (workTurn config world index aliases worker).phase) ∧
        (∀ key, worker.phase.drops index key = false → index.registered key = true →
          (workTurn config world index aliases worker).index.registered key = true) ∧
        ∀ hash derived, (workTurn config world index aliases worker).phase = .committing hash derived →
          (workTurn config world index aliases worker).index.registered worker.key = true := by
  obtain ⟨key, path, size, phase⟩ := worker
  cases phase with
  | checking =>
    right
    simp only [workTurn, checkTurn]
    split
    · exact ⟨rfl, rfl, fun _ => trivial, fun _ _ => id, nofun⟩
    rename_i hash hnamed
    refine ⟨rfl, rfl, fun _ => ?_, fun _ _ => id, fun _ _ => ?_⟩
    · dsimp only
      split_ifs
      · exact hnamed
      · trivial
    · dsimp only
      split_ifs
      · nofun
      · nofun
  | verifying hash =>
    right
    simp only [workTurn, verifyTurn]
    split
    · exact ⟨rfl, rfl, fun _ => trivial, fun _ _ => id, nofun⟩
    · rename_i next error hcall
      exact ⟨rfl, rfl, fun _ => trivial, fun other _ => (registered_verifyAndRegister hcall).1 other, nofun⟩
    · rename_i next derived hcall
      obtain ⟨hkeep, hnow⟩ := registered_verifyAndRegister hcall
      obtain ⟨hregistered, hsize⟩ := hnow derived rfl
      exact ⟨rfl, rfl, fun hnamed => ⟨hnamed, hsize⟩, fun other _ => hkeep other, fun _ _ _ => hregistered⟩
  | committing hash derived => exact .inl ⟨hash, derived, rfl, rfl⟩
  | holding thread =>
    right
    have hadvance : ∀ key, index.dropsNow key thread = false → index.registered key = true →
        (thread.advance index world.toWorld).1.registered key = true := by
      intro key hdrops hregistered
      rwa [registered_advance world.toWorld thread hdrops]
    cases thread with
    | held answer => exact ⟨rfl, rfl, fun _ => trivial, fun _ _ => id, nofun⟩
    | _ => exact ⟨rfl, rfl, fun _ => trivial, hadvance, nofun⟩
  | finished provided => exact .inr ⟨rfl, rfl, fun _ => trivial, fun _ _ => id, nofun⟩

omit [Sha256] [Blake3] [NarDumper] in
theorem commitTurn_cases (config : LanConfig) (world : LanWorld) (index : AvailabilityIndex) (aliases : LanAliases)
    (worker : AdmitWorker) (hash : List Char) (derived : DerivedNar) :
    (commitTurn config world index aliases worker hash derived).index = index ∧
    (commitTurn config world index aliases worker hash derived).aliases =
      (replacePaths config aliases (aliases.paths.insert hash ⟨worker.key, worker.path, derived⟩)
        world.aliasSave).aliases ∧
    ((commitTurn config world index aliases worker hash derived).phase = .finished false ∨
      (commitTurn config world index aliases worker hash derived).phase = .holding (.reading worker.key)) ∧
    ((commitTurn config world index aliases worker hash derived).commit = none ∧
        (commitTurn config world index aliases worker hash derived).aliases.paths = aliases.paths ∨
      (commitTurn config world index aliases worker hash derived).commit =
          some (hash, ⟨worker.key, worker.path, derived⟩) ∧
        (commitTurn config world index aliases worker hash derived).aliases.paths =
          aliases.paths.insert hash ⟨worker.key, worker.path, derived⟩) := by
  have hcases := replacePaths_cases config aliases (aliases.paths.insert hash ⟨worker.key, worker.path, derived⟩)
    world.aliasSave
  simp only [commitTurn]
  rcases hcases with ⟨hpaths, hfailed, _⟩ | ⟨hturn, _⟩
  · split
    · exact ⟨rfl, rfl, .inl rfl, .inl ⟨rfl, hpaths⟩⟩
    · rename_i hsaved
      exact absurd hsaved hfailed
  · rw [hturn]
    exact ⟨rfl, rfl, .inr rfl, .inr ⟨rfl, rfl⟩⟩

omit [Sha256] [Blake3] [NarDumper] [AliasJson] in
theorem mem_liveAliases {hash : List Char} {entry : VerifiedAlias} (hlookup : aliases.paths.lookup hash = some entry)
    (hlive : world.pathExists entry.path = true) : entry ∈ liveAliases world aliases entry.key := by
  rw [liveAliases, List.mem_insertionSort, List.mem_filter]
  refine ⟨List.mem_map.mpr ⟨(hash, entry), mem_toEntries.mpr hlookup, rfl⟩, ?_⟩
  rw [hlive, decide_eq_true rfl]
  rfl

/-- What a turn of the refresh may do: a key leaves the index where it is dropped or retired, an alias the registry where its key is retired or its path gone, and a key is retired only where none of its aliases has its path. -/
structure RefreshPhase.Does (config : LanConfig) (world : LanWorld) (index : AvailabilityIndex) (aliases : LanAliases)
    (phase : RefreshPhase) (turn : RefreshTurn) : Prop where
  registered : ∀ key, phase.drops index key = false → phase.retiring key = false → index.registered key = true →
    turn.index.registered key = true
  kept : turn.aliases = aliases ∨
    ∃ keep, turn.aliases = (replacePaths config aliases (retain keep aliases.paths) world.aliasSave).aliases ∧
      ∀ hash entry, keep hash entry = false → phase.retiring entry.key = true ∨ world.pathExists entry.path = false
  retiring : ∀ key, turn.phase.retiring key = true → phase.retiring key = true ∨
    ∀ hash entry, aliases.paths.lookup hash = some entry → entry.key = key → world.pathExists entry.path = false

omit [Sha256] [Blake3] [NarDumper] in
theorem RefreshPhase.does_nothing {after : RefreshPhase}
    (hafter : ∀ key, after.retiring key = true → phase.retiring key = true) :
    phase.Does config world index aliases ⟨index, aliases, after⟩ :=
  ⟨fun _ _ _ => id, .inl rfl, fun key h => .inl (hafter key h)⟩

theorem does_refreshTurn (config : LanConfig) (world : LanWorld) (index : AvailabilityIndex) (aliases : LanAliases)
    (phase : RefreshPhase) : phase.Does config world index aliases (refreshTurn config world index aliases phase) := by
  cases phase with
  | listing listed rest =>
    simp only [refreshTurn, listTurn]
    split
    · rename_i hlive
      refine ⟨fun _ _ _ => id, .inl rfl, fun key h => .inr fun hash entry hlookup hkey => ?_⟩
      have hlisted : listed = key := of_decide_eq_true h
      by_contra hexists
      have hmem := mem_liveAliases hlookup (Bool.eq_true_of_not_eq_false hexists)
      rw [hkey, ← hlisted, hlive] at hmem
      exact List.not_mem_nil hmem
    · exact RefreshPhase.does_nothing nofun
  | unregistering retired rest =>
    have hkeep : ∀ key, decide (retired = key) = false → index.registered key = true →
        (index.unregister world.toWorld retired).1.registered key = true := by
      intro key hretiring hregistered
      have hother : key ≠ retired := fun heq => of_decide_eq_false hretiring heq.symm
      rwa [registered_unregister index world.toWorld hother]
    simp only [refreshTurn, unregisterTurn]
    split
    · rename_i hnext
      rw [hnext] at hkeep
      exact ⟨fun key _ => hkeep key, .inl rfl, nofun⟩
    rename_i hnext
    rw [hnext] at hkeep
    exact ⟨fun key _ => hkeep key, .inl rfl, fun _ => .inl⟩
  | probing listed first live rest =>
    simp only [refreshTurn, probeTurn]
    split
    · exact RefreshPhase.does_nothing nofun
    split_ifs
    · exact RefreshPhase.does_nothing nofun
    · exact RefreshPhase.does_nothing nofun
  | renewing listed chosen rest =>
    simp only [refreshTurn, renewTurn]
    split
    · exact RefreshPhase.does_nothing nofun
    · rename_i hcall
      exact ⟨fun key _ _ => (registered_verifyAndRegister hcall).1 key, .inl rfl, nofun⟩
    · rename_i hcall
      exact ⟨fun key _ _ => (registered_verifyAndRegister hcall).1 key, .inl rfl, nofun⟩
  | holding listed thread rest =>
    have hadvance : ∀ key, index.dropsNow key thread = false → index.registered key = true →
        (thread.advance index world.toWorld).1.registered key = true := by
      intro key hdrops hregistered
      rwa [registered_advance world.toWorld thread hdrops]
    cases thread with
    | held answer =>
      simp only [refreshTurn]
      split_ifs
      · exact RefreshPhase.does_nothing nofun
      · exact RefreshPhase.does_nothing nofun
    | _ => exact ⟨fun key hdrops _ => hadvance key hdrops, .inl rfl, nofun⟩
  | retaining listed rest =>
    simp only [refreshTurn, retainTurn]
    split_ifs
    · exact RefreshPhase.does_nothing nofun
    · split
      · exact ⟨fun _ _ _ => id, .inr ⟨_, rfl, fun _ _ hgone => .inr (Bool.or_eq_false_iff.mp hgone).2⟩, nofun⟩
      · exact ⟨fun _ _ _ => id, .inr ⟨_, rfl, fun _ _ hgone => .inr (Bool.or_eq_false_iff.mp hgone).2⟩, nofun⟩
  | withdrawing retired rest =>
    simp only [refreshTurn]
    split_ifs
    · exact RefreshPhase.does_nothing fun _ => id
    · exact RefreshPhase.does_nothing nofun
  | removing retired rest =>
    refine ⟨fun _ _ _ => id, .inr ⟨fun _ entry => decide (entry.key ≠ retired), rfl, fun hash entry hkeep => .inl ?_⟩,
      nofun⟩
    have hkey : entry.key = retired := not_not.mp (of_decide_eq_false hkeep)
    exact decide_eq_true hkey.symm
  | idle | waiting keys | locked listed rest | announcing rest => exact RefreshPhase.does_nothing nofun

end Steps

end Lan

end NixP2p
