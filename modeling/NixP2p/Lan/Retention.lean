import NixP2p.Base.Run
import NixP2p.Lan.Turns

/-!
# What becomes of a committed alias

The registry is unlocked while the refresh waits for the network, so a worker whose requester has left may commit an alias that the refresh then removes although its path is there. A hold that finds the chosen path gone also takes the key out of the index. Where neither meets a key, a committed alias stays for as long as its path exists.
-/

namespace NixP2p.Lan

open HashTable AvailabilityIndex

section System

variable [Sha256] [Blake3] [NarDumper] [AliasJson] {config : LanConfig}

namespace LanSystem

def committing (system : LanSystem) (key : NarHashKey) : Bool := system.workers.any (·.committing key)

/-- Whether a hold is about to take the key out of the index, as its chosen path was gone. -/
def dropping (system : LanSystem) (key : NarHashKey) : Bool :=
  (system.workers.any fun worker => worker.phase.drops system.index key) || system.refresh.drops system.index key

def listed (system : LanSystem) (key : NarHashKey) : Bool :=
  (toEntries system.aliases.paths).any fun item => decide (item.2.key = key)

/-- No alias of the key is about to be committed while the key is retired, and no hold drops the key of an alias. -/
def apart (system : LanSystem) (key : NarHashKey) : Bool :=
  !(system.refresh.retiring key && system.committing key) &&
    !(system.dropping key && (system.committing key || system.listed key))

end LanSystem

section Invariants

variable {system : LanSystem} {event : LanAction × LanWorld} {key : NarHashKey}

structure LanSystem.Sound (config : LanConfig) (system : LanSystem) : Prop where
  paths : SoundPaths config system.aliases.paths
  workers : ∀ worker ∈ system.workers,
    worker.size ≠ 0 ∧ config.excluded.contains worker.key = false ∧ worker.Fits worker.phase

variable {worker : AdmitWorker} {hash : List Char} {derived : DerivedNar}

omit [Sha256] [Blake3] [NarDumper] [AliasJson] in
theorem AdmitWorker.Fits.sound (h : worker.Fits (.committing hash derived)) (hsize : worker.size ≠ 0)
    (hown : config.excluded.contains worker.key = false) :
    VerifiedAlias.Sound config hash ⟨worker.key, worker.path, derived⟩ where
  named := h.1
  sized := fun hzero => hsize (h.2.symm.trans hzero)
  own := hown

/-- A step leaves the registry or saves one in its place, which is sound where the system was. -/
theorem LanSystem.aliases_step {P : LanAliases → Prop} (h : P system.aliases)
    (hreplace : ∀ paths, (system.Sound config → SoundPaths config paths) →
      P (replacePaths config system.aliases paths event.2.aliasSave).aliases) :
    P (system.step config event).aliases := by
  rcases system.step_cases config event with hquiet | ⟨position, worker, _, hworker, hworked⟩ | hrefreshed
  · rwa [hquiet.aliases]
  · rw [hworked.aliases]
    rcases workTurn_cases config event.2 system.index system.aliases worker with
      ⟨hash, derived, hphase, hturn⟩ | ⟨hsame, _⟩
    · rw [hturn, (commitTurn_cases config event.2 system.index system.aliases worker hash derived).2.1]
      refine hreplace _ fun hsound => ?_
      obtain ⟨hsize, hown, hfits⟩ := hsound.workers worker (List.mem_of_getElem? hworker)
      rw [hphase] at hfits
      exact hsound.paths.insert (hfits.sound hsize hown)
    · rwa [hsame]
  · rw [hrefreshed.aliases]
    rcases (does_refreshTurn config event.2 system.index system.aliases system.refresh).kept with
      hsame | ⟨keep, hturn, _⟩
    · rwa [hsame]
    · rw [hturn]
      exact hreplace _ fun hsound => hsound.paths.retain keep

theorem LanSystem.within_step (h : system.aliases.paths.entries.length ≤ config.limit) :
    (system.step config event).aliases.paths.entries.length ≤ config.limit :=
  aliases_step (P := fun aliases => aliases.paths.entries.length ≤ config.limit) h fun _ _ => within_replacePaths h

theorem LanSystem.Sound.step (h : system.Sound config) : (system.step config event).Sound config := by
  refine ⟨aliases_step (P := fun aliases => SoundPaths config aliases.paths) h.paths
    fun _ hpaths => h.paths.replacePaths (hpaths h) _, fun other hmem => ?_⟩
  rcases system.step_cases config event with hquiet | ⟨position, worker, _, hworker, hworked⟩ | hrefreshed
  · rcases hquiet.workers other hmem with hold | hnew
    · exact h.workers other hold
    refine ⟨hnew.sized, hnew.own, ?_⟩
    rw [hnew.checking]
    trivial
  · obtain ⟨hsize, hown, hfits⟩ := h.workers worker (List.mem_of_getElem? hworker)
    rw [hworked.workers] at hmem
    rcases List.mem_or_eq_of_mem_set hmem with hold | rfl
    · exact h.workers other hold
    refine ⟨hsize, hown, ?_⟩
    rcases workTurn_cases config event.2 system.index system.aliases worker with
      ⟨hash, derived, _, hturn⟩ | ⟨_, _, hnext, _⟩
    · rw [hturn]
      rcases (commitTurn_cases config event.2 system.index system.aliases worker hash derived).2.2.1 with hend | hend
      · rw [hend]
        trivial
      · rw [hend]
        trivial
    · exact hnext hfits
  · exact h.workers other (hrefreshed.workers ▸ hmem)

theorem LanSystem.Sound.reloads_step (h : system.Sound config) (hreloads : Reloads config system.aliases)
    (hsynced : event.2.aliasSave ≠ .unsynced) : Reloads config (system.step config event).aliases :=
  aliases_step hreloads fun _ hpaths => hreloads.replacePaths (hpaths h) hsynced

omit [Sha256] [Blake3] [NarDumper] [AliasJson] in
theorem LanSystem.apart_iff :
    system.apart key = true ↔
      (system.refresh.retiring key = true → system.committing key = false) ∧
        (system.committing key = true ∨ system.listed key = true → system.dropping key = false) := by
  unfold LanSystem.apart
  cases system.refresh.retiring key <;> cases system.committing key <;> cases system.dropping key <;>
    cases system.listed key <;> decide

/-- Before the commit: the key of a verified admission is in the index. -/
def LanSystem.Verified (key : NarHashKey) (system : LanSystem) : Prop :=
  system.committing key = true → system.index.registered key = true

/-- After the commit: the alias is in the registry, its key is in the index, and the refresh does not retire the key. -/
structure LanSystem.Holds (hash : List Char) (entry : VerifiedAlias) (system : LanSystem) : Prop where
  kept : system.aliases.paths.lookup hash = some entry
  registered : system.index.registered entry.key = true
  unretired : system.refresh.retiring entry.key = false

omit [Sha256] [Blake3] [NarDumper] [AliasJson] in
theorem LanSystem.drops_of_mem (hmem : worker ∈ system.workers) (h : system.dropping key = false) :
    worker.phase.drops system.index key = false := by
  have hany := List.any_eq_false.mp (Bool.or_eq_false_iff.mp h).1 worker hmem
  exact Bool.eq_false_iff.mpr hany

omit [Sha256] [Blake3] [NarDumper] [AliasJson] in
theorem LanSystem.committing_of_mem (hmem : worker ∈ system.workers)
    (hphase : worker.phase = .committing hash derived) : system.committing worker.key = true := by
  refine List.any_eq_true.mpr ⟨worker, hmem, ?_⟩
  rw [AdmitWorker.committing, hphase]
  exact decide_eq_true rfl

variable {entry : VerifiedAlias}

omit [Sha256] [Blake3] [NarDumper] [AliasJson] in
theorem LanSystem.listed_of_lookup (h : system.aliases.paths.lookup hash = some entry) :
    system.listed entry.key = true :=
  List.any_eq_true.mpr ⟨(hash, entry), mem_toEntries.mpr h, decide_eq_true rfl⟩

theorem LanSystem.registered_step (h : system.index.registered key = true) (hdropping : system.dropping key = false)
    (hretiring : system.refresh.retiring key = false) : (system.step config event).index.registered key = true := by
  rcases system.step_cases config event with hquiet | ⟨position, worker, _, hworker, hworked⟩ | hrefreshed
  · rwa [hquiet.index]
  · rw [hworked.index]
    rcases workTurn_cases config event.2 system.index system.aliases worker with
      ⟨hash, derived, _, hturn⟩ | ⟨_, _, _, hkeep, _⟩
    · rw [hturn, (commitTurn_cases config event.2 system.index system.aliases worker hash derived).1]
      exact h
    · exact hkeep key (drops_of_mem (List.mem_of_getElem? hworker) hdropping) h
  · rw [hrefreshed.index]
    exact (does_refreshTurn config event.2 system.index system.aliases system.refresh).registered _
      (Bool.or_eq_false_iff.mp hdropping).2 hretiring h

theorem LanSystem.Verified.step (h : system.Verified key) (hapart : system.apart key = true) :
    (system.step config event).Verified key := by
  obtain ⟨hretired, hdropped⟩ := apart_iff.mp hapart
  -- An admission that was there before keeps the key from being dropped and from being retired.
  have hbefore : system.committing key = true → (system.step config event).index.registered key = true := by
    intro hcommitting
    refine registered_step (h hcommitting) (hdropped (.inl hcommitting)) (Bool.eq_false_iff.mpr fun hretiring => ?_)
    rw [hretired hretiring] at hcommitting
    exact absurd hcommitting Bool.false_ne_true
  intro hcommitting
  obtain ⟨other, hmem, hother⟩ := List.any_eq_true.mp hcommitting
  rcases system.step_cases config event with hquiet | ⟨position, worker, _, hworker, hworked⟩ | hrefreshed
  · rcases hquiet.workers other hmem with hold | hnew
    · exact hbefore (List.any_eq_true.mpr ⟨other, hold, hother⟩)
    · rw [AdmitWorker.committing, hnew.checking] at hother
      exact absurd hother Bool.false_ne_true
  · rw [hworked.workers] at hmem
    rcases List.mem_or_eq_of_mem_set hmem with hold | rfl
    · exact hbefore (List.any_eq_true.mpr ⟨other, hold, hother⟩)
    rw [hworked.index]
    rcases workTurn_cases config event.2 system.index system.aliases worker with
      ⟨hash, derived, _, hturn⟩ | ⟨_, _, _, _, hnow⟩
    · rw [AdmitWorker.committing, hturn] at hother
      rcases (commitTurn_cases config event.2 system.index system.aliases worker hash derived).2.2.1 with hend | hend
      · rw [hend] at hother
        exact absurd hother Bool.false_ne_true
      · rw [hend] at hother
        exact absurd hother Bool.false_ne_true
    rw [AdmitWorker.committing] at hother
    split at hother
    · rename_i hash derived hphase
      rw [← of_decide_eq_true hother]
      exact hnow hash derived hphase
    · exact absurd hother Bool.false_ne_true
  · rw [hrefreshed.workers] at hmem
    exact hbefore (List.any_eq_true.mpr ⟨other, hmem, hother⟩)

theorem LanSystem.committed_eq_some (h : system.committed config event = some (hash, entry)) :
    ∃ position worker derived, event.1 = .work position ∧ system.workers[position]? = some worker ∧
      worker.phase = .committing hash derived ∧ entry = ⟨worker.key, worker.path, derived⟩ ∧
      (system.step config event).index = system.index ∧ (system.step config event).refresh = system.refresh ∧
      (system.step config event).aliases.paths = system.aliases.paths.insert hash entry := by
  obtain ⟨action, world⟩ := event
  cases action with
  | work position =>
    obtain ⟨worker, hworker, hcommit⟩ := Option.bind_eq_some_iff.mp h
    have hworked := worked_step config hworker world
    rcases workTurn_cases config world system.index system.aliases worker with
      ⟨written, derived, hphase, hturn⟩ | ⟨_, hnone, _⟩
    · obtain ⟨hindex, _, _, hsaved⟩ := commitTurn_cases config world system.index system.aliases worker written derived
      rw [hturn] at hcommit
      rcases hsaved with ⟨hnone, _⟩ | ⟨hnow, hpaths⟩
      · rw [hnone] at hcommit
        exact absurd hcommit.symm (Option.some_ne_none _)
      rw [hnow] at hcommit
      obtain ⟨rfl, rfl⟩ := Prod.mk.inj (Option.some.inj hcommit)
      refine ⟨position, worker, derived, rfl, hworker, hphase, rfl, ?_, hworked.refresh, ?_⟩
      · rw [hworked.index, hturn, hindex]
      · rw [hworked.aliases, hturn, hpaths]
    · rw [hnone] at hcommit
      exact absurd hcommit.symm (Option.some_ne_none _)
  | _ => exact absurd h.symm (Option.some_ne_none _)

theorem LanSystem.Verified.holds_step (h : system.Verified entry.key) (hapart : system.apart entry.key = true)
    (hcommit : system.committed config event = some (hash, entry)) :
    (system.step config event).Holds hash entry := by
  obtain ⟨hretired, _⟩ := apart_iff.mp hapart
  obtain ⟨position, worker, derived, _, hworker, hphase, rfl, hindex, hrefresh, hpaths⟩ := committed_eq_some hcommit
  have hcommitting := committing_of_mem (List.mem_of_getElem? hworker) hphase
  refine ⟨?_, ?_, ?_⟩
  · rw [hpaths, AList.lookup_insert]
  · rw [hindex]
    exact h hcommitting
  · rw [hrefresh]
    refine Bool.eq_false_iff.mpr fun hretiring => ?_
    rw [hretired hretiring] at hcommitting
    exact absurd hcommitting Bool.false_ne_true

theorem LanSystem.Holds.step (h : system.Holds hash entry) (hapart : system.apart entry.key = true)
    (hlive : event.2.pathExists entry.path = true)
    (hother : (system.committed config event).map Prod.fst ≠ some hash) :
    (system.step config event).Holds hash entry := by
  obtain ⟨_, hdropped⟩ := apart_iff.mp hapart
  have hregistered : (system.step config event).index.registered entry.key = true :=
    registered_step h.registered (hdropped (.inr (listed_of_lookup h.kept))) h.unretired
  rcases system.step_cases config event with hquiet | ⟨position, worker, haction, hworker, hworked⟩ | hrefreshed
  · refine ⟨by rw [hquiet.aliases]; exact h.kept, hregistered, Bool.eq_false_iff.mpr fun hretiring => ?_⟩
    exact absurd (hquiet.refresh entry.key hretiring) (by rw [h.unretired]; exact Bool.false_ne_true)
  · refine ⟨?_, hregistered, by rw [hworked.refresh]; exact h.unretired⟩
    rw [hworked.aliases]
    rcases workTurn_cases config event.2 system.index system.aliases worker with
      ⟨written, derived, _, hturn⟩ | ⟨hsame, _⟩
    · have hcommit : system.committed config event = (workTurn config event.2 system.index system.aliases worker).commit := by
        rw [LanSystem.committed, haction]
        dsimp only
        rw [hworker]
        rfl
      rw [hturn] at hcommit ⊢
      rcases (commitTurn_cases config event.2 system.index system.aliases worker written derived).2.2.2 with
        ⟨_, hpaths⟩ | ⟨hnow, hpaths⟩
      · rw [hpaths]
        exact h.kept
      rw [hcommit, hnow] at hother
      rw [hpaths, AList.lookup_insert_ne (fun heq => hother (congrArg some heq.symm))]
      exact h.kept
    · rw [hsame]
      exact h.kept
  · refine ⟨?_, hregistered, ?_⟩
    · rw [hrefreshed.aliases]
      rcases (does_refreshTurn config event.2 system.index system.aliases system.refresh).kept with
        hsame | ⟨keep, hturn, hgone⟩
      · rw [hsame]
        exact h.kept
      have hkeep : keep hash entry = true := by
        refine Bool.eq_true_of_not_eq_false fun hdrop => ?_
        rcases hgone hash entry hdrop with hretiring | hvanished
        · rw [h.unretired] at hretiring
          exact absurd hretiring Bool.false_ne_true
        · rw [hlive] at hvanished
          exact absurd hvanished.symm Bool.false_ne_true
      rw [hturn]
      rcases replacePaths_cases config system.aliases (retain keep system.aliases.paths) event.2.aliasSave with
        ⟨hpaths, _⟩ | ⟨hsaved, _⟩
      · rw [hpaths]
        exact h.kept
      · rw [hsaved, lookup_retain, h.kept, Option.filter_some, if_pos hkeep]
    · rw [hrefreshed.refresh]
      refine Bool.eq_false_iff.mpr fun hretiring => ?_
      rcases (does_refreshTurn config event.2 system.index system.aliases system.refresh).retiring _ hretiring with hbefore | hgone
      · rw [h.unretired] at hbefore
        exact absurd hbefore Bool.false_ne_true
      · rw [hgone hash entry h.kept rfl] at hlive
        exact absurd hlive Bool.false_ne_true

end Invariants

section Runs

variable {index : AvailabilityIndex} {aliases : LanAliases} {events : List (LanAction × LanWorld)}

theorem LanSystem.within_run (h : aliases.paths.entries.length ≤ config.limit) :
    (run config index aliases events).aliases.paths.entries.length ≤ config.limit := by
  have hinv : ∀ (system : LanSystem) (event : LanAction × LanWorld),
      system.aliases.paths.entries.length ≤ config.limit → True →
        (system.step config event).aliases.paths.entries.length ≤ config.limit := fun _ _ hwithin _ => within_step hwithin
  exact Run.foldl_of_always hinv h (Run.always_of_forall (fun _ _ _ => trivial) (start index aliases))

theorem LanSystem.reloads_run (h : SoundPaths config aliases.paths) (hreloads : Reloads config aliases)
    (hsynced : ∀ event ∈ events, event.2.aliasSave ≠ .unsynced) :
    Reloads config (run config index aliases events).aliases := by
  have hinv : ∀ (system : LanSystem) (event : LanAction × LanWorld),
      system.Sound config ∧ Reloads config system.aliases → event.2.aliasSave ≠ .unsynced →
        (system.step config event).Sound config ∧ Reloads config (system.step config event).aliases :=
    fun _ _ hboth hsave => ⟨hboth.1.step, hboth.1.reloads_step hboth.2 hsave⟩
  have hstart : (start index aliases).Sound config := ⟨h, fun _ hmem => absurd hmem List.not_mem_nil⟩
  exact (Run.foldl_of_always hinv ⟨hstart, hreloads⟩
    (Run.always_of_forall (fun event hmem _ => hsynced event hmem) (start index aliases))).2

theorem LanSystem.verified_run {key : NarHashKey}
    (hapart : Run.Always (step config) (fun system _ => system.apart key = true) (start index aliases) events) :
    (run config index aliases events).Verified key := by
  have hinv : ∀ (system : LanSystem) (event : LanAction × LanWorld),
      system.Verified key → system.apart key = true → (system.step config event).Verified key :=
    fun _ _ hverified hnow => hverified.step hnow
  have hstart : (start index aliases).Verified key := fun hcommitting => absurd hcommitting Bool.false_ne_true
  exact Run.foldl_of_always hinv hstart hapart

/-- Where the key is left apart, a committed alias outlives every later step while its path exists. -/
theorem LanSystem.holds_run {before after : List (LanAction × LanWorld)} {event : LanAction × LanWorld}
    {hash : List Char} {entry : VerifiedAlias}
    (hcommit : (run config index aliases before).committed config event = some (hash, entry))
    (hapart : Run.Always (step config) (fun system _ => system.apart entry.key = true) (start index aliases)
      (before ++ event :: after))
    (hlive : Run.Always (step config) (fun system event => event.2.pathExists entry.path = true ∧
      (system.committed config event).map Prod.fst ≠ some hash) (run config index aliases (before ++ [event])) after) :
    (run config index aliases (before ++ event :: after)).Holds hash entry := by
  obtain ⟨hbefore, hnow, hafter⟩ := Run.always_append.mp hapart
  have hrun : run config index aliases (before ++ [event]) = (run config index aliases before).step config event := by
    rw [run, List.foldl_append]
    rfl
  have hfirst : (run config index aliases (before ++ [event])).Holds hash entry := by
    rw [hrun]
    exact (verified_run hbefore).holds_step hnow hcommit
  have hinv : ∀ (system : LanSystem) (event : LanAction × LanWorld), system.Holds hash entry →
      system.apart entry.key = true ∧ event.2.pathExists entry.path = true ∧
        (system.committed config event).map Prod.fst ≠ some hash → (system.step config event).Holds hash entry :=
    fun _ _ hholds hboth => hholds.step hboth.1 hboth.2.1 hboth.2.2
  have hboth := Run.always_and.mpr ⟨hafter, hrun ▸ hlive⟩
  rw [run, List.foldl_append, List.foldl_cons]
  exact Run.foldl_of_always hinv (hrun ▸ hfirst) hboth

/-- The registry is within its limit and is what its file gives back unless a save failed after its rename, and a committed alias stays in it while its path exists and the key is left apart. -/
theorem alias_retained (index : AvailabilityIndex) (file : Option AliasFile) (legacy : List PersistedRegistration)
    (ended : SaveEnd) (hopened : openAliases config file legacy ended = .ok aliases)
    (events : List (LanAction × LanWorld)) :
    (LanSystem.run config index aliases events).aliases.paths.entries.length ≤ config.limit ∧
    ((∀ registration ∈ legacy, registration.derived.all fun derived => derived.narSizeUncompressedNar != 0) →
      (∀ event ∈ events, event.2.aliasSave ≠ .unsynced) →
      ∀ (older : List PersistedRegistration) (ending : SaveEnd), ∃ reloaded,
        openAliases config (LanSystem.run config index aliases events).aliases.file older ending = .ok reloaded ∧
        ∀ hash, reloaded.paths.lookup hash = (LanSystem.run config index aliases events).aliases.paths.lookup hash) ∧
    ∀ before event after hash entry, events = before ++ event :: after →
      (LanSystem.run config index aliases before).committed config event = some (hash, entry) →
      Run.Always (LanSystem.step config) (fun system _ => system.apart entry.key = true)
        (LanSystem.start index aliases) events →
      Run.Always (LanSystem.step config) (fun system event => event.2.pathExists entry.path = true ∧
          (system.committed config event).map Prod.fst ≠ some hash)
        (LanSystem.run config index aliases (before ++ [event])) after →
      (LanSystem.run config index aliases events).aliases.paths.lookup hash = some entry ∧
        (LanSystem.run config index aliases events).index.registered entry.key = true := by
  obtain ⟨hwithin, hloaded⟩ := openAliases_eq_ok hopened
  refine ⟨LanSystem.within_run hwithin, fun hlegacy hsynced older ending => ?_, ?_⟩
  · obtain ⟨hsound, hreloads⟩ := hloaded hlegacy
    exact (LanSystem.reloads_run hsound hreloads hsynced).openAliases older ending
  · intro before event after hash entry hevents hcommit hapart hlive
    subst hevents
    have hholds := LanSystem.holds_run hcommit hapart hlive
    exact ⟨hholds.kept, hholds.registered⟩

end Runs

end System

attribute [local instance] flatSha256 flatBlake3 fileDumper

@[reducible] def flatJson : AliasJson := ⟨fun _ => 0⟩

attribute [local instance] flatJson

def oldHash : List Char := List.replicate 32 '0'

def newHash : List Char := List.replicate 32 '1'

def outputPath (hash : List Char) : StorePath := ⟨["nix", "store", String.ofList (hash ++ "-a".toList)]⟩

def pairedConfig : LanConfig where
  limit := 2
  maxNarBytes := 100
  excluded := []

def oldRegistration : PersistedRegistration := ⟨⟨flatBytes 32⟩, outputPath oldHash, some ⟨⟨flatBytes 32⟩, 2⟩⟩

def migrated : LanAliases where
  paths := (∅ : Table (List Char) VerifiedAlias).insert oldHash ⟨⟨flatBytes 32⟩, outputPath oldHash, ⟨⟨flatBytes 32⟩, 2⟩⟩
  file := some (aliasFile ((∅ : Table (List Char) VerifiedAlias).insert oldHash
    ⟨⟨flatBytes 32⟩, outputPath oldHash, ⟨⟨flatBytes 32⟩, 2⟩⟩))

def newAlias : VerifiedAlias := ⟨⟨flatBytes 32⟩, outputPath newHash, ⟨⟨flatBytes 32⟩, 2⟩⟩

def kindWorld : LanWorld := { calmWorld with aliasSave := .done, workAdmitted := true, withdrawn := true }

def newOnly : LanWorld := { kindWorld with pathExists := fun path => decide (path = outputPath newHash) }

def admission (world : LanWorld) : List (LanAction × LanWorld) :=
  [(.request newHash, world), (.lock 0, world), (.inform 0 [outputPath newHash] (some ⟨⟨flatBytes 32⟩, 2⟩), world),
    (.work 0, world), (.work 0, world)]

def roundBegins (world : LanWorld) : List (LanAction × LanWorld) :=
  [(.round (.id NarHashKey), world), (.refreshLock, world), (.refreshPermit, world)]

/-- The requester leaves, and the refresh finds no live alias of the key and takes it out of the index. -/
def raceBefore : List (LanAction × LanWorld) :=
  admission newOnly ++ [(.leave 0, newOnly)] ++ roundBegins newOnly ++ [(.refresh, newOnly), (.refresh, newOnly)]

/-- Between the withdrawal's request and its answer the worker commits, and then the key's aliases are removed. -/
def raceAfter : List (LanAction × LanWorld) := [(.refresh, newOnly), (.refresh, newOnly)]

theorem committed_alias_lost :
    openAliases pairedConfig none [oldRegistration] .done = .ok migrated ∧
    (LanSystem.run pairedConfig ⟨⟨flatBytes 32⟩, [], ∅, {}⟩ migrated raceBefore).committed pairedConfig
      (.work 0, newOnly) = some (newHash, newAlias) ∧
    (∀ event ∈ raceBefore ++ (.work 0, newOnly) :: raceAfter, event.2.pathExists newAlias.path = true) ∧
    (LanSystem.run pairedConfig ⟨⟨flatBytes 32⟩, [], ∅, {}⟩ migrated
      (raceBefore ++ (.work 0, newOnly) :: raceAfter)).aliases.paths.lookup newHash = none ∧
    (LanSystem.run pairedConfig ⟨⟨flatBytes 32⟩, [], ∅, {}⟩ migrated
      (raceBefore ++ [(.work 0, newOnly)])).index.registered newAlias.key = false := by
  refine ⟨?_, ?_, ?_, ?_, ?_⟩
  · rfl
  · decide +kernel
  · decide +kernel
  · decide +kernel
  · decide +kernel

/-- With both outputs there, the refresh after the commit leaves the alias in place. -/
def calmAfter : List (LanAction × LanWorld) :=
  [(.leave 0, kindWorld)] ++ roundBegins kindWorld ++ [(.refresh, kindWorld), (.refresh, kindWorld), (.work 0, kindWorld)]

theorem alias_retained_refreshed :
    (LanSystem.run pairedConfig ⟨⟨flatBytes 32⟩, [], ∅, {}⟩ migrated
      (admission kindWorld ++ (.work 0, kindWorld) :: calmAfter)).aliases.paths.lookup newHash = some newAlias ∧
    (LanSystem.run pairedConfig ⟨⟨flatBytes 32⟩, [], ∅, {}⟩ migrated
      (admission kindWorld ++ (.work 0, kindWorld) :: calmAfter)).index.registered newAlias.key = true :=
  (alias_retained ⟨⟨flatBytes 32⟩, [], ∅, {}⟩ none [oldRegistration] .done rfl _).2.2
    (admission kindWorld) (.work 0, kindWorld) calmAfter newHash newAlias rfl (by decide +kernel) (by decide +kernel)
    (by decide +kernel)

end NixP2p.Lan
