import NixP2p.Lan.Aliases

/-!
# Reloading the registry of aliases

Every alias of the registry stands under the store hash of its own path, has a NarSize above zero and a key that no other supply owns. Such an alias is read back from the state file as it was written, and two aliases have two paths, so opening the file after a save gives the registry that was saved.
-/

namespace NixP2p.Lan

open HashTable Text

variable {config : LanConfig} {hash : List Char} {entry : VerifiedAlias} {paths next : Table (List Char) VerifiedAlias}

structure VerifiedAlias.Sound (config : LanConfig) (hash : List Char) (entry : VerifiedAlias) : Prop where
  named : pathHash entry.path = some hash
  sized : entry.derived.narSizeUncompressedNar ≠ 0
  own : config.excluded.contains entry.key = false

def SoundPaths (config : LanConfig) (paths : Table (List Char) VerifiedAlias) : Prop :=
  ∀ hash entry, paths.lookup hash = some entry → entry.Sound config hash

theorem SoundPaths.insert (h : SoundPaths config paths) (hentry : entry.Sound config hash) :
    SoundPaths config (paths.insert hash entry) := by
  intro other found hlookup
  rw [lookup_insert] at hlookup
  by_cases hother : other = hash
  · rw [if_pos hother] at hlookup
    obtain rfl := Option.some.inj hlookup
    rwa [hother]
  · rw [if_neg hother] at hlookup
    exact h other found hlookup

theorem SoundPaths.retain (h : SoundPaths config paths) (keep : List Char → VerifiedAlias → Bool) :
    SoundPaths config (retain keep paths) := by
  intro other found hlookup
  rw [lookup_retain, Option.filter_eq_some_iff] at hlookup
  exact h other found hlookup.1

theorem parseDigest_toString (digest : Blake3Digest) : parseDigest (toString digest).toList = some digest := by
  have hchars : (toString digest).toList = blake3Prefix ++ Hex.encode digest.bytes.1 := by
    change ("blake3:" ++ String.ofList (Hex.encode digest.bytes.1)).toList = _
    rw [String.toList_append]
    exact congrArg (blake3Prefix ++ ·) String.toList_ofList
  rw [hchars, parseDigest, List.dropPrefix?_append_of_beq _ (BEq.refl blake3Prefix), Option.bind_eq_bind, Option.bind_some, Hex.decode_encode, Option.bind_eq_bind,
    Option.bind_some, dif_pos digest.bytes.2]

theorem parseAlias_fields (h : entry.Sound config hash) : parseAlias entry.path entry.fields = .ok (hash, entry) := by
  simp only [parseAlias, VerifiedAlias.fields, NarHashKey.fromStr_display, parseDigest_toString, if_neg h.sized,
    h.named]

theorem named_of_parseAlias {path : StorePath} {fields : AliasFields}
    (h : parseAlias path fields = .ok (hash, entry)) :
    pathHash entry.path = some hash ∧ entry.derived.narSizeUncompressedNar ≠ 0 := by
  unfold parseAlias at h
  split at h
  · cases h
  split at h
  · cases h
  split_ifs at h with hsize
  split at h
  · cases h
  rename_i hnamed
  cases h
  exact ⟨hnamed, hsize⟩

theorem SoundPaths.nodup_path (h : SoundPaths config paths) :
    ((toEntries paths).map fun item => (item.2.path, item.2.fields)).map Prod.fst |>.Nodup := by
  rw [List.map_map]
  apply List.Nodup.of_map pathHash
  rw [List.map_map]
  have hsame : (toEntries paths).map (pathHash ∘ (Prod.fst ∘ fun item => (item.2.path, item.2.fields))) =
      ((toEntries paths).map Prod.fst).map some := by
    rw [List.map_map]
    apply List.map_congr_left
    intro item hitem
    exact (h item.1 item.2 (mem_toEntries.mp hitem)).named
  rw [hsame]
  exact (nodup_toEntries paths).map (Option.some_injective _)

theorem SoundPaths.lookup_aliasFile (h : SoundPaths config paths) (path : StorePath) (fields : AliasFields) :
    (aliasFile paths).lookup path = some fields ↔
      ∃ hash entry, paths.lookup hash = some entry ∧ entry.path = path ∧ entry.fields = fields := by
  rw [aliasFile, lookup_ofEntries h.nodup_path, List.mem_map]
  constructor
  · intro hmem
    obtain ⟨⟨hash, entry⟩, hitem, heq⟩ := hmem
    obtain ⟨hpath, hfields⟩ := Prod.mk.inj heq
    exact ⟨hash, entry, mem_toEntries.mp hitem, hpath, hfields⟩
  · intro hfound
    obtain ⟨hash, entry, hlookup, hpath, hfields⟩ := hfound
    exact ⟨(hash, entry), mem_toEntries.mpr hlookup, Prod.ext hpath hfields⟩

/-- Reading entries that a sound registry wrote gives the part of the registry that they spell. -/
theorem readAliases_written (h : SoundPaths config next) :
    ∀ (items : List (StorePath × AliasFields)) (paths : Table (List Char) VerifiedAlias),
      (items.map Prod.fst).Nodup →
      (∀ item ∈ items, ∃ hash entry, next.lookup hash = some entry ∧ entry.path = item.1 ∧ entry.fields = item.2) →
      (∀ hash entry, paths.lookup hash = some entry →
        next.lookup hash = some entry ∧ entry.path ∉ items.map Prod.fst) →
      ∃ loaded, readAliases items paths = .ok loaded ∧
        ∀ hash entry, loaded.lookup hash = some entry ↔
          paths.lookup hash = some entry ∨ next.lookup hash = some entry ∧ entry.path ∈ items.map Prod.fst := by
  intro items
  induction items with
  | nil => exact fun paths _ _ _ => ⟨paths, rfl, by simp⟩
  | cons item items ih =>
    intro paths hnodup hitems hpaths
    obtain ⟨path, fields⟩ := item
    obtain ⟨hash, entry, hlookup, rfl, rfl⟩ := hitems _ List.mem_cons_self
    obtain ⟨hfresh, hrest⟩ := List.nodup_cons.mp hnodup
    -- An alias met before has another path, and so another hash.
    have habsent : paths.lookup hash = none := by
      cases hmet : paths.lookup hash with
      | none => rfl
      | some met =>
        obtain ⟨hnext, hother⟩ := hpaths hash met hmet
        obtain rfl := Option.some.inj (hlookup.symm.trans hnext)
        exact absurd List.mem_cons_self hother
    obtain ⟨loaded, hloaded, hmem⟩ := ih (paths.insert hash entry) hrest
      (fun item hitem => hitems item (List.mem_cons_of_mem _ hitem)) (by
        intro other found hfound
        rw [lookup_insert] at hfound
        by_cases hsame : other = hash
        · rw [if_pos hsame] at hfound
          obtain rfl := Option.some.inj hfound
          exact ⟨hsame ▸ hlookup, hfresh⟩
        rw [if_neg hsame] at hfound
        obtain ⟨hnext, hother⟩ := hpaths other found hfound
        exact ⟨hnext, fun hin => hother (List.mem_cons_of_mem _ hin)⟩)
    refine ⟨loaded, ?_, fun other found => ?_⟩
    · rw [readAliases, parseAlias_fields (h hash entry hlookup)]
      dsimp only
      rw [habsent]
      exact hloaded
    · rw [hmem, lookup_insert, List.map_cons, List.mem_cons]
      by_cases hsame : other = hash
      · subst hsame
        rw [if_pos rfl, habsent, hlookup]
        constructor
        · intro hfound
          rcases hfound with hfound | ⟨hfound, _⟩
          · exact .inr ⟨hfound, .inl (Option.some.inj hfound ▸ rfl)⟩
          · exact .inr ⟨hfound, .inl (Option.some.inj hfound ▸ rfl)⟩
        · intro hfound
          rcases hfound with hfound | ⟨hfound, _⟩
          · exact absurd hfound.symm (Option.some_ne_none _)
          · exact .inl hfound
      · rw [if_neg hsame]
        have hpath : next.lookup other = some found → found.path ≠ entry.path := by
          intro hfound heq
          have hname := (h other found hfound).named
          rw [heq, (h hash entry hlookup).named] at hname
          exact hsame (Option.some.inj hname).symm
        constructor
        · intro hfound
          rcases hfound with hfound | ⟨hfound, hin⟩
          · exact .inl hfound
          · exact .inr ⟨hfound, .inr hin⟩
        · intro hfound
          rcases hfound with hfound | ⟨hfound, hin | hin⟩
          · exact .inl hfound
          · exact absurd hin (hpath hfound)
          · exact .inr ⟨hfound, hin⟩

/-- What is loaded, from a file or from a snapshot, before the keys of other supplies are taken out. -/
def NamedPaths (paths : Table (List Char) VerifiedAlias) : Prop :=
  ∀ hash entry, paths.lookup hash = some entry →
    pathHash entry.path = some hash ∧ entry.derived.narSizeUncompressedNar ≠ 0

theorem namedPaths_empty : NamedPaths ∅ := by
  intro hash entry hlookup
  rw [AList.lookup_empty] at hlookup
  exact absurd hlookup.symm (Option.some_ne_none _)

theorem NamedPaths.insert (h : NamedPaths paths)
    (hentry : pathHash entry.path = some hash ∧ entry.derived.narSizeUncompressedNar ≠ 0) :
    NamedPaths (paths.insert hash entry) := by
  intro other found hfound
  rw [lookup_insert] at hfound
  by_cases hsame : other = hash
  · rw [if_pos hsame] at hfound
    obtain rfl := Option.some.inj hfound
    exact hsame ▸ hentry
  · rw [if_neg hsame] at hfound
    exact h other found hfound

theorem NamedPaths.soundPaths (h : NamedPaths paths) : SoundPaths config (retainOwn config paths) := by
  intro hash entry hlookup
  rw [retainOwn, lookup_retain, Option.filter_eq_some_iff] at hlookup
  obtain ⟨hnamed, hsized⟩ := h hash entry hlookup.1
  exact ⟨hnamed, hsized, by simpa using hlookup.2⟩

theorem readAliases_eq_ok :
    ∀ (items : List (StorePath × AliasFields)) {paths loaded : Table (List Char) VerifiedAlias},
      NamedPaths paths → readAliases items paths = .ok loaded →
      NamedPaths loaded ∧ loaded.entries.length ≤ paths.entries.length + items.length := by
  intro items
  induction items with
  | nil =>
    intro paths loaded hpaths hread
    cases hread
    exact ⟨hpaths, le_rfl⟩
  | cons item items ih =>
    intro paths loaded hpaths hread
    simp only [readAliases] at hread
    split at hread
    · cases hread
    rename_i hash entry hparse
    split_ifs at hread
    obtain ⟨hnamed, hsize⟩ := ih (hpaths.insert (named_of_parseAlias hparse)) hread
    have hinsert := size_insert paths hash entry
    have herase := size_erase_le paths hash
    rw [List.length_cons]
    exact ⟨hnamed, by omega⟩

theorem namedPaths_migrateAliases :
    ∀ (legacy : List PersistedRegistration) {paths loaded : Table (List Char) VerifiedAlias},
      (∀ registration ∈ legacy, registration.derived.all fun derived => derived.narSizeUncompressedNar != 0) →
      NamedPaths paths → migrateAliases legacy paths = .ok loaded → NamedPaths loaded := by
  intro legacy
  induction legacy with
  | nil =>
    intro paths loaded _ hpaths hmigrate
    cases hmigrate
    exact hpaths
  | cons registration legacy ih =>
    intro paths loaded hlegacy hpaths hmigrate
    have hrest := fun registration hmem => hlegacy registration (List.mem_cons_of_mem _ hmem)
    have hfirst := hlegacy registration List.mem_cons_self
    simp only [migrateAliases] at hmigrate
    split at hmigrate
    · exact ih hrest hpaths hmigrate
    rename_i derived hderived
    split at hmigrate
    · cases hmigrate
    rename_i hash hnamed
    rw [hderived] at hfirst
    exact ih hrest (hpaths.insert ⟨hnamed, by simpa using hfirst⟩) hmigrate

section Opening

variable [AliasJson] {aliases : LanAliases} {ended : SaveEnd}

theorem readFile_eq_ok {file : AliasFile} (h : readFile config file = .ok paths) :
    file.entries.length ≤ config.limit ∧ readAliases (toEntries file) ∅ = .ok paths := by
  unfold readFile at h
  split_ifs at h with hbytes hlimit
  exact ⟨not_lt.mp hlimit, h⟩

/-- Opening the file that the registry is over gives the registry. -/
def Reloads (config : LanConfig) (aliases : LanAliases) : Prop :=
  ∃ file loaded, aliases.file = some file ∧ readFile config file = .ok loaded ∧
    ∀ hash, (retainOwn config loaded).lookup hash = aliases.paths.lookup hash

theorem Reloads.openAliases (h : Reloads config aliases) (legacy : List PersistedRegistration) (ended : SaveEnd) :
    ∃ loaded, Lan.openAliases config aliases.file legacy ended = .ok loaded ∧
      ∀ hash, loaded.paths.lookup hash = aliases.paths.lookup hash := by
  obtain ⟨file, loaded, hfile, hread, hlookup⟩ := h
  refine ⟨⟨retainOwn config loaded, some file⟩, ?_, hlookup⟩
  rw [hfile]
  simp only [Lan.openAliases, hread]
  rfl

theorem SoundPaths.reloads_saved (h : SoundPaths config next) (hlimit : next.entries.length ≤ config.limit)
    (hbytes : AliasJson.length (aliasFile next) ≤ maxLanStateBytes) :
    Reloads config ⟨next, some (aliasFile next)⟩ := by
  have hsize : (aliasFile next).entries.length ≤ config.limit := by
    refine le_trans (size_ofEntries_le _) (le_trans (le_of_eq ?_) hlimit)
    rw [List.length_map, toEntries, List.length_map]
  obtain ⟨loaded, hloaded, hmem⟩ := readAliases_written h (toEntries (aliasFile next)) ∅ (nodup_toEntries _)
    (fun item hitem => (h.lookup_aliasFile item.1 item.2).mp (mem_toEntries.mp hitem))
    (fun hash entry hlookup => absurd hlookup.symm (by rw [AList.lookup_empty]; exact Option.some_ne_none _))
  refine ⟨_, loaded, rfl, ?_, fun hash => ?_⟩
  · unfold readFile
    rw [if_neg (not_lt.mpr hbytes), if_neg (not_lt.mpr hsize)]
    exact hloaded
  · apply Option.ext
    intro entry
    rw [retainOwn, lookup_retain, Option.filter_eq_some_iff, hmem, AList.lookup_empty]
    constructor
    · intro hfound
      rcases hfound.1 with hnone | ⟨hlookup, _⟩
      · exact absurd hnone.symm (Option.some_ne_none _)
      · exact hlookup
    · intro hlookup
      have hsound := h hash entry hlookup
      have hwritten := (h.lookup_aliasFile entry.path entry.fields).mpr ⟨hash, entry, hlookup, rfl, rfl⟩
      refine ⟨.inr ⟨hlookup, List.mem_map.mpr ⟨_, mem_toEntries.mpr hwritten, rfl⟩⟩, ?_⟩
      rw [hsound.own]
      rfl

theorem replacePaths_cases (config : LanConfig) (aliases : LanAliases) (next : Table (List Char) VerifiedAlias)
    (ended : SaveEnd) :
    (replacePaths config aliases next ended).aliases.paths = aliases.paths ∧
        (replacePaths config aliases next ended).saved ≠ .ok () ∧
        (ended ≠ .unsynced → (replacePaths config aliases next ended).aliases = aliases) ∨
      replacePaths config aliases next ended = ⟨⟨next, some (aliasFile next)⟩, .ok ()⟩ ∧
        next.entries.length ≤ config.limit ∧ AliasJson.length (aliasFile next) ≤ maxLanStateBytes := by
  unfold replacePaths
  split_ifs with hlimit hbytes
  · exact .inl ⟨rfl, nofun, fun _ => rfl⟩
  · exact .inl ⟨rfl, nofun, fun _ => rfl⟩
  · cases ended with
    | refused => exact .inl ⟨rfl, nofun, fun _ => rfl⟩
    | unsynced => exact .inl ⟨rfl, nofun, fun h => absurd rfl h⟩
    | done => exact .inr ⟨rfl, not_lt.mp hlimit, not_lt.mp hbytes⟩

theorem within_replacePaths (h : aliases.paths.entries.length ≤ config.limit) :
    (replacePaths config aliases next ended).aliases.paths.entries.length ≤ config.limit := by
  rcases replacePaths_cases config aliases next ended with ⟨hpaths, _⟩ | ⟨hturn, hlimit, _⟩
  · rwa [hpaths]
  · rwa [hturn]

theorem SoundPaths.replacePaths (h : SoundPaths config aliases.paths) (hnext : SoundPaths config next)
    (ended : SaveEnd) : SoundPaths config (replacePaths config aliases next ended).aliases.paths := by
  rcases replacePaths_cases config aliases next ended with ⟨hpaths, _⟩ | ⟨hturn, _⟩
  · rwa [hpaths]
  · rwa [hturn]

theorem Reloads.replacePaths (h : Reloads config aliases) (hnext : SoundPaths config next)
    (hended : ended ≠ .unsynced) : Reloads config (replacePaths config aliases next ended).aliases := by
  rcases replacePaths_cases config aliases next ended with ⟨_, _, hsame⟩ | ⟨hturn, hlimit, hbytes⟩
  · rw [hsame hended]
    exact h
  · rw [hturn]
    exact hnext.reloads_saved hlimit hbytes

/-- The registry as opened is within its limit, sound if no size in the snapshot is zero, and over a file that gives it again. -/
theorem openAliases_eq_ok {file : Option AliasFile} {legacy : List PersistedRegistration}
    (h : openAliases config file legacy ended = .ok aliases) :
    aliases.paths.entries.length ≤ config.limit ∧
      ((∀ registration ∈ legacy, registration.derived.all fun derived => derived.narSizeUncompressedNar != 0) →
        SoundPaths config aliases.paths ∧ Reloads config aliases) := by
  cases file with
  | some file =>
    cases hread : readFile config file with
    | error error =>
      simp only [openAliases, hread] at h
      cases h
    | ok paths =>
      simp only [openAliases, hread] at h
      cases h
      obtain ⟨hlimit, hitems⟩ := readFile_eq_ok hread
      obtain ⟨hnamed, hsize⟩ := readAliases_eq_ok _ namedPaths_empty hitems
      rw [toEntries, List.length_map] at hsize
      refine ⟨?_, fun _ => ⟨hnamed.soundPaths, file, paths, rfl, hread, fun _ => rfl⟩⟩
      · refine le_trans (List.length_filter_le _ _) (le_trans hsize ?_)
        rw [AList.empty_entries, List.length_nil, Nat.zero_add]
        exact hlimit
  | none =>
    cases hmigrate : migrateAliases legacy ∅ with
    | error error =>
      simp only [openAliases, hmigrate] at h
      cases h
    | ok paths =>
      simp only [openAliases, hmigrate] at h
      rcases replacePaths_cases config {} (retainOwn config paths) ended with ⟨_, herror, _⟩ | ⟨hturn, hlimit, hbytes⟩
      · cases hsaved : (Lan.replacePaths config {} (retainOwn config paths) ended).saved with
        | error error =>
          rw [hsaved] at h
          cases h
        | ok _ => exact absurd hsaved herror
      rw [hturn] at h
      cases h
      refine ⟨hlimit, fun hlegacy => ?_⟩
      have hsound : SoundPaths config (retainOwn config paths) :=
        (namedPaths_migrateAliases legacy hlegacy namedPaths_empty hmigrate).soundPaths
      exact ⟨hsound, hsound.reloads_saved hlimit hbytes⟩

end Opening

end NixP2p.Lan
