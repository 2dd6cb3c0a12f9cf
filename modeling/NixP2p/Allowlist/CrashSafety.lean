import Mathlib.Data.List.Infix
import NixP2p.Allowlist.Appending
import NixP2p.Records.Canonical

/-!
# The allowlist after crashes, and against tampering

Whatever appends were cut short, a load yields the records of those that wrote all their bytes and nothing else. A file from elsewhere is taken only if each of its complete lines is blank or carries the MAC of the record that it names. The MAC is over the record and not over its spelling.
-/

namespace NixP2p.Allowlist

open Wire HashTable Text

def stripLine (segment : List Char) : List Char := segment.dropLast.rdropWhile (· == '\r')

def recordLines (text : List Char) : List (List Char) :=
  (((splitInclusive (· == '\n') text).filter (·.getLast? = some '\n')).map stripLine).filter (· ≠ [])

theorem mem_of_lookup_collectEntries {records : List PublicNar} {narHash : NarHashKey} {narSize : UInt64}
    (h : (collectEntries records).lookup narHash = some narSize) : (⟨narHash, narSize⟩ : PublicNar) ∈ records := by
  induction records using List.reverseRecOn with
  | nil => cases h
  | append_singleton records record ih =>
    rw [collectEntries, List.foldl_append] at h
    change ((collectEntries records).insert record.narHash record.narSize).lookup narHash = some narSize at h
    rw [lookup_insert] at h
    split at h
    · rename_i heq
      rw [heq, ← Option.some.inj h]
      exact List.mem_append_right _ List.mem_cons_self
    · exact List.mem_append_left _ (ih h)

section Mac

variable [Blake3Mac] {macKey : Bytes 32}

/-- The line names the record and carries its MAC. -/
def Carries (macKey : Bytes 32) (line : List Char) (record : PublicNar) : Prop :=
  ∃ hashText sizeText, line = hashText ++ ' ' :: (sizeText ++ ' ' :: recordMac macKey record) ∧
    NarHashKey.fromStr hashText = .ok record.narHash ∧ parseU64 sizeText = some record.narSize

variable {line : List Char} {record : PublicNar}

theorem carries_of_parseRecord (h : parseRecord macKey line = .ok record) : Carries macKey line record := by
  unfold parseRecord at h
  split at h
  · cases h
  rename_i hashText rest hfirst
  split at h
  · cases h
  rename_i sizeText mac hsecond
  split at h
  · cases h
  rename_i narHash hhash
  split at h
  · cases h
  rename_i narSize hsize
  split at h
  · rename_i hmac
    obtain rfl := Except.ok.inj h
    refine ⟨hashText, sizeText, ?_, hhash, hsize⟩
    rw [eq_of_splitOnce hfirst, eq_of_splitOnce hsecond, hmac]
  · cases h

variable {records : List PublicNar}

theorem forall₂_of_parseSegments {segments : List (List Char)} {out : List PublicNar}
    (hsegments : ∀ piece pieces, piece :: pieces <:+ segments → pieces ≠ [] → piece.getLast? = some '\n')
    (h : parseSegments macKey segments out = .ok records) :
    ∃ found, records = out ++ found ∧ List.Forall₂ (Carries macKey)
      (((segments.filter (·.getLast? = some '\n')).map stripLine).filter (· ≠ [])) found := by
  induction segments generalizing out with
  | nil =>
    obtain rfl := Except.ok.inj h
    exact ⟨[], (List.append_nil _).symm, .nil⟩
  | cons segment rest ih =>
    have hrest := fun {out} => @ih out fun piece pieces hsuffix =>
      hsegments piece pieces (hsuffix.trans (List.suffix_cons segment rest))
    rw [parseSegments] at h
    split at h
    · -- the torn line is the last
      rename_i htorn
      have hlast : rest = [] := by
        by_contra hne
        exact htorn (hsegments segment rest List.suffix_rfl hne)
      obtain rfl := Except.ok.inj h
      refine ⟨[], (List.append_nil _).symm, ?_⟩
      rw [hlast, List.filter_singleton, decide_eq_false htorn]
      exact .nil
    rename_i hcomplete
    rw [List.filter_cons, if_pos (decide_eq_true (not_not.mp hcomplete)), List.map_cons]
    dsimp only at h
    change (if stripLine segment = [] then _ else _) = _ at h
    by_cases hblank : stripLine segment = []
    · rw [if_pos hblank] at h
      rw [List.filter_cons, hblank, if_neg (by decide)]
      exact hrest h
    rw [if_neg hblank] at h
    rw [List.filter_cons, if_pos (decide_eq_true hblank)]
    split at h
    · cases h
    split at h
    · cases h
    rename_i record hrecord
    obtain ⟨found, rfl, hfound⟩ := hrest h
    refine ⟨record :: found, by rw [List.append_assoc]; rfl, .cons ?_ hfound⟩
    exact carries_of_parseRecord hrecord

theorem exists_carries {lines : List (List Char)} (h : List.Forall₂ (Carries macKey) lines records)
    (hline : line ∈ lines) : ∃ record, Carries macKey line record := by
  induction h with
  | nil => cases hline
  | cons hcarries _ ih =>
    obtain rfl | hline := List.mem_cons.mp hline
    · exact ⟨_, hcarries⟩
    · exact ih hline

theorem forall₂_of_load {bytes : List UInt8} (h : load macKey (some bytes) = .ok records) :
    ∃ text, fromUtf8 bytes = some text ∧ List.Forall₂ (Carries macKey) (recordLines text) records := by
  rw [load] at h
  split at h
  · cases h
  rename_i hbound
  rw [List.take_of_length_le (Nat.le_of_not_lt hbound), parseCommitted] at h
  split at h
  · cases h
  rename_i text htext
  have hpieces : ∀ piece pieces, piece :: pieces <:+ splitInclusive (· == '\n') text → pieces ≠ [] →
      piece.getLast? = some '\n' := by
    intro piece pieces hsuffix hne
    obtain ⟨terminator, hend, hlast⟩ := getLast?_of_splitInclusive hsuffix hne
    rw [hlast, beq_iff_eq.mp hend]
  obtain ⟨found, hrecords, hfound⟩ := forall₂_of_parseSegments hpieces h
  refine ⟨text, htext, ?_⟩
  rw [hrecords]
  exact hfound

def AllowlistSystem.committed (macKey : Bytes 32) (system : AllowlistSystem) : List PublicNar :=
  (system.attempts.filter (Attempt.whole macKey)).map (·.record)

theorem committed_concat (macKey : Bytes 32) (attempts : List Attempt) (attempt : Attempt) :
    ((attempts ++ [attempt]).filter (Attempt.whole macKey)).map (·.record) =
      (attempts.filter (Attempt.whole macKey)).map (·.record) ++
        if Attempt.whole macKey attempt then [attempt.record] else [] := by
  rw [List.filter_append, List.map_append, List.filter_singleton]
  cases Attempt.whole macKey attempt with
  | true => rfl
  | false => rfl

/-- The file holds what was committed, and the map knows no more than that. -/
structure CrashSafe (macKey : Bytes 32) (system : AllowlistSystem) : Prop where
  holds : Holds macKey system.file (system.committed macKey)
  entries : ∀ entries, system.entries = some entries → ∀ narHash narSize,
    entries.lookup narHash = some narSize → (⟨narHash, narSize⟩ : PublicNar) ∈ system.committed macKey

theorem whole_of_append_ok {file : Option (List UInt8)} {ended : AppendEnd}
    (h : (append macKey file record ended).result = .ok ()) : Attempt.whole macKey ⟨record, ended⟩ = true := by
  cases ended with
  | refused | broken => cases h
  | done => rfl

theorem CrashSafe.appended {system : AllowlistSystem} (hsafe : CrashSafe macKey system)
    (hbound : (system.file.getD []).length ≤ maxAllowlistFileBytes) (record : PublicNar) (ended : AppendEnd)
    {entries : Option AllowlistEntries} (hentries : ∀ map, entries = some map → ∀ narHash narSize,
      map.lookup narHash = some narSize → (⟨narHash, narSize⟩ : PublicNar) ∈
        system.committed macKey ++ if Attempt.whole macKey ⟨record, ended⟩ then [record] else []) :
    CrashSafe macKey ⟨(append macKey system.file record ended).file, entries,
      system.attempts ++ [⟨record, ended⟩]⟩ := by
  have hcommitted : AllowlistSystem.committed macKey ⟨(append macKey system.file record ended).file,
      entries, system.attempts ++ [⟨record, ended⟩]⟩ =
        system.committed macKey ++ if Attempt.whole macKey ⟨record, ended⟩ then [record] else [] :=
    committed_concat macKey system.attempts ⟨record, ended⟩
  constructor
  · rw [hcommitted]
    exact holds_append hsafe.holds hbound record ended
  · rw [hcommitted]
    exact hentries

variable [Ed25519] {trusted : TrustedNarKeys} {system : AllowlistSystem}

theorem CrashSafe.step (hsafe : CrashSafe macKey system)
    (hbound : (system.file.getD []).length ≤ maxAllowlistFileBytes) (event : AllowlistEvent) :
    CrashSafe macKey (system.step trusted macKey event) := by
  cases event with
  | crash => exact ⟨hsafe.holds, fun _ h => nomatch h⟩
  | reload =>
    refine ⟨hsafe.holds, fun entries hentries narHash narSize hlookup => ?_⟩
    have hload := load_of_holds hsafe.holds hbound
    have hopened : collectEntries (system.committed macKey) = entries := by
      simp only [AllowlistSystem.step, openAllowlist, hload] at hentries
      exact Option.some.inj hentries
    rw [← hopened] at hlookup
    exact mem_of_lookup_collectEntries hlookup
  | append record ended =>
    refine hsafe.appended hbound record ended fun map hmap narHash narSize hlookup => ?_
    exact List.mem_append_left _ (hsafe.entries map hmap narHash narSize hlookup)
  | learn requested narinfo ended =>
    simp only [AllowlistSystem.step]
    cases hentries : system.entries with
    | none => exact hsafe
    | some entries =>
      have hknown := hsafe.entries entries hentries
      unfold learn
      cases hlearn : learnable trusted entries requested narinfo with
      | error outcome =>
        simp only [hlearn, List.append_nil]
        refine ⟨hsafe.holds, fun map hmap => ?_⟩
        rw [← Option.some.inj hmap]
        exact hknown
      | ok record =>
        simp only [hlearn]
        cases hresult : (append macKey system.file record ended).result with
        | error error =>
          refine hsafe.appended hbound record ended fun map hmap narHash narSize hlookup => ?_
          rw [← Option.some.inj hmap] at hlookup
          exact List.mem_append_left _ (hknown narHash narSize hlookup)
        | ok =>
          refine hsafe.appended hbound record ended fun map hmap narHash narSize hlookup => ?_
          rw [if_pos (whole_of_append_ok hresult)]
          rw [← Option.some.inj hmap, lookup_insert] at hlookup
          split at hlookup
          · rename_i heq
            rw [heq, ← Option.some.inj hlookup]
            exact List.mem_append_right _ List.mem_cons_self
          · exact List.mem_append_left _ (hknown narHash narSize hlookup)

theorem CrashSafe.run {events : List AllowlistEvent} (hbound : ∀ seen, seen <+: events →
      ((AllowlistSystem.run trusted macKey seen).file.getD []).length ≤ maxAllowlistFileBytes) :
    CrashSafe macKey (AllowlistSystem.run trusted macKey events) := by
  induction events using List.reverseRecOn with
  | nil => exact ⟨⟨[], fun _ h => absurd h List.not_mem_nil, rfl⟩, fun _ h => nomatch h⟩
  | append_singleton events event ih =>
    have hearlier := ih fun seen hseen => hbound seen (hseen.trans (List.prefix_append events [event]))
    rw [AllowlistSystem.run, List.foldl_append]
    exact hearlier.step (hbound events (List.prefix_append events [event])) event

/-- Within the size that a load accepts, the file loads to the records of the completed appends, the map in memory being part of that; and of any file a load yields the records whose MAC its complete lines carry, or refuses it. -/
theorem allowlist_crash_safe (trusted : TrustedNarKeys) (macKey : Bytes 32) (events : List AllowlistEvent)
    (hbound : ∀ seen, seen <+: events →
      ((AllowlistSystem.run trusted macKey seen).file.getD []).length ≤ maxAllowlistFileBytes) :
    load macKey (AllowlistSystem.run trusted macKey events).file =
      .ok (((AllowlistSystem.run trusted macKey events).attempts.filter (Attempt.whole macKey)).map (·.record)) ∧
    (∀ entries, (AllowlistSystem.run trusted macKey events).entries = some entries → ∀ narHash narSize,
      entries.lookup narHash = some narSize →
        ∃ records, load macKey (AllowlistSystem.run trusted macKey events).file = .ok records ∧
          ⟨narHash, narSize⟩ ∈ records) ∧
    (∀ bytes records, load macKey (some bytes) = .ok records →
      ∃ text, fromUtf8 bytes = some text ∧ List.Forall₂ (Carries macKey) (recordLines text) records) ∧
    ∀ bytes text, fromUtf8 bytes = some text → ∀ line ∈ recordLines text,
      (∀ record, ¬ Carries macKey line record) → ∃ error, load macKey (some bytes) = .error error := by
  have hsafe := CrashSafe.run hbound
  have hload := load_of_holds hsafe.holds (hbound events List.prefix_rfl)
  refine ⟨hload, fun entries hentries narHash narSize hlookup => ?_, fun _ _ => forall₂_of_load, ?_⟩
  · exact ⟨_, hload, hsafe.entries entries hentries narHash narSize hlookup⟩
  · intro bytes text htext line hline hforeign
    cases hresult : load macKey (some bytes) with
    | error error => exact ⟨error, rfl⟩
    | ok records =>
      obtain ⟨other, hother, hlines⟩ := forall₂_of_load hresult
      obtain rfl : text = other := Option.some.inj (htext.symm.trans hother)
      obtain ⟨record, hcarries⟩ := exists_carries hlines hline
      exact absurd hcarries (hforeign record)

end Mac

/-- The line of a record with its size spelled otherwise and a carriage return before the line feed. -/
def respelledLine : List UInt8 :=
  toUtf8 ((numberedNar 1).narHash.display ++ ' ' :: "+01".toList ++
    ' ' :: @recordMac keyMac plainKey (numberedNar 1) ++ ['\r', '\n'])

/-- A file of one blank line loads, and so does a line that no append has written. -/
theorem foreign_lines_load :
    @load keyMac plainKey (some [0x0a]) = .ok [] ∧
    @load keyMac plainKey (some respelledLine) = .ok [numberedNar 1] ∧
    respelledLine ≠ @recordLine keyMac plainKey (numberedNar 1) := by
  decide +kernel

/-- A first append, a second that a crash cuts after five bytes, and after the reload a third. -/
def crashedEvents : List AllowlistEvent :=
  [.reload, .append (numberedNar 0) .done, .append (numberedNar 1) (.broken 5), .crash, .reload,
    .append (numberedNar 2) .done]

theorem allowlist_crash_safe_reloaded :
    @load keyMac plainKey (@AllowlistSystem.run goldenScheme keyMac (@TrustedNarKeys.empty goldenScheme) plainKey
      crashedEvents).file = .ok [numberedNar 0, numberedNar 2] := by
  have hbound : ∀ seen ∈ crashedEvents.inits,
      ((@AllowlistSystem.run goldenScheme keyMac (@TrustedNarKeys.empty goldenScheme) plainKey seen).file.getD
        []).length ≤ maxAllowlistFileBytes := by
    decide +kernel
  have hsafe := @allowlist_crash_safe keyMac goldenScheme (@TrustedNarKeys.empty goldenScheme) plainKey crashedEvents
    fun seen hseen => hbound seen ((List.mem_inits seen crashedEvents).mpr hseen)
  rw [hsafe.1]
  decide +kernel

end NixP2p.Allowlist
