import NixP2p.Base.Holdings
import NixP2p.Cache.DiskCache

/-!
# The cache repeats what upstream said

Every file of the cache is the start of an entry that was made from an answer of upstream to a fetch of its hash, and a file that is not whole is not read. So what a fetch serves from a file is such an answer, given when the entry says it was. The index and the evictions play no part in this: they only delete files.
-/

namespace NixP2p

open HashTable Holdings

def UpstreamAnswer.Makes (answer : UpstreamAnswer) (entry : CacheEntry) : Prop :=
  ∃ response, answer.result = .ok response ∧ answer.given = entry.fetchedAt ∧
    match entry.kind with
    | .positive => response.status = 200 ∧ response.body = ⟨entry.body, true⟩ ∧
      isWellFormedNarinfo entry.body = true ∧ entry.body.length ≤ maxNarinfoBytes
    | .negative => response.status = 404 ∧ entry.body = []

/-- Upstream has given the entry to a fetch of the hash. -/
def Given (answers : List UpstreamAnswer) (storeHash : List Char) (entry : CacheEntry) : Prop :=
  ∃ answer ∈ answers, answer.storeHash = storeHash ∧ answer.Makes entry

/-- Upstream has answered this fetch with the response; of a 404 only the status is kept. -/
def GivenTo (answers : List UpstreamAnswer) (index : Nat) (response : NarinfoResponse) : Prop :=
  ∃ answer ∈ answers, answer.fetch = index ∧ ∃ upstream, answer.result = .ok upstream ∧
    (response = upstream ∨ upstream.status = 404 ∧ response = negativeResponse)

variable {entry : CacheEntry}

theorem UpstreamAnswer.Makes.storable {answer : UpstreamAnswer} (h : answer.Makes entry) : entry.Storable := by
  obtain ⟨response, -, -, hentry⟩ := h
  cases hkind : entry.kind with
  | positive =>
    rw [hkind] at hentry
    obtain ⟨-, -, hwell, hlength⟩ := hentry
    refine ⟨fun _ => hwell, ?_⟩
    unfold maxNarinfoBytes at hlength
    omega
  | negative =>
    rw [hkind] at hentry
    refine ⟨fun hpositive => ?_, ?_⟩
    · rw [hkind] at hpositive
      cases hpositive
    · rw [hentry.2]
      exact Nat.two_pow_pos 64

variable {raw : List UInt8}

theorem eq_of_decode {found : CacheEntry} (hstorable : entry.Storable) (hraw : raw <+: entry.encode)
    (hfound : CacheEntry.decode raw = some found) : found = entry := by
  have htake := List.prefix_iff_eq_take.mp hraw
  by_cases hcut : raw.length < entry.encode.length
  · rw [htake, CacheEntry.decode_take entry hcut] at hfound
    cases hfound
  have hwhole : raw = entry.encode := hraw.eq_of_length_le (Nat.le_of_not_lt hcut)
  rw [hwhole, CacheEntry.decode_encode hstorable] at hfound
  exact (Option.some.inj hfound).symm

variable {answers later : List UpstreamAnswer} {storeHash : List Char}

theorem Given.mono (h : Given answers storeHash entry) : Given (answers ++ later) storeHash entry := by
  obtain ⟨answer, hanswer, hmakes⟩ := h
  exact ⟨answer, List.mem_append_left later hanswer, hmakes⟩

theorem GivenTo.mono {index : Nat} {response : NarinfoResponse} (h : GivenTo answers index response) :
    GivenTo (answers ++ later) index response := by
  obtain ⟨answer, hanswer, hdelivers⟩ := h
  exact ⟨answer, List.mem_append_left later hanswer, hdelivers⟩

def Traced (answers : List UpstreamAnswer) (index : Nat) (storeHash : List Char) : FetchPhase → Prop
  | .reading | .asking | .answered (.error _) => True
  | .judging raw => safeKey storeHash = some storeHash ∧ ∃ entry, raw <+: entry.encode ∧ Given answers storeHash entry
  | .installing entry response => Given answers storeHash entry ∧ GivenTo answers index response
  | .recording entry response =>
    safeKey storeHash = some storeHash ∧ Given answers storeHash entry ∧ GivenTo answers index response
  | .deleting _ response => safeKey storeHash = some storeHash ∧ GivenTo answers index response
  | .hit response now => ∃ entry, Given answers storeHash entry ∧ response = entry.response ∧
    entry.fetchedAt ≤ now ∧ now.toNat - entry.fetchedAt.toNat < entry.kind.ttl
  | .answered (.ok response) => GivenTo answers index response

theorem Traced.mono {index : Nat} {phase : FetchPhase} (h : Traced answers index storeHash phase) :
    Traced (answers ++ later) index storeHash phase := by
  cases phase with
  | reading | asking => trivial
  | judging raw =>
    obtain ⟨hsafe, entry, hraw, hgiven⟩ := h
    exact ⟨hsafe, entry, hraw, hgiven.mono⟩
  | installing entry response => exact ⟨h.1.mono, h.2.mono⟩
  | recording entry response => exact ⟨h.1, h.2.1.mono, h.2.2.mono⟩
  | deleting victims response => exact ⟨h.1, h.2.mono⟩
  | hit response now =>
    obtain ⟨entry, hgiven, hrest⟩ := h
    exact ⟨entry, hgiven.mono, hrest⟩
  | answered result =>
    cases result with
    | error => trivial
    | ok response => exact GivenTo.mono h

/-- Every file is the start of an entry that upstream has given for its hash. -/
def FilesGiven (answers : List UpstreamAnswer) (files : Table (List Char) (List UInt8)) : Prop :=
  ∀ key raw, files.lookup key = some raw →
    safeKey key = some key ∧ ∃ entry, raw <+: entry.encode ∧ Given answers key entry

structure Genuine (system : CacheSystem) : Prop where
  files : FilesGiven system.answers system.store.files
  stamps : ∀ answer ∈ system.answers, answer.given ≤ system.clock
  fetches : ∀ (index : Nat) (task : FetchTask), system.fetches[index]? = some task →
    Traced system.answers index task.storeHash task.phase

variable {key : List Char}

theorem eq_of_safeKey (h : safeKey storeHash = some key) : key = storeHash := by
  unfold safeKey at h
  split at h
  · cases h
  split at h
  · exact (Option.some.inj h).symm
  · cases h

variable {files : Table (List Char) (List UInt8)}

theorem FilesGiven.erase (h : FilesGiven answers files) (key : List Char) : FilesGiven answers (files.erase key) := by
  intro other raw hother
  rw [lookup_erase] at hother
  split at hother
  · cases hother
  · exact h other raw hother

theorem FilesGiven.insert (h : FilesGiven answers files) (hsafe : safeKey key = some key)
    (hraw : ∃ entry, raw <+: entry.encode ∧ Given answers key entry) :
    FilesGiven answers (files.insert key raw) := by
  intro other found hother
  rw [lookup_insert] at hother
  split at hother
  · rename_i heq
    rw [heq, ← Option.some.inj hother]
    exact ⟨hsafe, hraw⟩
  · exact h other found hother

section Turns

variable {maxEntries : {n : Nat // n ≠ 0}} {clock : UInt64} {store : CacheStore} {storeHash : List Char}
  {answers : List UpstreamAnswer} {index : Nat}

theorem traced_readEntry (index : Nat) (storeHash : List Char) (hfiles : FilesGiven answers store.files)
    (readable : Bool) :
    (readEntry store storeHash readable).store = store ∧
      Traced answers index storeHash (readEntry store storeHash readable).phase := by
  unfold readEntry
  split
  · exact ⟨rfl, trivial⟩
  rename_i key hkey
  split
  · exact ⟨rfl, trivial⟩
  rename_i raw hraw
  refine ⟨rfl, ?_⟩
  obtain rfl := eq_of_safeKey hkey
  split at hraw
  · exact hfiles key raw hraw
  · cases hraw

theorem traced_judgeEntry (hstamps : ∀ answer ∈ answers, answer.given ≤ clock)
    (hfiles : FilesGiven answers store.files) {raw : List UInt8} (hraw : Traced answers index storeHash (.judging raw)) :
    FilesGiven answers (judgeEntry clock store storeHash raw).store.files ∧
      Traced answers index storeHash (judgeEntry clock store storeHash raw).phase := by
  unfold judgeEntry
  split
  · exact ⟨hfiles.erase storeHash, trivial⟩
  rename_i found hfound
  split
  · exact ⟨hfiles, trivial⟩
  rename_i hyoung
  refine ⟨hfiles, ?_⟩
  obtain ⟨-, entry, hprefixed, hgiven⟩ := hraw
  obtain ⟨answer, hanswer, hhash, hmakes⟩ := hgiven
  obtain rfl := eq_of_decode hmakes.storable hprefixed hfound
  refine ⟨found, ⟨answer, hanswer, hhash, hmakes⟩, rfl, ?_, Nat.lt_of_not_le hyoung⟩
  obtain ⟨-, -, hgivenAt, -⟩ := hmakes
  rw [← hgivenAt]
  exact hstamps answer hanswer

theorem traced_takeAnswer (result : Except SourceError NarinfoResponse) (why : String) :
    Traced (answers ++ [⟨index, storeHash, clock, result⟩]) index storeHash (takeAnswer clock result why) := by
  have hmem : (⟨index, storeHash, clock, result⟩ : UpstreamAnswer) ∈
      answers ++ [⟨index, storeHash, clock, result⟩] := List.mem_append_right _ List.mem_cons_self
  unfold takeAnswer
  cases result with
  | error error => trivial
  | ok response =>
    dsimp only
    by_cases habsent : response.status = 404
    · rw [if_pos habsent]
      refine ⟨⟨_, hmem, rfl, response, rfl, rfl, habsent, rfl⟩, ⟨_, hmem, rfl, response, rfl, .inr ⟨habsent, rfl⟩⟩⟩
    rw [if_neg habsent]
    by_cases hstatus : response.status = 200
    · rw [if_neg (not_not.mpr hstatus)]
      cases hbody : collectBody response.body why with
      | error error => trivial
      | ok bytes =>
        dsimp only
        unfold collectBody at hbody
        split at hbody
        · cases hbody
        rename_i hwhole
        rw [not_or] at hwhole
        have hbytes := Except.ok.inj hbody
        have hsame : response.body = ⟨bytes, true⟩ := by
          rw [← hbytes]
          exact congrArg (UpstreamBody.mk _) (Bool.eq_true_of_not_eq_false hwhole.2)
        have hresponse : (⟨200, response.headers, ⟨bytes, true⟩⟩ : NarinfoResponse) = response := by
          rw [← hstatus, ← hsame]
        have hgivenTo : GivenTo (answers ++ [⟨index, storeHash, clock, .ok response⟩]) index response :=
          ⟨_, hmem, rfl, response, rfl, .inl rfl⟩
        split
        · rename_i hcacheable
          have hwell : isWellFormedNarinfo bytes = true := by
            unfold cacheable at hcacheable
            simp only [Bool.and_eq_true] at hcacheable
            exact hcacheable.1.1.1
          refine ⟨⟨_, hmem, rfl, response, rfl, rfl, hstatus, hsame, hwell, ?_⟩, hresponse ▸ hgivenTo⟩
          rw [← hbytes]
          exact Nat.le_of_not_lt hwhole.1
        · exact hresponse ▸ hgivenTo
    · rw [if_pos hstatus]
      exact ⟨_, hmem, rfl, response, rfl, .inl rfl⟩

variable {response : NarinfoResponse}

theorem traced_installEntry (hfiles : FilesGiven answers store.files) {entry : CacheEntry}
    (htask : Traced answers index storeHash (.installing entry response)) (written : Bool) :
    FilesGiven answers (installEntry store storeHash entry response written).store.files ∧
      Traced answers index storeHash (installEntry store storeHash entry response written).phase := by
  obtain ⟨hgiven, hgivenTo⟩ := htask
  unfold installEntry
  split
  · exact ⟨hfiles, hgivenTo⟩
  rename_i key hkey
  obtain rfl := eq_of_safeKey hkey
  split
  · exact ⟨hfiles.insert hkey ⟨entry, List.prefix_refl _, hgiven⟩, hkey, hgiven, hgivenTo⟩
  · exact ⟨hfiles, hgivenTo⟩

theorem traced_deleteEntry (hfiles : FilesGiven answers store.files) {victims : List (List Char)}
    (htask : Traced answers index storeHash (.deleting victims response)) (deleted : Bool) :
    FilesGiven answers (deleteEntry store victims response deleted).store.files ∧
      Traced answers index storeHash (deleteEntry store victims response deleted).phase := by
  unfold deleteEntry
  split
  · exact ⟨hfiles, htask.2⟩
  split
  · exact ⟨hfiles, htask⟩
  split
  · exact ⟨hfiles.erase _, htask⟩
  · exact ⟨hfiles, htask⟩

theorem FilesGiven.mono {later : List UpstreamAnswer} {files : Table (List Char) (List UInt8)}
    (h : FilesGiven answers files) : FilesGiven (answers ++ later) files := by
  intro key raw hraw
  obtain ⟨hsafe, entry, hprefixed, hgiven⟩ := h key raw hraw
  exact ⟨hsafe, entry, hprefixed, hgiven.mono⟩

variable {task : FetchTask}

theorem traced_fetchTurn (maxEntries : {n : Nat // n ≠ 0}) (hstamps : ∀ answer ∈ answers, answer.given ≤ clock)
    (hfiles : FilesGiven answers store.files) (htask : Traced answers index task.storeHash task.phase)
    (action : FetchAction) :
    FilesGiven (answers ++ CacheSystem.answerOf clock index task action)
      (fetchTurn maxEntries clock store task.storeHash task.phase action).store.files ∧
    Traced (answers ++ CacheSystem.answerOf clock index task action) index task.storeHash
      (fetchTurn maxEntries clock store task.storeHash task.phase action).phase := by
  obtain ⟨storeHash, phase⟩ := task
  dsimp only at htask ⊢
  unfold fetchTurn
  split
  · rename_i readable
    obtain ⟨hstore, hphase⟩ := traced_readEntry index storeHash hfiles readable
    rw [hstore]
    exact ⟨hfiles.mono, hphase.mono⟩
  · obtain ⟨hleft, hphase⟩ := traced_judgeEntry hstamps hfiles htask
    exact ⟨hleft.mono, hphase.mono⟩
  · rename_i result why
    refine ⟨hfiles.mono, ?_⟩
    have hanswer : CacheSystem.answerOf clock index ⟨storeHash, .asking⟩ (.answer result why) =
        [⟨index, storeHash, clock, result⟩] := by
      rw [CacheSystem.answerOf, if_pos rfl]
    rw [hanswer]
    exact traced_takeAnswer result why
  · rename_i entry response written
    obtain ⟨hleft, hphase⟩ := traced_installEntry hfiles htask written
    exact ⟨hleft.mono, hphase.mono⟩
  · exact ⟨hfiles.mono, htask.1, htask.2.2.mono⟩
  · rename_i victims response deleted
    obtain ⟨hleft, hphase⟩ := traced_deleteEntry hfiles htask deleted
    exact ⟨hleft.mono, hphase.mono⟩
  · exact ⟨hfiles.mono, htask.mono⟩

theorem fetchTurn_of_nokey (hnokey : safeKey task.storeHash = none)
    (htask : Traced answers index task.storeHash task.phase) (action : FetchAction) :
    (fetchTurn maxEntries clock store task.storeHash task.phase action).store = store ∧
      ∀ other, (fetchTurn maxEntries clock other task.storeHash task.phase action).phase =
        (fetchTurn maxEntries clock store task.storeHash task.phase action).phase := by
  have hnot : safeKey task.storeHash ≠ some task.storeHash := by
    rw [hnokey]
    nofun
  obtain ⟨storeHash, phase⟩ := task
  dsimp only at hnokey htask hnot ⊢
  cases phase with
  | judging raw => exact absurd htask.1 hnot
  | recording entry response => exact absurd htask.1 hnot
  | deleting victims response => exact absurd htask.1 hnot
  | reading =>
    cases action with
    | read readable =>
      simp only [fetchTurn, readEntry, hnokey]
      exact ⟨trivial, fun _ => trivial⟩
    | _ => exact ⟨rfl, fun _ => rfl⟩
  | installing entry response =>
    cases action with
    | install written =>
      simp only [fetchTurn, installEntry, hnokey]
      exact ⟨trivial, fun _ => trivial⟩
    | _ => exact ⟨rfl, fun _ => rfl⟩
  | asking =>
    cases action with
    | _ => exact ⟨rfl, fun _ => rfl⟩
  | hit | answered => exact ⟨rfl, fun _ => rfl⟩

end Turns

namespace CacheSystem

variable {maxEntries : {n : Nat // n ≠ 0}} {system : CacheSystem}

theorem given_answerOf {clock : UInt64} {index : Nat} {task : FetchTask} {action : FetchAction}
    {answer : UpstreamAnswer} (h : answer ∈ answerOf clock index task action) : answer.given = clock := by
  cases action with
  | answer result why =>
    rw [answerOf] at h
    split at h
    · rw [List.mem_singleton.mp h]
    · cases h
  | _ => cases h

theorem genuine_step (h : Genuine system) (event : CacheEvent) : Genuine (system.step maxEntries event) := by
  cases event with
  | fetch storeHash =>
    refine ⟨h.files, h.stamps, fun index task htask => ?_⟩
    obtain hold | ⟨-, rfl⟩ := of_getElem?_append htask
    · exact h.fetches index task hold
    · trivial
  | tick now =>
    simp only [CacheSystem.step]
    split
    · rename_i hle
      exact ⟨h.files, fun answer hanswer => UInt64.le_trans (h.stamps answer hanswer) hle, h.fetches⟩
    · exact h
  | cut key length =>
    simp only [CacheSystem.step]
    split
    · exact h
    rename_i raw hraw
    obtain ⟨hsafe, entry, hprefixed, hgiven⟩ := h.files key raw hraw
    exact ⟨h.files.insert hsafe ⟨entry, (List.take_prefix length raw).trans hprefixed, hgiven⟩, h.stamps,
      h.fetches⟩
  | turn index action =>
    simp only [CacheSystem.step]
    split
    · exact h
    rename_i task htask
    obtain ⟨hfiles, hphase⟩ := traced_fetchTurn maxEntries h.stamps h.files
      (h.fetches index task htask) action
    refine ⟨hfiles, fun answer hanswer => ?_, fun other found hfound => ?_⟩
    · obtain hold | hnew := List.mem_append.mp hanswer
      · exact h.stamps answer hold
      · rw [given_answerOf hnew]
        exact UInt64.le_refl _
    · obtain ⟨rfl, rfl⟩ | ⟨-, hold⟩ := of_getElem?_set hfound
      · exact hphase
      · exact (h.fetches other found hold).mono

theorem genuine_run (maxEntries : {n : Nat // n ≠ 0}) (start : UInt64) (events : List CacheEvent) :
    Genuine (run maxEntries start events) := by
  refine List.foldlRecOn events (CacheSystem.step maxEntries) ?_ fun _ h event _ => genuine_step h event
  exact ⟨fun _ _ h => (nomatch h), fun _ h => (nomatch h), fun _ _ h => (nomatch h)⟩

end CacheSystem

open CacheSystem

/-- A response is the answer upstream gave to the fetch, or repeats one it gave to a fetch of the same hash less than a lifetime ago. Files hold what upstream reported, perhaps cut short; a cut file is not read; and a hash that names no file has no effect. -/
theorem narinfo_cache_genuine (maxEntries : {n : Nat // n ≠ 0}) (start : UInt64) (events : List CacheEvent) :
    (∀ (index : Nat) (task : FetchTask), (run maxEntries start events).fetches[index]? = some task →
      (∀ response, task.phase = .answered (.ok response) →
        ∃ answer ∈ (run maxEntries start events).answers, answer.fetch = index ∧
          ∃ upstream, answer.result = .ok upstream ∧
            (response = upstream ∨ upstream.status = 404 ∧ response = negativeResponse)) ∧
      ∀ response now, task.phase = .hit response now →
        ∃ answer ∈ (run maxEntries start events).answers, answer.storeHash = task.storeHash ∧
          answer.given ≤ now ∧ ∃ upstream, answer.result = .ok upstream ∧
            (upstream.status = 200 ∧ response.status = 200 ∧ response.body = upstream.body ∧
                now.toNat < answer.given.toNat + positiveTtl ∨
              upstream.status = 404 ∧ response = negativeResponse ∧
                now.toNat < answer.given.toNat + negativeTtl)) ∧
    (∀ key raw, (run maxEntries start events).store.files.lookup key = some raw →
      ∃ answer ∈ (run maxEntries start events).answers, ∃ (upstream : NarinfoResponse) (entry : CacheEntry), answer.storeHash = key ∧
        answer.result = .ok upstream ∧ raw <+: entry.encode ∧ answer.given = entry.fetchedAt ∧
        (upstream.status = 200 ∧ entry.kind = .positive ∧ upstream.body = ⟨entry.body, true⟩ ∧
            isWellFormedNarinfo entry.body = true ∨
          upstream.status = 404 ∧ entry.kind = .negative ∧ entry.body = [])) ∧
    (∀ (entry : CacheEntry) (length : Nat), length < entry.encode.length →
      CacheEntry.decode (entry.encode.take length) = none) ∧
    ∀ (index : Nat) (task : FetchTask) (action : FetchAction),
      (run maxEntries start events).fetches[index]? = some task → safeKey task.storeHash = none →
      ((run maxEntries start events).step maxEntries (.turn index action)).store =
        (run maxEntries start events).store ∧
      ∀ store, (fetchTurn maxEntries (run maxEntries start events).clock store task.storeHash task.phase
          action).phase =
        (fetchTurn maxEntries (run maxEntries start events).clock (run maxEntries start events).store
          task.storeHash task.phase action).phase := by
  have hgenuine := genuine_run maxEntries start events
  generalize run maxEntries start events = system at hgenuine ⊢
  refine ⟨fun index task htask => ⟨fun response hphase => ?_, fun response now hphase => ?_⟩,
    fun key raw hraw => ?_, fun entry length => CacheEntry.decode_take entry, ?_⟩
  · have htraced := hgenuine.fetches index task htask
    rw [hphase] at htraced
    exact htraced
  · have htraced := hgenuine.fetches index task htask
    rw [hphase] at htraced
    obtain ⟨entry, ⟨answer, hanswer, hhash, upstream, hresult, hgiven, hmade⟩, rfl, hle, hyoung⟩ := htraced
    refine ⟨answer, hanswer, hhash, hgiven ▸ hle, upstream, hresult, ?_⟩
    unfold CacheEntry.response
    cases hkind : entry.kind with
    | positive =>
      rw [hkind] at hmade hyoung
      change _ < positiveTtl at hyoung
      refine .inl ⟨hmade.1, rfl, hmade.2.1.symm, ?_⟩
      rw [hgiven]
      omega
    | negative =>
      rw [hkind] at hmade hyoung
      change _ < negativeTtl at hyoung
      refine .inr ⟨hmade.1, rfl, ?_⟩
      rw [hgiven]
      omega
  · obtain ⟨-, entry, hprefixed, answer, hanswer, hhash, upstream, hresult, hgiven, hmade⟩ :=
      hgenuine.files key raw hraw
    refine ⟨answer, hanswer, upstream, entry, hhash, hresult, hprefixed, hgiven, ?_⟩
    cases hkind : entry.kind with
    | positive =>
      rw [hkind] at hmade
      exact .inl ⟨hmade.1, rfl, hmade.2.1, hmade.2.2.1⟩
    | negative =>
      rw [hkind] at hmade
      exact .inr ⟨hmade.1, rfl, hmade.2⟩
  · intro index task action htask hnokey
    obtain ⟨hstore, hphase⟩ := fetchTurn_of_nokey hnokey (hgenuine.fetches index task htask) action
    refine ⟨?_, hphase⟩
    simp only [CacheSystem.step, htask]
    exact hstore

end NixP2p
