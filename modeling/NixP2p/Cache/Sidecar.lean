import Mathlib.Data.Finset.Sort
import NixP2p.Base.Utf8
import NixP2p.Cache.Eviction
import NixP2p.Serving.NarinfoReaders

/-!
# What the sidecar gives back

The sidecar has a line for each entry, oldest first, with the store hash, the age and the token set apart by tabs. A token is the URL that upstream gave in a narinfo: it cannot break its line, but it may be empty or hold a tab, and then the line reads back as something else. A token that several narinfos share leads to the one installed last, of which the sidecar says nothing.
-/

namespace NixP2p.Bookkeeping

open HashTable Text

def rowLine (row : SidecarRow) : List Char :=
  ['\t'].intercalate [row.storeHash, showU64 row.fetchedAt, row.token.getD []]

def rows (book : Bookkeeping) : List SidecarRow :=
  (book.lru.sort (· ≤ ·)).map fun key =>
    ⟨key.hash, UInt64.ofNat (ofLex key).1, (book.records.lookup key.hash).bind CacheRecord.token⟩

def serializeSidecar (book : Bookkeeping) : List UInt8 := toUtf8 (unlines (indexMagic :: book.rows.map rowLine))

/-- The states that installs of what upstream sent and evictions lead to. -/
inductive Reachable : Bookkeeping → Prop where
  | empty : Reachable {}
  | install {book : Bookkeeping} (h : Reachable book) (cap : Nat) {storeHash : List Char}
    (hsafe : safeKey storeHash = some storeHash) (entry : CacheEntry) :
    Reachable (book.recordAndEvict cap storeHash entry.fetchedAt (tokenOf entry)).book
  | trim {book : Bookkeeping} (h : Reachable book) (cap : Nat) : Reachable (book.trimToCap cap).book

/-- A text that does not break the line it ends. -/
def Inline (text : List Char) : Prop := '\n' ∉ text ∧ text.getLast? ≠ some '\r'

theorem free_unterminated {pieces : List (List UInt8)} (h : Pieces 0x0a pieces) :
    ∀ piece ∈ pieces, 0x0a ∉ unterminated 0x0a piece := by
  induction h with
  | nil => exact fun _ hmem => absurd hmem List.not_mem_nil
  | last _ hfree => exact List.forall_mem_singleton.mpr ((unterminated_of_free hfree).symm ▸ hfree)
  | @cons line _ hfree _ ih => exact List.forall_mem_cons.mpr ⟨(unterminated_append line).symm ▸ hfree, ih⟩

variable {text : List Char}

theorem inline_trim (h : '\n' ∉ text) : Inline (trim text) := by
  refine ⟨fun hmem => h ?_, fun hlast => ?_⟩
  · exact (List.dropWhile_sublist _).subset ((List.rdropWhile_prefix _ _).subset hmem)
  · obtain ⟨hne, hlast⟩ := List.mem_getLast?_eq_getLast hlast
    exact List.rdropWhile_last_not _ _ hne (hlast ▸ by decide)

theorem Inline.of_append {start : List Char} (h : Inline (start ++ text)) : Inline text := by
  refine ⟨fun hmem => h.1 (List.mem_append_right _ hmem), fun hlast => h.2 ?_⟩
  rw [List.getLast?_append, hlast, Option.some_or]

theorem inline_tokenOf {entry : CacheEntry} {token : List Char} (h : tokenOf entry = some token) : Inline token := by
  unfold tokenOf at h
  split at h
  · obtain ⟨correlation, hcorrelation, rfl⟩ := Option.map_eq_some_iff.mp h
    obtain ⟨fields, url, size, hfold, hurl, -, -, -, htoken, -⟩ := parseCorrelation_eq_some_iff.mp hcorrelation
    have hpieces : Pieces (0x0a : UInt8) _ := pieces_splitInclusive entry.body
    have hslot := slot_foldlM CorrelationFields.url fieldName_url (fun hnote => (CorrelationFields.note_spec hnote).2.2)
      (piece_cases hpieces) hfold
    rw [hurl, Option.or_none] at hslot
    obtain ⟨piece, hpiece, hvalue⟩ := List.mem_filterMap.mp (List.mem_of_getLast? hslot.symm)
    obtain ⟨value, hfield, rfl⟩ := Option.map_eq_some_iff.mp hvalue
    have hinline : Inline (trim (fromUtf8Lossy value)) := inline_trim fun hmem => by
      refine free_unterminated hpieces piece hpiece ?_
      rw [fieldValue_eq_some_iff.mp hfield]
      exact List.mem_append_right _ (List.mem_cons_of_mem _ (mem_of_mem_fromUtf8Lossy (by decide) hmem))
    rw [htoken]
    cases hdrop : (trim (fromUtf8Lossy value)).dropPrefix? "nar/".toList with
    | none => exact hinline
    | some rest => exact Inline.of_append (dropPrefix?_eq_some.mp hdrop ▸ hinline)
  · cases h

structure Sound (book : Bookkeeping) : Prop where
  consistent : book.Consistent
  records : ∀ storeHash record, book.records.lookup storeHash = some record →
    safeKey storeHash = some storeHash ∧ ∀ token ∈ record.token, Inline token

variable {book : Bookkeeping} {storeHash : List Char}

theorem lookup_evictLoop {cap rounds : Nat} {spare : Option (List Char)} {record : CacheRecord}
    (h : (evictLoop cap spare rounds book).book.records.lookup storeHash = some record) :
    book.records.lookup storeHash = some record := by
  induction rounds generalizing book with
  | zero => exact h
  | succ rounds ih =>
    rw [evictLoop] at h
    split at h
    · split at h
      · exact h
      have hremoved := ih h
      rw [lookup_records_remove] at hremoved
      split at hremoved
      · cases hremoved
      · exact hremoved
    · exact h

theorem Sound.evictOverCap (h : book.Sound) (cap : Nat) (spare : Option (List Char)) :
    (book.evictOverCap cap spare).book.Sound :=
  ⟨(evicts_evictOverCap cap spare h.consistent).consistent, fun _ _ hrecord => h.records _ _ (lookup_evictLoop hrecord)⟩

theorem Reachable.sound (h : Reachable book) : book.Sound := by
  induction h with
  | empty => exact ⟨consistent_empty, nofun⟩
  | @install book _ cap storeHash hsafe entry ih =>
    refine Sound.evictOverCap ⟨ih.consistent.replace _ _ _, fun other record hrecord => ?_⟩ cap _
    change ((book.remove storeHash).records.insert storeHash _).lookup other = some record at hrecord
    rw [lookup_insert, lookup_records_remove] at hrecord
    split at hrecord
    · rename_i heq
      rw [heq, ← Option.some.inj hrecord]
      exact ⟨hsafe, fun _ htoken => inline_tokenOf htoken⟩
    · exact ih.records other record hrecord
  | trim _ cap ih => exact ih.evictOverCap cap none

/-- A row that its line tells from every other. -/
structure Legible (row : SidecarRow) : Prop where
  storeHash : safeKey row.storeHash = some row.storeHash
  token : ∀ token ∈ row.token, token ≠ [] ∧ '\t' ∉ token ∧ Inline token

variable {row : SidecarRow}

theorem plain_of_safeKey (h : safeKey storeHash = some storeHash) : Plain storeHash := by
  have hvisible : nixBase32.all (fun char => !isWhitespace char) = true := by decide
  unfold safeKey at h
  split at h
  · cases h
  rename_i hlength
  split at h
  · rename_i hall
    refine ⟨fun hnil => hlength (hnil ▸ by decide), fun char hchar => ?_⟩
    simpa using List.all_eq_true.mp hvisible char (List.contains_iff_mem.mp (List.all_eq_true.mp hall char hchar))
  · cases h

theorem Legible.token_getD (h : Legible row) : '\t' ∉ row.token.getD [] ∧ Inline (row.token.getD []) ∧
    (if row.token.getD [] = [] then none else some (row.token.getD [])) = row.token := by
  cases htoken : row.token with
  | none => exact ⟨List.not_mem_nil, ⟨List.not_mem_nil, nofun⟩, rfl⟩
  | some token =>
    obtain ⟨hne, htab, hinline⟩ := h.token token htoken
    exact ⟨htab, hinline, if_neg hne⟩

theorem Legible.readRow_rowLine (h : Legible row) : readRow (rowLine row) = some row := by
  have hplain : ∀ {field : List Char}, Plain field → '\t' ∉ field := fun hfield hmem => by cases hfield.2 _ hmem
  have hsplit : (rowLine row).splitOn '\t' = [row.storeHash, showU64 row.fetchedAt, row.token.getD []] := by
    refine List.splitOn_intercalate _ (List.forall_mem_cons.mpr ⟨hplain (plain_of_safeKey h.storeHash),
      List.forall_mem_cons.mpr ⟨hplain (plain_showU64 _), List.forall_mem_singleton.mpr ?_⟩⟩) (List.cons_ne_nil _ _)
    exact h.token_getD.1
  simp only [readRow, hsplit, parseU64_showU64, h.storeHash, Option.bind_some, Option.map_some, h.token_getD.2.2]

theorem Legible.inline (h : Legible row) : rowLine row ≠ [] ∧ Inline (rowLine row) := by
  have hplain : ∀ {field : List Char}, Plain field → '\n' ∉ field := fun hfield hmem => by cases hfield.2 _ hmem
  have hhash := plain_of_safeKey h.storeHash
  obtain ⟨hnewline, hreturn⟩ := h.token_getD.2.1
  have hline : rowLine row = row.storeHash ++ '\t' :: (showU64 row.fetchedAt ++ '\t' :: row.token.getD []) := by
    simp [rowLine, List.intercalate]
  refine ⟨fun hnil => hhash.1 (List.append_eq_nil_iff.mp (hline ▸ hnil)).1, fun hmem => ?_, fun hlast => ?_⟩
  · simp [hline, hplain hhash, hplain (plain_showU64 _), hnewline] at hmem
  · rw [hline] at hlast
    cases htoken : (row.token.getD []).getLast? with
    | none => simp [List.getLast?_append, List.getLast?_cons, htoken] at hlast
    | some char => simp_all [List.getLast?_append, List.getLast?_cons]

variable {rows : List SidecarRow}

theorem readRows_map {seen : List (List Char)} (h : ∀ row ∈ rows, Legible row)
    (hnodup : (rows.map SidecarRow.storeHash).Nodup) (hseen : ∀ row ∈ rows, row.storeHash ∉ seen) :
    readRows seen (rows.map rowLine) = some rows := by
  induction rows generalizing seen with
  | nil => rfl
  | cons row rows ih =>
    obtain ⟨hrow, hrows⟩ := List.forall_mem_cons.mp h
    obtain ⟨hfresh, hnodup⟩ := List.nodup_cons.mp hnodup
    rw [List.map_cons, readRows, if_neg hrow.inline.1, hrow.readRow_rowLine, Option.bind_some,
      if_neg (hseen row List.mem_cons_self), ih hrows hnodup]
    · rfl
    · intro other hother hmem
      rcases List.mem_cons.mp hmem with heq | hmem
      · exact hfresh (heq ▸ List.mem_map_of_mem hother)
      · exact hseen other (List.mem_cons_of_mem row hother) hmem

theorem readSidecar_rows (h : ∀ row ∈ rows, Legible row) (hnodup : (rows.map SidecarRow.storeHash).Nodup) :
    readSidecar (some (toUtf8 (unlines (indexMagic :: rows.map rowLine)))) = some rows := by
  have hlines : lines (unlines (indexMagic :: rows.map rowLine)) = indexMagic :: rows.map rowLine := by
    refine lines_unlines (List.forall_mem_cons.mpr ⟨by decide, List.forall_mem_map.mpr fun row hrow => ?_⟩)
    exact (h row hrow).inline.2
  rw [readSidecar, Option.bind_some, fromUtf8_toUtf8, Option.bind_some, hlines]
  exact (if_pos rfl).trans (readRows_map h hnodup fun _ _ => List.not_mem_nil)

def newest (book : Bookkeeping) (token : List Char) : Option (List Char) :=
  (book.rows.filter fun row => row.token = some token).getLast?.map SidecarRow.storeHash

theorem records_insertRows :
    (rows.foldl insertRow book).records =
      (rows.map fun row => (row.storeHash, (⟨row.fetchedAt, row.token⟩ : CacheRecord))).foldl
        (fun table entry => table.insert entry.1 entry.2) book.records := by
  rw [List.foldl_map]
  exact (List.foldl_hom Bookkeeping.records (fun _ _ => rfl)).symm

theorem tokenIndex_insertRows (rows : List SidecarRow) (token : List Char) :
    (rows.foldl insertRow {}).tokenIndex.lookup token =
      (rows.filter fun row => row.token = some token).getLast?.map SidecarRow.storeHash := by
  induction rows using List.reverseRecOn with
  | nil => rfl
  | append_singleton rows row ih =>
    obtain ⟨storeHash, fetchedAt, own⟩ := row
    rw [List.foldl_append, List.filter_append, List.foldl_cons, List.foldl_nil, List.filter_singleton]
    cases own with
    | none => exact ih.trans (by simp)
    | some own =>
      refine (lookup_insert _ own token storeHash).trans ?_
      by_cases heq : token = own
      · simp [heq]
      · simpa [heq, Ne.symm heq] using ih

theorem Sound.mem_rows (h : book.Sound) :
    row ∈ book.rows ↔ book.records.lookup row.storeHash = some ⟨row.fetchedAt, row.token⟩ := by
  simp only [rows, List.mem_map, Finset.mem_sort, h.consistent.lru]
  constructor
  · rintro ⟨key, ⟨record, hrecord, hkey⟩, rfl⟩
    rw [hrecord, hkey]
    simp [ageKey]
  · intro hrecord
    refine ⟨ageKey row.fetchedAt row.storeHash, ⟨_, hrecord, rfl⟩, ?_⟩
    simp [ageKey, AgeKey.hash, hrecord]

theorem Sound.nodup_rows (h : book.Sound) : (book.rows.map SidecarRow.storeHash).Nodup := by
  rw [rows, List.map_map]
  exact ((book.lru.sort_nodup _).map_on fun _ hkey _ hkey' =>
    h.consistent.key_inj ((Finset.mem_sort _).mp hkey) ((Finset.mem_sort _).mp hkey'))

/-- Where no token is empty or holds a tab, the sidecar gives back the records and their order, and the token index if each token leads to its newest entry. -/
theorem readIndex_serializeSidecar (h : Reachable book)
    (htokens : ∀ storeHash record token, book.records.lookup storeHash = some record → record.token = some token →
      token ≠ [] ∧ '\t' ∉ token) (files : List DirFile) :
    let loaded := readIndex (some book.serializeSidecar) files
    (∀ storeHash, loaded.records.lookup storeHash = book.records.lookup storeHash) ∧ loaded.lru = book.lru ∧
      ((∀ token, loaded.tokenIndex.lookup token = book.tokenIndex.lookup token) ↔
        ∀ token, book.tokenIndex.lookup token = book.newest token) := by
  have hsound := h.sound
  have hlegible : ∀ row ∈ book.rows, Legible row := by
    intro row hrow
    have hrecord := hsound.mem_rows.mp hrow
    obtain ⟨hsafe, hinline⟩ := hsound.records _ _ hrecord
    refine ⟨hsafe, fun token htoken => ?_⟩
    obtain ⟨hne, htab⟩ := htokens _ _ token hrecord htoken
    exact ⟨hne, htab, hinline token htoken⟩
  have hloaded : readIndex (some book.serializeSidecar) files = book.rows.foldl insertRow {} := by
    rw [readIndex, serializeSidecar, readSidecar_rows hlegible hsound.nodup_rows]
  have hlookup : ∀ storeHash, (book.rows.foldl insertRow {}).records.lookup storeHash = book.records.lookup storeHash := by
    intro storeHash
    refine Option.ext fun record => ?_
    rw [records_insertRows, lookup_foldl_insert (by rw [List.map_map]; exact hsound.nodup_rows),
      or_iff_left (fun hnone => by cases hnone.2), List.mem_map]
    constructor
    · rintro ⟨row, hrow, heq⟩
      obtain ⟨rfl, rfl⟩ := Prod.mk.inj heq
      exact hsound.mem_rows.mp hrow
    · exact fun hrecord => ⟨⟨storeHash, record.fetchedAt, record.token⟩, hsound.mem_rows.mpr hrecord, rfl⟩
  rw [hloaded]
  refine ⟨hlookup, Finset.ext fun key => ?_, forall_congr' ?_⟩
  · rw [(consistent_empty.insertRows hsound.nodup_rows fun _ _ => rfl).lru, hsound.consistent.lru, hlookup]
  · intro token
    rw [tokenIndex_insertRows]
    exact eq_comm

def someHash : List Char := List.replicate 32 '0'

def urlEntry (url : String) : CacheEntry := ⟨.positive, 7, ascii ("URL: " ++ url ++ "\nNarHash: h\nNarSize: 1\n")⟩

def installed (url : String) : Bookkeeping := (recordAndEvict {} 1 someHash 7 (tokenOf (urlEntry url))).book

theorem reachable_installed (url : String) : Reachable (installed url) := .install .empty 1 (by decide) (urlEntry url)

theorem lookup_installed (url : String) (storeHash : List Char) :
    (installed url).records.lookup storeHash = if storeHash = someHash then some ⟨7, tokenOf (urlEntry url)⟩ else none :=
  lookup_insert ∅ someHash storeHash _

theorem sidecar_keeps_plain_token :
    (readIndex (some (installed "nar/a").serializeSidecar) []).records.lookup someHash = some ⟨7, some ['a']⟩ := by
  have htoken : tokenOf (urlEntry "nar/a") = some ['a'] := by decide +kernel
  refine ((readIndex_serializeSidecar (reachable_installed "nar/a") ?_ []).1 someHash).trans ?_
  · intro storeHash record token hrecord hown
    rw [lookup_installed, htoken] at hrecord
    split at hrecord
    · obtain rfl := Option.some.inj hrecord
      obtain rfl := Option.some.inj hown
      decide
    · cases hrecord
  · rw [lookup_installed, if_pos rfl, htoken]

/-- A tab in the URL of a narinfo cuts its token short. -/
theorem sidecar_cuts_token_at_tab :
    Reachable (installed "nar/a\tb") ∧
      (installed "nar/a\tb").records.lookup someHash = some ⟨7, some ['a', '\t', 'b']⟩ ∧
      (readIndex (some (installed "nar/a\tb").serializeSidecar) []).records.lookup someHash = some ⟨7, some ['a']⟩ := by
  have htoken : tokenOf (urlEntry "nar/a\tb") = some ['a', '\t', 'b'] := by decide +kernel
  have hrows : (installed "nar/a\tb").rows = [⟨someHash, 7, some ['a', '\t', 'b']⟩] := by
    have hlru : (installed "nar/a\tb").lru = {ageKey 7 someHash} := rfl
    rw [rows, hlru, Finset.sort_singleton, List.map_singleton, ← htoken]
    rfl
  have hread : readSidecar (some (installed "nar/a\tb").serializeSidecar) = some [⟨someHash, 7, some ['a']⟩] := by
    rw [serializeSidecar, hrows, readSidecar, Option.bind_some, fromUtf8_toUtf8]
    rfl
  refine ⟨reachable_installed _, by rw [lookup_installed, if_pos rfl, htoken], ?_⟩
  rw [readIndex, hread]
  rfl

end NixP2p.Bookkeeping
