import NixP2p.Cache.Bookkeeping

/-!
# The three views of the cache agree

A record, its age and its token are inserted and removed together, so the order of ages is always that of the records, and a token leads to a record that carries it. Each round of an eviction takes the least age that is not spared, so that the victims are the least ages of all.
-/

namespace NixP2p.Bookkeeping

open HashTable Smallest

structure Consistent (book : Bookkeeping) : Prop where
  lru : ∀ key : AgeKey, key ∈ book.lru ↔
    ∃ record, book.records.lookup key.hash = some record ∧ key = ageKey record.fetchedAt key.hash
  tokens : ∀ token storeHash, book.tokenIndex.lookup token = some storeHash →
    ∃ record, book.records.lookup storeHash = some record ∧ record.token = some token

theorem consistent_empty : Consistent {} where
  lru key := by
    constructor
    · intro h
      exact absurd h (Finset.notMem_empty _)
    · intro h
      obtain ⟨record, hrecord, -⟩ := h
      cases hrecord
  tokens _ _ h := by cases h

variable {book : Bookkeeping}

theorem lookup_records_remove (book : Bookkeeping) (storeHash other : List Char) :
    (book.remove storeHash).records.lookup other =
      if other = storeHash then none else book.records.lookup other := by
  unfold remove
  cases hrecord : book.records.lookup storeHash with
  | none =>
    dsimp only
    split
    · rename_i h
      rw [h, hrecord]
    · rfl
  | some record => exact lookup_erase book.records storeHash other

variable {storeHash : List Char}

theorem lookup_tokenIndex_unlink {index : Table (List Char) (List Char)} {token other : List Char}
    {linked : Option (List Char)} (h : (unlink index storeHash linked).lookup token = some other) :
    index.lookup token = some other ∧ (other = storeHash → linked ≠ some token) := by
  cases linked with
  | none => exact ⟨h, fun _ => nofun⟩
  | some own =>
    simp only [unlink] at h
    split at h
    · rename_i hown
      rw [lookup_erase] at h
      split at h
      · cases h
      · rename_i hne
        exact ⟨h, fun _ heq => hne (Option.some.inj heq).symm⟩
    rename_i hown
    refine ⟨h, fun heq hlinked => hown ?_⟩
    rw [Option.some.inj hlinked, h, heq]

theorem Consistent.mem_lru_remove (h : book.Consistent) (storeHash : List Char) (key : AgeKey) :
    key ∈ (book.remove storeHash).lru ↔ key ∈ book.lru ∧ key.hash ≠ storeHash := by
  unfold remove
  cases hrecord : book.records.lookup storeHash with
  | none =>
    refine ⟨fun hmem => ⟨hmem, fun heq => ?_⟩, fun hmem => hmem.1⟩
    obtain ⟨record, hfound, -⟩ := (h.lru key).mp hmem
    rw [heq, hrecord] at hfound
    cases hfound
  | some record =>
    rw [Finset.mem_erase, and_comm]
    refine and_congr_right fun hmem => not_congr ⟨fun heq => ?_, fun heq => ?_⟩
    · rw [heq]
      rfl
    · obtain ⟨found, hfound, hkey⟩ := (h.lru key).mp hmem
      rw [heq, hrecord] at hfound
      rw [hkey, heq, ← Option.some.inj hfound]

theorem Consistent.remove (h : book.Consistent) (storeHash : List Char) : (book.remove storeHash).Consistent := by
  refine ⟨fun key => ?_, fun token other htoken => ?_⟩
  · rw [h.mem_lru_remove, h.lru, lookup_records_remove]
    by_cases heq : key.hash = storeHash
    · rw [if_pos heq]
      refine ⟨fun hmem => absurd heq hmem.2, fun hmem => ?_⟩
      obtain ⟨record, hrecord, -⟩ := hmem
      cases hrecord
    · rw [if_neg heq]
      exact and_iff_left heq
  · rw [lookup_records_remove]
    cases hrecord : book.records.lookup storeHash with
    | none =>
      simp only [Bookkeeping.remove, hrecord] at htoken
      obtain ⟨record, hfound, hcarries⟩ := h.tokens token other htoken
      have hne : other ≠ storeHash := by
        intro heq
        rw [heq, hrecord] at hfound
        cases hfound
      rw [if_neg hne]
      exact ⟨record, hfound, hcarries⟩
    | some removed =>
      simp only [Bookkeeping.remove, hrecord] at htoken
      obtain ⟨hbefore, hlinked⟩ := lookup_tokenIndex_unlink htoken
      obtain ⟨record, hfound, hcarries⟩ := h.tokens token other hbefore
      have hne : other ≠ storeHash := by
        intro heq
        rw [heq, hrecord] at hfound
        exact hlinked heq (Option.some.inj hfound ▸ hcarries)
      rw [if_neg hne]
      exact ⟨record, hfound, hcarries⟩

theorem Consistent.insert (h : book.Consistent) (hfresh : book.records.lookup storeHash = none)
    (fetchedAt : UInt64) (token : Option (List Char)) : (book.insert storeHash fetchedAt token).Consistent := by
  have hlookup : ∀ other, (book.insert storeHash fetchedAt token).records.lookup other =
      if other = storeHash then some ⟨fetchedAt, token⟩ else book.records.lookup other :=
    fun other => lookup_insert book.records storeHash other _
  have hother : ∀ {other record}, book.records.lookup other = some record → other ≠ storeHash := by
    intro other record hfound heq
    rw [heq, hfresh] at hfound
    cases hfound
  refine ⟨fun key => ?_, fun named other hnamed => ?_⟩
  · rw [hlookup]
    change key ∈ Insert.insert (ageKey fetchedAt storeHash) book.lru ↔ _
    rw [Finset.mem_insert, h.lru]
    by_cases heq : key.hash = storeHash
    · rw [if_pos heq]
      constructor
      · rintro (hkey | ⟨record, hfound, -⟩)
        · exact ⟨_, rfl, hkey.trans (by rw [heq])⟩
        · exact absurd heq (hother hfound)
      · rintro ⟨record, hrecord, hkey⟩
        rw [← Option.some.inj hrecord, heq] at hkey
        exact .inl hkey
    rw [if_neg heq]
    refine ⟨fun hmem => hmem.resolve_left fun hkey => heq ?_, .inr⟩
    rw [hkey]
    rfl
  · rw [hlookup]
    have hbefore : book.tokenIndex.lookup named = some other → ∃ record,
        (if other = storeHash then some ⟨fetchedAt, token⟩ else book.records.lookup other) = some record ∧
          record.token = some named := by
      intro hindex
      obtain ⟨record, hfound, hcarries⟩ := h.tokens named other hindex
      rw [if_neg (hother hfound)]
      exact ⟨record, hfound, hcarries⟩
    cases token with
    | none => exact hbefore hnamed
    | some token =>
      change (book.tokenIndex.insert token storeHash).lookup named = some other at hnamed
      rw [lookup_insert] at hnamed
      split at hnamed
      · rename_i heq
        rw [if_pos (Option.some.inj hnamed).symm, heq]
        exact ⟨_, rfl, rfl⟩
      · exact hbefore hnamed

theorem Consistent.replace (h : book.Consistent) (storeHash : List Char) (fetchedAt : UInt64)
    (token : Option (List Char)) : ((book.remove storeHash).insert storeHash fetchedAt token).Consistent := by
  refine (h.remove storeHash).insert ?_ fetchedAt token
  rw [lookup_records_remove, if_pos rfl]

theorem size_remove {record : CacheRecord} (h : book.records.lookup storeHash = some record) :
    (book.remove storeHash).size + 1 = book.size := by
  have hsome : (book.records.lookup storeHash).isSome := by
    rw [h]
    rfl
  unfold size remove
  rw [h]
  exact size_erase_of_isSome hsome

variable {spare : Option (List Char)} {key : AgeKey}

theorem mem_others :
    key ∈ book.others spare ↔ key ∈ book.lru ∧ spare ≠ some key.hash := Finset.mem_filter

theorem Consistent.key_inj (h : book.Consistent) {key' : AgeKey} (hkey : key ∈ book.lru)
    (hkey' : key' ∈ book.lru) (hhash : key.hash = key'.hash) : key = key' := by
  obtain ⟨record, hrecord, heq⟩ := (h.lru key).mp hkey
  obtain ⟨record', hrecord', heq'⟩ := (h.lru key').mp hkey'
  rw [hhash] at hrecord
  rw [heq, heq', hhash, Option.some.inj (hrecord.symm.trans hrecord')]

def victimKeys (book : Bookkeeping) (victims : List (List Char)) : Finset AgeKey :=
  book.lru.filter fun key => victims.contains key.hash

theorem mem_victimKeys {victims : List (List Char)} :
    key ∈ book.victimKeys victims ↔ key ∈ book.lru ∧ key.hash ∈ victims := by
  rw [victimKeys, Finset.mem_filter, List.contains_iff_mem]

structure Evicts (cap : Nat) (spare : Option (List Char)) (book : Bookkeeping) (eviction : Eviction) : Prop where
  consistent : eviction.book.Consistent
  spared : ∀ victim ∈ eviction.victims, spare ≠ some victim
  size : eviction.book.size + eviction.victims.length = book.size
  least : LeastOf eviction.victims.length (book.others spare) (book.victimKeys eviction.victims)
  stops : min cap book.size ≤ eviction.book.size
  enough : eviction.book.size ≤ cap ∨ eviction.book.others spare = ∅

variable {cap : Nat}

theorem evicts_nothing (h : book.Consistent) (henough : book.size ≤ cap ∨ book.others spare = ∅) :
    Evicts cap spare book ⟨book, []⟩ where
  consistent := h
  spared _ hmem := absurd hmem List.not_mem_nil
  size := rfl
  least := by
    have hnone : book.victimKeys [] = ∅ := Finset.eq_empty_of_forall_notMem fun _ hkey =>
      List.not_mem_nil (mem_victimKeys.mp hkey).2
    rw [hnone]
    exact leastOf_zero _
  stops := Nat.min_le_right _ _
  enough := henough

variable {eviction : Eviction}

theorem Evicts.cons {victim : AgeKey} (h : book.Consistent) (hlt : cap < book.size)
    (hvictim : victim ∈ book.others spare) (hleast : ∀ other ∈ book.others spare, victim ≤ other)
    (hrest : Evicts cap spare (book.remove victim.hash) eviction) :
    Evicts cap spare book ⟨eviction.book, victim.hash :: eviction.victims⟩ := by
  obtain ⟨hmem, hspared⟩ := mem_others.mp hvictim
  obtain ⟨record, hrecord, -⟩ := (h.lru victim).mp hmem
  have hsize := size_remove hrecord
  have hremoved : ∀ key, key ∈ (book.remove victim.hash).lru ↔ key ∈ book.lru ∧ key ≠ victim := by
    intro key
    rw [h.mem_lru_remove]
    exact and_congr_right fun hkey => not_congr ⟨h.key_inj hkey hmem, congrArg AgeKey.hash⟩
  have hothers : (book.remove victim.hash).others spare = (book.others spare).erase victim := by
    ext key
    rw [mem_others, hremoved, Finset.mem_erase, mem_others]
    tauto
  have hkeys : book.victimKeys (victim.hash :: eviction.victims) =
      Insert.insert victim ((book.remove victim.hash).victimKeys eviction.victims) := by
    ext key
    rw [mem_victimKeys, Finset.mem_insert, mem_victimKeys, hremoved, List.mem_cons]
    by_cases heq : key = victim
    · rw [heq]
      exact ⟨fun _ => .inl rfl, fun _ => ⟨hmem, .inl rfl⟩⟩
    · have hne : key ∈ book.lru → key.hash ≠ victim.hash := fun hkey hhash => heq (h.key_inj hkey hmem hhash)
      tauto
  refine ⟨hrest.consistent, fun other hother => ?_, ?_, ?_, ?_, hrest.enough⟩
  · obtain rfl | hother := List.mem_cons.mp hother
    · exact hspared
    · exact hrest.spared other hother
  · have hcount := hrest.size
    change eviction.book.size + (eviction.victims.length + 1) = book.size
    omega
  · have hrestLeast := hrest.least
    rw [hothers] at hrestLeast
    rw [hkeys, List.length_cons]
    exact hrestLeast.insert_least hvictim hleast
  · have hstops := hrest.stops
    dsimp only
    omega

theorem evicts_evictLoop (cap : Nat) (spare : Option (List Char)) {rounds : Nat} (h : book.Consistent)
    (hrounds : book.size ≤ cap + rounds) : Evicts cap spare book (evictLoop cap spare rounds book) := by
  induction rounds generalizing book with
  | zero => exact evicts_nothing h (.inl hrounds)
  | succ rounds ih =>
    unfold evictLoop
    by_cases hlt : cap < book.size
    · rw [if_pos hlt]
      by_cases hsome : (book.others spare).Nonempty
      · have holdest : book.oldest spare = some ((book.others spare).min' hsome) := dif_pos hsome
        have hmem := (book.others spare).min'_mem hsome
        rw [holdest]
        refine Evicts.cons h hlt hmem (fun other hother => Finset.min'_le _ other hother) (ih (h.remove _) ?_)
        obtain ⟨record, hrecord, -⟩ := (h.lru _).mp (mem_others.mp hmem).1
        have := size_remove hrecord
        omega
      have holdest : book.oldest spare = none := dif_neg hsome
      rw [holdest]
      exact evicts_nothing h (.inr (Finset.not_nonempty_iff_eq_empty.mp hsome))
    · rw [if_neg hlt]
      exact evicts_nothing h (.inl (Nat.le_of_not_lt hlt))

theorem evicts_evictOverCap (cap : Nat) (spare : Option (List Char)) (h : book.Consistent) :
    Evicts cap spare book (book.evictOverCap cap spare) :=
  evicts_evictLoop cap spare h (Nat.le_add_left _ _)

theorem Consistent.size_le_of_others (h : book.Consistent) (hnone : book.others spare = ∅) :
    book.size ≤ (spare.elim 0 fun _ => 1) := by
  have hkeys : ∀ storeHash ∈ book.records.keys, spare = some storeHash := by
    intro storeHash hmem
    obtain ⟨record, hrecord⟩ := Option.isSome_iff_exists.mp (AList.lookup_isSome.mpr (AList.mem_keys.mpr hmem))
    by_contra hne
    have hother : ageKey record.fetchedAt storeHash ∈ book.others spare :=
      mem_others.mpr ⟨(h.lru _).mpr ⟨record, hrecord, rfl⟩, hne⟩
    rw [hnone] at hother
    exact absurd hother (Finset.notMem_empty _)
  rw [size, size_eq_keys]
  have hnodup := book.records.keys_nodup
  cases hlist : book.records.keys with
  | nil => exact Nat.zero_le _
  | cons first rest =>
    rw [hlist] at hkeys hnodup
    have hfirst := hkeys first List.mem_cons_self
    have hrest : rest = [] := by
      rw [List.eq_nil_iff_forall_not_mem]
      intro other hother
      have hsame := hfirst.symm.trans (hkeys other (List.mem_cons_of_mem first hother))
      exact (List.nodup_cons.mp hnodup).1 (Option.some.inj hsame ▸ hother)
    rw [hrest, hfirst]
    exact Nat.le_refl 1

theorem Evicts.size_le (hcap : cap ≠ 0) (h : Evicts cap spare book eviction) : eviction.book.size ≤ cap := by
  obtain hle | hnone := h.enough
  · exact hle
  have := h.consistent.size_le_of_others hnone
  cases spare with
  | none =>
    rw [Option.elim_none] at this
    omega
  | some storeHash =>
    rw [Option.elim_some] at this
    omega

theorem Evicts.length_victims (hcap : cap ≠ 0) (h : Evicts cap spare book eviction) :
    eviction.victims.length = book.size - cap := by
  have hfits := h.size_le hcap
  have htotal := h.size
  have hstops := h.stops
  omega

variable {rows : List SidecarRow}

theorem nodup_readRows {ls seen : List (List Char)} (h : readRows seen ls = some rows) :
    (rows.map SidecarRow.storeHash).Nodup ∧ ∀ row ∈ rows, row.storeHash ∉ seen := by
  induction ls generalizing seen rows with
  | nil =>
    obtain rfl := Option.some.inj h
    exact ⟨List.nodup_nil, fun _ hmem => absurd hmem List.not_mem_nil⟩
  | cons line ls ih =>
    rw [readRows] at h
    split at h
    · exact ih h
    obtain ⟨row, -, hrow⟩ := Option.bind_eq_some_iff.mp h
    split at hrow
    · cases hrow
    rename_i hseen
    obtain ⟨rest, hrest, rfl⟩ := Option.map_eq_some_iff.mp hrow
    obtain ⟨hnodup, hfresh⟩ := ih hrest
    refine ⟨?_, fun other hother => ?_⟩
    · rw [List.map_cons, List.nodup_cons]
      refine ⟨fun hmem => ?_, hnodup⟩
      obtain ⟨other, hother, heq⟩ := List.mem_map.mp hmem
      exact hfresh other hother (heq ▸ List.mem_cons_self)
    · obtain rfl | hother := List.mem_cons.mp hother
      · exact hseen
      · exact fun hmem => hfresh other hother (List.mem_cons_of_mem _ hmem)

theorem Consistent.insertRows (h : book.Consistent) (hnodup : (rows.map SidecarRow.storeHash).Nodup)
    (hfresh : ∀ row ∈ rows, book.records.lookup row.storeHash = none) :
    (rows.foldl insertRow book).Consistent := by
  induction rows generalizing book with
  | nil => exact h
  | cons row rows ih =>
    rw [List.map_cons, List.nodup_cons] at hnodup
    refine ih (h.insert (hfresh row List.mem_cons_self) _ _) hnodup.2 fun other hother => ?_
    have hne : other.storeHash ≠ row.storeHash := fun heq =>
      hnodup.1 (heq ▸ List.mem_map_of_mem hother)
    change (book.records.insert row.storeHash _).lookup other.storeHash = none
    rw [lookup_insert, if_neg hne]
    exact hfresh other (List.mem_cons_of_mem row hother)

theorem Consistent.scanFile (h : book.Consistent) (file : DirFile) : (book.scanFile file).Consistent := by
  unfold Bookkeeping.scanFile
  split
  · exact h
  split
  · exact h
  · exact h.replace _ _ _

theorem consistent_readIndex (sidecar : Option (List UInt8)) (files : List DirFile) :
    (readIndex sidecar files).Consistent := by
  unfold readIndex
  split
  · rename_i rows hrows
    unfold readSidecar at hrows
    obtain ⟨text, -, htext⟩ := Option.bind_eq_some_iff.mp hrows
    split at htext
    · cases htext
    split at htext
    · exact consistent_empty.insertRows (nodup_readRows htext).1 fun _ _ => rfl
    · cases htext
  · exact List.foldlRecOn files Bookkeeping.scanFile consistent_empty fun _ h file _ => h.scanFile file

inductive BookEvent where
  | install (storeHash : List Char) (fetchedAt : UInt64) (token : Option (List Char))
  | trim

def apply (cap : Nat) (book : Bookkeeping) : BookEvent → Bookkeeping
  | .install storeHash fetchedAt token => (book.recordAndEvict cap storeHash fetchedAt token).book
  | .trim => (book.trimToCap cap).book

def history (cap : Nat) (sidecar : Option (List UInt8)) (files : List DirFile) (events : List BookEvent) :
    Bookkeeping :=
  events.foldl (apply cap) (loadIndex cap sidecar files).book

def Kept (cap : Nat) (book : Bookkeeping) : Prop := book.Consistent ∧ book.size ≤ cap

theorem kept_evictOverCap (hcap : cap ≠ 0) (h : book.Consistent) (spare : Option (List Char)) :
    Kept cap (book.evictOverCap cap spare).book :=
  ⟨(evicts_evictOverCap cap spare h).consistent, (evicts_evictOverCap cap spare h).size_le hcap⟩

theorem kept_history (hcap : cap ≠ 0) (sidecar : Option (List UInt8)) (files : List DirFile)
    (events : List BookEvent) : Kept cap (history cap sidecar files events) := by
  have hload : Kept cap (loadIndex cap sidecar files).book :=
    kept_evictOverCap hcap (consistent_readIndex sidecar files) none
  refine List.foldlRecOn events (apply cap) hload fun book h event _ => ?_
  cases event with
  | install storeHash fetchedAt token => exact kept_evictOverCap hcap (h.1.replace storeHash fetchedAt token) _
  | trim => exact kept_evictOverCap hcap h.1 none

/-- However a bookkeeping was loaded and changed, its ages are those of its records, its tokens lead to records that carry them, and it fits. An install evicts the oldest other entries, and no more than it must. -/
theorem bookkeeping_exact (maxEntries : {n : Nat // n ≠ 0}) (sidecar : Option (List UInt8))
    (files : List DirFile) (events : List BookEvent) :
    (∀ key : AgeKey, key ∈ (history maxEntries sidecar files events).lru ↔
      ∃ record, (history maxEntries sidecar files events).records.lookup key.hash = some record ∧
        key = ageKey record.fetchedAt key.hash) ∧
    (∀ token storeHash, (history maxEntries sidecar files events).tokenIndex.lookup token = some storeHash →
      ∃ record, (history maxEntries sidecar files events).records.lookup storeHash = some record ∧
        record.token = some token) ∧
    (history maxEntries sidecar files events).size ≤ maxEntries ∧
    ∀ storeHash fetchedAt token,
      let installed := ((history maxEntries sidecar files events).remove storeHash).insert storeHash fetchedAt token
      let eviction := (history maxEntries sidecar files events).recordAndEvict maxEntries storeHash fetchedAt token
      storeHash ∉ eviction.victims ∧ eviction.victims.length = installed.size - maxEntries ∧
        LeastOf (installed.size - maxEntries) (installed.others (some storeHash))
          (installed.victimKeys eviction.victims) := by
  obtain ⟨hconsistent, hsize⟩ := kept_history maxEntries.2 sidecar files events
  refine ⟨hconsistent.lru, hconsistent.tokens, hsize, fun storeHash fetchedAt token => ?_⟩
  have hevicts := evicts_evictOverCap maxEntries.1 (some storeHash)
    (hconsistent.replace storeHash fetchedAt token)
  have hcount := hevicts.length_victims maxEntries.2
  have hleast := hevicts.least
  rw [hcount] at hleast
  exact ⟨fun hvictim => hevicts.spared storeHash hvictim rfl, hcount, hleast⟩

end NixP2p.Bookkeeping
