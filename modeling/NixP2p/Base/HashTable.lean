import Mathlib.Algebra.Ring.Nat
import Mathlib.Data.List.AList

/-!
# Hash tables and their iteration order

A hash table is a list of entries with distinct keys, and looking up, inserting and removing do not depend on the order of that list. Walking the table does: the order in which a real table yields its entries is arbitrary, so every walk takes an `IterOrder`, some rearrangement of the entries, and what is proved about a walk is proved for all of them.
-/

namespace HashTable

variable {K V : Type}

abbrev Table (K V : Type) := AList fun _ : K => V

/-- An order in which a walk may yield its items. -/
structure IterOrder (α : Type) where
  arrange : List α → List α
  perm : ∀ items, (arrange items).Perm items

def IterOrder.id (α : Type) : IterOrder α := ⟨fun items => items, fun _ => List.Perm.refl _⟩

theorem IterOrder.mem_arrange {α : Type} (order : IterOrder α) {items : List α} {item : α} :
    item ∈ order.arrange items ↔ item ∈ items :=
  (order.perm items).mem_iff

def retain (keep : K → V → Bool) (table : Table K V) : Table K V where
  entries := table.entries.filter fun entry => keep entry.1 entry.2
  nodupKeys := List.NodupKeys.sublist List.filter_sublist table.nodupKeys

def filterMapEntries {W : Type} (f : V → Option W) (entries : List (Sigma fun _ : K => V)) :
    List (Sigma fun _ : K => W) :=
  entries.filterMap fun entry => (f entry.2).map fun value => ⟨entry.1, value⟩

theorem keys_filterMapEntries {W : Type} (f : V → Option W) (entries : List (Sigma fun _ : K => V)) :
    (filterMapEntries f entries).keys.Sublist entries.keys := by
  induction entries with
  | nil => exact List.Sublist.refl _
  | cons entry entries ih =>
    unfold filterMapEntries
    cases hvalue : f entry.2 with
    | none =>
      rw [List.filterMap_cons_none (by rw [hvalue]; rfl)]
      exact ih.cons _
    | some value =>
      rw [List.filterMap_cons_some (by rw [hvalue]; rfl)]
      exact ih.cons_cons _

def filterMapValues {W : Type} (f : V → Option W) (table : Table K V) : Table K W where
  entries := filterMapEntries f table.entries
  nodupKeys := List.Nodup.sublist (keys_filterMapEntries f table.entries) table.nodupKeys

def nonempty? (table : Table K V) : Option (Table K V) :=
  if table.entries = [] then none else some table

variable [DecidableEq K]

theorem lookup_nonempty? (table : Table K V) (key : K) :
    ((nonempty? table).bind fun table => table.lookup key) = table.lookup key := by
  by_cases hempty : table.entries = []
  · have htable : table = ∅ := AList.ext hempty
    rw [nonempty?, if_pos hempty, htable, AList.lookup_empty]
    rfl
  · rw [nonempty?, if_neg hempty, Option.bind_some]

theorem lookup_insert (table : Table K V) (key other : K) (value : V) :
    (table.insert key value).lookup other = if other = key then some value else table.lookup other := by
  by_cases h : other = key
  · subst h
    rw [AList.lookup_insert, if_pos rfl]
  · rw [AList.lookup_insert_ne h, if_neg h]

theorem lookup_erase (table : Table K V) (key other : K) :
    (table.erase key).lookup other = if other = key then none else table.lookup other := by
  by_cases h : other = key
  · subst h
    rw [AList.lookup_erase, if_pos rfl]
  · rw [AList.lookup_erase_ne h, if_neg h]

def put (table : Table K V) (key : K) : Option V → Table K V
  | none => table.erase key
  | some value => table.insert key value

theorem lookup_put (table : Table K V) (key other : K) (value : Option V) :
    (put table key value).lookup other = if other = key then value else table.lookup other := by
  cases value with
  | none => exact lookup_erase table key other
  | some value => exact lookup_insert table key other value

theorem lookup_retain (keep : K → V → Bool) (table : Table K V) (key : K) :
    (retain keep table).lookup key = (table.lookup key).filter (keep key) := by
  apply Option.ext
  intro value
  change value ∈ AList.lookup key (retain keep table) ↔ value ∈ (table.lookup key).filter (keep key)
  rw [AList.mem_lookup_iff]
  change (⟨key, value⟩ : Sigma fun _ : K => V) ∈ table.entries.filter _ ↔ _
  rw [List.mem_filter, ← AList.mem_lookup_iff, Option.mem_def, Option.mem_def, Option.filter_eq_some_iff]

theorem lookup_filterMapValues {W : Type} (f : V → Option W) (table : Table K V) (key : K) :
    (filterMapValues f table).lookup key = (table.lookup key).bind f := by
  apply Option.ext
  intro value
  change value ∈ AList.lookup key (filterMapValues f table) ↔ _
  rw [AList.mem_lookup_iff, Option.bind_eq_some_iff]
  change (⟨key, value⟩ : Sigma fun _ : K => W) ∈ filterMapEntries f table.entries ↔ _
  simp only [filterMapEntries, List.mem_filterMap, Option.map_eq_some_iff]
  constructor
  · intro h
    obtain ⟨⟨_, old⟩, hentry, new, hnew, heq⟩ := h
    obtain ⟨rfl, ⟨⟩⟩ := Sigma.mk.inj heq
    exact ⟨old, AList.mem_lookup_iff.mpr hentry, hnew⟩
  · intro h
    obtain ⟨old, hold, hnew⟩ := h
    exact ⟨⟨key, old⟩, AList.mem_lookup_iff.mp hold, value, hnew, rfl⟩

def ofEntries (entries : List (K × V)) : Table K V :=
  entries.foldl (fun table entry => table.insert entry.1 entry.2) ∅

def toEntries (table : Table K V) : List (K × V) := table.entries.map fun entry => (entry.1, entry.2)

variable {table : Table K V} {key : K}

theorem mem_toEntries {value : V} : (key, value) ∈ toEntries table ↔ table.lookup key = some value := by
  have hmem : (key, value) ∈ toEntries table ↔ (⟨key, value⟩ : Sigma fun _ : K => V) ∈ table.entries := by
    simp only [toEntries, List.mem_map, Prod.mk.injEq]
    constructor
    · intro h
      obtain ⟨⟨_, _⟩, hentry, rfl, rfl⟩ := h
      exact hentry
    · intro hentry
      exact ⟨_, hentry, rfl, rfl⟩
  rw [hmem, ← AList.mem_lookup_iff, Option.mem_def]

omit [DecidableEq K] in
theorem nodup_toEntries (table : Table K V) : ((toEntries table).map Prod.fst).Nodup := by
  have hkeys : (toEntries table).map Prod.fst = table.keys := by simp [toEntries, AList.keys, List.keys]
  rw [hkeys]
  exact table.keys_nodup

variable {entries : List (K × V)}

theorem lookup_foldl_insert (hnodup : (entries.map Prod.fst).Nodup) (table : Table K V) (key : K) (value : V) :
    (entries.foldl (fun table entry => table.insert entry.1 entry.2) table).lookup key = some value ↔
      (key, value) ∈ entries ∨ key ∉ entries.map Prod.fst ∧ table.lookup key = some value := by
  induction entries generalizing table with
  | nil => simp
  | cons entry entries ih =>
    obtain ⟨hfresh, hrest⟩ := List.nodup_cons.mp hnodup
    rw [List.foldl_cons, ih hrest, lookup_insert, List.map_cons, List.mem_cons, List.mem_cons, not_or]
    by_cases hkey : key = entry.1
    · subst hkey
      have habsent : (entry.1, value) ∉ entries := fun hmem =>
        hfresh (List.mem_map.mpr ⟨_, hmem, rfl⟩)
      simp [habsent, hfresh, Prod.ext_iff, eq_comm]
    · simp [hkey, Prod.ext_iff]

theorem lookup_ofEntries (hnodup : (entries.map Prod.fst).Nodup) (key : K) (value : V) :
    (ofEntries entries).lookup key = some value ↔ (key, value) ∈ entries := by
  simp [ofEntries, lookup_foldl_insert hnodup]

theorem lookup_ofEntries_arrange (order : IterOrder (K × V)) (table : Table K V) (key : K) :
    (ofEntries (order.arrange (toEntries table))).lookup key = table.lookup key := by
  have hperm := order.perm (toEntries table)
  have hnodup : ((order.arrange (toEntries table)).map Prod.fst).Nodup :=
    (hperm.map Prod.fst).nodup_iff.mpr (nodup_toEntries table)
  apply Option.ext
  intro value
  rw [lookup_ofEntries hnodup, order.mem_arrange, mem_toEntries]

omit [DecidableEq K] in
theorem size_eq_keys (table : Table K V) : table.entries.length = table.keys.length := by
  rw [AList.keys, List.keys, List.length_map]

theorem size_insert (table : Table K V) (key : K) (value : V) :
    (table.insert key value).entries.length = (table.erase key).entries.length + 1 :=
  List.length_cons

theorem size_erase_of_isSome (h : (table.lookup key).isSome) :
    (table.erase key).entries.length + 1 = table.entries.length := by
  have hmem : key ∈ table.keys := AList.mem_keys.mpr (AList.lookup_isSome.mp h)
  have hpos := List.length_pos_of_mem hmem
  rw [size_eq_keys, size_eq_keys, AList.keys_erase, List.length_erase_of_mem hmem]
  omega

theorem size_erase_of_none (h : table.lookup key = none) :
    (table.erase key).entries.length = table.entries.length := by
  rw [size_eq_keys, size_eq_keys, AList.keys_erase, List.erase_of_not_mem]
  exact fun hmem => AList.lookup_eq_none.mp h (AList.mem_keys.mp hmem)

theorem size_erase_le (table : Table K V) (key : K) :
    (table.erase key).entries.length ≤ table.entries.length := by
  rw [size_eq_keys, size_eq_keys, AList.keys_erase]
  exact List.length_erase_le

theorem size_ofEntries_le (entries : List (K × V)) : (ofEntries entries).entries.length ≤ entries.length := by
  have hfold : ∀ (entries : List (K × V)) (table : Table K V),
      (entries.foldl (fun table entry => table.insert entry.1 entry.2) table).entries.length ≤
        table.entries.length + entries.length := by
    intro entries
    induction entries with
    | nil => exact fun _ => le_rfl
    | cons entry entries ih =>
      intro table
      have hinsert := size_insert table entry.1 entry.2
      have herase := size_erase_le table entry.1
      have hrest := ih (table.insert entry.1 entry.2)
      rw [List.foldl_cons, List.length_cons]
      omega
  simpa [ofEntries] using hfold entries ∅

def weigh (weight : V → Nat) (table : Table K V) : Nat := (table.entries.map fun entry => weight entry.2).sum

theorem weigh_insert (weight : V → Nat) (table : Table K V) (key : K) (value : V) :
    weigh weight (table.insert key value) = weight value + weigh weight (table.erase key) := by
  rw [weigh, AList.entries_insert, List.map_cons, List.sum_cons]
  rfl

theorem sum_kerase (weight : V → Nat) (entries : List (Sigma fun _ : K => V)) (key : K) :
    ((entries.kerase key).map fun entry => weight entry.2).sum + (entries.dlookup key).elim 0 weight =
      (entries.map fun entry => weight entry.2).sum := by
  induction entries with
  | nil => rfl
  | cons entry entries ih =>
    by_cases hkey : key = entry.1
    · obtain ⟨_, value⟩ := entry
      subst hkey
      have herase : List.kerase key ((⟨key, value⟩ : Sigma fun _ : K => V) :: entries) = entries :=
        List.kerase_cons_eq rfl
      rw [herase, List.dlookup_cons_eq, List.map_cons, List.sum_cons]
      exact Nat.add_comm _ _
    rw [List.kerase_cons_ne hkey, List.dlookup_cons_ne entries entry hkey, List.map_cons, List.map_cons,
      List.sum_cons, List.sum_cons]
    omega

theorem weigh_erase (weight : V → Nat) (table : Table K V) (key : K) :
    weigh weight (table.erase key) + (table.lookup key).elim 0 weight = weigh weight table :=
  sum_kerase weight table.entries key

theorem weigh_put (weight : V → Nat) (table : Table K V) (key : K) (value : Option V) :
    weigh weight (put table key value) + (table.lookup key).elim 0 weight =
      weigh weight table + value.elim 0 weight := by
  have herase := weigh_erase weight table key
  cases value with
  | none => exact herase
  | some value =>
    rw [put, weigh_insert, Option.elim_some]
    omega

variable {L : Type} [DecidableEq L]

def cell? (table : Table K (Table L V)) (outer : K) (inner : L) : Option V :=
  (table.lookup outer).bind fun bucket => bucket.lookup inner

/-- Entering a bucket, created when missing, and writing one value there. -/
def insertCell (table : Table K (Table L V)) (outer : K) (inner : L) (value : V) : Table K (Table L V) :=
  table.insert outer (((table.lookup outer).getD ∅).insert inner value)

/-- Erasing one value, and the bucket it leaves empty. -/
def eraseCell (table : Table K (Table L V)) (outer : K) (inner : L) : Table K (Table L V) :=
  match table.lookup outer with
  | none => table
  | some bucket => put table outer (nonempty? (bucket.erase inner))

theorem cell?_insertCell (table : Table K (Table L V)) (outer other : K) (inner inner' : L) (value : V) :
    cell? (insertCell table outer inner value) other inner' =
      if other = outer ∧ inner' = inner then some value else cell? table other inner' := by
  rw [cell?, insertCell, lookup_insert]
  by_cases houter : other = outer
  · subst houter
    rw [if_pos rfl, Option.bind_some, lookup_insert]
    by_cases hinner : inner' = inner
    · rw [if_pos hinner, if_pos ⟨rfl, hinner⟩]
    rw [if_neg hinner, if_neg fun h => hinner h.2, cell?]
    cases table.lookup other with
    | none => rw [Option.getD_none, AList.lookup_empty]; rfl
    | some bucket => rfl
  · rw [if_neg houter, if_neg fun h => houter h.1, cell?]

theorem cell?_eraseCell (table : Table K (Table L V)) (outer other : K) (inner inner' : L) :
    cell? (eraseCell table outer inner) other inner' =
      if other = outer ∧ inner' = inner then none else cell? table other inner' := by
  rw [eraseCell]
  cases hbucket : table.lookup outer with
  | none =>
    by_cases h : other = outer ∧ inner' = inner
    · rw [if_pos h, cell?, h.1, hbucket, Option.bind_none]
    · rw [if_neg h]
  | some bucket =>
    dsimp only
    rw [cell?, lookup_put]
    by_cases houter : other = outer
    · subst houter
      rw [if_pos rfl, lookup_nonempty?, lookup_erase]
      by_cases hinner : inner' = inner
      · rw [if_pos hinner, if_pos ⟨rfl, hinner⟩]
      · rw [if_neg hinner, if_neg fun h => hinner h.2, cell?, hbucket, Option.bind_some]
    · rw [if_neg houter, if_neg fun h => houter h.1, cell?]

end HashTable
