import Mathlib.Data.List.Count
import NixP2p.Growth.AfterFetch

/-!
# The announce budget is conserved

A unit of the budget is unspent, reserved by a key in flight, or spent on an announced key. The tasks act on snapshots that may be stale, but each one that carries a reserved key is the only one that does, so a refund gives back exactly what was reserved and nothing of the seed leg is ever reserved, held or withdrawn.
-/

namespace NixP2p

open HashTable

/-! ### Tasks -/

namespace DispatchTask

def reserved? : DispatchTask → Option NarHashKey
  | .spawned grow | .reconciling _ grow | .dropping _ _ grow => grow.map (·.1)
  | .growing key _ | .committing key _ _ => some key
  | .finished => none

def goneKeys : DispatchTask → List NarHashKey
  | .reconciling gone _ => gone.map (·.1)
  | .dropping key gone _ => key :: gone.map (·.1)
  | _ => []

end DispatchTask

def reservedAt (tasks : List DispatchTask) (position : Nat) : Option NarHashKey :=
  tasks[position]?.bind DispatchTask.reserved?

/-- A grow of the key may have been published and is about to be committed. -/
def Settling (tasks : List DispatchTask) (key : NarHashKey) : Prop :=
  ∃ (position : Nat) (storePath : String) (contentKey : ContentKey),
    tasks[position]? = some (.committing key storePath (some contentKey))

section Tasks

variable {tasks : List DispatchTask} {position : Nat} {old : DispatchTask}

theorem reservedAt_set (hold : tasks[position]? = some old) (new : DispatchTask) (other : Nat) :
    reservedAt (tasks.set position new) other =
      if other = position then new.reserved? else reservedAt tasks other := by
  have hlt : position < tasks.length := (List.getElem?_eq_some_iff.mp hold).1
  rw [reservedAt, List.getElem?_set]
  by_cases heq : position = other
  · subst heq
    rw [if_pos rfl, if_pos hlt, if_pos rfl]
    rfl
  · rw [if_neg heq, if_neg (Ne.symm heq)]
    rfl

variable {key : NarHashKey}

theorem of_reservedAt_finished (hold : tasks[position]? = some old) {other : Nat}
    (h : reservedAt (tasks.set position .finished) other = some key) :
    other ≠ position ∧ reservedAt tasks other = some key := by
  rw [reservedAt_set hold] at h
  by_cases heq : other = position
  · rw [if_pos heq] at h
    cases h
  · rw [if_neg heq] at h
    exact ⟨heq, h⟩

theorem reservedAt_append (tasks : List DispatchTask) (new : DispatchTask) (other : Nat) :
    reservedAt (tasks ++ [new]) other =
      if other = tasks.length then new.reserved? else reservedAt tasks other := by
  rw [reservedAt, reservedAt]
  by_cases heq : other = tasks.length
  · subst heq
    simp
  rw [if_neg heq]
  by_cases hlt : other < tasks.length
  · rw [List.getElem?_append_left hlt]
  have hlength : (tasks ++ [new]).length ≤ other := by
    rw [List.length_append, List.length_singleton]
    omega
  rw [List.getElem?_eq_none hlength, List.getElem?_eq_none (by omega)]

theorem of_reservedAt_spawned {found : NarHashKey} {storePath : String} {other : Nat}
    (h : reservedAt (tasks ++ [.spawned (some (key, storePath))]) other = some found) :
    (other = tasks.length ∧ found = key) ∨ reservedAt tasks other = some found := by
  rw [reservedAt_append] at h
  by_cases heq : other = tasks.length
  · rw [if_pos heq] at h
    exact .inl ⟨heq, (Option.some.inj h).symm⟩
  · rw [if_neg heq] at h
    exact .inr h

theorem Settling.set (h : Settling tasks key) (hold : tasks[position]? = some old)
    (hother : ∀ storePath contentKey, old ≠ .committing key storePath (some contentKey)) (new : DispatchTask) :
    Settling (tasks.set position new) key := by
  obtain ⟨place, storePath, contentKey, htask⟩ := h
  refine ⟨place, storePath, contentKey, ?_⟩
  have hne : position ≠ place := by
    rintro rfl
    exact hother storePath contentKey (Option.some.inj (hold.symm.trans htask))
  rw [List.getElem?_set_ne hne]
  exact htask

theorem Settling.append (h : Settling tasks key) (new : DispatchTask) : Settling (tasks ++ [new]) key := by
  obtain ⟨place, storePath, contentKey, htask⟩ := h
  have hlt := (List.getElem?_eq_some_iff.mp htask).1
  exact ⟨place, storePath, contentKey, (List.getElem?_append_left hlt).trans htask⟩

end Tasks

/-! ### The invariant -/

/-- A ledger whose units add up to the budget, with no key in two places and none of the seed leg's. -/
structure AnnounceLedger.Sound (cap : Nat) (seedOwned : Finset NarHashKey) (led : AnnounceLedger) : Prop where
  owner : led.seedOwned = seedOwned
  conserved : led.remaining.toNat + led.inflight.card + led.announced.card = cap
  apart : ∀ key ∈ led.inflight, key ∉ led.announced
  held : ∀ key holding, led.held.lookup key = some holding → key ∈ led.announced
  unowned : ∀ key ∈ seedOwned, key ∉ led.inflight ∧ key ∉ led.announced

structure AnnounceSystem.Sound (cap : Nat) (seedOwned : Finset NarHashKey) (state : AnnounceSystem) :
    Prop where
  ledger : state.ledger.Sound cap seedOwned
  reserved : ∀ position key, reservedAt state.tasks position = some key → key ∈ state.ledger.inflight
  single : ∀ left right key, reservedAt state.tasks left = some key →
    reservedAt state.tasks right = some key → left = right
  gone : ∀ task ∈ state.tasks, ∀ key ∈ task.goneKeys, key ∈ state.ledger.announced
  withdrawn : ∀ withdrawal ∈ state.withdrawn, withdrawal.1 ∈ state.ledger.announced
  published : ∀ key ∈ state.published, key ∈ state.ledger.announced ∨ Settling state.tasks key

/-! ### The ledger's own steps -/

namespace AnnounceLedger

variable {cap : Nat} {seedOwned : Finset NarHashKey} {led : AnnounceLedger}

/-- What `begin` does: it turns the key away and leaves the ledger, or reserves one unit for a key that is new. -/
theorem begin_cases (led : AnnounceLedger) (key : NarHashKey) :
    ((led.begin key).1 = led ∧ (led.begin key).2 ≠ .proceed) ∨
      (key ∉ led.seedOwned ∧ key ∉ led.announced ∧ key ∉ led.inflight ∧ led.remaining ≠ 0 ∧
        led.begin key =
          ({ led with remaining := led.remaining - 1, inflight := insert key led.inflight }, .proceed)) := by
  unfold AnnounceLedger.begin
  by_cases hseed : key ∈ led.seedOwned
  · exact .inl (by simp [hseed])
  by_cases hhandled : key ∈ led.announced ∨ key ∈ led.inflight
  · exact .inl (by simp [hseed, hhandled])
  by_cases hzero : led.remaining = 0
  · exact .inl (by simp [hseed, hhandled, hzero])
  · obtain ⟨hannounced, hinflight⟩ := not_or.mp hhandled
    exact .inr ⟨hseed, hannounced, hinflight, hzero, by simp [hseed, hhandled, hzero]⟩

variable {key : NarHashKey}

theorem Sound.reserve (h : led.Sound cap seedOwned) (hseed : key ∉ led.seedOwned)
    (hannounced : key ∉ led.announced) (hinflight : key ∉ led.inflight) (hroom : led.remaining ≠ 0) :
    Sound cap seedOwned
      { led with remaining := led.remaining - 1, inflight := insert key led.inflight } where
  owner := h.owner
  conserved := by
    have hone : (1 : UInt64) ≤ led.remaining := by
      rw [UInt64.le_iff_toNat_le]
      change 1 ≤ led.remaining.toNat
      have : led.remaining.toNat ≠ 0 := fun hzero => hroom (UInt64.toNat_inj.mp hzero)
      omega
    have hpos : 1 ≤ led.remaining.toNat := UInt64.le_iff_toNat_le.mp hone
    have hsub : (led.remaining - 1).toNat = led.remaining.toNat - 1 := UInt64.toNat_sub_of_le _ _ hone
    have hcard := Finset.card_insert_of_notMem hinflight
    have hconserved := h.conserved
    change (led.remaining - 1).toNat + (insert key led.inflight).card + led.announced.card = cap
    omega
  apart other hother := by
    rcases Finset.mem_insert.mp hother with rfl | hold
    · exact hannounced
    · exact h.apart other hold
  held := h.held
  unowned other hother := by
    obtain ⟨hin, han⟩ := h.unowned other hother
    refine ⟨fun hmem => ?_, han⟩
    rcases Finset.mem_insert.mp hmem with rfl | hold
    · exact hseed (h.owner ▸ hother)
    · exact hin hold

theorem Sound.commitSuccess (h : led.Sound cap seedOwned) (hkey : key ∈ led.inflight) (contentKey : ContentKey)
    (storePath : String) : (led.commitSuccess key contentKey storePath).Sound cap seedOwned where
  owner := h.owner
  conserved := by
    have hconserved := h.conserved
    have hgone := Finset.card_erase_add_one hkey
    have hnew := Finset.card_insert_of_notMem (h.apart key hkey)
    change led.remaining.toNat + (led.inflight.erase key).card + (insert key led.announced).card = cap
    omega
  apart other hother hannounced := by
    obtain ⟨hne, hold⟩ := Finset.mem_erase.mp hother
    rcases Finset.mem_insert.mp hannounced with heq | hmem
    · exact hne heq
    · exact h.apart other hold hmem
  held other holding hholding := by
    change AList.lookup other (AList.insert key _ led.held) = some holding at hholding
    rw [lookup_insert] at hholding
    by_cases heq : other = key
    · subst heq
      exact Finset.mem_insert_self _ _
    · rw [if_neg heq] at hholding
      exact Finset.mem_insert_of_mem (h.held other holding hholding)
  unowned other hother := by
    obtain ⟨hin, han⟩ := h.unowned other hother
    refine ⟨fun hmem => hin (Finset.mem_of_mem_erase hmem), fun hmem => ?_⟩
    rcases Finset.mem_insert.mp hmem with rfl | hold
    · exact hin hkey
    · exact han hold

theorem commitFailure_of_mem (hkey : key ∈ led.inflight) :
    led.commitFailure key =
      { led with inflight := led.inflight.erase key, remaining := led.remaining + 1 } :=
  if_pos hkey

theorem Sound.commitFailure (h : led.Sound cap seedOwned) (hcap : cap < 2 ^ 64) (hkey : key ∈ led.inflight) :
    (led.commitFailure key).Sound cap seedOwned := by
  rw [commitFailure_of_mem hkey]
  refine ⟨h.owner, ?_, fun other hother => h.apart other (Finset.mem_of_mem_erase hother), h.held,
    fun other hother => ?_⟩
  · have hconserved := h.conserved
    have hgone := Finset.card_erase_add_one hkey
    -- The refund cannot overflow: the unit came out of a budget that fits.
    have hadd : (led.remaining + 1).toNat = led.remaining.toNat + 1 := by
      rw [UInt64.toNat_add, Nat.mod_eq_of_lt]
      · rfl
      · change led.remaining.toNat + 1 < 2 ^ 64
        omega
    change (led.remaining + 1).toNat + (led.inflight.erase key).card + led.announced.card = cap
    omega
  · obtain ⟨hin, han⟩ := h.unowned other hother
    exact ⟨fun hmem => hin (Finset.mem_of_mem_erase hmem), han⟩

theorem Sound.dropHeld (h : led.Sound cap seedOwned) (key : NarHashKey) :
    (led.dropHeld key).Sound cap seedOwned :=
  { owner := h.owner
    conserved := h.conserved
    apart := h.apart
    unowned := h.unowned
    held := by
      intro other holding hholding
      change AList.lookup other (AList.erase key led.held) = some holding at hholding
      rw [lookup_erase] at hholding
      by_cases heq : other = key
      · rw [if_pos heq] at hholding
        cases hholding
      · rw [if_neg heq] at hholding
        exact h.held other holding hholding }

theorem Sound.gone (h : led.Sound cap seedOwned) {exist : String → Bool}
    {order : IterOrder (NarHashKey × ContentKey × String)} (hkey : key ∈ (led.gone exist order).map (·.1)) :
    key ∈ led.announced := by
  obtain ⟨⟨_, contentKey⟩, hmem, rfl⟩ := List.mem_map.mp hkey
  obtain ⟨⟨key, held, storePath⟩, hholding, heq⟩ := List.mem_map.mp hmem
  obtain ⟨rfl, rfl⟩ := Prod.mk.inj heq
  have hentry := (order.mem_arrange).mp (List.mem_filter.mp hholding).1
  exact h.held key _ (mem_toEntries.mp hentry)

end AnnounceLedger

/-! ### The steps of a task -/

namespace AnnounceSystem

variable {cap : Nat} {seedOwned : Finset NarHashKey} {state : AnnounceSystem} {position : Nat}
  {old : DispatchTask}

section

variable (h : state.Sound cap seedOwned)

include h

theorem Sound.replace (hold : state.tasks[position]? = some old)
    (hother : ∀ key storePath contentKey, old ≠ .committing key storePath (some contentKey)) (new : DispatchTask)
    (hsame : new.reserved? = old.reserved?) (hgone : ∀ key ∈ new.goneKeys, key ∈ state.ledger.announced) :
    Sound cap seedOwned { state with tasks := state.tasks.set position new } := by
  have hreserved : reservedAt (state.tasks.set position new) = reservedAt state.tasks := by
    funext other
    rw [reservedAt_set hold]
    by_cases heq : other = position
    · rw [if_pos heq, heq, reservedAt, hold, hsame]
      rfl
    · rw [if_neg heq]
  refine ⟨h.ledger, ?_, ?_, ?_, h.withdrawn, ?_⟩
  · dsimp only
    rw [hreserved]
    exact h.reserved
  · dsimp only
    rw [hreserved]
    exact h.single
  · intro task htask
    rcases List.mem_or_eq_of_mem_set htask with hmem | rfl
    · exact h.gone task hmem
    · exact hgone
  · intro key hkey
    exact (h.published key hkey).imp_right fun hsettling => hsettling.set hold (hother key) new

variable {key : NarHashKey}

theorem Sound.withdraw (hkey : key ∈ state.ledger.announced) (contentKey : ContentKey) :
    Sound cap seedOwned { state with withdrawn := state.withdrawn ++ [(key, contentKey)] } :=
  { h with
    withdrawn := by
      intro withdrawal hmem
      rcases List.mem_append.mp hmem with hold | hnew
      · exact h.withdrawn withdrawal hold
      · rw [List.mem_singleton.mp hnew]
        exact hkey }

theorem Sound.dropHeld (key : NarHashKey) :
    Sound cap seedOwned { state with ledger := state.ledger.dropHeld key } :=
  { h with ledger := h.ledger.dropHeld key }

/-- A task that commits its key: the key leaves `inflight`, and no other task had reserved it. -/
theorem Sound.finish (hold : state.tasks[position]? = some old) (hkey : old.reserved? = some key)
    {ledger : AnnounceLedger} (hledger : ledger.Sound cap seedOwned)
    (hinflight : ledger.inflight = state.ledger.inflight.erase key)
    (hannounced : state.ledger.announced ⊆ ledger.announced)
    (hsettled : ∀ other storePath contentKey, old = .committing other storePath (some contentKey) → other ∈ ledger.announced) :
    Sound cap seedOwned { state with ledger, tasks := state.tasks.set position .finished } := by
  have hmine : reservedAt state.tasks position = some key := by
    rw [reservedAt, hold]
    exact hkey
  refine ⟨hledger, ?_, ?_, ?_, fun withdrawal hmem => hannounced (h.withdrawn withdrawal hmem), ?_⟩
  · intro other found hfound
    obtain ⟨hne, hother⟩ := of_reservedAt_finished hold hfound
    rw [hinflight]
    refine Finset.mem_erase.mpr ⟨?_, h.reserved other found hother⟩
    rintro rfl
    exact hne (h.single other position found hother hmine)
  · intro left right found hleft hright
    exact h.single left right found (of_reservedAt_finished hold hleft).2
      (of_reservedAt_finished hold hright).2
  · intro task htask other hother
    rcases List.mem_or_eq_of_mem_set htask with hmem | rfl
    · exact hannounced (h.gone task hmem other hother)
    · cases hother
  · intro other hother
    rcases h.published other hother with hmem | hsettling
    · exact .inl (hannounced hmem)
    by_cases hthis : ∃ storePath contentKey, old = .committing other storePath (some contentKey)
    · obtain ⟨storePath, contentKey, heq⟩ := hthis
      exact .inl (hsettled other storePath contentKey heq)
    · refine .inr (hsettling.set hold (fun storePath contentKey heq => ?_) .finished)
      exact hthis ⟨storePath, contentKey, heq⟩

end

/-- What a fetch does: nothing, a task that only reconciles, or a task with a unit reserved for a new key. -/
theorem onFetched_cases (state : AnnounceSystem) (narHash : NarHash) (storePath : String) :
    state.onFetched narHash storePath = state ∨
      state.onFetched narHash storePath = { state with tasks := state.tasks ++ [.spawned none] } ∨
      ∃ key, key ∉ state.ledger.seedOwned ∧ key ∉ state.ledger.announced ∧
        key ∉ state.ledger.inflight ∧ state.ledger.remaining ≠ 0 ∧
        state.onFetched narHash storePath =
          { state with
            ledger := { state.ledger with
              remaining := state.ledger.remaining - 1, inflight := insert key state.ledger.inflight }
            tasks := state.tasks ++ [.spawned (some (key, storePath))] } := by
  unfold AnnounceSystem.onFetched
  cases NarHashKey.fromStr narHash with
  | error why => exact .inl rfl
  | ok key =>
    right
    dsimp only
    rcases state.ledger.begin_cases key with ⟨hled, hverdict⟩ | ⟨hseed, hannounced, hinflight, hroom, hbegin⟩
    · left
      split
      · rename_i hproceed
        rw [hproceed] at hverdict
        exact absurd rfl hverdict
      rename_i hturned
      rw [hturned] at hled
      dsimp only at hled
      rw [hled]
    · right
      exact ⟨key, hseed, hannounced, hinflight, hroom, by rw [hbegin]⟩

section

variable (h : state.Sound cap seedOwned)

include h

theorem Sound.spawnIdle : Sound cap seedOwned { state with tasks := state.tasks ++ [.spawned none] } := by
  have hreserved : reservedAt (state.tasks ++ [.spawned none]) = reservedAt state.tasks := by
    funext other
    rw [reservedAt_append]
    by_cases heq : other = state.tasks.length
    · rw [if_pos heq, heq, reservedAt, List.getElem?_eq_none (Nat.le_refl _)]
      rfl
    · rw [if_neg heq]
  refine ⟨h.ledger, ?_, ?_, ?_, h.withdrawn, ?_⟩
  · dsimp only
    rw [hreserved]
    exact h.reserved
  · dsimp only
    rw [hreserved]
    exact h.single
  · intro task htask key hkey
    rcases List.mem_append.mp htask with hmem | hnew
    · exact h.gone task hmem key hkey
    · rw [List.mem_singleton.mp hnew] at hkey
      cases hkey
  · intro key hkey
    exact (h.published key hkey).imp_right fun hsettling => hsettling.append _

theorem Sound.spawn (hseed : key ∉ state.ledger.seedOwned) (hannounced : key ∉ state.ledger.announced)
    (hinflight : key ∉ state.ledger.inflight) (hroom : state.ledger.remaining ≠ 0) (storePath : String) :
    Sound cap seedOwned
      { state with
        ledger := { state.ledger with
          remaining := state.ledger.remaining - 1, inflight := insert key state.ledger.inflight }
        tasks := state.tasks ++ [.spawned (some (key, storePath))] } := by
  have hledger := h.ledger.reserve hseed hannounced hinflight hroom
  -- The key was not in flight, so no earlier task has reserved it.
  have hnew : ∀ other, reservedAt state.tasks other ≠ some key := fun other hother =>
    hinflight (h.reserved other key hother)
  refine ⟨hledger, ?_, ?_, ?_, h.withdrawn, ?_⟩
  · intro other found hfound
    rcases of_reservedAt_spawned hfound with ⟨-, rfl⟩ | hold
    · exact Finset.mem_insert_self _ _
    · exact Finset.mem_insert_of_mem (h.reserved other found hold)
  · intro left right found hleft hright
    rcases of_reservedAt_spawned hleft with ⟨hl, rfl⟩ | holdLeft
    · rcases of_reservedAt_spawned hright with ⟨hr, -⟩ | holdRight
      · rw [hl, hr]
      · exact absurd holdRight (hnew right)
    rcases of_reservedAt_spawned hright with ⟨-, rfl⟩ | holdRight
    · exact absurd holdLeft (hnew left)
    · exact h.single left right found holdLeft holdRight
  · intro task htask other hother
    rcases List.mem_append.mp htask with hmem | hadded
    · exact h.gone task hmem other hother
    · rw [List.mem_singleton.mp hadded] at hother
      cases hother
  · intro other hother
    exact (h.published other hother).imp_right fun hsettling => hsettling.append _

theorem Sound.onFetched (narHash : NarHash) (storePath : String) :
    (state.onFetched narHash storePath).Sound cap seedOwned := by
  rcases state.onFetched_cases narHash storePath with
    hstate | hstate | ⟨key, hseed, hannounced, hinflight, hroom, hstate⟩
  · rw [hstate]
    exact h
  · rw [hstate]
    exact h.spawnIdle
  · rw [hstate]
    exact h.spawn hseed hannounced hinflight hroom storePath

/-- A grow that ends hands its outcome to the commit; a key it may have published is about to be settled. -/
theorem Sound.grew {storePath : String} (hold : state.tasks[position]? = some (.growing key storePath))
    (attempt : AnnounceAttempt) :
    Sound cap seedOwned
      { state with
        published :=
          if attempt.intoGrowResult.isSome then state.published ++ [key] else state.published
        tasks := state.tasks.set position (.committing key storePath attempt.intoGrowResult) } := by
  have hcommitting := h.replace hold (fun _ _ _ heq => nomatch heq)
    (.committing key storePath attempt.intoGrowResult) rfl fun _ hother => nomatch hother
  refine { hcommitting with published := fun other hother => ?_ }
  cases hresult : attempt.intoGrowResult with
  | none =>
    rw [hresult] at hother hcommitting
    exact hcommitting.published other hother
  | some contentKey =>
    rw [hresult] at hother hcommitting
    rcases List.mem_append.mp hother with hearlier | hnow
    · exact hcommitting.published other hearlier
    rw [List.mem_singleton.mp hnow]
    have hlt := (List.getElem?_eq_some_iff.mp hold).1
    exact .inr ⟨position, storePath, contentKey, List.getElem?_set_self hlt⟩

theorem Sound.advance (hcap : cap < 2 ^ 64) (hold : state.tasks[position]? = some old) (action : TaskStep) :
    (state.advance position old action).Sound cap seedOwned := by
  have hmem : old ∈ state.tasks := List.mem_of_getElem? hold
  have hkey : ∀ key, old.reserved? = some key → key ∈ state.ledger.inflight := by
    intro key hreserved
    apply h.reserved position key
    rw [reservedAt, hold]
    exact hreserved
  unfold AnnounceSystem.advance
  split
  · refine h.replace hold (fun _ _ _ heq => nomatch heq) _ rfl fun key hgone => ?_
    exact h.ledger.gone hgone
  · rename_i key contentKey gone grow ok
    have hgone := h.gone _ hmem
    refine (h.replace hold (fun _ _ _ heq => nomatch heq) _ ?_ fun other hother => ?_).withdraw
      (hgone key List.mem_cons_self) contentKey
    · cases ok <;> rfl
    · cases ok with
      | false => exact hgone other (List.mem_cons_of_mem _ hother)
      | true => exact hgone other hother
  · rename_i key gone grow
    have hgone := h.gone _ hmem
    exact (h.replace hold (fun _ _ _ heq => nomatch heq) (.reconciling gone grow) rfl
      fun other hother => hgone other (List.mem_cons_of_mem _ hother)).dropHeld key
  · exact h.replace hold (fun _ _ _ heq => nomatch heq) _ rfl fun _ hother => nomatch hother
  · rename_i key storePath
    have hgrowing := h.replace hold (fun _ _ _ heq => nomatch heq) (.growing key storePath) rfl
      fun _ hother => nomatch hother
    exact { hgrowing with }
  · rename_i key storePath attempt
    exact h.grew hold attempt
  · rename_i key storePath contentKey
    have hinflight := hkey key rfl
    refine h.finish hold rfl (h.ledger.commitSuccess hinflight contentKey storePath) rfl
      (Finset.subset_insert _ _) fun other _ _ heq => ?_
    cases heq
    exact Finset.mem_insert_self _ _
  · rename_i key storePath
    have hinflight := hkey key rfl
    have hfailure := AnnounceLedger.commitFailure_of_mem hinflight
    refine h.finish hold rfl (h.ledger.commitFailure hcap hinflight) ?_ ?_ fun _ _ _ heq => nomatch heq
    · rw [hfailure]
    · rw [hfailure]
  · exact h

end

theorem step_task_of_some {task : DispatchTask} (h : state.tasks[position]? = some task)
    (action : TaskStep) : state.step (.task position action) = state.advance position task action := by
  rw [AnnounceSystem.step, h]

theorem step_task_of_none (h : state.tasks[position]? = none) (action : TaskStep) :
    state.step (.task position action) = state := by
  rw [AnnounceSystem.step, h]

theorem Sound.step (h : state.Sound cap seedOwned) (hcap : cap < 2 ^ 64) (event : AnnounceEvent) :
    (state.step event).Sound cap seedOwned := by
  cases event with
  | fetched narHash storePath => exact h.onFetched narHash storePath
  | task position action =>
    cases htask : state.tasks[position]? with
    | none =>
      rw [step_task_of_none htask]
      exact h
    | some task =>
      rw [step_task_of_some htask]
      exact h.advance hcap htask action

theorem sound_run (budget : UInt64) (seedOwned : Finset NarHashKey) (events : List AnnounceEvent) :
    (run budget seedOwned events).Sound budget.toNat seedOwned := by
  have hnew : (new budget seedOwned).Sound budget.toNat seedOwned := by
    refine ⟨⟨rfl, ?_, ?_, ?_, ?_⟩, ?_, ?_, ?_, ?_, ?_⟩
    · change budget.toNat + 0 + 0 = budget.toNat
      omega
    · exact fun key hkey => absurd hkey (Finset.notMem_empty key)
    · exact fun key holding hholding => nomatch hholding
    · exact fun key _ => ⟨Finset.notMem_empty key, Finset.notMem_empty key⟩
    · exact fun position key hkey => nomatch hkey
    · exact fun left right key hkey => nomatch hkey
    · exact fun task htask => absurd htask List.not_mem_nil
    · exact fun withdrawal hmem => absurd hmem List.not_mem_nil
    · exact fun key hkey => absurd hkey List.not_mem_nil
  exact List.foldlRecOn events AnnounceSystem.step hnew fun _ h event _ => h.step budget.toNat_lt event

/-! ### Grown once -/

theorem Sound.not_ungrown (h : state.Sound cap seedOwned) (hkey : key ∈ state.published) {storePath : String}
    (htask : state.tasks[position]? = some (.reconciling [] (some (key, storePath)))) : False := by
  have hmine : reservedAt state.tasks position = some key := by
    rw [reservedAt, htask]
    rfl
  rcases h.published key hkey with hannounced | ⟨other, otherPath, contentKey, hother⟩
  · exact h.ledger.apart key (h.reserved position key hmine) hannounced
  have htheirs : reservedAt state.tasks other = some key := by
    rw [reservedAt, hother]
    rfl
  obtain rfl := h.single position other key hmine htheirs
  exact nomatch htask.symm.trans hother

theorem Sound.grown_step (h : state.Sound cap seedOwned) (hkey : key ∈ state.published) (event : AnnounceEvent) :
    (state.step event).grown.count key = state.grown.count key ∧ key ∈ (state.step event).published := by
  cases event with
  | fetched narHash storePath =>
    change (state.onFetched narHash storePath).grown.count key = _ ∧
      key ∈ (state.onFetched narHash storePath).published
    rcases state.onFetched_cases narHash storePath with hstate | hstate | ⟨_, _, _, _, _, hstate⟩
    · rw [hstate]
      exact ⟨rfl, hkey⟩
    · rw [hstate]
      exact ⟨rfl, hkey⟩
    · rw [hstate]
      exact ⟨rfl, hkey⟩
  | task position action =>
    cases htask : state.tasks[position]? with
    | none =>
      rw [step_task_of_none htask]
      exact ⟨rfl, hkey⟩
    | some task =>
      rw [step_task_of_some htask]
      unfold AnnounceSystem.advance
      split
      · exact ⟨rfl, hkey⟩
      · exact ⟨rfl, hkey⟩
      · exact ⟨rfl, hkey⟩
      · exact ⟨rfl, hkey⟩
      · rename_i other storePath
        -- The one step that begins a grow, and not of this key.
        have hne : other ≠ key := by
          rintro rfl
          exact h.not_ungrown hkey htask
        refine ⟨?_, hkey⟩
        rw [List.count_append, List.count_singleton]
        simp [hne]
      · refine ⟨rfl, ?_⟩
        dsimp only
        split
        · exact List.mem_append_left _ hkey
        · exact hkey
      · exact ⟨rfl, hkey⟩
      · exact ⟨rfl, hkey⟩
      · exact ⟨rfl, hkey⟩

theorem Sound.grown_foldl (hcap : cap < 2 ^ 64) (events : List AnnounceEvent) (h : state.Sound cap seedOwned)
    (hkey : key ∈ state.published) :
    (events.foldl AnnounceSystem.step state).grown.count key = state.grown.count key := by
  induction events generalizing state with
  | nil => rfl
  | cons event events ih =>
    obtain ⟨hcount, hpublished⟩ := h.grown_step hkey event
    rw [List.foldl_cons, ih (h.step hcap event) hpublished, hcount]

/-- The keys that may have been published are announced or in flight, so the budget bounds them. -/
theorem Sound.published_card_le (h : state.Sound cap seedOwned) :
    (state.published.toFinset ∪ state.ledger.inflight).card ≤ cap := by
  have hsub : state.published.toFinset ∪ state.ledger.inflight ⊆
      state.ledger.inflight ∪ state.ledger.announced := by
    intro key hkey
    rcases Finset.mem_union.mp hkey with hpublished | hinflight
    · rcases h.published key (List.mem_toFinset.mp hpublished) with hannounced | ⟨place, _, _, htask⟩
      · exact Finset.mem_union_right _ hannounced
      refine Finset.mem_union_left _ (h.reserved place key ?_)
      rw [reservedAt, htask]
      rfl
    · exact Finset.mem_union_left _ hinflight
  have hcard := Finset.card_le_card hsub
  have hunion := Finset.card_union_le state.ledger.inflight state.ledger.announced
  have hconserved := h.ledger.conserved
  omega

end AnnounceSystem

/-- In every state the units of the announce budget add up, the seed leg's keys are left alone, no more keys than the budget may have been published, and such a key is never grown again. -/
theorem announce_budget_conserved (budget : UInt64) (seedOwned : Finset NarHashKey)
    (events : List AnnounceEvent) :
    let state := AnnounceSystem.run budget seedOwned events
    state.ledger.remaining.toNat + state.ledger.inflight.card + state.ledger.announced.card =
        budget.toNat ∧
      Disjoint state.ledger.inflight state.ledger.announced ∧
      (∀ key, (state.ledger.held.lookup key).isSome = true → key ∈ state.ledger.announced) ∧
      (∀ key ∈ seedOwned, key ∉ state.ledger.inflight ∧ key ∉ state.ledger.announced ∧
        state.ledger.held.lookup key = none ∧ ∀ withdrawal ∈ state.withdrawn, withdrawal.1 ≠ key) ∧
      (state.published.toFinset ∪ state.ledger.inflight).card ≤ budget.toNat ∧
      ∀ key ∈ state.published, ∀ later : List AnnounceEvent,
        (AnnounceSystem.run budget seedOwned (events ++ later)).grown.count key =
          state.grown.count key := by
  intro state
  have hsound : state.Sound budget.toNat seedOwned := AnnounceSystem.sound_run budget seedOwned events
  have hheld : ∀ key, (state.ledger.held.lookup key).isSome = true → key ∈ state.ledger.announced := by
    intro key hkey
    obtain ⟨holding, hholding⟩ := Option.isSome_iff_exists.mp hkey
    exact hsound.ledger.held key holding hholding
  refine ⟨hsound.ledger.conserved, Finset.disjoint_left.mpr hsound.ledger.apart, hheld, ?_,
    hsound.published_card_le, ?_⟩
  · intro key hkey
    obtain ⟨hinflight, hannounced⟩ := hsound.ledger.unowned key hkey
    refine ⟨hinflight, hannounced, ?_, ?_⟩
    · exact Option.not_isSome_iff_eq_none.mp fun hsome => hannounced (hheld key hsome)
    · rintro withdrawal hmem rfl
      exact hannounced (hsound.withdrawn withdrawal hmem)
  · intro key hkey later
    rw [AnnounceSystem.run, List.foldl_append]
    exact hsound.grown_foldl budget.toNat_lt later hkey

/-! ### A path that is collected and fetched again -/

def collectedHash : NarHash := "sha256:06rgb4vfjsg365xwwdjz12qhjnvg3w0agfvyqfp977hp3yk2bczb".toList

def collectedKey : NarHashKey :=
  ⟨⟨Wire.beBytes 32 0xebb325a61f179e93aec37ebba7001f6f5b09b1085f36ce7b31e369e936592f1b, by simp⟩⟩

def collectedSeed : NarHashKey := ⟨⟨List.replicate 32 7, by simp⟩⟩

def collectedContent : ContentKey := ⟨⟨List.replicate 32 9, by simp⟩⟩

/-- The path is fetched and published, and gone when the next fetch looks. -/
def collectedEvents : List AnnounceEvent :=
  [.fetched collectedHash "path", .task 0 (.snapshot (fun _ => true) (.id _)), .task 0 .startGrow,
    .task 0 (.grew (.ambiguous collectedContent)), .task 0 .commit, .fetched collectedHash "path",
    .task 1 (.snapshot (fun _ => false) (.id _)), .task 1 (.withdrew true), .task 1 .dropped]

theorem announce_budget_conserved_collected :
    (AnnounceSystem.run 2 {collectedSeed} collectedEvents).withdrawn = [(collectedKey, collectedContent)] ∧
      (AnnounceSystem.run 2 {collectedSeed} (collectedEvents ++
        [.fetched collectedHash "path", .task 2 (.snapshot (fun _ => true) (.id _)),
          .task 2 .startGrow])).grown.count collectedKey = 1 := by
  have hpublished : collectedKey ∈ (AnnounceSystem.run 2 {collectedSeed} collectedEvents).published := by
    decide +kernel
  have hgrown : (AnnounceSystem.run 2 {collectedSeed} collectedEvents).grown.count collectedKey = 1 := by
    decide +kernel
  obtain ⟨-, -, -, -, -, hagain⟩ := announce_budget_conserved 2 {collectedSeed} collectedEvents
  exact ⟨by decide +kernel, (hagain collectedKey hpublished _).trans hgrown⟩

end NixP2p
