import Mathlib.Data.List.Nodup

/-!
# Closing the holes of an indexed list

Some entries of a list are dropped and the others move down to close the holes. `remap` says where each position goes. It is a bijection between the positions that are kept and the positions of the list that is left, and it never moves an entry up, so a list of positions that is renamed through it names the same entries in the same order.
-/

namespace Compaction

variable {α β : Type} (keep : α → Option β)

/-- The new position of each entry, `none` for one that is dropped, when the first kept entry goes to `next`. -/
def remap : Nat → List α → List (Option Nat)
  | _, [] => []
  | next, entry :: entries =>
    match keep entry with
    | some _ => some next :: remap (next + 1) entries
    | none => none :: remap next entries

def held (entries : List α) (position : Nat) : Option β := entries[position]?.bind keep

def renamed (entries : List α) (position : Nat) : Option Nat := (remap keep 0 entries)[position]?.join

theorem remap_cons_some {entry : α} {value : β} (h : keep entry = some value) (next : Nat)
    (entries : List α) :
    remap keep next (entry :: entries) = some next :: remap keep (next + 1) entries := by
  rw [remap, h]

theorem remap_cons_none {entry : α} (h : keep entry = none) (next : Nat) (entries : List α) :
    remap keep next (entry :: entries) = none :: remap keep next entries := by
  rw [remap, h]

theorem remap_of_forall {entries : List α} (h : ∀ entry ∈ entries, (keep entry).isSome) (next : Nat) :
    remap keep next entries = (List.range' next entries.length).map some := by
  induction entries generalizing next with
  | nil => rfl
  | cons entry entries ih =>
    obtain ⟨hentry, hentries⟩ := List.forall_mem_cons.mp h
    obtain ⟨value, hvalue⟩ := Option.isSome_iff_exists.mp hentry
    rw [remap_cons_some keep hvalue, ih hentries, List.length_cons, List.range'_succ, List.map_cons]

variable {position target next : Nat}

/-- Where a position goes, the list that is left holds what the position held, and it does not go up. -/
theorem getElem?_of_remap {entries : List α} (h : (remap keep next entries)[position]? = some (some target)) :
    ∃ offset, target = next + offset ∧ offset ≤ position ∧
      ∃ value, held keep entries position = some value ∧
        (entries.filterMap keep)[offset]? = some value := by
  induction entries generalizing next position with
  | nil => cases h
  | cons entry entries ih =>
    cases hkeep : keep entry with
    | none =>
      rw [remap_cons_none keep hkeep] at h
      rw [List.filterMap_cons_none hkeep]
      cases position with
      | zero => cases h
      | succ position =>
        obtain ⟨offset, htarget, hle, hvalue⟩ := ih h
        exact ⟨offset, htarget, by omega, hvalue⟩
    | some value =>
      rw [remap_cons_some keep hkeep] at h
      rw [List.filterMap_cons_some hkeep]
      cases position with
      | zero =>
        obtain rfl : next = target := by simpa using h
        exact ⟨0, rfl, Nat.le_refl 0, value, hkeep, rfl⟩
      | succ position =>
        obtain ⟨offset, htarget, hle, hvalue⟩ := ih h
        exact ⟨offset + 1, by omega, by omega, hvalue⟩

theorem remap_injective {entries : List α} {left right : Nat}
    (hleft : (remap keep next entries)[left]? = some (some target))
    (hright : (remap keep next entries)[right]? = some (some target)) : left = right := by
  induction entries generalizing next left right with
  | nil => cases hleft
  | cons entry entries ih =>
    cases hkeep : keep entry with
    | none =>
      rw [remap_cons_none keep hkeep] at hleft hright
      cases left with
      | zero => cases hleft
      | succ left =>
        cases right with
        | zero => cases hright
        | succ right => exact congrArg (· + 1) (ih hleft hright)
    | some value =>
      rw [remap_cons_some keep hkeep] at hleft hright
      -- A later position goes beyond `next`, which is where the first one goes.
      have hlater : ∀ position : Nat, (remap keep (next + 1) entries)[position]? = some (some target) →
          next < target := by
        intro position hposition
        obtain ⟨offset, htarget, -⟩ := getElem?_of_remap keep hposition
        omega
      cases left with
      | zero =>
        obtain rfl : next = target := by simpa using hleft
        cases right with
        | zero => rfl
        | succ right => exact absurd (hlater right hright) (Nat.lt_irrefl next)
      | succ left =>
        cases right with
        | zero =>
          obtain rfl : next = target := by simpa using hright
          exact absurd (hlater left hleft) (Nat.lt_irrefl next)
        | succ right => exact congrArg (· + 1) (ih hleft hright)

theorem exists_remap {entries : List α} {offset : Nat} (next : Nat)
    (h : offset < (entries.filterMap keep).length) :
    ∃ position, position < entries.length ∧
      (remap keep next entries)[position]? = some (some (next + offset)) := by
  induction entries generalizing next offset with
  | nil => cases h
  | cons entry entries ih =>
    cases hkeep : keep entry with
    | none =>
      rw [List.filterMap_cons_none hkeep] at h
      rw [remap_cons_none keep hkeep]
      obtain ⟨position, hlt, hposition⟩ := ih next h
      exact ⟨position + 1, Nat.succ_lt_succ hlt, hposition⟩
    | some value =>
      rw [List.filterMap_cons_some hkeep] at h
      rw [remap_cons_some keep hkeep]
      cases offset with
      | zero => exact ⟨0, Nat.succ_pos _, rfl⟩
      | succ offset =>
        obtain ⟨position, hlt, hposition⟩ := ih (next + 1) (Nat.lt_of_succ_lt_succ h)
        refine ⟨position + 1, Nat.succ_lt_succ hlt, ?_⟩
        rw [List.getElem?_cons_succ, hposition, Nat.add_assoc, Nat.add_comm 1 offset]

theorem remap_eq_none {entries : List α} (h : (remap keep next entries)[position]?.join = none) :
    held keep entries position = none := by
  induction entries generalizing next position with
  | nil => rfl
  | cons entry entries ih =>
    cases hkeep : keep entry with
    | none =>
      rw [remap_cons_none keep hkeep] at h
      cases position with
      | zero => exact hkeep
      | succ position => exact ih h
    | some value =>
      rw [remap_cons_some keep hkeep] at h
      cases position with
      | zero => cases h
      | succ position => exact ih h

variable {keep} {entries : List α}

theorem renamed_eq_some (h : renamed keep entries position = some target) :
    target ≤ position ∧ ∃ value, held keep entries position = some value ∧
      (entries.filterMap keep)[target]? = some value := by
  obtain ⟨offset, htarget, hle, hvalue⟩ := getElem?_of_remap keep (Option.join_eq_some_iff.mp h)
  obtain rfl : target = offset := by omega
  exact ⟨hle, hvalue⟩

theorem renamed_injective {left right : Nat} (hleft : renamed keep entries left = some target)
    (hright : renamed keep entries right = some target) : left = right :=
  remap_injective keep (Option.join_eq_some_iff.mp hleft) (Option.join_eq_some_iff.mp hright)

theorem exists_renamed (h : target < (entries.filterMap keep).length) :
    ∃ position, position < entries.length ∧ renamed keep entries position = some target := by
  obtain ⟨position, hlt, hposition⟩ := exists_remap keep 0 h
  rw [Nat.zero_add] at hposition
  exact ⟨position, hlt, Option.join_eq_some_iff.mpr hposition⟩

theorem map_filterMap_renamed (positions : List Nat) :
    (positions.filterMap (renamed keep entries)).map ((entries.filterMap keep)[·]?) =
      (positions.filterMap (held keep entries)).map some := by
  induction positions with
  | nil => rfl
  | cons position positions ih =>
    cases hrenamed : renamed keep entries position with
    | none =>
      have hdropped : held keep entries position = none := remap_eq_none keep hrenamed
      rw [List.filterMap_cons_none hrenamed, List.filterMap_cons_none hdropped, ih]
    | some target =>
      obtain ⟨-, value, hkept, htarget⟩ := renamed_eq_some hrenamed
      rw [List.filterMap_cons_some hrenamed, List.filterMap_cons_some hkept, List.map_cons,
        List.map_cons, ih, htarget]

theorem nodup_filterMap_renamed {positions : List Nat} (h : positions.Nodup) :
    (positions.filterMap (renamed keep entries)).Nodup :=
  h.filterMap fun _ _ _ hleft hright => renamed_injective hleft hright

end Compaction
