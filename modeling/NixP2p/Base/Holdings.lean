import Mathlib.Algebra.Order.BigOperators.Group.List
import Mathlib.Algebra.Order.Group.Nat
import Mathlib.Algebra.Ring.Nat

/-!
# Totals over holders

What the members of a list hold together, and how it changes when one of them changes. A counter that several threads share is accounted for when it equals the total of what they hold.
-/

namespace Holdings

variable {α : Type}

def total (weight : α → Nat) (holders : List α) : Nat := (holders.map weight).sum

theorem total_append (weight : α → Nat) (holders : List α) (holder : α) :
    total weight (holders ++ [holder]) = total weight holders + weight holder := by
  rw [total, List.map_append, List.sum_append, List.map_singleton, List.sum_singleton, total]

variable {holders : List α} {index : Nat}

theorem total_set (weight : α → Nat) {old : α} (h : holders[index]? = some old) (new : α) :
    total weight (holders.set index new) + weight old = total weight holders + weight new := by
  induction holders generalizing index with
  | nil => cases h
  | cons holder holders ih =>
    cases index with
    | zero =>
      obtain rfl := Option.some.inj h
      simp only [total, List.set_cons_zero, List.map_cons, List.sum_cons]
      omega
    | succ index =>
      have := ih h
      simp only [total, List.set_cons_succ, List.map_cons, List.sum_cons] at this ⊢
      omega

theorem of_getElem?_append {holder found : α} (h : (holders ++ [holder])[index]? = some found) :
    holders[index]? = some found ∨ index = holders.length ∧ found = holder := by
  by_cases hlt : index < holders.length
  · rw [List.getElem?_append_left hlt] at h
    exact .inl h
  rw [List.getElem?_append_right (Nat.le_of_not_lt hlt)] at h
  cases hoffset : index - holders.length with
  | zero =>
    rw [hoffset] at h
    exact .inr ⟨by omega, (Option.some.inj h).symm⟩
  | succ offset =>
    rw [hoffset] at h
    cases h

theorem of_getElem?_set {new found : α} {other : Nat} (h : (holders.set index new)[other]? = some found) :
    other = index ∧ found = new ∨ other ≠ index ∧ holders[other]? = some found := by
  by_cases heq : other = index
  · subst heq
    rw [List.getElem?_set_self' (l := holders)] at h
    obtain ⟨_, -, rfl⟩ := Option.map_eq_some_iff.mp h
    exact .inl ⟨rfl, rfl⟩
  · rw [List.getElem?_set_ne fun hsymm => heq hsymm.symm] at h
    exact .inr ⟨heq, h⟩

theorem weight_le_total (weight : α → Nat) {holder : α} (h : holder ∈ holders) :
    weight holder ≤ total weight holders :=
  List.le_sum_of_mem (List.mem_map_of_mem h)

theorem add_le_total (weight : α → Nat) {other : Nat} {left right : α} (hne : index ≠ other)
    (hleft : holders[index]? = some left) (hright : holders[other]? = some right) :
    weight left + weight right ≤ total weight holders := by
  induction holders generalizing index other with
  | nil => cases hleft
  | cons holder holders ih =>
    simp only [total, List.map_cons, List.sum_cons]
    cases index with
    | zero =>
      obtain rfl := Option.some.inj hleft
      obtain ⟨other, rfl⟩ := Nat.exists_eq_succ_of_ne_zero (Ne.symm hne)
      have := weight_le_total weight (List.mem_of_getElem? (l := holders) (i := other) hright)
      unfold total at this
      omega
    | succ index =>
      cases other with
      | zero =>
        obtain rfl := Option.some.inj hright
        have := weight_le_total weight (List.mem_of_getElem? (l := holders) (i := index) hleft)
        unfold total at this
        omega
      | succ other =>
        have := ih (fun h => hne (congrArg _ h)) hleft hright
        unfold total at this
        omega

theorem total_eq_zero {weight : α → Nat} (h : ∀ holder ∈ holders, weight holder = 0) :
    total weight holders = 0 := by
  rw [total, List.sum_eq_zero]
  intro value hvalue
  obtain ⟨holder, hholder, rfl⟩ := List.mem_map.mp hvalue
  exact h holder hholder

end Holdings
