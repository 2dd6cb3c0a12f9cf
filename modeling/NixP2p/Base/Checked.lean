import Mathlib.Algebra.Ring.Nat

/-!
# Checked machine arithmetic

Additions of fixed-width unsigned numbers that report, or stop at, what does not fit, as against the wrapping sum. A checked sum that is returned is the exact one, which is all that an accounting over these needs to know.
-/

namespace Checked

/-- The sum that was computed modulo a limit, kept only where it is exact. -/
def within {α : Type} (limit exact : Nat) (computed : α) : Option α :=
  if exact < limit then some computed else none

theorem of_within {α : Type} {limit exact : Nat} {computed total : α}
    (h : within limit exact computed = some total) : exact < limit ∧ computed = total := by
  unfold within at h
  split at h
  · exact ⟨‹_›, Option.some.inj h⟩
  · cases h

theorem filter_within {α : Type} (toNat : α → Nat) {limit exact cap : Nat} {computed : α}
    (hcap : cap < limit) (hcomputed : exact < limit → toNat computed = exact) :
    (within limit exact computed).filter (fun total => toNat total ≤ cap) =
      if exact ≤ cap then some computed else none := by
  by_cases hexact : exact < limit
  · rw [within, if_pos hexact, Option.filter_some, hcomputed hexact]
    simp only [decide_eq_true_eq]
  · rw [within, if_neg hexact, Option.filter_none, if_neg (by omega)]

def addU64 (left right : UInt64) : Option UInt64 :=
  within (2 ^ 64) (left.toNat + right.toNat) (left + right)

def mulU64 (left right : UInt64) : Option UInt64 :=
  within (2 ^ 64) (left.toNat * right.toNat) (left * right)

def subU64 (left right : UInt64) : Option UInt64 :=
  if right.toNat ≤ left.toNat then some (left - right) else none

def addU32 (left right : UInt32) : Option UInt32 :=
  within (2 ^ 32) (left.toNat + right.toNat) (left + right)

def saturatingAddU64 (left right : UInt64) : UInt64 :=
  (addU64 left right).getD (UInt64.ofNat (2 ^ 64 - 1))

variable {left right total : UInt64}

theorem toNat_of_addU64 (h : addU64 left right = some total) : total.toNat = left.toNat + right.toNat := by
  obtain ⟨hexact, rfl⟩ := of_within h
  rw [UInt64.toNat_add, Nat.mod_eq_of_lt hexact]

theorem addU64_eq_some (h : left.toNat + right.toNat < 2 ^ 64) :
    addU64 left right = some (left + right) :=
  if_pos h

theorem toNat_add_of_lt (h : left.toNat + right.toNat < 2 ^ 64) :
    (left + right).toNat = left.toNat + right.toNat :=
  toNat_of_addU64 (addU64_eq_some h)

theorem addU64_comm (left right : UInt64) : addU64 left right = addU64 right left := by
  rw [addU64, addU64, Nat.add_comm, UInt64.add_comm]

theorem addU64_of_toNat (h : left.toNat + right.toNat = total.toNat) : addU64 left right = some total := by
  have hlt : left.toNat + right.toNat < 2 ^ 64 := h ▸ total.toNat_lt
  rw [addU64_eq_some hlt]
  exact congrArg some (UInt64.toNat_inj.mp ((toNat_add_of_lt hlt).trans h))

theorem toNat_of_mulU64 (h : mulU64 left right = some total) : total.toNat = left.toNat * right.toNat := by
  obtain ⟨hexact, rfl⟩ := of_within h
  rw [UInt64.toNat_mul, Nat.mod_eq_of_lt hexact]

theorem toNat_of_subU64 {rest : UInt64} (h : subU64 left right = some rest) :
    rest.toNat + right.toNat = left.toNat := by
  unfold subU64 at h
  split_ifs at h with hle
  obtain rfl := Option.some.inj h
  rw [UInt64.toNat_sub_of_le _ _ hle, Nat.sub_add_cancel hle]

theorem exists_subU64 (h : right.toNat ≤ left.toNat) :
    ∃ rest, subU64 left right = some rest :=
  ⟨left - right, if_pos h⟩

theorem toNat_saturatingAddU64 (left right : UInt64) :
    (saturatingAddU64 left right).toNat = min (left.toNat + right.toNat) (2 ^ 64 - 1) := by
  rw [saturatingAddU64, addU64, within]
  split
  · rename_i hexact
    rw [Option.getD_some, toNat_add_of_lt hexact]
    omega
  have hlargest : (UInt64.ofNat (2 ^ 64 - 1)).toNat = 2 ^ 64 - 1 := rfl
  rw [Option.getD_none, hlargest]
  omega

end Checked
