import Mathlib.Data.List.Forall2
import Mathlib.Logic.Basic

/-!
# Successful runs of fallible code

What the success of a computation in `Except` says about its steps: a sequence succeeds when each step does, a guard when it does not fire, and relabelling an error touches no success. A proof about a chain of checks peels it with these and never unfolds the monad. Where failure matters too, `Ends` carries a condition on the value and one on the error through a sequence and a loop, and `Both` compares two computations step by step.
-/

namespace Fallible

variable {ε δ α β γ : Type}

@[simp] theorem ok_bind (a : α) (f : α → Except ε β) : (Except.ok a >>= f) = f a := rfl

variable {x : Except ε α} {f : α → Except ε β} {b : β}

@[simp] theorem bind_eq_ok_iff : (x >>= f) = .ok b ↔ ∃ a, x = .ok a ∧ f a = .ok b := by
  cases x with
  | error e => simp [bind, Except.bind]
  | ok a => simp [bind, Except.bind]

variable {a : α}

@[simp] theorem pure_eq_ok_iff {b : α} : (pure a : Except ε α) = .ok b ↔ a = b := by
  simp [pure, Except.pure]

variable {e : ε}

@[simp] theorem guard_eq_ok_iff {c : Prop} [Decidable c] :
    (if c then .error e else x) = .ok a ↔ ¬c ∧ x = .ok a := by
  by_cases hc : c <;> simp [hc]

@[simp] theorem mapError_ok (f : δ → ε) (a : α) : (Except.ok a).mapError f = .ok a := rfl

@[simp] theorem mapError_error (f : δ → ε) (e : δ) :
    (Except.error e : Except δ α).mapError f = .error (f e) := rfl

@[simp] theorem mapError_eq_ok_iff {f : δ → ε} {x : Except δ α} : x.mapError f = .ok a ↔ x = .ok a := by
  cases x with
  | error e => simp only [mapError_error, reduceCtorEq]
  | ok b => simp only [mapError_ok, Except.ok.injEq]

@[simp] theorem map_eq_ok_iff {f : α → β} : x.map f = .ok b ↔ ∃ a, x = .ok a ∧ f a = b := by
  cases x <;> simp [Except.map]

@[simp] theorem map_eq_error_iff {f : α → β} : x.map f = .error e ↔ x = .error e := by
  cases x <;> simp [Except.map]

@[simp] theorem elim_eq_ok_iff {o : Option α} : o.elim (Except.error e) Except.ok = .ok a ↔ o = some a := by
  cases o with
  | none => simp only [Option.elim_none, reduceCtorEq]
  | some b => simp only [Option.elim_some, Except.ok.injEq, Option.some.injEq]

variable {items : List α} {step : β → α → Except ε β}

theorem map_foldlM_cons_eq_ok_iff {f : β → γ} {c : γ} :
    ((a :: items).foldlM step b).map f = .ok c ↔
      ∃ next, step b a = .ok next ∧ (items.foldlM step next).map f = .ok c := by
  rw [List.foldlM_cons]
  simp only [map_eq_ok_iff, bind_eq_ok_iff]
  constructor
  · rintro ⟨last, ⟨next, hnext, hlast⟩, hkept⟩
    exact ⟨next, hnext, last, hlast, hkept⟩
  · rintro ⟨next, hnext, last, hlast, hkept⟩
    exact ⟨last, ⟨next, hnext, hlast⟩, hkept⟩

theorem mapM_eq_ok_iff {results : List β} :
    items.mapM f = .ok results ↔ List.Forall₂ (fun a b => f a = .ok b) items results := by
  induction items generalizing results with
  | nil => rw [List.mapM_nil, pure_eq_ok_iff, List.forall₂_nil_left_iff, eq_comm]
  | cons a items ih =>
    simp only [List.mapM_cons, bind_eq_ok_iff, pure_eq_ok_iff, List.forall₂_cons_left_iff, ih]
    constructor
    · rintro ⟨b, hb, rest, hrest, rfl⟩
      exact ⟨b, rest, hb, hrest, rfl⟩
    · rintro ⟨b, rest, hb, hrest, rfl⟩
      exact ⟨b, hb, rest, hrest, rfl⟩

theorem exists_forall₂ {r : α → β → Prop} (h : ∀ a ∈ items, ∃ b, r a b) :
    ∃ results, List.Forall₂ r items results := by
  induction items with
  | nil => exact ⟨[], .nil⟩
  | cons a items ih =>
    obtain ⟨b, hb⟩ := h a List.mem_cons_self
    obtain ⟨rest, hrest⟩ := ih fun other hother => h other (List.mem_cons_of_mem a hother)
    exact ⟨b :: rest, .cons hb hrest⟩

theorem forM_eq_ok_iff {f : α → Except ε PUnit} : items.forM f = .ok () ↔ ∀ a ∈ items, f a = .ok () := by
  induction items with
  | nil => simp [pure, Except.pure]
  | cons a items ih =>
    rw [List.forM_eq_forM, List.forM_cons, bind_eq_ok_iff, List.forall_mem_cons, ← ih]
    constructor
    · rintro ⟨_, ha, hitems⟩
      exact ⟨ha, hitems⟩
    · rintro ⟨ha, hitems⟩
      exact ⟨(), ha, hitems⟩

/-- What holds of the value of a run that succeeds, and of the error of one that fails. -/
def Ends (post : α → Prop) (fail : ε → Prop) : Except ε α → Prop
  | .ok a => post a
  | .error e => fail e

variable {fail : ε → Prop}

theorem Ends.bind {m : α → Prop} {post : β → Prop} (hx : Ends m fail x) (hf : ∀ a, m a → Ends post fail (f a)) :
    Ends post fail (x >>= f) := by
  cases x with
  | error e => exact hx
  | ok a => exact hf a hx

variable {post : α → Prop}

theorem Ends.imp {p : α → Prop} (hx : Ends p fail x) (himp : ∀ a, x = .ok a → p a → post a) :
    Ends post fail x := by
  cases x with
  | error e => exact hx
  | ok a => exact himp a rfl hx

theorem ends_mapError {x : Except δ α} {f : δ → ε} (hok : ∀ a, x = .ok a → post a) (hfail : ∀ e, fail (f e)) :
    Ends post fail (x.mapError f) := by
  cases x with
  | error e => exact hfail e
  | ok a => exact hok a rfl

theorem Ends.foldlM {keeps : β → Prop} (hstep : ∀ b a, keeps b → Ends keeps fail (step b a)) (items : List α)
    (hb : keeps b) : Ends keeps fail (items.foldlM step b) := by
  induction items generalizing b with
  | nil => exact hb
  | cons a items ih =>
    rw [List.foldlM_cons]
    exact (hstep b a hb).bind fun _ hnext => ih hnext

theorem toOption_eq_of_ok_iff {left : Except ε α} {right : Except δ α}
    (hiff : ∀ value, left = .ok value ↔ right = .ok value) : left.toOption = right.toOption := by
  cases left with
  | ok value =>
    rw [(hiff value).mp rfl]
    rfl
  | error fault =>
    cases right with
    | ok value => exact absurd ((hiff value).mpr rfl) (by simp)
    | error other => rfl

variable {ζ : Type}

/-- Two computations end alike: both with related values, or both with an error. -/
def Both (related : α → β → Prop) : Except ε α → Except δ β → Prop
  | .ok a, .ok b => related a b
  | .error _, .error _ => True
  | _, _ => False

theorem both_eq (x : Except ε α) : Both Eq x x := by
  cases x with
  | error e => trivial
  | ok a => rfl

theorem Both.bind {x : Except ε α} {y : Except δ β} {f : α → Except ε γ} {g : β → Except δ ζ}
    {related : α → β → Prop} {after : γ → ζ → Prop} (h : Both related x y)
    (hnext : ∀ a b, related a b → Both after (f a) (g b)) : Both after (x >>= f) (y >>= g) := by
  cases x with
  | error e => cases y with
    | error e => trivial
    | ok b => exact h.elim
  | ok a => cases y with
    | error e => exact h.elim
    | ok b => exact hnext a b h

theorem Both.bind_eq_ok_iff {x : Except ε α} {y : Except δ β} {f : α → Except ε γ} {g : β → Except δ γ}
    {related : α → β → Prop} {c : γ} {p : Prop} (h : Both related x y)
    (hnext : ∀ a b, related a b → (f a = .ok c ↔ p ∧ g b = .ok c)) :
    (x >>= f) = .ok c ↔ p ∧ (y >>= g) = .ok c := by
  cases x with
  | error e => cases y with
    | error e => simp [Bind.bind, Except.bind]
    | ok b => exact h.elim
  | ok a => cases y with
    | error e => exact h.elim
    | ok b => exact hnext a b h

end Fallible
