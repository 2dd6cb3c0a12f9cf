import NixP2p.Base.Holdings

/-!
# Tumbling windows

A tumbling window adds up what is charged from the moment it opens, refuses what would take it over its cap, and is replaced by an empty one when it is looked at after its length has passed. An interval shorter than the length meets at most two windows, so at most twice the cap is charged in it.
-/

namespace Tumbling

open Holdings

variable {ε : Type} (time weight : ε → Nat)

/-- What the events of a history weigh whose time is in a range. -/
def spent (inRange : Nat → Bool) (history : List ε) : Nat :=
  total (fun event => if inRange (time event) then weight event else 0) history

theorem spent_append (inRange : Nat → Bool) (history : List ε) (event : ε) :
    spent time weight inRange (history ++ [event]) =
      spent time weight inRange history + if inRange (time event) then weight event else 0 :=
  total_append _ history event

theorem spent_le_add {inRange left right : Nat → Bool}
    (hcover : ∀ t, inRange t = true → left t = true ∨ right t = true) (history : List ε) :
    spent time weight inRange history ≤
      spent time weight left history + spent time weight right history := by
  induction history with
  | nil => exact Nat.zero_le _
  | cons event history ih =>
    have hevent : (if inRange (time event) then weight event else 0) ≤
        (if left (time event) then weight event else 0) +
          if right (time event) then weight event else 0 := by
      by_cases hin : inRange (time event) = true
      · rcases hcover _ hin with hleft | hright
        · rw [if_pos hin, if_pos hleft]
          omega
        · rw [if_pos hin, if_pos hright]
          omega
      · rw [if_neg hin]
        omega
    simp only [spent, total, List.map_cons, List.sum_cons] at ih ⊢
    omega

theorem spent_mono {inRange wider : Nat → Bool} (hwider : ∀ t, inRange t = true → wider t = true)
    (history : List ε) : spent time weight inRange history ≤ spent time weight wider history := by
  induction history with
  | nil => exact Nat.zero_le _
  | cons event history ih =>
    have hevent : (if inRange (time event) then weight event else 0) ≤
        if wider (time event) then weight event else 0 := by
      by_cases hin : inRange (time event) = true
      · rw [if_pos hin, if_pos (hwider _ hin)]
      · rw [if_neg hin]
        omega
    simp only [spent, total, List.map_cons, List.sum_cons] at ih ⊢
    omega

theorem spent_eq_zero {inRange : Nat → Bool} {history : List ε}
    (h : ∀ event ∈ history, inRange (time event) = false) : spent time weight inRange history = 0 := by
  apply total_eq_zero
  intro event hevent
  rw [h event hevent, if_neg Bool.false_ne_true]

/-- A window that opened at `start` and holds `sum`, as of `now`, accounts for a history of charges. -/
structure Accounted (length cap : Nat) (history : List ε) (now start sum : Nat) : Prop where
  opened : start ≤ now
  past : ∀ event ∈ history, time event ≤ now
  live : ∀ event ∈ history, time event < start + length
  current : spent time weight (fun t => start ≤ t) history = sum
  capped : sum ≤ cap
  -- One length back from the opening there is one window only.
  before : ∀ lo, start < lo + length →
    spent time weight (fun t => lo ≤ t ∧ t < start) history ≤ cap
  burst : ∀ lo hi, hi < lo + length →
    spent time weight (fun t => lo ≤ t ∧ t ≤ hi) history ≤ 2 * cap

variable {time weight} {length cap now start sum : Nat} {history : List ε}

theorem Accounted.empty (length cap now : Nat) : Accounted time weight length cap [] now now 0 where
  opened := Nat.le_refl now
  past _ h := absurd h List.not_mem_nil
  live _ h := absurd h List.not_mem_nil
  current := rfl
  capped := Nat.zero_le cap
  before _ _ := Nat.zero_le cap
  burst _ _ _ := Nat.zero_le _

section

variable (h : Accounted time weight length cap history now start sum)

include h

theorem Accounted.wait {later : Nat} (hlater : now ≤ later) :
    Accounted time weight length cap history later start sum :=
  { h with
    opened := h.opened.trans hlater
    past := fun event hevent => (h.past event hevent).trans hlater }

theorem Accounted.roll (hexpired : start + length ≤ now) : Accounted time weight length cap history now now 0 where
  opened := Nat.le_refl now
  past := h.past
  live event hevent := by
    have := h.live event hevent
    omega
  current := by
    apply spent_eq_zero
    intro event hevent
    have := h.live event hevent
    exact decide_eq_false (by omega)
  capped := Nat.zero_le cap
  before := by
    intro lo hlo
    -- The interval begins after the old window opened, so what it holds was charged to that one.
    have hwithin : spent time weight (fun t => lo ≤ t ∧ t < now) history ≤
        spent time weight (fun t => start ≤ t) history := by
      apply spent_mono
      intro t ht
      simp only [decide_eq_true_eq] at ht ⊢
      omega
    have := h.current
    have := h.capped
    omega
  burst := h.burst

theorem Accounted.charge {event : ε} (htime : time event = now) (hlive : now < start + length)
    (hroom : sum + weight event ≤ cap) :
    Accounted time weight length cap (history ++ [event]) now start (sum + weight event) where
  opened := h.opened
  past other hother := by
    rcases List.mem_append.mp hother with hold | hnew
    · exact h.past other hold
    · rw [List.mem_singleton.mp hnew, htime]
  live other hother := by
    rcases List.mem_append.mp hother with hold | hnew
    · exact h.live other hold
    · rw [List.mem_singleton.mp hnew, htime]
      exact hlive
  current := by
    rw [spent_append, h.current, htime, if_pos (decide_eq_true h.opened)]
  capped := hroom
  before lo hlo := by
    have hopened := h.opened
    rw [spent_append, htime, if_neg (by simp only [decide_eq_true_eq]; omega)]
    exact h.before lo hlo
  burst lo hi hhi := by
    rw [spent_append, htime]
    by_cases hin : lo ≤ now ∧ now ≤ hi
    · rw [if_pos (decide_eq_true hin)]
      have hopened := h.opened
      have hcover : spent time weight (fun t => lo ≤ t ∧ t ≤ hi) history ≤
          spent time weight (fun t => lo ≤ t ∧ t < start) history +
            spent time weight (fun t => start ≤ t) history := by
        apply spent_le_add
        intro t ht
        simp only [decide_eq_true_eq] at ht ⊢
        omega
      have hbefore := h.before lo (by omega)
      have := h.current
      omega
    · rw [if_neg (by simpa using hin)]
      exact h.burst lo hi hhi

end

section InForce

variable {W : Type} (start : W → Nat) (fresh : Nat → W) (length : Nat)

/-- The window that a look at some time finds: an empty one where there is none or it has expired. -/
def inForce (entry : Option W) (now : Nat) : W :=
  let window := entry.getD (fresh now)
  if decide (length ≤ now - start window) then fresh now else window

variable {start fresh length} {entry : Option W} {now later : Nat}

theorem inForce_none : inForce start fresh length none now = fresh now := by
  rw [inForce, Option.getD_none]
  exact ite_self _

theorem inForce_of_live {window : W} (hlive : now - start window < length) :
    inForce start fresh length (some window) now = window :=
  if_neg (by simpa using hlive)

theorem inForce_of_expired {window : W} (hexpired : length ≤ now - start window) :
    inForce start fresh length (some window) now = fresh now :=
  if_pos (decide_eq_true hexpired)

/-- Writing back what a look finds changes no later look, if it found the window as it was or comes at the later one's time or a length before. -/
theorem inForce_writeBack (hstart : ∀ now, start (fresh now) = now) (hlater : now ≤ later)
    (hallowed : (∃ window, entry = some window ∧ now - start window < length) ∨ later = now ∨ now + length ≤ later) :
    inForce start fresh length (some (inForce start fresh length entry now)) later =
      inForce start fresh length entry later := by
  -- an empty window opened by the look is the one the later look would open, or has expired by then
  have hfresh : later = now ∨ now + length ≤ later →
      inForce start fresh length (some (fresh now)) later = fresh later := by
    rintro (rfl | hlong)
    · rw [inForce, Option.getD_some]
      exact ite_self _
    · exact inForce_of_expired (by rw [hstart]; omega)
  cases entry with
  | none =>
    have hcases := hallowed.resolve_left fun ⟨window, hsome, _⟩ => absurd hsome.symm (Option.some_ne_none window)
    rw [inForce_none, inForce_none, hfresh hcases]
  | some window =>
    by_cases hlive : now - start window < length
    · rw [inForce_of_live hlive]
    have hcases := hallowed.resolve_left fun ⟨other, hsome, hother⟩ => hlive (Option.some.inj hsome ▸ hother)
    have hexpired : length ≤ later - start window := by omega
    rw [inForce_of_expired (Nat.not_lt.mp hlive), inForce_of_expired hexpired, hfresh hcases]

end InForce

end Tumbling
