import Mathlib.Logic.Basic

/-!
# Runs of a step function

A run feeds a list of events to a step function from a first state. `Always` is the safety form of a property of single steps: it holds at each state of the run together with the event met there. An invariant that each step keeps, given that property, holds where the run ends, and since a run may be cut anywhere it holds in every state on the way.
-/

namespace Run

variable {σ ε : Type} {step : σ → ε → σ} {P Q : σ → ε → Prop} {Inv : σ → Prop}

/-- `P` holds at every step of the run. -/
def Always (step : σ → ε → σ) (P : σ → ε → Prop) : σ → List ε → Prop
  | _, [] => True
  | state, event :: events => P state event ∧ Always step P (step state event) events

instance instDecidableAlways [∀ state event, Decidable (P state event)] :
    ∀ (state : σ) (events : List ε), Decidable (Always step P state events)
  | _, [] => .isTrue trivial
  | state, event :: events =>
    have := instDecidableAlways (step state event) events
    inferInstanceAs (Decidable (P state event ∧ Always step P (step state event) events))

theorem always_congr (hiff : ∀ state event, P state event ↔ Q state event) (state : σ)
    (events : List ε) : Always step P state events ↔ Always step Q state events := by
  induction events generalizing state with
  | nil => exact Iff.rfl
  | cons event events ih => exact and_congr (hiff state event) (ih (step state event))

variable {state : σ} {events : List ε}

theorem always_and :
    Always step (fun state event => P state event ∧ Q state event) state events ↔
      Always step P state events ∧ Always step Q state events := by
  induction events generalizing state with
  | nil => exact ⟨fun _ => ⟨trivial, trivial⟩, fun _ => trivial⟩
  | cons event events ih =>
    refine ⟨fun h => ?_, fun h => ?_⟩
    · obtain ⟨hp, hq⟩ := ih.mp h.2
      exact ⟨⟨h.1.1, hp⟩, ⟨h.1.2, hq⟩⟩
    · exact ⟨⟨h.1.1, h.2.1⟩, ih.mpr ⟨h.1.2, h.2.2⟩⟩

theorem always_append {before after : List ε} :
    Always step P state (before ++ after) ↔ Always step P state before ∧ Always step P (before.foldl step state) after := by
  induction before generalizing state with
  | nil => exact ⟨fun h => ⟨trivial, h⟩, fun h => h.2⟩
  | cons event before ih =>
    rw [List.cons_append, List.foldl_cons]
    change P state event ∧ Always step P (step state event) (before ++ after) ↔ (P state event ∧ _) ∧ _
    rw [ih, and_assoc]

theorem always_of_forall (h : ∀ event ∈ events, ∀ state, P state event) (state : σ) :
    Always step P state events := by
  induction events generalizing state with
  | nil => trivial
  | cons event events ih =>
    refine ⟨h event List.mem_cons_self state, ih (fun event hmem => ?_) (step state event)⟩
    exact h event (List.mem_cons_of_mem _ hmem)

theorem foldl_of_always (hstep : ∀ state event, Inv state → P state event → Inv (step state event))
    (hinv : Inv state) (halways : Always step P state events) : Inv (events.foldl step state) := by
  induction events generalizing state with
  | nil => exact hinv
  | cons event events ih => exact ih (hstep state event hinv halways.1) halways.2

/-- Where a step keeps the invariant exactly when `P` holds there, the invariant holds all along a run exactly when `P` does. -/
theorem forall_prefix_iff_always (hstep : ∀ state event, Inv state → (Inv (step state event) ↔ P state event))
    (hinv : Inv state) (events : List ε) :
    (∀ seen, seen <+: events → Inv (seen.foldl step state)) ↔ Always step P state events := by
  induction events generalizing state with
  | nil =>
    refine ⟨fun _ => trivial, fun _ seen hseen => ?_⟩
    rw [List.prefix_nil.mp hseen]
    exact hinv
  | cons event events ih =>
    refine ⟨fun h => ?_, fun h seen hseen => ?_⟩
    · have hfirst : Inv (step state event) := h [event] ⟨events, rfl⟩
      refine ⟨(hstep state event hinv).mp hfirst, (ih hfirst).mp fun seen hseen => ?_⟩
      exact h (event :: seen) ((List.prefix_cons_inj event).mpr hseen)
    · obtain rfl | ⟨rest, rfl, hrest⟩ := List.prefix_cons_iff.mp hseen
      · exact hinv
      · exact (ih ((hstep state event hinv).mpr h.1)).mpr h.2 rest hrest

end Run
