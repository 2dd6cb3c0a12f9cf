import Mathlib.Logic.Basic

/-!
# Programs with a state that may stop

A program reads and writes a state and either returns a value or stops, and a stop keeps the state as it was left. `Ensures` states what holds before, after a return and after a stop, and the rules below take a program apart along its binds.
-/

namespace Effect

variable {σ ε α β : Type} {P P' : σ → Prop} {Q Q' : α → σ → Prop} {E E' : σ → Prop}

/-- A return satisfies `Q` and a stop `E`. -/
def Satisfies (Q : α → σ → Prop) (E : σ → Prop) : EStateM.Result ε σ α → Prop
  | .ok value state => Q value state
  | .error _ state => E state

/-- Started where `P` holds, the program returns into `Q` or stops in `E`. -/
def Ensures (P : σ → Prop) (program : EStateM ε σ α) (Q : α → σ → Prop) (E : σ → Prop) : Prop :=
  ∀ state, P state → Satisfies Q E (program state)

theorem Satisfies.weaken {result : EStateM.Result ε σ α} (h : Satisfies Q E result)
    (hpost : ∀ value state, Q value state → Q' value state) (hstop : ∀ state, E state → E' state) :
    Satisfies Q' E' result := by
  cases result with
  | ok value state => exact hpost value state h
  | error why state => exact hstop state h

variable {program : EStateM ε σ α}

theorem Ensures.weaken (h : Ensures P program Q E) (hpre : ∀ state, P' state → P state)
    (hpost : ∀ value state, Q value state → Q' value state) (hstop : ∀ state, E state → E' state) :
    Ensures P' program Q' E' :=
  fun state hstate => (h state (hpre state hstate)).weaken hpost hstop

theorem Ensures.bind {rest : α → EStateM ε σ β} {R : β → σ → Prop} (h : Ensures P program Q E)
    (hrest : ∀ value, Ensures (Q value) (rest value) R E) : Ensures P (program >>= rest) R E := by
  intro state hstate
  have hprogram := h state hstate
  change Satisfies R E (EStateM.bind program rest state)
  unfold EStateM.bind
  cases hresult : program state with
  | ok value next =>
    rw [hresult] at hprogram
    exact hrest value next hprogram
  | error why next =>
    rw [hresult] at hprogram
    exact hprogram

theorem ensures_exists {ι : Type} {P : ι → σ → Prop} (h : ∀ index, Ensures (P index) program Q E) :
    Ensures (fun state => ∃ index, P index state) program Q E :=
  fun state ⟨index, hstate⟩ => h index state hstate

theorem ensures_pure {value : α} (h : ∀ state, P state → Q value state) :
    Ensures P (pure value : EStateM ε σ α) Q E := h

theorem ensures_throw {why : ε} (h : ∀ state, P state → E state) :
    Ensures P (throw why : EStateM ε σ α) Q E := h

theorem ensures_get_bind {rest : σ → EStateM ε σ α}
    (h : ∀ seen, Ensures (fun state => P state ∧ state = seen) (rest seen) Q E) :
    Ensures P (get >>= rest) Q E :=
  fun state hstate => h state state ⟨hstate, rfl⟩

theorem get_bind_apply (rest : σ → EStateM ε σ α) (state : σ) : (get >>= rest) state = rest state state := rfl

theorem ensures_modify {f : σ → σ} {Q : Unit → σ → Prop} (h : ∀ state, P state → Q () (f state)) :
    Ensures P (modify f : EStateM ε σ Unit) Q E := h

end Effect
