import Mathlib.Data.List.Basic

/-!
# What the calls of a run answer

Two systems answer the same calls alike when a relation between their states, which may grow weaker as time passes, is kept by every call and forces equal answers. A read strewn between the calls changes no answer as long as the state it leaves and the state of the run without it are the same to the next call.
-/

namespace Outcomes

variable {σ τ ε υ : Type}

def outcomes (step : σ → ε → σ × υ) : σ → List ε → List υ
  | _, [] => []
  | state, call :: calls => (step state call).2 :: outcomes step (step state call).1 calls

/-- Two runs of the same calls at times that do not decrease answer alike if a relation is kept that forces equal answers. -/
theorem outcomes_eq_of_simulation {left : σ → ε → σ × υ} {right : τ → ε → τ × υ} (time : ε → Nat)
    {Same : Nat → σ → τ → Prop}
    (hstep : ∀ {now a b call}, Same now a b → now ≤ time call →
      (left a call).2 = (right b call).2 ∧ Same (time call) (left a call).1 (right b call).1)
    {now : Nat} {a : σ} {b : τ} (hsame : Same now a b) {calls : List ε} (hfrom : ∀ call ∈ calls, now ≤ time call)
    (hclock : calls.Pairwise fun early late => time early ≤ time late) :
    outcomes left a calls = outcomes right b calls := by
  induction calls generalizing now a b with
  | nil => rfl
  | cons call calls ih =>
    obtain ⟨hanswer, hnext⟩ := hstep hsame (hfrom call List.mem_cons_self)
    obtain ⟨hlater, hrest⟩ := List.pairwise_cons.mp hclock
    rw [outcomes, outcomes, hanswer, ih hnext hlater hrest]

inductive Watched (ε : Type) where
  | call (event : ε)
  | read (now : Nat)

def Watched.time (time : ε → Nat) : Watched ε → Nat
  | .call event => time event
  | .read now => now

def Watched.call? : Watched ε → Option ε
  | .call event => some event
  | .read _ => none

def calls (events : List (Watched ε)) : List ε := events.filterMap Watched.call?

def watchedOutcomes (step : σ → ε → σ × υ) (read : σ → Nat → σ) : σ → List (Watched ε) → List υ
  | _, [] => []
  | state, .call event :: events => (step state event).2 :: watchedOutcomes step read (step state event).1 events
  | state, .read now :: events => watchedOutcomes step read (read state now) events

def ReadsAllowed (step : σ → ε → σ × υ) (read : σ → Nat → σ) (time : ε → Nat) (Allowed : σ → Nat → Nat → Prop) :
    σ → List (Watched ε) → Prop
  | _, [] => True
  | state, .call event :: events => ReadsAllowed step read time Allowed (step state event).1 events
  | state, .read now :: events =>
    (∀ next ∈ (calls events).head?, Allowed state now (time next)) ∧
      ReadsAllowed step read time Allowed (read state now) events

/-- Allowed reads change no answer: the states with and without them stay the same to the next call. -/
theorem watchedOutcomes_eq {step : σ → ε → σ × υ} {read : σ → Nat → σ} {time : ε → Nat} {Allowed : σ → Nat → Nat → Prop}
    {Alike : Nat → σ → σ → Prop} (hrefl : ∀ later state, Alike later state state)
    (hcall : ∀ {a b event}, Alike (time event) a b → step a event = step b event)
    (hread : ∀ {a b now later}, now ≤ later → Allowed a now later → Alike later a b → Alike later (read a now) b)
    {events : List (Watched ε)} (hclock : events.Pairwise fun early late => early.time time ≤ late.time time)
    {a b : σ} (hallowed : ReadsAllowed step read time Allowed a events)
    (halike : ∀ next ∈ (calls events).head?, Alike (time next) a b) :
    watchedOutcomes step read a events = outcomes step b (calls events) := by
  induction events generalizing a b with
  | nil => rfl
  | cons event events ih =>
    obtain ⟨hlater, hrest⟩ := List.pairwise_cons.mp hclock
    cases event with
    | call event =>
      have hstep : step a event = step b event := hcall (halike event rfl)
      change (step a event).2 :: _ = (step b event).2 :: _
      rw [← hstep, ih hrest hallowed fun _ _ => hrefl _ _]
      rfl
    | read now =>
      refine ih hrest hallowed.2 fun next hnext => ?_
      have hmem : Watched.call next ∈ events := by
        obtain ⟨found, hfound, hcalled⟩ := List.mem_filterMap.mp (List.mem_of_mem_head? hnext)
        cases found with
        | call other =>
          obtain rfl := Option.some.inj hcalled
          exact hfound
        | read _ => exact absurd hcalled (Option.some_ne_none _).symm
      exact hread (hlater _ hmem) (hallowed.1 next hnext) (halike next hnext)

end Outcomes
