/-!
# Runs of a transition system

A system is given by its initial states and a relation `step s o s'`: operation `o` takes `s` to
`s'`. Conditions on the operations (what callers may do) are part of the relation.
-/

namespace Osdev.Lib

universe u v

variable {S : Type u} {O : Type v}

/-- The states that some finite run reaches. -/
inductive Reach (init : S → Prop) (step : S → O → S → Prop) : S → Prop
  | start {s : S} : init s → Reach init step s
  | next {s s' : S} (o : O) : Reach init step s → step s o s' → Reach init step s'

variable {init : S → Prop} {step : S → O → S → Prop}

/-- A property of the initial states that every step keeps holds in every reached state. -/
theorem Reach.invariant {P : S → Prop} (h0 : ∀ s, init s → P s)
    (hstep : ∀ s o s', P s → step s o s' → P s') {s : S} (h : Reach init step s) : P s := by
  induction h with
  | start hs => exact h0 _ hs
  | next o _ hs ih => exact hstep _ o _ ih hs

/-- The same, where `step` is a valid call that returns. -/
theorem Reach.of_calls {P : S → Prop} {valid : S → O → Prop} {f : S → O → Option S}
    (h0 : ∀ s, init s → P s)
    (hcall : ∀ s o, P s → valid s o → ∃ s', f s o = some s' ∧ P s') {s : S}
    (h : Reach init (fun s o s' => valid s o ∧ f s o = some s') s) : P s := by
  refine h.invariant h0 ?_
  rintro s o s' hs ⟨hv, hf⟩
  obtain ⟨s1, hf1, hs1⟩ := hcall s o hs hv
  exact Option.some.inj (hf1.symm.trans hf) ▸ hs1

/-- Each operation of a run meets a condition on it and the state before it. -/
def AllSteps (step : S → O → S → Prop) (c : S → O → Prop) : List O → S → Prop
  | [], _ => True
  | o :: os, s => c s o ∧ ∀ s', step s o s' → AllSteps step c os s'

theorem allSteps_of_forall {c : S → O → Prop} (h : ∀ s o, c s o) :
    ∀ {os : List O} {s : S}, AllSteps step c os s
  | [], _ => trivial
  | o :: _, s => ⟨h s o, fun _ _ => allSteps_of_forall h⟩

/-- Where an invariant makes one condition on a step the same as another, and keeps holding as long
as the condition is met, a run meets the one exactly if it meets the other. -/
theorem allSteps_congr {I : S → Prop} {legal c c' : S → O → Prop}
    (hiff : ∀ s o, I s → legal s o → (c s o ↔ c' s o))
    (hkeep : ∀ s o s', I s → legal s o → c s o → step s o s' → I s') {os : List O}
    {s : S} (hs : I s)
    (hlegal : AllSteps step legal os s) : AllSteps step c os s ↔ AllSteps step c' os s := by
  induction os generalizing s with
  | nil => exact Iff.rfl
  | cons o os ih =>
    obtain ⟨ho, hrest⟩ := hlegal
    have hnext : c s o → ∀ s', step s o s' → (AllSteps step c os s' ↔ AllSteps step c' os s') :=
      fun hc s' hstep => ih (hkeep s o s' hs ho hc hstep) (hrest s' hstep)
    constructor
    · rintro ⟨hc, hos⟩
      exact ⟨(hiff s o hs ho).mp hc, fun s' hstep => (hnext hc s' hstep).mp (hos s' hstep)⟩
    · rintro ⟨hc, hos⟩
      have hc := (hiff s o hs ho).mpr hc
      exact ⟨hc, fun s' hstep => (hnext hc s' hstep).mpr (hos s' hstep)⟩

/-- Doing operations one after the other, each of them only if it passes a check. -/
def checkedRun {ε : Type} (ok : S → O → Bool) (f : S → O → Except ε S) : List O → S → Option S
  | [], s => some s
  | o :: os, s =>
    if ok s o then
      match f s o with
      | .error _ => none
      | .ok s' => checkedRun ok f os s'
    else none

/-- What such a run ends in is reached. -/
theorem Reach.of_checkedRun {ε : Type} {ok : S → O → Bool} {f : S → O → Except ε S}
    (hok : ∀ s o s', ok s o = true → f s o = .ok s' → step s o s') {os : List O} {s s' : S}
    (h : Reach init step s) (hrun : checkedRun ok f os s = some s') : Reach init step s' := by
  induction os generalizing s with
  | nil => exact Option.some.inj hrun ▸ h
  | cons o os ih =>
    obtain ⟨hpass, hrun⟩ := Option.ite_none_right_eq_some.mp hrun
    split at hrun
    · cases hrun
    next s1 hs1 => exact ih (h.next o (hok _ _ _ hpass hs1)) hrun

end Osdev.Lib
