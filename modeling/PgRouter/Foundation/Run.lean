import Mathlib.Logic.Function.Iterate

/-!
# Runs of a deterministic system

A system is a function from states to states, and its run from `s` is the sequence
`f^[0] s; f^[1] s; …`. An invariant of the system is carried along a run by induction;
where a step keeps it only under a condition on the state before the step, along those runs
whose steps meet the condition. What a run has done, which its last state alone does not
say, is kept in a record beside the state. Where the steps of a run are chosen from outside, the run is
one over a list of choices, and `Along` says what holds of each of its steps.
-/

namespace PgRouter.Foundation

universe u v w

variable {σ : Type u} {τ : Type v} {β : Type w}

/-- The record of a run: `note` enters into it what the step from a state does. -/
def history (f : σ → σ) (note : σ → β → β) (s : σ) (b : β) : ℕ → β
  | 0 => b
  | n + 1 => note (f^[n] s) (history f note s b n)

/-- What every step keeps, of the state and the record, holds after any number of steps. -/
theorem history_induction {f : σ → σ} {note : σ → β → β} {P : σ → β → Prop}
    (hstep : ∀ s b, P s b → P (f s) (note s b)) {s : σ} {b : β} (hs : P s b) (n : ℕ) :
    P (f^[n] s) (history f note s b n) := by
  induction n with
  | zero => exact hs
  | succ n ih =>
    rw [Function.iterate_succ_apply']
    exact hstep _ _ ih

/-- What every step keeps under a condition holds after `n` steps that meet it. -/
theorem history_induction_of {f : σ → σ} {note : σ → β → β} {P G : σ → β → Prop}
    (hstep : ∀ s b, P s b → G s b → P (f s) (note s b)) {s : σ} {b : β} (hs : P s b) (n : ℕ)
    (hG : ∀ i < n, G (f^[i] s) (history f note s b i)) : P (f^[n] s) (history f note s b n) := by
  induction n with
  | zero => exact hs
  | succ n ih =>
    rw [Function.iterate_succ_apply']
    exact hstep _ _ (ih fun i hi => hG i (Nat.lt_succ_of_lt hi)) (hG n (Nat.lt_succ_self n))

/-- Two systems in step: what every pair of steps keeps under conditions on the states
before them holds after `n` pairs that meet them. -/
theorem lockstep_induction {f : σ → σ} {g : τ → τ} {R : σ → τ → Prop} {G : σ → Prop} {H : τ → Prop}
    (hstep : ∀ s t, R s t → G s → H t → R (f s) (g t)) {s : σ} {t : τ} (hst : R s t) (n : ℕ)
    (hG : ∀ i < n, G (f^[i] s)) (hH : ∀ i < n, H (g^[i] t)) : R (f^[n] s) (g^[n] t) := by
  induction n with
  | zero => exact hst
  | succ n ih =>
    rw [Function.iterate_succ_apply', Function.iterate_succ_apply']
    exact hstep _ _ (ih (fun i hi => hG i (Nat.lt_succ_of_lt hi)) fun i hi => hH i (Nat.lt_succ_of_lt hi))
      (hG n (Nat.lt_succ_self n)) (hH n (Nat.lt_succ_self n))

/-- There is one first number of which `P` does not hold. -/
theorem first_unique {P : ℕ → Prop} {n m : ℕ} (hn : ∀ i < n, P i) (hn' : ¬ P n) (hm : ∀ i < m, P i) (hm' : ¬ P m) :
    n = m := by
  rcases Nat.lt_trichotomy n m with hlt | heq | hlt
  · exact absurd (hm n hlt) hn'
  · exact heq
  · exact absurd (hn m hlt) hm'

/-! ### Runs under choices -/

variable {ι : Type w}

/-- `P` holds of every step of the run over a list of choices, and of the state before it. -/
def Along (f : σ → ι → σ) (P : σ → ι → Prop) : σ → List ι → Prop
  | _, [] => True
  | s, i :: is => P s i ∧ Along f P (f s i) is

instance decidableAlong (f : σ → ι → σ) (P : σ → ι → Prop) [∀ s, DecidablePred (P s)] :
    ∀ s is, Decidable (Along f P s is)
  | _, [] => .isTrue trivial
  | s, i :: is => @instDecidableAnd _ _ _ (decidableAlong f P (f s i) is)

/-- What holds of a step for an invariant, which a step keeps, holds along a run. -/
theorem Along.of_invariant {f : σ → ι → σ} {P G : σ → ι → Prop} {I : σ → Prop}
    (hkeep : ∀ s i, I s → G s i → I (f s i)) (hstep : ∀ s i, I s → G s i → P s i) {s : σ} (hs : I s) {is : List ι}
    (hG : Along f G s is) : Along f P s is := by
  induction is generalizing s with
  | nil => trivial
  | cons i is ih => exact ⟨hstep s i hs hG.1, ih (hkeep s i hs hG.1) hG.2⟩

end PgRouter.Foundation
