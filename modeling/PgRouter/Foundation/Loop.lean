import Mathlib.Logic.Relation
import Mathlib.Order.MinMax

/-!
# Loops that return

A loop `for (;;) { … }` that is left with a `return` is a function from the state at its head to what the round
comes to: `error` with what is returned, or `ok` with the state at its head again. A loop may never return. It
returns if a measure goes down as long as it goes on (`exists_return`), and it does not if some property makes it
go on and holds again after each round (`not_error_of_invariant`). It is deterministic: whatever it gets to, it
returns from there what it returns in the end (`Gets.last`).
-/

namespace PgRouter.Foundation

universe u v

variable {σ : Type u} {ρ : Type v} {f : σ → Except ρ σ} {s t s' : σ} {r : ρ}

/-- A round goes on, from `s` to `s'`. -/
def GoesOn (f : σ → Except ρ σ) (s s' : σ) : Prop := f s = .ok s'

/-- The loop gets from the head of one round to the head of another. -/
def Gets (f : σ → Except ρ σ) : σ → σ → Prop := Relation.ReflTransGen (GoesOn f)

theorem Gets.refl (s : σ) : Gets f s s := Relation.ReflTransGen.refl

theorem Gets.head (h : f s = .ok s') (h' : Gets f s' t) : Gets f s t := Relation.ReflTransGen.head h h'

/-- What every round keeps holds wherever the loop gets to. -/
theorem Gets.induction {P : σ → Prop} (h : Gets f s t) (hstep : ∀ s s', P s → f s = .ok s' → P s') (hs : P s) :
    P t := by
  induction h with
  | refl => exact hs
  | tail _ hround ih => exact hstep _ _ ih hround

/-- From the head of a round in which it returns, the loop gets nowhere else. -/
theorem Gets.eq_of_error (h : Gets f s t) (hret : f s = .error r) : t = s := by
  rcases Relation.ReflTransGen.cases_head h with rfl | ⟨u, hround, -⟩
  · rfl
  · cases hret.symm.trans hround

/-- **Wherever it gets to**, the loop still gets to the round in which it returns. -/
theorem Gets.last (h : Gets f s t) (hret : f t = .error r) (h' : Gets f s s') : Gets f s' t := by
  have hunique : Relator.RightUnique (GoesOn f) := fun a b c hb hc => Except.ok.inj (hb.symm.trans hc)
  rcases Relation.ReflTransGen.total_of_right_unique hunique h h' with hgets | hgets
  · rw [Gets.eq_of_error hgets hret]
    exact .refl t
  · exact hgets

/-- **A loop returns** if a measure goes down in each round in which it goes on. -/
theorem exists_return {P : σ → Prop} (μ : σ → ℕ) (hstep : ∀ s s', P s → f s = .ok s' → P s' ∧ μ s' < μ s) (hs : P s) :
    ∃ t r, Gets f s t ∧ P t ∧ f t = .error r := by
  induction hn : μ s using Nat.strongRecOn generalizing s with
  | ind n ih =>
    cases hround : f s with
    | error r => exact ⟨s, r, .refl s, hs, hround⟩
    | ok s' =>
      obtain ⟨hs', hlt⟩ := hstep s s' hs hround
      obtain ⟨t, r, hgets, ht, hret⟩ := ih _ (hn ▸ hlt) hs' rfl
      exact ⟨t, r, .head hround hgets, ht, hret⟩

/-- **A loop does not return** if it goes on where a property holds, which then holds again. -/
theorem not_error_of_invariant {P : σ → Prop} (hstep : ∀ s, P s → ∃ s', f s = .ok s' ∧ P s') (hs : P s)
    (h : Gets f s t) : f t ≠ .error r := by
  have ht : P t := h.induction (fun s s' hs hround => by
    obtain ⟨s₁, hround₁, hs₁⟩ := hstep s hs
    cases hround.symm.trans hround₁
    exact hs₁) hs
  obtain ⟨t', hround, -⟩ := hstep t ht
  rw [hround]
  exact fun h => by cases h

end PgRouter.Foundation
