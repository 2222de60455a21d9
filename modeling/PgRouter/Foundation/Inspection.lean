import Mathlib.Data.Set.Defs
import PgRouter.Foundation.Memory

/-!
# Inspection of a memory

A program that looks at cells of a memory, one after the other, and decides what to do by what it finds
there (`Inspect`). It has no other access to the memory, so that the cells it examines (`examined`) are all
that its result depends on. It is run on a memory by `eval`; two programs one after the other examine
what the first examines and then what the second does with the first one's result
(`looksOnlyAt_bind`).
-/

namespace PgRouter.Foundation

universe u v

/-- A program that looks at the cells of a memory. -/
inductive Inspect (ι : Type u) (α β : Type v) where
  /-- It is over. -/
  | done (x : β)
  /-- It looks at a cell, and goes on with what is in it. -/
  | look (i : ι) (k : α → Inspect ι α β)

namespace Inspect

variable {ι : Type u} {α β γ : Type v} {b : ι → α} {s : Set ι}

/-- One program after the other. -/
def bind : Inspect ι α β → (β → Inspect ι α γ) → Inspect ι α γ
  | done x, g => g x
  | look i k, g => look i fun c => (k c).bind g

instance : Monad (Inspect ι α) where
  pure := done
  bind := bind

/-- What is in a cell. -/
def cell (i : ι) : Inspect ι α α := look i done

/-- What is in `n` cells, from `i` on. -/
def cells (i : ℕ) : ℕ → Inspect ℕ α (List α)
  | 0 => done []
  | n + 1 => look i fun c => (cells (i + 1) n).bind fun cs => done (c :: cs)

/-- The result of the program on a memory. -/
def eval (b : ι → α) : Inspect ι α β → β
  | done x => x
  | look i k => (k (b i)).eval b

/-- The cells at which the program looks, in order. -/
def examined (b : ι → α) : Inspect ι α β → List ι
  | done _ => []
  | look i k => i :: (k (b i)).examined b

/-- All cells at which the program looks are in `s`. -/
def LooksOnlyAt (b : ι → α) (s : Set ι) (m : Inspect ι α β) : Prop := ∀ i ∈ m.examined b, i ∈ s

@[simp] theorem pure_eq (x : β) : (pure x : Inspect ι α β) = done x := rfl

@[simp] theorem bind_eq (m : Inspect ι α β) (g : β → Inspect ι α γ) : (m >>= g) = m.bind g := rfl

/-! ### The result -/

@[simp] theorem eval_done (x : β) : (done x : Inspect ι α β).eval b = x := rfl

@[simp] theorem eval_look (i : ι) (k : α → Inspect ι α β) : (look i k).eval b = (k (b i)).eval b := rfl

@[simp] theorem eval_cell (i : ι) : (cell i).eval b = b i := rfl

@[simp] theorem eval_bind (m : Inspect ι α β) (g : β → Inspect ι α γ) :
    (m.bind g).eval b = (g (m.eval b)).eval b := by
  induction m with
  | done x => rfl
  | look i k ih => exact ih (b i)

/-- A cell decides how it goes on. -/
theorem eval_cell_bind (i : ι) (g : α → Inspect ι α β) : (cell i >>= g).eval b = (g (b i)).eval b := rfl

@[simp] theorem eval_ite (p : Prop) [Decidable p] (m m' : Inspect ι α β) :
    (if p then m else m').eval b = if p then m.eval b else m'.eval b := apply_ite _ _ _ _

@[simp] theorem eval_cells (b : ℕ → α) (i n : ℕ) : (cells i n).eval b = slice b i (i + n) := by
  induction n generalizing i with
  | zero => exact (slice_self b i).symm
  | succ n ih =>
    rw [cells, eval_look, eval_bind, eval_done, ih, slice_cons b (by omega : i < i + (n + 1)),
      Nat.add_right_comm, Nat.add_assoc]

/-! ### The cells that are examined -/

@[simp] theorem looksOnlyAt_done (x : β) : (done x : Inspect ι α β).LooksOnlyAt b s :=
  fun _ h => absurd h List.not_mem_nil

@[simp] theorem looksOnlyAt_look {i : ι} {k : α → Inspect ι α β} :
    (look i k).LooksOnlyAt b s ↔ i ∈ s ∧ (k (b i)).LooksOnlyAt b s := List.forall_mem_cons

@[simp] theorem looksOnlyAt_cell {i : ι} : (cell i).LooksOnlyAt b s ↔ i ∈ s := by
  rw [cell, looksOnlyAt_look]
  exact and_iff_left (looksOnlyAt_done _)

/-- **One program after the other**: the second goes on with the result of the first. -/
@[simp] theorem looksOnlyAt_bind {m : Inspect ι α β} {g : β → Inspect ι α γ} :
    (m.bind g).LooksOnlyAt b s ↔ m.LooksOnlyAt b s ∧ (g (m.eval b)).LooksOnlyAt b s := by
  induction m with
  | done x => exact (and_iff_right (looksOnlyAt_done x)).symm
  | look i k ih => rw [bind, looksOnlyAt_look, looksOnlyAt_look, ih, and_assoc, eval_look]

/-- It is looked at, and then what it goes on with. -/
theorem looksOnlyAt_cell_bind {i : ι} {g : α → Inspect ι α β} :
    ((cell i).bind g).LooksOnlyAt b s ↔ i ∈ s ∧ (g (b i)).LooksOnlyAt b s := by
  rw [looksOnlyAt_bind, looksOnlyAt_cell, eval_cell]

/-- Only the result is made into another. -/
theorem looksOnlyAt_bind_done {m : Inspect ι α β} {f : β → γ} :
    (m.bind fun x => done (f x)).LooksOnlyAt b s ↔ m.LooksOnlyAt b s :=
  looksOnlyAt_bind.trans (and_iff_left (looksOnlyAt_done _))

/-- Cells that follow one another. -/
theorem looksOnlyAt_cells {b : ℕ → α} {s : Set ℕ} {i n : ℕ} (h : ∀ j, i ≤ j → j < i + n → j ∈ s) :
    (cells i n).LooksOnlyAt b s := by
  induction n generalizing i with
  | zero => exact looksOnlyAt_done _
  | succ n ih =>
    refine looksOnlyAt_look.mpr ⟨h i le_rfl (by omega), looksOnlyAt_bind_done.mpr (ih fun j hj hlt => ?_)⟩
    exact h j (by omega) (by omega)

end Inspect

end PgRouter.Foundation
