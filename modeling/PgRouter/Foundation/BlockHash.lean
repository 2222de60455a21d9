import Mathlib.Data.List.Basic
import Mathlib.Data.Nat.Basic

/-!
# Iterated hashes

A message is absorbed into a state block by block, `n` cells at a time, by a function that
takes a state and a block. What is left when there is no whole block any more is the
remainder. A message that arrives in pieces can be absorbed as it arrives, if the remainder
is kept: absorbing the remainder and the next piece comes to the same as absorbing the whole
message from the beginning (`absorbAll_append`, `leftover_append`).
-/

namespace PgRouter.Foundation

universe u v

variable {α : Type u} {σ : Type v} (n : ℕ) (f : σ → List α → σ)

/-- The first `k` blocks of `d` are absorbed. -/
def absorb : ℕ → σ → List α → σ
  | 0, s, _ => s
  | k + 1, s, d => absorb k (f s (d.take n)) (d.drop n)

/-- As many blocks as there are. -/
def absorbAll (s : σ) (d : List α) : σ := absorb n f (d.length / n) s d

/-- What is left of `d` behind its last whole block. -/
def leftover (d : List α) : List α := d.drop (n * (d.length / n))

theorem length_leftover (d : List α) : (leftover n d).length = d.length % n := by
  rw [leftover, List.length_drop, Nat.mod_def]

/-- Less than a block is all left. -/
theorem leftover_of_lt {d : List α} (h : d.length < n) : leftover n d = d := by
  rw [leftover, Nat.div_eq_of_lt h, Nat.mul_zero, List.drop_zero]

theorem absorbAll_of_lt {d : List α} (h : d.length < n) (s : σ) : absorbAll n f s d = s := by
  rw [absorbAll, Nat.div_eq_of_lt h, absorb]

variable {n}

/-- Only the blocks that are absorbed matter. -/
theorem absorb_append_right {k : ℕ} {d : List α} (h : n * k ≤ d.length) (s : σ) (e : List α) :
    absorb n f k s (d ++ e) = absorb n f k s d := by
  induction k generalizing s d with
  | zero => rfl
  | succ k ih =>
    rw [Nat.mul_succ] at h
    rw [absorb, absorb, List.take_append_of_le_length (by omega), List.drop_append_of_le_length (by omega)]
    exact ih (by rw [List.length_drop]; omega) _

theorem absorb_add (j k : ℕ) (s : σ) (d : List α) :
    absorb n f (j + k) s d = absorb n f k (absorb n f j s d) (d.drop (n * j)) := by
  induction j generalizing s d with
  | zero => simp [absorb]
  | succ j ih => rw [Nat.succ_add, absorb, absorb, ih, List.drop_drop, Nat.mul_succ, Nat.add_comm n]

theorem div_append (hn : 0 < n) (d e : List α) :
    (d ++ e).length / n = d.length / n + (leftover n d ++ e).length / n := by
  have hd := Nat.div_add_mod d.length n
  rw [List.length_append, List.length_append, length_leftover, ← Nat.mul_add_div hn]
  congr 1
  omega

/-- Behind the whole blocks of `d`, `d ++ e` goes on with the remainder of `d`. -/
theorem drop_append_leftover (d e : List α) : (d ++ e).drop (n * (d.length / n)) = leftover n d ++ e := by
  rw [List.drop_append_of_le_length (Nat.mul_div_le _ _), leftover]

/-- **Absorbing the remainder and the next piece is absorbing the whole.** -/
theorem absorbAll_append (hn : 0 < n) (s : σ) (d e : List α) :
    absorbAll n f s (d ++ e) = absorbAll n f (absorbAll n f s d) (leftover n d ++ e) := by
  rw [absorbAll, div_append hn, absorb_add, absorb_append_right f (Nat.mul_div_le _ _), drop_append_leftover]
  rfl

/-- What is left of the remainder and the next piece is left of the whole. -/
theorem leftover_append (hn : 0 < n) (d e : List α) : leftover n (d ++ e) = leftover n (leftover n d ++ e) := by
  conv_lhs => rw [leftover, div_append hn, Nat.mul_add, ← List.drop_drop, drop_append_leftover]
  rfl

/-- A block is absorbed at once. -/
theorem absorbAll_block (hn : 0 < n) {b : List α} (hb : b.length = n) (s : σ) (d : List α) :
    absorbAll n f s (b ++ d) = absorbAll n f (f s b) d := by
  rw [absorbAll, List.length_append, hb, Nat.add_div_left _ hn, absorb, List.take_left' hb, List.drop_left' hb]
  rfl

theorem absorbAll_one (hn : 0 < n) {b : List α} (hb : b.length = n) (s : σ) : absorbAll n f s b = f s b := by
  have h := absorbAll_block f hn hb s []
  rwa [List.append_nil, absorbAll_of_lt n f (d := []) hn] at h

theorem leftover_block (hn : 0 < n) {b : List α} (hb : b.length = n) (d : List α) :
    leftover n (b ++ d) = leftover n d := by
  have hnil : leftover n b = [] := List.length_eq_zero_iff.mp (by rw [length_leftover, hb, Nat.mod_self])
  rw [leftover_append hn, hnil, List.nil_append]

end PgRouter.Foundation
