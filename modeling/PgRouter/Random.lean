import Mathlib.Algebra.Order.Floor.Semiring
import Mathlib.Data.Rat.Floor
import Mathlib.Tactic.Linarith
import Mathlib.Tactic.Positivity

/-!
# Random numbers

`pgr_rand` of `rand.c`. It scales what `rand_r` draws, a number up to `RAND_MAX`, to an interval of
`int`s. The `double`s are taken for exact rationals.
-/

namespace PgRouter

/-- `RAND_MAX`. -/
def RAND_MAX : ℕ := 2 ^ 31 - 1

/-- The conversion to an integer type: what is behind the point is cut off. -/
def truncate (q : ℚ) : ℤ := if 0 ≤ q then ⌊q⌋ else ⌈q⌉

/-- `pgr_rand(start, end)`, `draw` being what `rand_r` returns. -/
def pgrRand (start stop : Int32) (draw : ℕ) : Int32 :=
  Int32.ofInt (truncate ((draw : ℚ) * 1 / RAND_MAX * (stop - start).toInt + start.toInt + 1 / 2))

/-- Between `-1` and `1` there is only `0`. -/
theorem truncate_eq_zero {q : ℚ} (hlo : -1 < q) (hhi : q < 1) : truncate q = 0 := by
  unfold truncate
  split
  case isTrue h => exact Int.floor_eq_zero_iff.mpr ⟨h, hhi⟩
  case isFalse h => exact Int.ceil_eq_zero_iff.mpr ⟨hlo, (not_le.mp h).le⟩

/-- A draw is a part of `RAND_MAX`. -/
theorem draw_part {draw : ℕ} (h : draw ≤ RAND_MAX) :
    0 ≤ (draw : ℚ) * 1 / RAND_MAX ∧ (draw : ℚ) * 1 / RAND_MAX ≤ 1 := by
  have hmax : (0 : ℚ) < RAND_MAX := by norm_num [RAND_MAX]
  refine ⟨by positivity, ?_⟩
  rw [mul_one, div_le_one hmax]
  exact_mod_cast h

end PgRouter
