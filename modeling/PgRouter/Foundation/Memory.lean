import Mathlib.Data.List.Basic
import Mathlib.Data.Nat.Basic
import Mathlib.Order.MinMax

/-!
# Slices of a memory

A memory is a function from addresses to cells, as a C array is once its bounds
are kept elsewhere. This module has the two operations a buffer needs and the
laws they satisfy: `slice b i j`, the cells `b i; …; b (j–1)` as a list, and
`blit b i d`, the memory after the list `d` has been copied to address `i`. A
`memcpy` is a `blit` of a list, and a `memmove` is a `blit` of a `slice`.
-/

namespace PgRouter.Foundation

universe u

variable {α : Type u}

/-- The cells `b i; …; b (j–1)` of a memory. -/
def slice (b : ℕ → α) (i j : ℕ) : List α := (List.range' i (j - i)).map b

/-- The memory after the list `d` is copied to addresses `i, …, i + |d| – 1`. -/
def blit (b : ℕ → α) (i : ℕ) (d : List α) : ℕ → α :=
  fun x => if x < i then b x else (d[x - i]?).getD (b x)

@[simp] theorem length_slice (b : ℕ → α) (i j : ℕ) : (slice b i j).length = j - i := by simp [slice]

theorem slice_eq_nil (b : ℕ → α) {i j : ℕ} (h : j ≤ i) : slice b i j = [] := by
  simp [slice, Nat.sub_eq_zero_of_le h]

@[simp] theorem slice_self (b : ℕ → α) (i : ℕ) : slice b i i = [] := slice_eq_nil b le_rfl

theorem slice_cons (b : ℕ → α) {i j : ℕ} (h : i < j) : slice b i j = b i :: slice b (i + 1) j := by
  unfold slice
  rw [show j - i = (j - (i + 1)) + 1 by omega, List.range'_succ, List.map_cons]

theorem slice_append (b : ℕ → α) {i j k : ℕ} (hij : i ≤ j) (hjk : j ≤ k) :
    slice b i j ++ slice b j k = slice b i k := by
  unfold slice
  have hj : List.range' i (j - i) ++ List.range' (i + (j - i)) (k - j) = List.range' i (k - i) := by
    rw [List.range'_append_1, show j - i + (k - j) = k - i by omega]
  rw [← List.map_append, ← hj, Nat.add_sub_cancel' hij]

theorem take_slice (b : ℕ → α) (i j n : ℕ) : (slice b i j).take n = slice b i (min j (i + n)) := by
  rcases le_total i j with h | h
  · rcases le_total j (i + n) with hn | hn
    · rw [min_eq_left hn, List.take_of_length_le (by rw [length_slice]; omega)]
    · rw [min_eq_right hn, ← slice_append b (Nat.le_add_right i n) hn, List.take_left']
      rw [length_slice]; omega
  · rw [slice_eq_nil b h, List.take_nil, slice_eq_nil b (by omega)]

theorem drop_slice (b : ℕ → α) (i j n : ℕ) : (slice b i j).drop n = slice b (i + n) j := by
  rcases le_total (i + n) j with h | h
  · rw [← slice_append b (Nat.le_add_right i n) h, List.drop_left']
    rw [length_slice]; omega
  · rw [slice_eq_nil b h, List.drop_eq_nil_of_le (by rw [length_slice]; omega)]

theorem slice_congr {b c : ℕ → α} {i j : ℕ} (h : ∀ x, i ≤ x → x < j → b x = c x) :
    slice b i j = slice c i j := by
  refine List.map_congr_left fun x hx => ?_
  rw [List.mem_range'_1] at hx
  exact h x hx.1 (by omega)

theorem getElem?_slice (b : ℕ → α) {i j n : ℕ} (h : i + n < j) : (slice b i j)[n]? = some (b (i + n)) := by
  rw [slice, List.getElem?_map, List.getElem?_range' (by omega)]
  simp

theorem blit_of_lt (b : ℕ → α) {i x : ℕ} (d : List α) (h : x < i) : blit b i d x = b x := if_pos h

theorem blit_of_ge (b : ℕ → α) {i x : ℕ} (d : List α) (h : i + d.length ≤ x) : blit b i d x = b x := by
  unfold blit
  rw [List.getElem?_eq_none (by omega), Option.getD_none, ite_self]

@[simp] theorem blit_nil (b : ℕ → α) (i : ℕ) : blit b i [] = b := by
  funext x
  simp [blit]

/-- What was copied is read back. -/
theorem slice_blit_self (b : ℕ → α) (i : ℕ) (d : List α) : slice (blit b i d) i (i + d.length) = d := by
  refine List.ext_getElem? fun n => ?_
  by_cases hn : n < d.length
  · rw [getElem?_slice _ (by omega), blit, if_neg (by omega), Nat.add_sub_cancel_left,
      List.getElem?_eq_getElem hn, Option.getD_some]
  · rw [List.getElem?_eq_none (by rw [length_slice]; omega), List.getElem?_eq_none (by omega)]

/-- Two copies, the second behind the first. -/
theorem blit_blit (b : ℕ → α) (i : ℕ) (d d' : List α) :
    blit (blit b i d) (i + d.length) d' = blit b i (d ++ d') := by
  funext x
  by_cases hlt : x < i + d.length
  · rw [blit_of_lt _ d' hlt]
    by_cases hx : x < i
    · rw [blit_of_lt b d hx, blit_of_lt b _ hx]
    · rw [blit, if_neg hx, blit, if_neg hx, List.getElem?_append_left (by omega)]
  · rw [blit, if_neg hlt, blit_of_ge b d (not_lt.mp hlt), blit, if_neg (by omega),
      List.getElem?_append_right (by omega),
      Nat.sub_sub]

/-- A copy leaves what is below it. -/
theorem slice_blit_below (b : ℕ → α) {i j k : ℕ} (d : List α) (h : j ≤ k) :
    slice (blit b k d) i j = slice b i j :=
  slice_congr fun _ _ hx => blit_of_lt b d (by omega)

/-- A copy to the end of a slice extends it. -/
theorem slice_blit_extend (b : ℕ → α) {i j : ℕ} (d : List α) (h : i ≤ j) :
    slice (blit b j d) i (j + d.length) = slice b i j ++ d := by
  rw [← slice_append _ h (Nat.le_add_right j d.length), slice_blit_below b d le_rfl, slice_blit_self]

/-- Moving a slice to address `i` puts it there. -/
theorem slice_blit_move (b : ℕ → α) {i j k n : ℕ} (hn : n = i + (k - j)) :
    slice (blit b i (slice b j k)) i n = slice b j k := by
  have h := slice_blit_self b i (slice b j k)
  rwa [length_slice, ← hn] at h

end PgRouter.Foundation
