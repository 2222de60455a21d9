import Mathlib.Algebra.Order.Ring.Nat
import Mathlib.Data.Nat.ModEq
import Mathlib.Tactic.Ring

/-!
# Numerals

A list of digits, the greatest first, and the number it denotes in a base (`numeral`). A program
reads a numeral by Horner's rule, in an accumulator of some width: what it has at the end is that
number modulo what the accumulator holds (`foldl_numeral_modEq`).
-/

namespace PgRouter.Foundation

/-- The number that digits denote in base `b`, the greatest digit first. -/
def numeral (b : ℕ) (ds : List ℕ) : ℕ := ds.foldl (fun n d => n * b + d) 0

@[simp] theorem numeral_nil (b : ℕ) : numeral b [] = 0 := rfl

/-- What has been read before is moved up by the digits that follow. -/
theorem foldl_numeral (b n : ℕ) (ds : List ℕ) :
    ds.foldl (fun n d => n * b + d) n = n * b ^ ds.length + numeral b ds := by
  induction ds generalizing n with
  | nil => simp
  | cons d ds ih =>
    rw [numeral, List.foldl_cons, List.foldl_cons, ih, ih (0 * b + d), List.length_cons, pow_succ]
    ring

theorem numeral_cons (b d : ℕ) (ds : List ℕ) : numeral b (d :: ds) = d * b ^ ds.length + numeral b ds := by
  rw [numeral, List.foldl_cons, foldl_numeral, Nat.zero_mul, Nat.zero_add]

/-- Digits below the base denote a number that has no more digits. -/
theorem numeral_lt {b : ℕ} {ds : List ℕ} (h : ∀ d ∈ ds, d < b) : numeral b ds < b ^ ds.length := by
  induction ds with
  | nil => simp
  | cons d ds ih =>
    have hd : d + 1 ≤ b := h d List.mem_cons_self
    have hrest := ih fun d' hd' => h d' (List.mem_cons_of_mem d hd')
    calc numeral b (d :: ds)
      _ = d * b ^ ds.length + numeral b ds := numeral_cons b d ds
      _ < d * b ^ ds.length + b ^ ds.length := by omega
      _ = (d + 1) * b ^ ds.length := by ring
      _ ≤ b * b ^ ds.length := Nat.mul_le_mul_right _ hd
      _ = b ^ (d :: ds).length := by rw [List.length_cons, pow_succ']

/-- **Horner's rule in an accumulator** that holds numbers modulo `m`: `value` is the number it
holds, and each character of `cs` adds its digit. -/
theorem foldl_numeral_modEq {α β : Type*} {b m : ℕ} {value : β → ℕ} {digit : α → ℕ} {f : β → α → β} {cs : List α}
    (hf : ∀ x, ∀ c ∈ cs, value (f x c) ≡ value x * b + digit c [MOD m]) (x : β) :
    value (cs.foldl f x) ≡ value x * b ^ cs.length + numeral b (cs.map digit) [MOD m] := by
  induction cs generalizing x with
  | nil => simpa using Nat.ModEq.refl (value x)
  | cons c cs ih =>
    have hrest := ih (fun x c' hc' => hf x c' (List.mem_cons_of_mem c hc')) (f x c)
    calc value (cs.foldl f (f x c))
      _ ≡ value (f x c) * b ^ cs.length + numeral b (cs.map digit) [MOD m] := hrest
      _ ≡ (value x * b + digit c) * b ^ cs.length + numeral b (cs.map digit) [MOD m] :=
        ((hf x c List.mem_cons_self).mul_right _).add_right _
      _ = value x * b ^ (c :: cs).length + numeral b ((c :: cs).map digit) := by
        rw [List.map_cons, numeral_cons, List.length_map, List.length_cons, pow_succ]
        ring

end PgRouter.Foundation
