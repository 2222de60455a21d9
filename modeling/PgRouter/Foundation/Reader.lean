import Mathlib.Data.Nat.Digits.Defs
import PgRouter.Foundation.Numeral

/-!
# Readers of printed texts

A reader takes a value from the beginning of a text and leaves the rest. That it reads back what a
printer has put there is said of it whatever follows (`Recovers`), so that it can be shown part by part, in
the order of the text.

## What is proved

Readers one after the other take texts one after the other (`Recovers.bind`, `Recovers.times`), a reader of a
run of characters takes it if something else follows (`takeWhile_recovers`), and the decimal figures of a
number denote it (`numeral_figures`).
-/

namespace PgRouter.Foundation

variable {α β γ : Type}

/-- A reader of texts over `α`. -/
abbrev Reader (α : Type) := StateT (List α) Option

namespace Reader

/-- Reads the word `w`. -/
def literal [DecidableEq α] (w : List α) : Reader α Unit :=
  fun s => if w <+: s then some ((), s.drop w.length) else none

/-- Reads the characters up to the first that does not have `p`. -/
def takeWhile (p : α → Bool) : Reader α (List α) := fun s => some (s.takeWhile p, s.dropWhile p)

/-- Reads one of the given words, for the value that goes with it. -/
def oneOf [DecidableEq α] : List (List α × β) → Reader α β
  | [] => fun _ => none
  | (w, b) :: ws => fun s => if w <+: s then some (b, s.drop w.length) else oneOf ws s

/-- Reads `n` values. -/
def times (r : Reader α β) : ℕ → Reader α (List β)
  | 0 => return []
  | n + 1 => do
    let b ← r
    let bs ← times r n
    return b :: bs

/-- The reader takes the text `w` for `b`, and leaves what follows. -/
def Recovers (r : Reader α β) (w : List α) (b : β) (rest : List α) : Prop := r (w ++ rest) = some (b, rest)

/-- A reader that takes nothing. -/
theorem pure_recovers (b : β) (rest : List α) : Recovers (pure b : Reader α β) [] b rest := rfl

/-- What has been read is made into a value. -/
theorem Recovers.map {r : Reader α β} {g : β → γ} {w : List α} {b : β} {c : γ} {rest : List α} (h : Recovers r w b rest)
    (hc : g b = c) : Recovers (r >>= fun b => pure (g b)) w c rest := by
  subst hc
  change (r (w ++ rest)).bind _ = _
  rw [h]
  rfl

/-- One reader after the other. -/
theorem Recovers.bind {r : Reader α β} {f : β → Reader α γ} {w w' : List α} {b : β} {c : γ} {rest : List α}
    (h : Recovers r w b (w' ++ rest)) (h' : Recovers (f b) w' c rest) : Recovers (r >>= f) (w ++ w') c rest := by
  unfold Recovers
  rw [List.append_assoc]
  change (r (w ++ (w' ++ rest))).bind _ = _
  rw [h]
  exact h'

theorem literal_recovers [DecidableEq α] (w rest : List α) : Recovers (literal w) w () rest := by
  simp [Recovers, literal]

/-- A run of characters ends before a word that begins with another one. -/
theorem takeWhile_recovers {p : α → Bool} {w v rest : List α} (hw : ∀ a ∈ w, p a = true)
    (hv : v.head?.map p = some false) : Recovers (takeWhile p) w w (v ++ rest) := by
  cases v with
  | nil => cases hv
  | cons a v =>
    have ha : p a = false := Option.some.inj hv
    simp [Recovers, takeWhile, List.takeWhile_append_of_pos hw, List.dropWhile_append_of_pos hw, ha]

/-- The first word with which the text can begin is taken. -/
theorem oneOf_recovers [DecidableEq α] (ws ws' : List (List α × β)) {w : List α} {b : β} {rest : List α}
    (hws : ∀ v ∈ ws, ¬ v.1 <+: w ++ rest) : Recovers (oneOf (ws ++ (w, b) :: ws')) w b rest := by
  induction ws with
  | nil => simp [Recovers, oneOf]
  | cons v ws ih =>
    have hv : ¬ v.1 <+: w ++ rest := hws v List.mem_cons_self
    have hrest := ih fun v' hv' => hws v' (List.mem_cons_of_mem v hv')
    simpa [Recovers, oneOf, hv] using hrest

/-- One value after the other, each of which has been printed for one of `xs`. -/
theorem Recovers.times {δ : Type} {r : Reader α β} {print : δ → List α} {value : δ → β} {xs : List δ} {rest : List α}
    (h : ∀ x ∈ xs, ∀ rest, Recovers r (print x) (value x) rest) :
    Recovers (times r xs.length) (xs.flatMap print) (xs.map value) rest := by
  induction xs with
  | nil => exact pure_recovers [] rest
  | cons x xs ih =>
    have hrest := ih fun x' hx' => h x' (List.mem_cons_of_mem x hx')
    rw [List.flatMap_cons]
    exact (h x List.mem_cons_self _).bind (hrest.map rfl)

end Reader

/-! ### Decimal figures -/

/-- The decimal figures of a number, the greatest first. -/
def figures (n : ℕ) : List ℕ := if n = 0 then [0] else (Nat.digits 10 n).reverse

theorem numeral_reverse (b : ℕ) (ds : List ℕ) : numeral b ds.reverse = Nat.ofDigits b ds := by
  induction ds with
  | nil => rfl
  | cons d ds ih =>
    rw [List.reverse_cons, numeral, List.foldl_append, ← numeral, ih, Nat.ofDigits_cons]
    simp only [List.foldl_cons, List.foldl_nil]
    ring

/-- The figures of a number denote it. -/
@[simp] theorem numeral_figures (n : ℕ) : numeral 10 (figures n) = n := by
  unfold figures
  split_ifs with h
  · subst h
    rfl
  · rw [numeral_reverse, Nat.ofDigits_digits]

theorem figures_lt {n d : ℕ} (h : d ∈ figures n) : d < 10 := by
  unfold figures at h
  split_ifs at h
  · obtain rfl := List.mem_singleton.mp h
    decide
  · exact Nat.digits_lt_base (by decide) (List.mem_reverse.mp h)

theorem figures_ne_nil (n : ℕ) : figures n ≠ [] := by
  unfold figures
  split_ifs with h
  · exact List.cons_ne_nil _ _
  · exact fun hnil => Nat.digits_ne_nil_iff_ne_zero.mpr h (List.reverse_eq_nil_iff.mp hnil)

end PgRouter.Foundation
