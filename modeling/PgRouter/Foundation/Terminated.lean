import Mathlib.Data.List.Basic
import Mathlib.Data.List.TakeWhile

/-!
# Terminated strings

A pointer into a memory is the list of the cells from there on, as far as they may be read. A string in it is ended by
a terminator, and what comes behind that is no part of it. A function of the pointer that looks too far ahead finds
the end of the list, and has no result (`none`); it is confined to a string if it has the same result whatever comes
behind it, and nothing at all may (`Confined`).
-/

namespace PgRouter.Foundation

universe u v

variable {α : Type u} {β : Type v}

/-- The result of `f` is that of the string `s` alone, which `z` terminates. -/
def Confined (z : α) (f : List α → Option β) (s : List α) : Prop := ∃ r, ∀ behind, f (s ++ z :: behind) = some r

/-- `for (p = s; !stop(*p); p++)`: what is passed, where it stops, and what is behind that. -/
def scanTo (stop : α → Bool) : List α → Option (List α × α × List α)
  | [] => none
  | c :: p => if stop c then some ([], c, p) else (scanTo stop p).map fun x => (c :: x.1, x.2)

variable {stop : α → Bool}

/-- It stops at the first cell at which it is to stop. -/
theorem scanTo_append {s : List α} {c : α} (hs : ∀ a ∈ s, ¬stop a) (hc : stop c) (p : List α) :
    scanTo stop (s ++ c :: p) = some (s, c, p) := by
  induction s with
  | nil => rw [List.nil_append, scanTo, if_pos hc]
  | cons a s ih =>
    obtain ⟨ha, hs⟩ := List.forall_mem_cons.mp hs
    rw [List.cons_append, scanTo, if_neg ha, ih hs, Option.map_some]

/-- Without one it reads to the end. -/
theorem scanTo_eq_none {s : List α} (hs : ∀ a ∈ s, ¬stop a) : scanTo stop s = none := by
  induction s with
  | nil => rfl
  | cons a s ih =>
    obtain ⟨ha, hs⟩ := List.forall_mem_cons.mp hs
    rw [scanTo, if_neg ha, ih hs, Option.map_none]

/-! ### The first separator -/

variable {sep : α} {s h h' t t' : List α}

/-- `s` is `h`, the first separator and `t`. -/
structure Splits (sep : α) (s h t : List α) : Prop where
  /-- The parts. -/
  eq : s = h ++ sep :: t
  /-- There is none before it. -/
  first : sep ∉ h

theorem exists_splits (hmem : sep ∈ s) : ∃ h t, Splits sep s h t := by
  obtain ⟨h, t, heq, hfirst⟩ := List.eq_append_cons_of_mem hmem
  exact ⟨h, t, heq, hfirst⟩

/-- The parts are what comes before the first separator, and what does not. -/
theorem Splits.takeWhile [DecidableEq α] (hs : Splits sep s h t) :
    s.takeWhile (· ≠ sep) = h ∧ s.dropWhile (· ≠ sep) = sep :: t := by
  have hall : ∀ a ∈ h, decide (a ≠ sep) = true := fun a ha => decide_eq_true fun heq => hs.first (heq ▸ ha)
  rw [hs.eq, List.takeWhile_append_of_pos hall, List.dropWhile_append_of_pos hall,
    List.takeWhile_cons_of_neg (by simp), List.dropWhile_cons_of_neg (by simp), List.append_nil]
  exact ⟨rfl, rfl⟩

/-- There is one first separator. -/
theorem Splits.unique [DecidableEq α] (hs : Splits sep s h t) (hs' : Splits sep s h' t') : h = h' ∧ t = t' := by
  obtain ⟨h1, h2⟩ := hs.takeWhile
  obtain ⟨h3, h4⟩ := hs'.takeWhile
  exact ⟨h1.symm.trans h3, (List.cons.inj (h2.symm.trans h4)).2⟩

end PgRouter.Foundation
