import Mathlib.Data.Nat.Basic
import Mathlib.Order.Basic
import Mathlib.Data.List.Basic

/-!
# Tables of numbered resources

A table gives out numbers for the resources of several owners, always the lowest number that is free,
and a number that is given back is free again: the descriptors of a process, for instance. Nothing
prevents a number from being given back by someone else than its owner. What an owner holds is a list of
numbers (`Holds`), which follows what is given and given back as long as everyone gives back only what it
holds.
-/

namespace PgRouter.Foundation

universe u

/-- The owners of the numbers `0; 1; …`, all further numbers being free. -/
structure Table (α : Type u) where
  /-- The owners. -/
  owners : List (Option α)

namespace Table

variable {α : Type u}

/-- The owner of a number. -/
def owner (t : Table α) (i : ℕ) : Option α := t.owners[i]?.join

/-- The lowest number that is free. -/
def lowest (t : Table α) : ℕ := t.owners.findIdx Option.isNone

/-- The lowest number that is free is given to `a`. -/
def give (t : Table α) (a : α) : Table α :=
  ⟨if t.lowest < t.owners.length then t.owners.set t.lowest (some a) else t.owners ++ [some a]⟩

/-- A number is given back. -/
def giveBack (t : Table α) (i : ℕ) : Table α := ⟨t.owners.set i none⟩

theorem lowest_le (t : Table α) : t.lowest ≤ t.owners.length := List.findIdx_le_length

/-- It is free. -/
theorem owner_lowest (t : Table α) : t.owner t.lowest = none := by
  rcases t.lowest_le.lt_or_eq with hlt | heq
  · have hnone : (t.owners.get ⟨t.lowest, hlt⟩).isNone := List.findIdx_getElem (w := hlt)
    rw [owner, List.getElem?_eq_getElem hlt, Option.join_some]
    exact Option.isNone_iff_eq_none.mp hnone
  · rw [owner, heq, List.getElem?_eq_none le_rfl, Option.join_none]

theorem owner_give_self (t : Table α) (a : α) : (t.give a).owner t.lowest = some a := by
  unfold give owner
  split_ifs with hlt
  · rw [List.getElem?_set_self hlt]
    rfl
  · rw [le_antisymm t.lowest_le (not_lt.mp hlt), List.getElem?_concat_length]
    rfl

theorem owner_give_of_ne (t : Table α) (a : α) {i : ℕ} (h : i ≠ t.lowest) : (t.give a).owner i = t.owner i := by
  unfold give owner
  split_ifs with hlt
  · rw [List.getElem?_set_ne h.symm]
  · have hlen := le_antisymm t.lowest_le (not_lt.mp hlt)
    rcases lt_or_ge i t.owners.length with hi | hi
    · rw [List.getElem?_append_left hi]
    · rw [List.getElem?_eq_none hi, List.getElem?_eq_none (by rw [List.length_append, List.length_singleton]; omega)]

theorem owner_giveBack_self (t : Table α) (i : ℕ) : (t.giveBack i).owner i = none := by
  unfold giveBack owner
  rcases lt_or_ge i t.owners.length with hi | hi
  · rw [List.getElem?_set_self hi]
    rfl
  · rw [List.getElem?_eq_none (by rwa [List.length_set])]
    rfl

theorem owner_giveBack_of_ne (t : Table α) {i j : ℕ} (h : j ≠ i) : (t.giveBack i).owner j = t.owner j := by
  rw [giveBack, owner, List.getElem?_set_ne h.symm, owner]

/-! ### What an owner holds -/

/-- The numbers of the owner `a` are those of `l`. -/
structure Holds (t : Table α) (a : α) (l : List ℕ) : Prop where
  /-- None is listed twice. -/
  nodup : l.Nodup
  /-- They are the listed ones. -/
  owner_iff : ∀ i, t.owner i = some a ↔ i ∈ l

variable {t : Table α} {a b : α} {l l' : List ℕ} {i : ℕ}

theorem Holds.perm (h : t.Holds a l) (hperm : l.Perm l') : t.Holds a l' :=
  ⟨hperm.nodup_iff.mp h.nodup, fun i => (h.owner_iff i).trans hperm.mem_iff⟩

theorem Holds.owner (h : t.Holds a (i :: l)) : t.owner i = some a := (h.owner_iff i).mpr List.mem_cons_self

/-- What the owner obtains is added. -/
theorem Holds.give (h : t.Holds a l) : (t.give a).Holds a (t.lowest :: l) := by
  have hnew : t.lowest ∉ l := fun hmem => by
    have howner := (h.owner_iff _).mpr hmem
    rw [t.owner_lowest] at howner
    cases howner
  refine ⟨List.nodup_cons.mpr ⟨hnew, h.nodup⟩, fun i => ?_⟩
  rcases eq_or_ne i t.lowest with rfl | hne
  · exact iff_of_true (t.owner_give_self a) List.mem_cons_self
  · rw [t.owner_give_of_ne a hne, List.mem_cons, or_iff_right hne]
    exact h.owner_iff i

/-- What another owner obtains makes no difference. -/
theorem Holds.give_of_ne (h : t.Holds b l) (hne : a ≠ b) : (t.give a).Holds b l := by
  refine ⟨h.nodup, fun i => ?_⟩
  rw [← h.owner_iff i]
  rcases eq_or_ne i t.lowest with rfl | hi
  · rw [t.owner_give_self, t.owner_lowest]
    exact iff_of_false (fun heq => hne (Option.some.inj heq)) (fun heq => by cases heq)
  · rw [t.owner_give_of_ne a hi]

/-- What the owner gives back is removed. -/
theorem Holds.giveBack (h : t.Holds a (i :: l)) : (t.giveBack i).Holds a l := by
  obtain ⟨hnew, hnodup⟩ := List.nodup_cons.mp h.nodup
  refine ⟨hnodup, fun j => ?_⟩
  rcases eq_or_ne j i with rfl | hj
  · rw [t.owner_giveBack_self]
    exact iff_of_false (fun heq => by cases heq) hnew
  · rw [t.owner_giveBack_of_ne hj, h.owner_iff, List.mem_cons, or_iff_right hj]

/-- What another owner gives back makes no difference. -/
theorem Holds.giveBack_of_ne (h : t.Holds b l) (howner : t.owner i = some a) (hne : a ≠ b) :
    (t.giveBack i).Holds b l := by
  refine ⟨h.nodup, fun j => ?_⟩
  rw [← h.owner_iff j]
  rcases eq_or_ne j i with rfl | hj
  · rw [t.owner_giveBack_self, howner]
    exact iff_of_false (fun heq => by cases heq) (fun heq => hne (Option.some.inj heq))
  · rw [t.owner_giveBack_of_ne hj]

end Table

end PgRouter.Foundation
