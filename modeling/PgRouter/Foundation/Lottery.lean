import Mathlib.Algebra.Order.BigOperators.Group.List
import Mathlib.Algebra.Order.Group.Int
import Mathlib.Data.Int.Interval

/-!
# Choosing by running totals

A weighted choice among the entries of a list, some of which take part with a weight and
some of which do not take part. The totals of the weights so far are put in a table, and
a number picks the first entry of the table that is not below it. An entry that does not
take part is `0` in the table, and so a number above `0` passes it by: it picks an entry
exactly when it falls in the interval that the entry adds to the running total
(`findIdx?_runningTotals`). Every number up to the total picks an entry
(`exists_findIdx?_runningTotals`), and where weights are integers an entry is picked by as
many numbers as its weight says (`card_findIdx?_runningTotals`). For `0` nothing of the kind
holds (`findIdx?_nonpos`).

The totals may be kept in a type in which they do not all fit, so that the table has what a map makes of
them. Then a number above `0` still passes by the entries that do not take part
(`takes_part_of_findIdx?`), and the table is that of the totals if these fit (`map_runningTotals`).
-/

namespace PgRouter.Foundation

universe u

variable {α : Type u} [AddCommMonoid α]

/-- The sum of the weights of the entries that take part. -/
def totalWeight (ws : List (Option α)) : α := (ws.map fun w => w.getD 0).sum

@[simp] theorem totalWeight_nil : totalWeight ([] : List (Option α)) = 0 := rfl

@[simp] theorem totalWeight_cons (w : Option α) (ws : List (Option α)) :
    totalWeight (w :: ws) = w.getD 0 + totalWeight ws := by
  rw [totalWeight, List.map_cons, List.sum_cons, totalWeight]

theorem totalWeight_append (ws ws' : List (Option α)) :
    totalWeight (ws ++ ws') = totalWeight ws + totalWeight ws' := by
  rw [totalWeight, List.map_append, List.sum_append, totalWeight, totalWeight]

theorem totalWeight_nonneg [LinearOrder α] [IsOrderedAddMonoid α] {ws : List (Option α)}
    (h : ∀ w, some w ∈ ws → 0 ≤ w) : 0 ≤ totalWeight ws := by
  refine List.sum_nonneg fun x hx => ?_
  obtain ⟨w, hw, rfl⟩ := List.mem_map.mp hx
  cases w with
  | none => exact le_rfl
  | some w => exact h w hw

/-- The table: the running total, from `c` on, at the entries that take part. -/
def runningTotals (c : α) : List (Option α) → List α
  | [] => []
  | none :: ws => 0 :: runningTotals c ws
  | some w :: ws => (c + w) :: runningTotals (c + w) ws

@[simp] theorem length_runningTotals (c : α) (ws : List (Option α)) :
    (runningTotals c ws).length = ws.length := by
  induction ws generalizing c with
  | nil => rfl
  | cons w ws ih => cases w <;> simp [runningTotals, ih]

/-- At an entry that does not take part the table has `0`. -/
theorem getElem?_runningTotals {ws : List (Option α)} {i : ℕ} (h : ws[i]? = some none) (c : α) :
    (runningTotals c ws)[i]? = some 0 := by
  induction ws generalizing c i with
  | nil => simp at h
  | cons w ws ih =>
    cases i with
    | zero =>
      obtain rfl : w = none := by simpa using h
      rfl
    | succ i =>
      rw [List.getElem?_cons_succ] at h
      cases w with
      | none => exact ih h c
      | some w => exact ih h (c + w)

variable [LinearOrder α]

/-- **A number above the running total picks the entry in whose interval it falls.** -/
theorem findIdx?_runningTotals [IsOrderedAddMonoid α] {ws : List (Option α)} (h : ∀ w, some w ∈ ws → 0 ≤ w)
    {c r : α} (hc : 0 ≤ c) (hr : c < r) (i : ℕ) :
    (runningTotals c ws).findIdx? (fun t => r ≤ t) = some i ↔
      ∃ w, ws[i]? = some (some w) ∧ c + totalWeight (ws.take i) < r ∧ r ≤ c + totalWeight (ws.take i) + w := by
  induction ws generalizing c i with
  | nil => simp [runningTotals]
  | cons v ws ih =>
    have htail : ∀ w, some w ∈ ws → 0 ≤ w := fun w hw => h w (List.mem_cons_of_mem v hw)
    cases v with
    | none =>
      have hpass : ¬ r ≤ 0 := not_le.mpr (hc.trans_lt hr)
      cases i with
      | zero => simp [runningTotals, List.findIdx?_cons, hpass]
      | succ j => simp [runningTotals, List.findIdx?_cons, hpass, ih htail hc hr]
    | some v =>
      have hv : 0 ≤ v := h v (by simp)
      by_cases hle : r ≤ c + v
      · cases i with
        | zero => simp [runningTotals, List.findIdx?_cons, hle, hr]
        | succ j =>
          -- what comes later lies above `c + v`
          have hlater : r ≤ c + (v + totalWeight (ws.take j)) := by
            have hnn : 0 ≤ totalWeight (ws.take j) :=
            totalWeight_nonneg fun w hw => htail w (List.mem_of_mem_take hw)
            rw [← add_assoc]
            exact hle.trans (le_add_of_nonneg_right hnn)
          simp [runningTotals, List.findIdx?_cons, hle, hlater]
      · have hlt : c + v < r := not_le.mp hle
        cases i with
        | zero => simp [runningTotals, List.findIdx?_cons, hle]
        | succ j => simp [runningTotals, List.findIdx?_cons, hle, ih htail (add_nonneg hc hv) hlt, add_assoc]

/-- The running total at an entry that takes part is not above the total. -/
theorem totalWeight_take_add_le [IsOrderedAddMonoid α] {ws : List (Option α)} (h : ∀ w, some w ∈ ws → 0 ≤ w)
    {i : ℕ} {w : α} (hget : ws[i]? = some (some w)) : totalWeight (ws.take i) + w ≤ totalWeight ws := by
  have hrest : 0 ≤ totalWeight (ws.drop (i + 1)) := totalWeight_nonneg fun v hv => h v (List.mem_of_mem_drop hv)
  obtain ⟨hi, hwi⟩ := List.getElem?_eq_some_iff.mp hget
  have hsplit : ws = ws.take i ++ some w :: ws.drop (i + 1) := by
    rw [← hwi, ← List.drop_eq_getElem_cons hi, List.take_append_drop]
  calc totalWeight (ws.take i) + w
    _ ≤ totalWeight (ws.take i) + w + totalWeight (ws.drop (i + 1)) := le_add_of_nonneg_right hrest
    _ = totalWeight (ws.take i ++ some w :: ws.drop (i + 1)) := by
        rw [totalWeight_append, totalWeight_cons, Option.getD_some, add_assoc]
    _ = totalWeight ws := by rw [← hsplit]

/-- A number above the running total and not above the total picks an entry. -/
theorem exists_findIdx?_runningTotals [IsOrderedAddMonoid α] {ws : List (Option α)} (h : ∀ w, some w ∈ ws → 0 ≤ w)
    {c r : α} (hc : 0 ≤ c) (hr : c < r) (hle : r ≤ c + totalWeight ws) :
    ∃ i, (runningTotals c ws).findIdx? (fun t => r ≤ t) = some i := by
  induction ws generalizing c with
  | nil => exact absurd (by simpa using hle) (not_le.mpr hr)
  | cons v ws ih =>
    have htail : ∀ w, some w ∈ ws → 0 ≤ w := fun w hw => h w (List.mem_cons_of_mem v hw)
    cases v with
    | none =>
      obtain ⟨i, hi⟩ := ih htail hc hr (by simpa using hle)
      have hpass : ¬ r ≤ 0 := not_le.mpr (hc.trans_lt hr)
      exact ⟨i + 1, by simp [runningTotals, List.findIdx?_cons, hpass, hi]⟩
    | some v =>
      by_cases hv : r ≤ c + v
      · exact ⟨0, by simp [runningTotals, List.findIdx?_cons, hv]⟩
      · have hle' : r ≤ c + v + totalWeight ws := by simpa [add_assoc] using hle
        obtain ⟨i, hi⟩ := ih htail (add_nonneg hc (h v (by simp))) (not_le.mp hv) hle'
        exact ⟨i + 1, by simp [runningTotals, List.findIdx?_cons, hv, hi]⟩

/-! ### Totals that may not fit -/

section Wrapping

variable {wrap : α → α} {ws : List (Option α)} {r : α}

/-- A number above `0` picks an entry that takes part. -/
theorem takes_part_of_findIdx? (hzero : wrap 0 = 0) {c : α} (hr : 0 < r) {i : ℕ}
    (h : ((runningTotals c ws).map wrap).findIdx? (fun t => r ≤ t) = some i) : ∃ w, ws[i]? = some (some w) := by
  obtain ⟨hlt, hle, -⟩ := List.findIdx?_eq_some_iff_getElem.mp h
  have hi : i < ws.length := by simpa using hlt
  cases hw : ws[i] with
  | some w => exact ⟨w, List.getElem?_eq_some_iff.mpr ⟨hi, hw⟩⟩
  | none =>
    have hentry : (runningTotals c ws)[i]? = some 0 :=
      getElem?_runningTotals (List.getElem?_eq_some_iff.mpr ⟨hi, hw⟩) c
    obtain ⟨hi', hget⟩ := List.getElem?_eq_some_iff.mp hentry
    rw [List.getElem_map, hget, hzero] at hle
    exact absurd hr (not_lt.mpr (of_decide_eq_true hle))

/-- A number that is not above `0` picks the first entry, whatever it is. -/
theorem findIdx?_nonpos (hzero : wrap 0 = 0) (h : ∀ w, some w ∈ ws → 0 ≤ wrap w) (hr : r ≤ 0) (hne : ws ≠ []) :
    ((runningTotals 0 ws).map wrap).findIdx? (fun t => r ≤ t) = some 0 := by
  obtain ⟨w, ws, rfl⟩ := List.exists_cons_of_ne_nil hne
  cases w with
  | none => simp [runningTotals, List.findIdx?_cons, hzero, hr]
  | some w =>
    have hw : r ≤ wrap w := hr.trans (h w (by simp))
    simp [runningTotals, List.findIdx?_cons, hw]

/-- The entries of the table are not negative, and not above the total. -/
theorem mem_runningTotals [IsOrderedAddMonoid α] (h : ∀ w, some w ∈ ws → 0 ≤ w) {c t : α} (hc : 0 ≤ c)
    (ht : t ∈ runningTotals c ws) : 0 ≤ t ∧ t ≤ c + totalWeight ws := by
  induction ws generalizing c with
  | nil => exact absurd ht List.not_mem_nil
  | cons w ws ih =>
    have htail : ∀ w, some w ∈ ws → 0 ≤ w := fun v hv => h v (List.mem_cons_of_mem w hv)
    have hrest : 0 ≤ totalWeight ws := totalWeight_nonneg htail
    cases w with
    | none =>
      rw [totalWeight_cons, Option.getD_none, zero_add]
      rcases List.mem_cons.mp ht with rfl | ht
      · exact ⟨le_rfl, add_nonneg hc hrest⟩
      · exact ih htail hc ht
    | some w =>
      have hcw : 0 ≤ c + w := add_nonneg hc (h w (by simp))
      rw [totalWeight_cons, Option.getD_some, ← add_assoc]
      rcases List.mem_cons.mp ht with rfl | ht
      · exact ⟨hcw, le_add_of_nonneg_right hrest⟩
      · exact ih htail hcw ht

/-- Where the total fits, the table has the totals. -/
theorem map_runningTotals [IsOrderedAddMonoid α] (h : ∀ w, some w ∈ ws → 0 ≤ w)
    (hfits : ∀ t, 0 ≤ t → t ≤ totalWeight ws → wrap t = t) :
    (runningTotals 0 ws).map wrap = runningTotals 0 ws := by
  refine (List.map_congr_left fun t ht => ?_).trans (List.map_id _)
  obtain ⟨hlo, hhi⟩ := mem_runningTotals h le_rfl ht
  rw [zero_add] at hhi
  exact hfits t hlo hhi

end Wrapping

/-- The numbers from `1` to `n`. -/
def upTo (n : ℤ) : Finset ℤ := (Finset.range n.toNat).map ⟨fun k : ℕ => (k : ℤ) + 1, fun _ _ h => by simpa using h⟩

theorem mem_upTo {n r : ℤ} : r ∈ upTo n ↔ 1 ≤ r ∧ r ≤ n := by
  rw [upTo, Finset.mem_map]
  constructor
  · rintro ⟨k, hk, rfl⟩
    have hlt := Finset.mem_range.mp hk
    change 1 ≤ (k : ℤ) + 1 ∧ (k : ℤ) + 1 ≤ n
    omega
  · rintro ⟨hlo, hhi⟩
    refine ⟨(r - 1).toNat, Finset.mem_range.mpr (by omega), ?_⟩
    change ((r - 1).toNat : ℤ) + 1 = r
    omega

/-- The entry at `i` is picked by as many of the numbers from `1` to the total as its weight says,
and by none if it does not take part. -/
theorem card_findIdx?_runningTotals {ws : List (Option ℤ)} (h : ∀ w, some w ∈ ws → 0 ≤ w) {i : ℕ} {w : Option ℤ}
    (hget : ws[i]? = some w) :
    (((upTo (totalWeight ws)).filter fun r => (runningTotals 0 ws).findIdx? (fun t => r ≤ t) = some i).card : ℤ)
      = w.getD 0 := by
  cases w with
  | none =>
    rw [Finset.filter_false_of_mem, Finset.card_empty]
    · rfl
    · intro r hr hpick
      obtain ⟨v, hv, -⟩ := (findIdx?_runningTotals h le_rfl (mem_upTo.mp hr).1 i).mp hpick
      exact absurd (hget.symm.trans hv) (by simp)
  | some w =>
    have hle := totalWeight_take_add_le h hget
    have hlo : 0 ≤ totalWeight (ws.take i) := totalWeight_nonneg fun v hv => h v (List.mem_of_mem_take hv)
    have hw : 0 ≤ w := h w (List.mem_of_getElem? hget)
    have hinterval : ((upTo (totalWeight ws)).filter fun r =>
        (runningTotals 0 ws).findIdx? (fun t => r ≤ t) = some i) =
        Finset.Ioc (totalWeight (ws.take i)) (totalWeight (ws.take i) + w) := by
      ext r
      rw [Finset.mem_filter, mem_upTo, Finset.mem_Ioc]
      constructor
      · rintro ⟨⟨hr, -⟩, hpick⟩
        obtain ⟨v, hv, hgt, hup⟩ := (findIdx?_runningTotals h le_rfl hr i).mp hpick
        obtain rfl : w = v := by simpa [hget] using hv
        exact ⟨by simpa using hgt, by simpa using hup⟩
      · rintro ⟨hgt, hup⟩
        have hr : 0 < r := hlo.trans_lt hgt
        exact ⟨⟨hr, hup.trans hle⟩,
          (findIdx?_runningTotals h le_rfl hr i).mpr ⟨w, hget, by simpa using hgt, by simpa using hup⟩⟩
    rw [hinterval, Int.card_Ioc_of_le _ _ (le_add_of_nonneg_right hw), add_sub_cancel_left, Option.getD_some]

end PgRouter.Foundation
