import PgRouter.Wire.Framing

/-!
# Messages appended piece by piece

The router composes its own messages by appending their parts to a buffer with `pgr_mbuf_cat`, and mostly
does not look at whether there was room for each. Where there is room for all of them, the parts come to one
(`appendAll_eq_put`); where there is not, what fits is appended, and the buffer stays in order
(`appendAll_wf`).
-/

namespace PgRouter.Wire

open Foundation

/-- The pieces are appended, those for which there is no room being skipped. -/
def appendAll (m : Mbuf) (ps : List (List Octet)) : Mbuf := ps.foldl (fun m d => (pgrMbufCat m d).2) m

/-- Octets that arrive one after the other. -/
theorem put_put (m : Mbuf) (d d' : List Octet) : (m.put d).put d' = m.put (d ++ d') := by
  simp only [Mbuf.put, blit_blit, List.length_append, Nat.add_assoc]

/-- Where there is room, a piece is appended. -/
theorem pgrMbufCat_of_le {m : Mbuf} {d : List Octet} (h : d.length ≤ m.len - m.fill) : pgrMbufCat m d = (0, m.put d) :=
  if_neg (not_lt.mpr h)

/-- Where there is none, nothing is. -/
theorem pgrMbufCat_of_lt {m : Mbuf} {d : List Octet} (h : m.len - m.fill < d.length) : pgrMbufCat m d = (1, m) :=
  if_pos h

/-- **Pieces for which there is room** are appended as one. -/
theorem appendAll_eq_put {m : Mbuf} {ps : List (List Octet)} (hroom : ps.flatten.length ≤ m.len - m.fill) :
    appendAll m ps = m.put ps.flatten := by
  induction ps generalizing m with
  | nil => exact (put_nil m).symm
  | cons d ps ih =>
    rw [List.flatten_cons, List.length_append] at hroom
    rw [appendAll, List.foldl_cons, pgrMbufCat_of_le (by omega), List.flatten_cons, ← put_put]
    exact ih (by rw [put_len, put_fill]; omega)

theorem wf_put {m : Mbuf} (h : m.Wf) {d : List Octet} (hroom : d.length ≤ m.len - m.fill) : (m.put d).Wf := by
  have hfill := h.fill_le
  exact ⟨Nat.le_add_right_of_le h.start_le, by rw [put_fill, put_len]; omega⟩

/-- **Pieces for which there may be no room** leave the buffer in order. -/
theorem appendAll_wf {m : Mbuf} (h : m.Wf) (ps : List (List Octet)) :
    (appendAll m ps).Wf ∧ (appendAll m ps).start = m.start ∧ (appendAll m ps).len = m.len := by
  induction ps generalizing m with
  | nil => exact ⟨h, rfl, rfl⟩
  | cons d ps ih =>
    rw [appendAll, List.foldl_cons]
    by_cases hroom : d.length ≤ m.len - m.fill
    · rw [pgrMbufCat_of_le hroom]
      exact ih (wf_put h hroom)
    · rw [pgrMbufCat_of_lt (not_le.mp hroom)]
      exact ih h

/-- What is available in a buffer is no longer than what was, and the room that was left. -/
theorem length_window_appendAll {m : Mbuf} (h : m.Wf) (ps : List (List Octet)) :
    (appendAll m ps).window.length ≤ m.window.length + (m.len - m.fill) := by
  obtain ⟨hwf, hstart, hlen⟩ := appendAll_wf h ps
  have hle := hwf.fill_le
  have hs := h.start_le
  rw [length_window, length_window, Mbuf.available, Mbuf.available, hstart]
  omega

end PgRouter.Wire
