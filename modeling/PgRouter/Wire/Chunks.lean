import PgRouter.Wire.Pieces
import PgRouter.Wire.Stream

/-!
# Operations that do not read

A message that is in the buffer as a whole is discarded and relayed without reading. So what becomes of
it does not depend on how the reads to come divide the stream (`pgrMbufDiscard_whole`,
`pgrMbufRelay_withReads`). `pgr_mbuf_recv` reads, but what it leaves depends on the octets that it has
read only, and not on the number of reads (`pgrMbufRecv_put`).
-/

namespace PgRouter.Wire

open Foundation

/-- The kernel, with other reads to come. -/
def Kernel.withReads (k : Kernel) (r : Stream' ReadChoice) : Kernel := { k with reads := r }

@[simp] theorem withReads_withReads (k : Kernel) (r r' : Stream' ReadChoice) :
    (k.withReads r).withReads r' = k.withReads r' := rfl

@[simp] theorem withReads_unread (k : Kernel) (r : Stream' ReadChoice) : (k.withReads r).unread = k.unread := rfl

@[simp] theorem withReads_emit (k : Kernel) (r : Stream' ReadChoice) (fd : Fd) (d : List Octet) :
    (k.withReads r).emit fd d = (k.emit fd d).withReads r := rfl

/-! ### Writing -/

theorem accept_withReads (k : Kernel) (r : Stream' ReadChoice) (d : List Octet) :
    (k.withReads r).accept d = ((k.accept d).1, (k.accept d).2.withReads r) := by
  unfold Kernel.accept
  rw [show (k.withReads r).writes = k.writes from rfl]
  cases k.writes.head <;> rfl

theorem write_withReads (k : Kernel) (r : Stream' ReadChoice) (fd : Fd) (d : List Octet) :
    (k.withReads r).write fd d = ((k.write fd d).1, (k.write fd d).2.withReads r) := by
  unfold Kernel.write
  rw [accept_withReads]
  rcases k.accept d with ⟨_ | got, k'⟩ <;> rfl

theorem writeLoop_withReads (k : Kernel) (r : Stream' ReadChoice) (fd : Fd) (data : List Octet) :
    writeLoop (k.withReads r) fd data =
      ((writeLoop k fd data).1, (writeLoop k fd data).2.1, (writeLoop k fd data).2.2.withReads r) := by
  fun_induction writeLoop k fd data with
  | case1 k => rw [writeLoop, dif_pos rfl]
  | case2 k data hd k' h => rw [writeLoop, dif_neg hd, write_withReads, h]
  | case3 k data hd k' h => rw [writeLoop, dif_neg hd, write_withReads, h]; rfl
  | case4 k data hd got k' h hg s ih =>
    rw [writeLoop, dif_neg hd, write_withReads, h]
    simp only [dif_neg hg]
    rw [ih]

/-! ### Whole messages -/

/-- A message that is in the buffer as a whole is discarded without reading. -/
theorem pgrMbufDiscard_whole {m : Mbuf} (h : size m ≤ m.available) (k : Kernel) :
    pgrMbufDiscard m k = (if m.available < 5 then 1 else 0, if 0 < size m then m.dropFront (size m) else m, k) := by
  by_cases h5 : m.available < 5
  · have h0 : size m = 0 := if_pos h5
    rw [pgrMbufDiscard_short h5, if_pos h5, if_neg (by omega)]
  · rw [pgrMbufDiscard, if_neg h5, if_neg h5, discardLoop, if_neg (not_lt.mpr h)]

/-- A message that is in the buffer as a whole is relayed without reading. -/
theorem pgrMbufRelay_withReads {m : Mbuf} (h : size m ≤ m.available) (k : Kernel) (r : Stream' ReadChoice) :
    pgrMbufRelay m (k.withReads r) =
      ((pgrMbufRelay m k).1, (pgrMbufRelay m k).2.1, (pgrMbufRelay m k).2.2.withReads r) := by
  unfold pgrMbufRelay
  split_ifs with h5
  · rfl
  · rw [relayLoop, if_neg (not_lt.mpr h), relayLoop, if_neg (not_lt.mpr h)]
    simp only [relayRest, relayWrite, if_true, writeLoop_withReads]
    split_ifs <;> rfl

/-- What `pgr_mbuf_discard` does, whether there is a message or not. -/
theorem pgrMbufDiscard_drop {m : Mbuf} (h : m.Wf) {k : Kernel} (hr : k.ReadsOk) :
    (pgrMbufDiscard m k).2.1.Wf ∧ (pgrMbufDiscard m k).2.2.ReadsOk ∧
      pending (pgrMbufDiscard m k).2.1 (pgrMbufDiscard m k).2.2 = (pending m k).drop (size m) := by
  by_cases hav : 5 ≤ m.available
  · obtain ⟨u, he, -, hdiscard⟩ := pgrMbufDiscard_spec h hav (k := k) rfl
    refine ⟨he.wf, he.follows.readsOk hr, ?_⟩
    refine List.append_cancel_left (he.pending.trans ?_)
    rw [(hdiscard hr).2, List.take_append_drop]
  · rw [pgrMbufDiscard_short (by omega), size, if_pos (by omega)]
    exact ⟨h, hr, rfl⟩

/-- It does not move the message. -/
theorem pgrMbufDiscard_room {m : Mbuf} (h : m.Wf) (k : Kernel) :
    (pgrMbufDiscard m k).2.1.start = m.start ∧ (pgrMbufDiscard m k).2.1.len = m.len := by
  by_cases hav : 5 ≤ m.available
  · obtain ⟨u, he, hk, -⟩ := pgrMbufDiscard_spec h hav (k := k) rfl
    exact ⟨hk.start, he.len⟩
  · rw [pgrMbufDiscard_short (by omega)]
    exact ⟨rfl, rfl⟩

/-! ### Receiving -/

/-- **What `pgr_mbuf_recv` leaves** is what it has read, in however many parts. -/
theorem pgrMbufRecv_put (m : Mbuf) (k : Kernel) :
    ∃ d r, d <+: k.unread m.infd ∧ (pgrMbufRecv m k).2 = (m.put d,
      { k with reads := r, unread := Function.update k.unread m.infd ((k.unread m.infd).drop d.length) }) := by
  -- one `read`
  have hread : ∀ {k k' : Kernel} {fd : Fd} {n : ℕ} {o : Option (List Octet)}, k.read fd n = (o, k') →
      o.getD [] <+: k.unread fd ∧ k' = { k with
        reads := k.reads.tail
        unread := Function.update k.unread fd ((k.unread fd).drop (o.getD []).length) } := by
    intro k k' fd n o h
    unfold Kernel.read at h
    split at h
    · cases h
      exact ⟨List.nil_prefix, by simp⟩
    · cases h
      exact ⟨List.take_prefix _ _, rfl⟩
  fun_induction pgrMbufRecv m k with
  | case1 m k _ k' h =>
    obtain ⟨hp, rfl⟩ := hread h
    exact ⟨[], _, hp, by rw [put_nil]; rfl⟩
  | case2 m k _ k' h =>
    obtain ⟨hp, rfl⟩ := hread h
    exact ⟨[], _, hp, by rw [put_nil]; rfl⟩
  | case3 m k _ got k' h hne ih =>
    obtain ⟨hp, rfl⟩ := hread h
    obtain ⟨d, r, hd, heq⟩ := ih
    simp only [put_infd, Function.update_self, Option.getD_some, List.drop_drop, Function.update_idem] at hd heq
    obtain ⟨t, ht⟩ := hp
    refine ⟨got ++ d, r, ?_, ?_⟩
    · rw [← ht, Option.getD_some] at hd ⊢
      rw [List.drop_left] at hd
      exact (List.prefix_append_right_inj got).mpr hd
    · rw [List.length_append, ← put_put]
      exact heq
  | case4 m k _ =>
    refine ⟨[], k.reads, List.nil_prefix, ?_⟩
    rw [put_nil, List.length_nil, List.drop_zero, Function.update_eq_self]

/-- Nothing is received where nothing can be. -/
theorem pgrMbufRecv_stuck {m : Mbuf} (h : m.Wf) {k : Kernel} (hr : k.ReadsOk)
    (hstuck : 5 ≤ m.available ∨ m.fill = m.len ∨ k.unread m.infd = []) :
    ∃ k', (pgrMbufRecv m k).2 = (m, k') ∧ k'.unread = k.unread ∧ k'.ReadsOk := by
  have he : Effect m k [] [] (pgrMbufRecv m k).2.1 (pgrMbufRecv m k).2.2 := (pgrMbufRecv_spec h k rfl).1
  obtain ⟨d, reads, hd, heq⟩ := pgrMbufRecv_put m k
  rcases hstuck with hav | hno
  · have hrecv : (pgrMbufRecv m k).2 = (m, k) := by rw [pgrMbufRecv, if_neg (by omega)]
    exact ⟨k, hrecv, rfl, hr⟩
  · have hnil : d = [] := by
      rcases hno with hfull | hend
      · have hfill := he.wf.fill_le
        rw [heq, put_fill, put_len] at hfill
        exact List.length_eq_zero_iff.mp (by omega)
      · rw [hend] at hd
        exact List.prefix_nil.mp hd
    have hfollows := he.follows.readsOk hr
    rw [heq] at hfollows ⊢
    subst hnil
    exact ⟨_, by rw [put_nil], by simp, hfollows⟩

end PgRouter.Wire
