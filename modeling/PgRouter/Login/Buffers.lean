import PgRouter.Login.Accept
import PgRouter.Login.Echo
import PgRouter.Wire.Replies

/-!
# The buffer of a login

What the parts of a round do to the stream of the client, in the terms of `Wire.Pending`: receiving
takes nothing from it, a message that is discarded is taken from it and one that is relayed is written
too, and a reply is put between what is in the buffer and what is still to be read. No `read` fails here;
how much it delivers is up to the kernel.
-/

namespace PgRouter.Login

open Foundation Wire

namespace Accept

/-- What the client has not been asked for yet. -/
def rest (l : Accept) : List Octet := l.kernel.unread l.mbuf.infd

/-- The stream of the client, with what has been put into the buffer. -/
def stream (l : Accept) : List Octet := pending l.mbuf l.kernel

theorem stream_eq (l : Accept) : l.stream = l.mbuf.window ++ l.rest := rfl

/-- The login is in order, and no `read` fails. -/
structure InOrder (l : Accept) : Prop where
  /-- The buffer is in order. -/
  wf : l.mbuf.Wf
  /-- Nothing is kept in it. -/
  start : l.mbuf.start = 0
  /-- Its size. -/
  len : l.mbuf.len = 512
  /-- No `read` fails. -/
  reads : l.kernel.ReadsOk

theorem start_inOrder (c : Connection) {k : Kernel} (hr : k.ReadsOk) : (Accept.start c k).InOrder :=
  ⟨⟨le_rfl, Nat.zero_le _⟩, rfl, rfl, hr⟩

/-- `u` has been taken from the stream, and `w` has been written. -/
structure Moved (l : Accept) (u w : List Octet) (l' : Accept) : Prop
    extends Effect l.mbuf l.kernel u w l'.mbuf l'.kernel, Kept l.mbuf l'.mbuf

theorem Moved.refl {l : Accept} (h : l.InOrder) : Moved l [] [] l := ⟨.refl h.wf _, .refl _⟩

theorem Moved.trans {l l' l'' : Accept} {u u' w w' : List Octet} (h : Moved l u w l') (h' : Moved l' u' w' l'') :
    Moved l (u ++ u') (w ++ w') l'' :=
  ⟨h.toEffect.trans h'.toEffect, h.toKept.trans h'.toKept⟩

theorem InOrder.moved {l l' : Accept} {u w : List Octet} (h : l.InOrder) (hm : Moved l u w l') : l'.InOrder :=
  ⟨hm.wf, hm.start.trans h.start, hm.len.trans h.len, hm.follows.readsOk h.reads⟩

theorem Moved.stream_eq {l l' : Accept} {u w : List Octet} (h : Moved l u w l') : u ++ l'.stream = l.stream := h.pending

/-- What is left to be read gets no longer. -/
theorem Moved.rest_suffix {l l' : Accept} {u w : List Octet} (h : Moved l u w l') : l'.rest <:+ l.rest := by
  rw [rest, h.infd]
  exact h.follows.unread _

/-- Where nothing has been read, `u` has been taken from the buffer. -/
theorem Moved.dry {l l' : Accept} {u w : List Octet} (h : Moved l u w l') (hdry : l.rest.length ≤ l'.rest.length) :
    l'.rest = l.rest ∧ u.length ≤ l.mbuf.window.length ∧ l'.mbuf.window = l.mbuf.window.drop u.length := by
  have hrest : l'.rest = l.rest := h.rest_suffix.eq_of_length_le hdry
  have hs : (u ++ l'.mbuf.window) ++ l.rest = l.mbuf.window ++ l.rest := by
    rw [List.append_assoc, ← hrest, ← Accept.stream_eq, hrest, ← Accept.stream_eq, h.stream_eq]
  have hwindow := List.append_cancel_right hs
  refine ⟨hrest, ?_, ?_⟩
  · rw [← hwindow, List.length_append]
    exact Nat.le_add_right _ _
  · rw [← hwindow, List.drop_left]

/-- Receiving takes nothing from the stream, and sees the first message of it. -/
theorem InOrder.recv {l : Accept} (h : l.InOrder) :
    Moved l [] [] l.recv.2 ∧ 0 ≤ l.recv.1 ∧ Seen l.recv.2.mbuf l.recv.2.kernel := by
  obtain ⟨he, hk, hrc⟩ := pgrMbufRecv_spec h.wf l.kernel rfl
  refine ⟨⟨he, hk⟩, ?_, pgrMbufRecv_seen h.wf h.reads (by rw [h.start, h.len]; decide)⟩
  rcases hrc with ⟨-, hrc⟩ | ⟨-, hrc, -⟩ | ⟨-, -, hno⟩
  · exact hrc ▸ Int.natCast_nonneg _
  · exact hrc.ge
  · exact absurd h.reads hno

/-- Discarding takes the first message from the stream. -/
theorem InOrder.discard {l : Accept} (h : l.InOrder) (hs : Seen l.mbuf l.kernel) :
    Moved l (current l.stream) [] l.discard := by
  have hlen := hs.length_iff
  unfold Accept.discard withMbuf
  by_cases hav : 5 ≤ l.mbuf.available
  · obtain ⟨u, he, hk, hu⟩ := pgrMbufDiscard_spec h.wf hav (k := l.kernel) rfl
    have hcur := (hu h.reads).2
    rw [size_eq_frameSize h.wf _ hav] at hcur
    obtain rfl : u = current l.stream := hcur
    exact ⟨he, hk⟩
  · have hcur : current l.stream = [] := current_of_lt (hlen.mpr (by omega))
    rw [pgrMbufDiscard_short (by omega), hcur]
    exact .refl h

/-- The connection does not matter for that. -/
theorem InOrder.parsed {l : Accept} (h : l.InOrder) (hs : Seen l.mbuf l.kernel) (c : Connection) :
    Moved l (current l.stream) [] (l.parsed c) := by
  have h' : InOrder { l with conn := c } := ⟨h.wf, h.start, h.len, h.reads⟩
  have hd := h'.discard hs
  exact ⟨hd.toEffect, hd.toKept⟩

/-- Relaying takes the first message from the stream, and writes it as far as no `write` fails. -/
theorem InOrder.relay {l : Accept} (h : l.InOrder) (hav : 5 ≤ l.mbuf.available) :
    ∃ w, Moved l (current l.stream) w l.relay.2 ∧ w <+: current l.stream ∧
      (l.relay.1 = 0 ↔ (current l.stream).length = frameSize l.stream ∧ w = current l.stream) ∧
      (l.kernel.WritesAll → w = current l.stream) := by
  rcases hr : pgrMbufRelay l.mbuf l.kernel with ⟨rc, m', k'⟩
  obtain ⟨u, w, he, hk, hp, -, -, hrc, hu, hw⟩ := pgrMbufRelay_spec h.wf hav hr
  have hcur := hu h.reads
  rw [size_eq_frameSize h.wf l.kernel hav] at hrc hcur
  obtain rfl : u = current l.stream := hcur
  rw [show l.relay = l.withMbuf (rc, m', k') from congrArg l.withMbuf hr]
  exact ⟨w, ⟨he, hk⟩, hp, hrc, hw⟩

/-- The octets `d` are appended. -/
def append (l : Accept) (d : List Octet) : Accept := { l with mbuf := l.mbuf.put d }

theorem InOrder.append {l : Accept} (h : l.InOrder) {d : List Octet} (hroom : l.mbuf.fill + d.length ≤ 512) :
    (l.append d).InOrder :=
  ⟨⟨h.wf.start_le.trans (Nat.le_add_right _ _), by rw [← h.len] at hroom; exact hroom⟩, h.start, h.len, h.reads⟩

theorem append_window {l : Accept} (h : l.InOrder) (d : List Octet) :
    (l.append d).mbuf.window = l.mbuf.window ++ d := window_put h.wf d

@[simp] theorem append_rest (l : Accept) (d : List Octet) : (l.append d).rest = l.rest := rfl

theorem append_stream {l : Accept} (h : l.InOrder) (d : List Octet) :
    (l.append d).stream = l.mbuf.window ++ d ++ l.rest := by
  rw [stream_eq, append_window h, append_rest]

theorem length_window_eq {l : Accept} (h : l.InOrder) : l.mbuf.window.length = l.mbuf.fill := by
  rw [length_window, Mbuf.available, h.start, Nat.sub_zero]

/-- A reply is appended if there is room, and what is first in the buffer is relayed. -/
theorem InOrder.reply {l : Accept} (h : l.InOrder) (d : List Octet) (hd : 5 ≤ d.length) :
    l.reply (pgrMbufCat l.mbuf d) = (1, l) ∨
      (l.mbuf.fill + d.length ≤ 512 ∧ 5 ≤ (l.append d).mbuf.available ∧
        l.reply (pgrMbufCat l.mbuf d) = (l.append d).relay) := by
  have hfill := h.wf.fill_le
  rw [h.len] at hfill
  unfold Accept.reply pgrMbufCat
  rw [h.len]
  by_cases hroom : 512 - l.mbuf.fill < d.length
  · exact .inl (by rw [if_pos hroom]; rfl)
  · refine .inr ⟨by omega, ?_, ?_⟩
    swap
    · rw [if_neg hroom]
      rfl
    rw [← length_window, append_window h, List.length_append]
    omega

/-- A reply that fits is appended to an empty buffer and relayed, and is as a whole in the buffer then. -/
theorem InOrder.reply_empty {l : Accept} (h : l.InOrder) (hempty : l.mbuf.window = []) {d : List Octet}
    (h5 : 5 ≤ d.length) (hsize : frameSize d = d.length) (hroom : d.length ≤ 512) :
    l.reply (pgrMbufCat l.mbuf d) = (l.append d).relay ∧ (l.append d).InOrder ∧ (l.append d).mbuf.window = d ∧
      size (l.append d).mbuf ≤ (l.append d).mbuf.available := by
  have hfill : l.mbuf.fill = 0 := by rw [← length_window_eq h, hempty]; rfl
  have hcat : pgrMbufCat l.mbuf d = (0, l.mbuf.put d) := by rw [pgrMbufCat, h.len, hfill, if_neg (by omega)]
  have ha : (l.append d).InOrder := h.append (by omega)
  have hwin : (l.append d).mbuf.window = d := by rw [append_window h, hempty, List.nil_append]
  have hav : (l.append d).mbuf.available = d.length := by rw [← length_window, hwin]
  refine ⟨?_, ha, hwin, ?_⟩
  · rw [Accept.reply, hcat]
    rfl
  · rw [size_eq_frameSize ha.wf l.kernel (by omega), pending, hwin, frameSize_append h5, hsize, hav]

/-- Such a reply is relayed as a whole, without reading. -/
theorem InOrder.reply_done {l : Accept} (h : l.InOrder) (hempty : l.mbuf.window = []) {d : List Octet}
    (h5 : 5 ≤ d.length) (hsize : frameSize d = d.length) (hroom : d.length ≤ 512) :
    (l.reply (pgrMbufCat l.mbuf d)).2.InOrder ∧ (l.reply (pgrMbufCat l.mbuf d)).2.mbuf.window = [] ∧
      (l.reply (pgrMbufCat l.mbuf d)).2.rest = l.rest := by
  obtain ⟨hrep, ha, hwin, hwhole⟩ := h.reply_empty hempty h5 hsize hroom
  obtain ⟨w, hm, -⟩ := ha.relay (by rw [← length_window, hwin]; exact h5)
  rw [hrep]
  have hunread : (l.append d).relay.2.kernel.unread = (l.append d).kernel.unread := pgrMbufRelay_unread hwhole
  have hrest : (l.append d).relay.2.rest = (l.append d).rest := by
    rw [Accept.rest, hunread, hm.infd]
    rfl
  have hcur : current (l.append d).stream = d := by
    rw [current, stream_eq, hwin, frameSize_append h5, hsize, List.take_left]
  have hs := hm.stream_eq
  rw [hcur, stream_eq, stream_eq, hwin, hrest] at hs
  exact ⟨ha.moved hm, List.append_left_eq_self.mp (List.append_cancel_left hs), hrest⟩

end Accept

end PgRouter.Login
