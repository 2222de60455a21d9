import PgRouter.Wire.Framing
import PgRouter.Wire.ReplayLog

/-!
# Starvation

A session passes messages on by calling `pgr_mbuf_recv` and `pgr_mbuf_send` in turn. As
long as the messages fit in the buffer, `pgr_mbuf_send` keeps what it has sent below
`start` and moves nothing, so that the room behind `start` shrinks with every message;
once a message has not fit, it keeps what it has sent in the cache, and `start` is `0`
from then on.

## What is proved

When a message ends less than five octets before the end of the buffer, or at its end,
and everything up to there has fit, nothing is available, there is no room for five octets
more, and no message that would not fit is ever seen: `pgr_mbuf_recv` reads `0` octets and
takes this for the end of the input. Whether everything fits up to there is up to the
kernel, and a kernel that delivers as much as it can makes it so. So every message is
delivered, whatever the kernel does, just when no message but the last ends there
(`starvation_iff`).
-/

namespace PgRouter.Wire

open Foundation

/-- A typed message of length below 2^24. -/
structure Message.Ordinary (msg : Message) : Prop where
  /-- It has a type octet. -/
  typed : msg.type.isSome
  /-- Its length is below 2^24. -/
  short : msg.lengthField < 2 ^ 24

/-- The octets of some messages. -/
def streamOf (msgs : List Message) : List Octet := msgs.flatMap Message.octets

theorem streamOf_append (p q : List Message) : streamOf (p ++ q) = streamOf p ++ streamOf q :=
  List.flatMap_append

theorem streamOf_cons (msg : Message) (q : List Message) : streamOf (msg :: q) = msg.octets ++ streamOf q := rfl

/-- An ordinary message is at least five octets long. -/
theorem Message.Ordinary.five_le {msg : Message} (h : msg.Ordinary) : 5 ≤ msg.octets.length := by
  obtain ⟨t, ht⟩ := Option.isSome_iff_exists.mp h.typed
  rw [msg.length_octets, ht, Message.lengthField, Option.toList_some, List.length_singleton]
  omega

/-- `size` counts the octets of an ordinary message at the front of the pending stream. -/
theorem Message.Ordinary.size_eq {msg : Message} (h : msg.Ordinary) {m : Mbuf} (hm : m.Wf) {k : Kernel}
    (hav : 5 ≤ m.available) {rest : List Octet} (hp : pending m k = msg.octets ++ rest) :
    size m = msg.octets.length := by
  have h5 := hav.trans (available_le_pending m k)
  rw [size_eq_frameSize hm k hav, hp]
  rw [hp] at h5
  have hshort := h.short
  exact (frameSize_octets h5 (by omega)).mpr hshort

/-- Where there is room for five octets, `pgr_mbuf_recv` gets them, if there are as many to be had. -/
theorem pgrMbufRecv_five {m : Mbuf} (h : m.Wf) (hroom : m.start + 5 ≤ m.len) {k : Kernel} (hok : k.ReadsOk)
    (hfive : 5 ≤ (pending m k).length) {rc : ℤ} {m' : Mbuf} {k' : Kernel} (hr : pgrMbufRecv m k = (rc, m', k')) :
    5 ≤ m'.available ∧ rc = m'.available := by
  obtain ⟨he, hk, hrc⟩ := pgrMbufRecv_spec h k hr
  rcases hrc with hrc | ⟨hlt, -, hend⟩ | ⟨-, -, hno⟩
  · exact hrc
  · exfalso
    have hstart := hk.start
    have hlen := he.len
    have hp : pending m' k' = pending m k := he.pending
    rw [← hp, length_pending] at hfive
    rcases hend with hfull | hnone
    · unfold Mbuf.available at hlt
      omega
    · rw [hnone, List.length_nil] at hfive
      omega
  · exact absurd hok hno

/-! ### pgr_mbuf_send and the room in the buffer -/

/-- A message that is wholly in the buffer stays there. -/
theorem pgrMbufSend_fits {m : Mbuf} (h : m.Wf) (hc : m.Cached) (hav : 5 ≤ m.available) {k : Kernel}
    (hw : k.WritesAll) {rc : ℤ} {m' : Mbuf} {k' : Kernel} (hr : pgrMbufSend m k = (rc, m', k'))
    (hfit : size m ≤ m.available) (hcache : m.cache = none) :
    m'.cache = none ∧ m'.start = m.start + size m ∧ m'.fill = m.fill ∧ k'.unread = k.unread := by
  have hloop : sendLoop (size m) true m k = .ok (size m, true, m, k) := by
    rw [sendLoop, if_neg (by omega)]
  obtain ⟨m₁, k₁, hrest, -, -, hnone⟩ := sendRest_spec h hc hw hfit
  rw [pgrMbufSend, if_neg (by omega), hloop] at hr
  cases hrest.symm.trans hr
  exact hnone hcache

/-- After a message that was not wholly in the buffer there is a cache. -/
theorem pgrMbufSend_overflows {m : Mbuf} (h : m.Wf) (hc : m.Cached) (hav : 5 ≤ m.available) {k : Kernel}
    (hw : k.WritesAll) (hok : k.ReadsOk ∧ k.DiskOk) {rc : ℤ} {m' : Mbuf} {k' : Kernel}
    (hr : pgrMbufSend m k = (rc, m', k')) (hsize : size m ≤ (pending m k).length) (hnone : m'.cache = none) :
    m.cache = none ∧ size m ≤ m.available := by
  have hlen : 0 < m.len := by have := h.fill_le; unfold Mbuf.available at hav; omega
  have hloop := sendLoop_spec (size m) true h hc hlen hw
  rw [pgrMbufSend, if_neg (by omega)] at hr
  cases hres : sendLoop (size m) true m k with
  | error r =>
    rw [hres] at hloop
    obtain ⟨w, -, -, ⟨-, rfl, hlt⟩ | ⟨-, hno⟩⟩ := hloop
    · omega
    · exact absurd hok hno
  | ok r =>
    obtain ⟨len, wrOk, m₁, k₁⟩ := r
    rw [hres] at hloop hr
    obtain ⟨w, hs, -, hav', htrue, hover, hfit⟩ := hloop
    cases htrue rfl
    obtain ⟨m₂, k₂, hrest, -, hsome, -⟩ := sendRest_spec hs.wf hs.cached (hs.follows.writesAll hw) hav'
    simp only [hrest] at hr
    cases hr
    have hnone₁ : ¬ m₁.cache.isSome := fun h => by
      have := hsome h
      rw [hnone] at this
      cases this
    have hge : size m ≤ m.available := by
      by_contra hlt
      exact hnone₁ (hover (by omega))
    rw [(hfit hge).1] at hnone₁
    exact ⟨by simpa using hnone₁, hge⟩

/-! ### Rounds -/

/-- `pgr_mbuf_recv`, and then `pgr_mbuf_send`. -/
def round (s : Mbuf × Kernel) : Mbuf × Kernel := (pgrMbufSend (pgrMbufRecv s.1 s.2).2.1 (pgrMbufRecv s.1 s.2).2.2).2

/-- Where the `n`th message of the stream begins. -/
def boundary (msgs : List Message) (n : ℕ) : ℕ := (streamOf (msgs.take n)).length

/-- The first `n` messages have been sent through a buffer that was fresh, and the others
are pending. -/
structure Passed (m₀ : Mbuf) (k₀ : Kernel) (msgs : List Message) (n : ℕ) (s : Mbuf × Kernel) : Prop where
  /-- The buffer and the kernel are in order. -/
  ready : Ready s.1 s.2
  /-- The buffer is of the same size. -/
  len : s.1.len = m₀.len
  /-- The input descriptor is the same. -/
  infd : s.1.infd = m₀.infd
  /-- The output descriptor is the same. -/
  outfd : s.1.outfd = m₀.outfd
  /-- The other messages are pending. -/
  unsent : pending s.1 s.2 = streamOf (msgs.drop n)
  /-- The first `n` messages have been sent. -/
  sent : s.2.sent = k₀.sent ++ (streamOf (msgs.take n)).map (Prod.mk m₀.outfd)
  /-- While there is no cache they are in the buffer, below `start`. -/
  start : s.1.cache = none → s.1.start = boundary msgs n

section Rounds

variable {m₀ : Mbuf} {k₀ : Kernel} {msgs : List Message}

/-- At first nothing has been sent. -/
theorem passed_zero (hfresh : m₀.Fresh) (hw : k₀.WritesAll) (hr : k₀.ReadsOk) (hd : k₀.DiskOk)
    (hin : k₀.unread m₀.infd = streamOf msgs) : Passed m₀ k₀ msgs 0 (m₀, k₀) where
  ready := ⟨hfresh.wf, hfresh.cached, hw, hr, hd⟩
  len := rfl
  infd := rfl
  outfd := rfl
  unsent := by
    rw [pending, Mbuf.window, hfresh.start, hfresh.fill, slice_self, hin]
    rfl
  sent := by simp [streamOf]
  start := fun _ => hfresh.start

/-- `pgr_mbuf_recv` sends nothing, and stops short of five octets only at the end of the
input or where the buffer has no room. -/
theorem Passed.recv {n : ℕ} {m : Mbuf} {k : Kernel} (h : Passed m₀ k₀ msgs n (m, k)) (hlen : 16 ≤ m₀.len) {rc : ℤ}
    {m' : Mbuf} {k' : Kernel} (hr : pgrMbufRecv m k = (rc, m', k')) :
    Passed m₀ k₀ msgs n (m', k') ∧ m'.cache = m.cache ∧
      ((5 ≤ m'.available ∧ rc = m'.available) ∨
        (m'.available < 5 ∧ rc = 0 ∧ (k'.unread m'.infd = [] ∨
          (m₀.len < boundary msgs n + 5 ∧ boundary msgs n ≤ m₀.len)))) := by
  obtain ⟨he, hk, hrc⟩ := pgrMbufRecv_spec (m := m) h.ready.wf k hr
  refine ⟨⟨h.ready.after he (hk.cached h.ready.cached), he.len.trans h.len, he.infd.trans h.infd,
    he.outfd.trans h.outfd, ?_, ?_, fun hn => ?_⟩, hk.cache, ?_⟩
  · rw [← h.unsent, ← he.pending, List.nil_append]
  · rw [he.sent, h.sent, List.map_nil, List.append_nil]
  · rw [hk.start]
    exact h.start (hk.cache ▸ hn)
  · rcases hrc with h5 | ⟨hlt, h0, hfull⟩ | ⟨-, -, hno⟩
    · exact .inl h5
    · refine .inr ⟨hlt, h0, hfull.symm.imp id fun hfull => ?_⟩
      have hl : m'.len = m₀.len := he.len.trans h.len
      have hle := he.wf.start_le
      unfold Mbuf.available at hlt
      -- with a cache `start` is `0`, and a full buffer has five octets
      have hnone : m.cache = none := by
        rw [← hk.cache]
        cases hc : m'.cache with
        | none => rfl
        | some f =>
          have := (hk.cached h.ready.cached f hc).2
          omega
      have hs : m.start = boundary msgs n := h.start hnone
      have := hk.start
      omega
    · exact absurd h.ready.reads hno

/-- `pgr_mbuf_send` sends the next message. -/
theorem Passed.send (hmsgs : ∀ msg ∈ msgs, msg.Ordinary) {n : ℕ} (hn : n < msgs.length) {m : Mbuf} {k : Kernel}
    (h : Passed m₀ k₀ msgs n (m, k)) (hav : 5 ≤ m.available) :
    Passed m₀ k₀ msgs (n + 1) (pgrMbufSend m k).2 ∧ size m = msgs[n].octets.length := by
  have hp := h.unsent
  rw [List.drop_eq_getElem_cons hn, streamOf_cons] at hp
  have hsize : size m = msgs[n].octets.length :=
    (hmsgs _ (List.getElem_mem hn)).size_eq h.ready.wf hav hp
  have hok := And.intro h.ready.reads h.ready.disk
  have htake : (pending m k).take (size m) = msgs[n].octets := by rw [hsize, hp, List.take_left]
  have hsum : streamOf (msgs.take (n + 1)) = streamOf (msgs.take n) ++ msgs[n].octets := by
    rw [List.take_succ_eq_append_getElem hn, streamOf_append]
    simp [streamOf]
  rcases hr : pgrMbufSend m k with ⟨rc, m', k'⟩
  obtain ⟨w, hs, -, hrc⟩ := pgrMbufSend_spec h.ready.wf h.ready.cached hav h.ready.writes hr
  obtain ⟨-, rfl⟩ := hrc.resolve_right fun hno => hno.2 hok
  rw [htake] at hs
  refine ⟨⟨h.ready.after hs.toEffect hs.cached, hs.len.trans h.len, hs.infd.trans h.infd,
    hs.outfd.trans h.outfd, ?_, ?_, fun hnone => ?_⟩, hsize⟩
  · rw [hs.pending_eq, hp, List.drop_left]
  · rw [hs.sent, h.sent, hsum, List.map_append, ← List.append_assoc]
    rw [show m.outfd = m₀.outfd from h.outfd]
  · obtain ⟨hnone₀, hfit⟩ := pgrMbufSend_overflows h.ready.wf h.ready.cached hav h.ready.writes hok hr
      (by rw [hsize, hp, List.length_append]; omega) hnone
    obtain ⟨-, hstart, -⟩ := pgrMbufSend_fits h.ready.wf h.ready.cached hav h.ready.writes hr hfit hnone₀
    rw [hstart, h.start hnone₀, boundary, boundary, hsum, List.length_append, hsize]

/-- Where the next message begins. -/
theorem boundary_succ {n : ℕ} (hn : n < msgs.length) :
    boundary msgs (n + 1) = boundary msgs n + msgs[n].octets.length := by
  rw [boundary, boundary, List.take_succ_eq_append_getElem hn, streamOf_append, List.length_append]
  simp [streamOf]

/-- The octets from the `n`th message on. -/
theorem boundary_add_length_drop (msgs : List Message) (n : ℕ) :
    boundary msgs n + (streamOf (msgs.drop n)).length = (streamOf msgs).length := by
  rw [boundary, ← List.length_append, ← streamOf_append, List.take_append_drop]

/-! ### Where no message ends at the end of the buffer -/

/-- A message that is not the last ends in the last four octets of a buffer of `len`
octets, or at its end. -/
def Starves (len : ℕ) (msgs : List Message) : Prop :=
  ∃ n < msgs.length, len < boundary msgs n + 5 ∧ boundary msgs n ≤ len

/-- If none does, a round sends the next message, and `pgr_mbuf_recv` returns `0` only at
the end of the input. -/
theorem Passed.after_round (hmsgs : ∀ msg ∈ msgs, msg.Ordinary) (hlen : 16 ≤ m₀.len)
    (hs : ¬ Starves m₀.len msgs) {n : ℕ}
    {s : Mbuf × Kernel} (h : Passed m₀ k₀ msgs n s) :
    Passed m₀ k₀ msgs (n + 1) (round s) ∧
      ∀ m' k', pgrMbufRecv s.1 s.2 = (0, m', k') → k'.unread m'.infd = [] := by
  obtain ⟨m, k⟩ := s
  rcases hr : pgrMbufRecv m k with ⟨rc, m', k'⟩
  obtain ⟨h', -, hrc⟩ := h.recv hlen hr
  have hround : round (m, k) = (pgrMbufSend m' k').2 := by
    rw [round]
    simp only [hr]
  rw [hround]
  have hp : pending m' k' = streamOf (msgs.drop n) := h'.unsent
  by_cases hn : n < msgs.length
  · -- there is a message left, so its first octets are available
    have hnot : ¬ (m₀.len < boundary msgs n + 5 ∧ boundary msgs n ≤ m₀.len) := fun hb => hs ⟨n, hn, hb⟩
    rw [List.drop_eq_getElem_cons hn, streamOf_cons] at hp
    have hge := congrArg List.length hp
    have h5 := (hmsgs _ (List.getElem_mem hn)).five_le
    rw [length_pending, List.length_append] at hge
    obtain ⟨hav, hrc⟩ : 5 ≤ m'.available ∧ rc = m'.available := by
      refine hrc.resolve_right ?_
      rintro ⟨hlt, -, hend⟩
      rw [hend.resolve_right hnot, List.length_nil] at hge
      omega
    refine ⟨(h'.send hmsgs hn hav).1, ?_⟩
    intro m'' k'' heq
    cases heq
    omega
  · -- nothing is left
    rw [List.drop_of_length_le (by omega)] at hp
    have hge := congrArg List.length hp
    rw [length_pending, streamOf, List.flatMap_nil, List.length_nil] at hge
    rw [pgrMbufSend_short (by omega)]
    have htake : msgs.take (n + 1) = msgs.take n := by
      rw [List.take_of_length_le (by omega), List.take_of_length_le (by omega)]
    have hdrop : msgs.drop (n + 1) = msgs.drop n := by
      rw [List.drop_of_length_le (by omega), List.drop_of_length_le (by omega)]
    refine ⟨⟨h'.ready, h'.len, h'.infd, h'.outfd, hdrop ▸ h'.unsent, htake ▸ h'.sent, fun hnone => ?_⟩, ?_⟩
    · rw [boundary, htake]
      exact h'.start hnone
    · intro m'' k'' heq
      cases heq
      exact List.length_eq_zero_iff.mp (by omega)

/-! ### Where a message does -/

/-- The first `n` messages have been sent, and the buffer has been filled to its end. -/
structure Full (m₀ : Mbuf) (k₀ : Kernel) (msgs : List Message) (n : ℕ) (s : Mbuf × Kernel) : Prop
    extends Passed m₀ k₀ msgs n s where
  /-- There is no cache. -/
  cache : s.1.cache = none
  /-- There is no room behind `fill`. -/
  fill : s.1.fill = m₀.len

/-- What is available in a full buffer. -/
theorem Full.available {n : ℕ} {s : Mbuf × Kernel} (h : Full m₀ k₀ msgs n s) :
    s.1.available = m₀.len - boundary msgs n := by
  rw [Mbuf.available, h.fill, h.start h.cache]

/-- A kernel that delivers all it is asked for fills a fresh buffer. -/
theorem full_zero (hfresh : m₀.Fresh) (hw : k₀.WritesAll) (hr : k₀.ReadsOk) (hd : k₀.DiskOk)
    (hin : k₀.unread m₀.infd = streamOf msgs) (hlen : 16 ≤ m₀.len) (hmore : m₀.len ≤ (streamOf msgs).length)
    {c : ℕ} (hc : m₀.len ≤ c) (hread : k₀.reads.head = .upto c) :
    Full m₀ k₀ msgs 0 (pgrMbufRecv m₀ k₀).2 := by
  have hzero := passed_zero hfresh hw hr hd hin
  rcases hres : pgrMbufRecv m₀ k₀ with ⟨rc, m', k'⟩
  obtain ⟨h', hcache, -⟩ := hzero.recv hlen hres
  refine ⟨h', hcache.trans hfresh.cache, ?_⟩
  have hgot : (k₀.read m₀.infd (m₀.len - m₀.fill)).1 = some ((streamOf msgs).take m₀.len) := by
    rw [Kernel.read, hread, hfresh.fill, hin]
    simp only [Nat.sub_zero]
    rw [min_eq_left (by omega)]
  have htake : ((streamOf msgs).take m₀.len).length = m₀.len := List.length_take_of_le hmore
  have hav : (m₀.put ((streamOf msgs).take m₀.len)).available = m₀.len := by
    rw [Mbuf.available, put_fill, put_start, hfresh.start, hfresh.fill, htake]
    omega
  have hav₀ : m₀.available < 5 := by
    rw [Mbuf.available, hfresh.start, hfresh.fill]
    omega
  rw [pgrMbufRecv, if_pos hav₀] at hres
  split at hres
  · rename_i k₁ hk
    rw [hk] at hgot
    cases hgot
  · rename_i got k₁ hk
    rw [hk] at hgot
    obtain rfl := Option.some.inj hgot
    have hne : (streamOf msgs).take m₀.len ≠ [] := List.length_pos_iff.mp (by omega)
    rw [dif_neg hne, pgrMbufRecv, if_neg (by omega)] at hres
    cases hres
    rw [put_fill, hfresh.fill, htake, Nat.zero_add]

/-- A full buffer stays full when `pgr_mbuf_recv` is called. -/
theorem Full.recv {n : ℕ} {m : Mbuf} {k : Kernel} (h : Full m₀ k₀ msgs n (m, k)) (hlen : 16 ≤ m₀.len) {rc : ℤ}
    {m' : Mbuf} {k' : Kernel} (hr : pgrMbufRecv m k = (rc, m', k')) : Full m₀ k₀ msgs n (m', k') := by
  obtain ⟨h', hcache, -⟩ := h.toPassed.recv hlen hr
  obtain ⟨he, hk, -⟩ := pgrMbufRecv_spec (m := m) h.ready.wf k hr
  have hnone : m'.cache = none := hcache.trans h.cache
  refine ⟨h', hnone, le_antisymm (h'.len ▸ h'.ready.wf.fill_le) ?_⟩
  -- what is pending is the same, and no more of it is unread than before
  have hp := congrArg List.length he.pending
  have hsuffix := (he.follows.unread m.infd).length_le
  rw [List.nil_append, length_pending, length_pending, he.infd] at hp
  have hav : m.available = m₀.len - boundary msgs n := h.available
  have hstart : m'.start = boundary msgs n := h'.start hnone
  have hle := he.wf.start_le
  have hge : m.available ≤ m'.available := by omega
  show m₀.len ≤ m'.fill
  unfold Mbuf.available at hge
  have hfill : m.fill = m₀.len := h.fill
  have hstart₀ : m.start = boundary msgs n := h.start h.cache
  omega

/-- It stays full when the next message, which is wholly in it, is sent. -/
theorem Full.send (hmsgs : ∀ msg ∈ msgs, msg.Ordinary) {n : ℕ} (hn : n < msgs.length)
    (hfit : boundary msgs (n + 1) ≤ m₀.len) {m : Mbuf} {k : Kernel} (h : Full m₀ k₀ msgs n (m, k)) :
    Full m₀ k₀ msgs (n + 1) (pgrMbufSend m k).2 := by
  have h5 := (hmsgs _ (List.getElem_mem hn)).five_le
  have hb := boundary_succ hn
  have hav : m.available = m₀.len - boundary msgs n := h.available
  obtain ⟨h', hsize⟩ := h.toPassed.send hmsgs hn (by omega)
  rcases hr : pgrMbufSend m k with ⟨rc, m', k'⟩
  rw [hr] at h'
  obtain ⟨hnone, -, hfill, -⟩ := pgrMbufSend_fits (m := m) h.ready.wf h.ready.cached (by omega) h.ready.writes hr
    (by omega) h.cache
  exact ⟨h', hnone, hfill.trans h.fill⟩

/-- It stays full for as long as the messages fit. -/
theorem full_rounds (hmsgs : ∀ msg ∈ msgs, msg.Ordinary) (hlen : 16 ≤ m₀.len)
    (hzero : Passed m₀ k₀ msgs 0 (m₀, k₀)) (hfull : Full m₀ k₀ msgs 0 (pgrMbufRecv m₀ k₀).2) {n : ℕ}
    (hn : n ≤ msgs.length) (hfit : boundary msgs n ≤ m₀.len) :
    Passed m₀ k₀ msgs n (round^[n] (m₀, k₀)) ∧
      Full m₀ k₀ msgs n (pgrMbufRecv (round^[n] (m₀, k₀)).1 (round^[n] (m₀, k₀)).2).2 := by
  induction n with
  | zero => exact ⟨hzero, hfull⟩
  | succ n ih =>
    have hn' : n < msgs.length := by omega
    have hb := boundary_succ hn'
    have hsend := (ih (by omega) (by omega)).2.send hmsgs (by omega) hfit
    rw [Function.iterate_succ_apply']
    exact ⟨hsend.toPassed, hsend.recv hlen rfl⟩

end Rounds

/-! ### The whole stream -/

/-- The messages are delivered by alternating `pgr_mbuf_recv` and `pgr_mbuf_send`. -/
structure Delivers (m : Mbuf) (k : Kernel) (msgs : List Message) : Prop where
  /-- `pgr_mbuf_recv` returns `0` only at the end of the input. -/
  eof : ∀ n m' k', pgrMbufRecv (round^[n] (m, k)).1 (round^[n] (m, k)).2 = (0, m', k') → k'.unread m'.infd = []
  /-- No state short of the end has fewer than five octets available and no room for five. -/
  room : ∀ n, (round^[n] (m, k)).1.available < 5 → (round^[n] (m, k)).1.len - (round^[n] (m, k)).1.start < 5 →
    pending (round^[n] (m, k)).1 (round^[n] (m, k)).2 = []
  /-- Every message is sent. -/
  all : ∃ n, (round^[n] (m, k)).2.sent = k.sent ++ (streamOf msgs).map (Prod.mk m.outfd)

/-- Where no message but the last ends at the end of the buffer, all are delivered. -/
theorem delivers_of_not_starves {m : Mbuf} (hfresh : m.Fresh) (hlen : 16 ≤ m.len) {k : Kernel} (hw : k.WritesAll)
    (hr : k.ReadsOk) (hd : k.DiskOk) {msgs : List Message} (hmsgs : ∀ msg ∈ msgs, msg.Ordinary)
    (hin : k.unread m.infd = streamOf msgs) (hs : ¬ Starves m.len msgs) : Delivers m k msgs := by
  have hpassed : ∀ n, Passed m k msgs n (round^[n] (m, k)) := by
    intro n
    induction n with
    | zero => exact passed_zero hfresh hw hr hd hin
    | succ n ih =>
      rw [Function.iterate_succ_apply']
      exact (ih.after_round hmsgs hlen hs).1
  refine ⟨fun n => ((hpassed n).after_round hmsgs hlen hs).2, fun n _ hroom => ?_, msgs.length, ?_⟩
  · have h := hpassed n
    have hwf := h.ready.wf
    have hl := h.len
    have hle := hwf.start_le.trans hwf.fill_le
    cases hc : (round^[n] (m, k)).1.cache with
    | some f =>
      have := (h.ready.cached f hc).2
      omega
    | none =>
      have hb := h.start hc
      have hend : msgs.length ≤ n := by
        by_contra hn
        exact hs ⟨n, by omega, by omega, by omega⟩
      rw [h.unsent, List.drop_of_length_le hend]
      rfl
  · rw [(hpassed msgs.length).sent, List.take_length]

/-- Where another message does, a kernel that delivers all it is asked for makes the
session starve. -/
theorem not_delivers_of_starves {m : Mbuf} (hfresh : m.Fresh) (hlen : 16 ≤ m.len) {k : Kernel} (hw : k.WritesAll)
    (hr : k.ReadsOk) (hd : k.DiskOk) {msgs : List Message} (hmsgs : ∀ msg ∈ msgs, msg.Ordinary)
    (hin : k.unread m.infd = streamOf msgs) (hs : Starves m.len msgs) {c : ℕ} (hc : m.len ≤ c)
    (hread : k.reads.head = .upto c) : ¬ Delivers m k msgs := by
  intro hdel
  obtain ⟨n, hn, hlt, hfit⟩ := hs
  have hmore := boundary_add_length_drop msgs n
  have h5 := (hmsgs _ (List.getElem_mem hn)).five_le
  rw [List.drop_eq_getElem_cons hn, streamOf_cons, List.length_append] at hmore
  obtain ⟨hpassed, hfull⟩ := full_rounds hmsgs hlen (passed_zero hfresh hw hr hd hin)
    (full_zero hfresh hw hr hd hin hlen (by omega) hc hread) hn.le hfit
  rcases hres : pgrMbufRecv (round^[n] (m, k)).1 (round^[n] (m, k)).2 with ⟨rc, m', k'⟩
  rw [hres] at hfull
  have hav : m'.available = m.len - boundary msgs n := hfull.available
  obtain ⟨-, -, ⟨hge, -⟩ | ⟨-, rfl, -⟩⟩ := hpassed.recv hlen hres
  · omega
  · -- `pgr_mbuf_recv` has returned `0`, and the next message is unread
    have hend := hdel.eof n m' k' hres
    have hunsent : pending m' k' = streamOf (msgs.drop n) := hfull.unsent
    have hp := congrArg List.length hunsent
    rw [List.drop_eq_getElem_cons hn, streamOf_cons, List.length_append, length_pending, hend,
      List.length_nil] at hp
    omega

/-- **Starvation.** Every message is delivered, for every chunking of the reads, just when no
message but the last ends less than five octets before the end of the buffer, or at its end. -/
theorem starvation_iff {m : Mbuf} (hfresh : m.Fresh) (hlen : 16 ≤ m.len) {msgs : List Message}
    (hmsgs : ∀ msg ∈ msgs, msg.Ordinary) :
    (∀ k : Kernel, k.WritesAll → k.ReadsOk → k.DiskOk → k.unread m.infd = streamOf msgs → Delivers m k msgs) ↔
      ∀ n < msgs.length, m.len < boundary msgs n + 5 → m.len < boundary msgs n := by
  have hnot : (∀ n < msgs.length, m.len < boundary msgs n + 5 → m.len < boundary msgs n) ↔
      ¬ Starves m.len msgs := by
    simp only [Starves, not_exists, not_and, not_le]
  rw [hnot]
  refine ⟨fun hall hs => ?_, fun hs k hw hr hd hin => delivers_of_not_starves hfresh hlen hw hr hd hmsgs hin hs⟩
  let k := { Kernel.eager fun _ => streamOf msgs with reads := Stream'.const (.upto m.len) }
  have hreads : k.ReadsOk := fun _ => nofun
  have hdisk : k.DiskOk := ⟨fun _ => rfl, fun _ => nofun⟩
  exact not_delivers_of_starves hfresh hlen (fun _ => rfl) hreads hdisk hmsgs rfl hs le_rfl rfl
    (hall k (fun _ => rfl) hreads hdisk rfl)

/-- A Sync message. -/
def sync : Message := ⟨some 0x53, by decide, []⟩

theorem sync_ordinary {n : ℕ} : ∀ msg ∈ List.replicate n sync, msg.Ordinary := by
  intro msg hmsg
  rw [List.eq_of_mem_replicate hmsg]
  exact ⟨rfl, by decide⟩

/-- Three of them are delivered through a buffer of 16 octets. -/
theorem starvation_iff_three_syncs :
    Delivers (pgrMbufSetfd (pgrMbufNew 16) 3 4) (.eager fun _ => streamOf (List.replicate 3 sync))
      (List.replicate 3 sync) :=
  (starvation_iff (pgrMbufSetfd_fresh (pgrMbufNew_fresh 16) 3 4) (by decide) sync_ordinary).mpr (by decide) _
    (Kernel.eager_writesAll _) (Kernel.eager_readsOk _) (Kernel.eager_diskOk _) rfl

/-- A fourth one is not: the third ends at octet 15. -/
theorem not_delivers_four_syncs :
    ¬ ∀ (m : Mbuf) (k : Kernel) (msgs : List Message), m.Fresh → 16 ≤ m.len → k.WritesAll → k.ReadsOk →
      k.DiskOk → (∀ msg ∈ msgs, msg.Ordinary) → k.unread m.infd = streamOf msgs → Delivers m k msgs := by
  intro hall
  have hfresh := pgrMbufSetfd_fresh (pgrMbufNew_fresh 16) 3 4
  let k := Kernel.eager fun _ => streamOf (List.replicate 4 sync)
  have hdel := hall _ k _ hfresh (by decide) (Kernel.eager_writesAll _) (Kernel.eager_readsOk _)
    (Kernel.eager_diskOk _) sync_ordinary rfl
  exact not_delivers_of_starves hfresh (by decide) (Kernel.eager_writesAll _) (Kernel.eager_readsOk _)
    (Kernel.eager_diskOk _) sync_ordinary rfl ⟨3, by decide, by decide, by decide⟩ (by decide) rfl hdel

end PgRouter.Wire
