import PgRouter.Wire.Pending

/-!
# The replay log

"Send the first message in the buffer to the output file descriptor, buffering all data
sent, so that it can be resent later." What has been sent is kept in two places: below
`start` in the buffer, until a message comes that does not fit, and from then on in the
cache. `Mbuf.log` is the two together. Here a buffer is used in any way whatever
(`Call`), and the log is what has been sent since it was empty; `pgr_mbuf_resend` writes
it, as often as it is called.
-/

namespace PgRouter.Wire

open Foundation

/-- A use of a buffer. -/
inductive Call where
  /-- `pgr_mbuf_recv`. -/
  | recv
  /-- `pgr_mbuf_send`. -/
  | send
  /-- `pgr_mbuf_relay`. -/
  | relay
  /-- `pgr_mbuf_resend`, to descriptor `fd`. -/
  | resend (fd : Fd)

/-- The buffer and the kernel after a call. -/
def Call.run : Call → Mbuf × Kernel → Mbuf × Kernel
  | .recv, (m, k) => (pgrMbufRecv m k).2
  | .send, (m, k) => (pgrMbufSend m k).2
  | .relay, (m, k) => (pgrMbufRelay m k).2
  | .resend fd, (m, k) => (pgrMbufResend (pgrMbufSetfd m MBUF_SAME_FD fd) k).2

/-- After any number of calls. -/
def runCalls (calls : List Call) (s : Mbuf × Kernel) : Mbuf × Kernel := calls.foldl (fun s c => c.run s) s

/-- A fresh or reset buffer. -/
structure Mbuf.Fresh (m : Mbuf) : Prop where
  start : m.start = 0
  fill : m.fill = 0
  cache : m.cache = none

theorem pgrMbufNew_fresh (len : ℕ) : (pgrMbufNew len).Fresh := ⟨rfl, rfl, rfl⟩

theorem pgrMbufReset_fresh (m : Mbuf) : (pgrMbufReset m).Fresh := ⟨rfl, rfl, rfl⟩

theorem pgrMbufSetfd_fresh {m : Mbuf} (h : m.Fresh) (infd outfd : Fd) : (pgrMbufSetfd m infd outfd).Fresh :=
  ⟨h.start, h.fill, h.cache⟩

theorem Mbuf.Fresh.wf {m : Mbuf} (h : m.Fresh) : m.Wf :=
  ⟨by rw [h.start]; exact Nat.zero_le _, by rw [h.fill]; exact Nat.zero_le _⟩

theorem Mbuf.Fresh.cached {m : Mbuf} (h : m.Fresh) : m.Cached := cached_of_none h.cache

/-- Nothing has been sent. -/
theorem Mbuf.Fresh.log {m : Mbuf} (h : m.Fresh) : m.log = [] := by
  rw [Mbuf.log, h.start, h.cache, slice_self]
  rfl

/-- What holds before and after every call. -/
structure Ready (m : Mbuf) (k : Kernel) : Prop where
  /-- The buffer is in order. -/
  wf : m.Wf
  /-- The cache is in order. -/
  cached : m.Cached
  /-- Every `write` accepts all. -/
  writes : k.WritesAll
  /-- No `read` fails. -/
  reads : k.ReadsOk
  /-- The disk does not fail. -/
  disk : k.DiskOk

theorem Ready.after {m m' : Mbuf} {k k' : Kernel} (h : Ready m k) {u w : List Octet}
    (he : Effect m k u w m' k') (hc : m'.Cached) : Ready m' k' :=
  ⟨he.wf, hc, he.follows.writesAll h.writes, he.follows.readsOk h.reads, he.follows.diskOk h.disk⟩

theorem Ready.setfd {m : Mbuf} {k : Kernel} (h : Ready m k) (fd : Fd) :
    Ready (pgrMbufSetfd m MBUF_SAME_FD fd) k :=
  ⟨⟨h.wf.1, h.wf.2⟩, h.cached, h.writes, h.reads, h.disk⟩

/-- `pgr_mbuf_relay` leaves the log. -/
theorem Ready.relay {m : Mbuf} {k : Kernel} (h : Ready m k) :
    Ready (pgrMbufRelay m k).2.1 (pgrMbufRelay m k).2.2 ∧ (pgrMbufRelay m k).2.1.log = m.log := by
  have hkept := pgrMbufRelay_kept h.wf k
  refine ⟨?_, hkept.log⟩
  by_cases hav : 5 ≤ m.available
  · obtain ⟨u, w, he, -⟩ := pgrMbufRelay_spec h.wf hav (k := k) rfl
    exact h.after he (hkept.cached h.cached)
  · rwa [pgrMbufRelay_short (by omega)]

/-- Every call leaves the buffer ready. -/
theorem Call.run_ready (c : Call) {m : Mbuf} {k : Kernel} (h : Ready m k) :
    Ready (c.run (m, k)).1 (c.run (m, k)).2 := by
  cases c with
  | recv =>
    obtain ⟨he, hk, -⟩ := pgrMbufRecv_spec h.wf k rfl
    exact h.after he (hk.cached h.cached)
  | send =>
    by_cases hav : 5 ≤ m.available
    · obtain ⟨w, hs, -⟩ := pgrMbufSend_spec h.wf h.cached hav h.writes rfl
      exact h.after hs.toEffect hs.cached
    · rwa [Call.run, pgrMbufSend_short (by omega)]
  | relay => exact h.relay.1
  | resend fd =>
    have hfd := h.setfd fd
    rcases hres : pgrMbufResend (pgrMbufSetfd m MBUF_SAME_FD fd) k with ⟨rc, m', k'⟩
    obtain ⟨-, rfl, he⟩ := pgrMbufResend_spec hfd.wf hfd.cached hfd.disk hfd.writes hres
    rw [Call.run, hres]
    exact hfd.after he hfd.cached

theorem runCalls_ready (calls : List Call) {m : Mbuf} {k : Kernel} (h : Ready m k) :
    Ready (runCalls calls (m, k)).1 (runCalls calls (m, k)).2 := by
  induction calls generalizing m k with
  | nil => exact h
  | cons c calls ih => exact ih (c.run_ready h)

/-- **The replay log.** A buffer that was fresh has been used in any way. Then
`pgr_mbuf_send` passes on the first message of the pending stream and logs it;
`pgr_mbuf_relay` leaves the log; and `pgr_mbuf_resend` writes the log to whatever
descriptor it is given, and leaves the log and the pending stream. -/
theorem replay_log {m₀ : Mbuf} (hfresh : m₀.Fresh) {k₀ : Kernel} (hw : k₀.WritesAll) (hr : k₀.ReadsOk)
    (hd : k₀.DiskOk) (calls : List Call) {m : Mbuf} {k : Kernel} (hrun : runCalls calls (m₀, k₀) = (m, k)) :
    m₀.log = [] ∧
    (5 ≤ m.available → size m ≤ (pending m k).length →
      ∃ m' k', pgrMbufSend m k = (0, m', k') ∧
        k'.sent = k.sent ++ ((pending m k).take (size m)).map (Prod.mk m.outfd) ∧
        m'.log = m.log ++ (pending m k).take (size m) ∧
        pending m' k' = (pending m k).drop (size m)) ∧
    (pgrMbufRelay m k).2.1.log = m.log ∧
    ∀ fd, ∃ m' k', pgrMbufResend (pgrMbufSetfd m MBUF_SAME_FD fd) k = (0, m', k') ∧
      k'.sent = k.sent ++ m.log.map (Prod.mk (pgrMbufSetfd m MBUF_SAME_FD fd).outfd) ∧
      m'.log = m.log ∧ pending m' k' = pending m k := by
  have h : Ready m k := by
    have := runCalls_ready calls ⟨hfresh.wf, hfresh.cached, hw, hr, hd⟩
    rwa [hrun] at this
  refine ⟨hfresh.log, fun hav hsize => ?_, h.relay.2, fun fd => ?_⟩
  · rcases hres : pgrMbufSend m k with ⟨rc, m', k'⟩
    obtain ⟨w, hs, -, hrc⟩ := pgrMbufSend_spec h.wf h.cached hav h.writes hres
    obtain ⟨rfl, rfl⟩ := hrc.resolve_right fun hn => hn.2 ⟨h.reads, h.disk⟩
    refine ⟨m', k', rfl, hs.sent, hs.log, ?_⟩
    rw [hs.pending_eq, List.length_take_of_le hsize]
  · have hfd := h.setfd fd
    rcases hres : pgrMbufResend (pgrMbufSetfd m MBUF_SAME_FD fd) k with ⟨rc, m', k'⟩
    obtain ⟨rfl, rfl, he⟩ := pgrMbufResend_spec hfd.wf hfd.cached hfd.disk hfd.writes hres
    exact ⟨_, k', rfl, he.sent, rfl, he.pending⟩

/-- After a Sync has been received and sent, the Sync behind it is the message to be sent, and
it is the first Sync that is resent. -/
theorem replay_log_sync :
    ∃ m k, runCalls [.recv, .send, .recv]
        (pgrMbufSetfd (pgrMbufNew 16) 3 4, .eager fun _ => [0x53, 0, 0, 0, 4, 0x53, 0, 0, 0, 4]) = (m, k) ∧
      (∃ m' k', pgrMbufSend m k = (0, m', k') ∧ m'.log = m.log ++ [0x53, 0, 0, 0, 4]) ∧
      ∀ fd, ∃ m' k', pgrMbufResend (pgrMbufSetfd m MBUF_SAME_FD fd) k = (0, m', k') ∧
        m'.log = [0x53, 0, 0, 0, 4] := by
  have hall := replay_log (pgrMbufSetfd_fresh (pgrMbufNew_fresh 16) 3 4)
    (Kernel.eager_writesAll fun _ => [0x53, 0, 0, 0, 4, 0x53, 0, 0, 0, 4]) (Kernel.eager_readsOk _)
    (Kernel.eager_diskOk _) [.recv, .send, .recv] rfl
  obtain ⟨-, hsend, -, hresend⟩ := hall
  refine ⟨_, _, rfl, ?_, fun fd => ?_⟩
  · obtain ⟨m', k', hs, -, hlog, -⟩ := hsend (by decide +kernel) (by decide +kernel)
    exact ⟨m', k', hs, hlog.trans (congrArg _ (by decide +kernel))⟩
  · obtain ⟨m', k', hs, -, hlog, -⟩ := hresend fd
    exact ⟨m', k', hs, hlog.trans (by decide +kernel)⟩

end PgRouter.Wire
