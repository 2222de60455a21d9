import PgRouter.Wire.ReturnCodes

/-!
# Short writes

A `write` may take less than it is given. `writen` then goes on with what is left, as far as the count is
concerned, but it gives the next `write` the beginning of the buffer again. So it delivers as many octets as
it was asked to, but not the octets it was asked to deliver.

## What is proved

`writen` delivers the buffer just when each part that is taken of it repeats its beginning (`Repeats`), and so it
does when all of it is taken at once. `pgr_mbuf_send` and `pgr_mbuf_resend` give `writen` one buffer after the
other: they deliver, and keep, what they should just when this is so of each (`shortWrites_iff`).
-/

namespace PgRouter.Wire

open Foundation

/-! ### writen -/

/-- No `write` fails, and each takes at least one octet. -/
def Kernel.WritesSome (k : Kernel) : Prop := ∀ i, k.writes.get i ≠ .fail ∧ k.writes.get i ≠ .upto 0

theorem Kernel.Follows.writesSome {k k' : Kernel} (h : k.Follows k') (hw : k.WritesSome) : k'.WritesSome := by
  intro i
  obtain ⟨n, hn⟩ := h.writes
  rw [hn, Stream'.get_drop]
  exact hw _

theorem Kernel.accept_share (k : Kernel) (hw : k.WritesSome) {data : List Octet} (hne : data ≠ []) :
    ∃ k', k.accept data = (some (data.take (k.writes.head.share data.length)), k') ∧ k'.writes = k.writes.tail ∧
      k.Asked k' ∧ 0 < k.writes.head.share data.length ∧ k.writes.head.share data.length ≤ data.length := by
  have hpos := List.length_pos_iff.mpr hne
  obtain ⟨hfail, hzero⟩ := hw 0
  have hacc : ∀ {r k'}, k.accept data = (r, k') → k.Asked k' := fun h => (k.accept_asked h).2
  change k.writes.head ≠ _ at hfail hzero
  unfold Kernel.accept at hacc ⊢
  cases hc : k.writes.head with
  | fail => exact absurd hc hfail
  | upto n =>
    rw [hc] at hacc
    have hn : n ≠ 0 := fun h => hzero (by rw [hc, h])
    refine ⟨_, ?_, rfl, hacc rfl, ?_⟩
    · simp only [WriteChoice.share]
      rw [List.take_eq_take_min]
    · simp only [WriteChoice.share]
      omega
  | all =>
    rw [hc] at hacc
    refine ⟨_, ?_, rfl, hacc rfl, ?_⟩
    · rw [WriteChoice.share, List.take_length]
    · exact ⟨hpos, le_rfl⟩

/-- So `writen` goes on until all is taken. -/
theorem sum_shares {len : ℕ} {ws : Stream' WriteChoice} (hw : ∀ i, ws.get i ≠ .fail ∧ ws.get i ≠ .upto 0) :
    (shares len ws).1.sum = len := by
  induction len using Nat.strong_induction_on generalizing ws with
  | _ len ih =>
    obtain ⟨hfail, hzero⟩ : ws.head ≠ .fail ∧ ws.head ≠ .upto 0 := hw 0
    have hle := ws.head.share_le len
    rw [shares]
    split_ifs with h0 hnone
    · exact h0.symm
    · cases hc : ws.head with
      | fail => exact absurd hc hfail
      | upto n =>
        have hn : n ≠ 0 := fun hn => hzero (by rw [hc, hn])
        rw [hc, WriteChoice.share] at hnone
        omega
      | all =>
        rw [hc, WriteChoice.share] at hnone
        exact absurd hnone h0
    · have htail : (shares (len - ws.head.share len) ws.tail).1.sum = len - ws.head.share len :=
        ih _ (by omega) fun i => hw (i + 1)
      rw [List.sum_cons]
      omega

/-- Each of the buffers repeats its beginning in the parts that are taken of it, one buffer being written after
the other. -/
def AllRepeat : List (List Octet) → Stream' WriteChoice → Prop
  | [], _ => True
  | buf :: rest, ws => Repeats buf 0 (shares buf.length ws).1 ∧ AllRepeat rest (shares buf.length ws).2

/-- **`writen`** takes as many octets as there are, and they are those of the buffer just when each part repeats the
beginning of it. -/
theorem writen_whole {k : Kernel} (hw : k.WritesSome) (buf : List Octet) :
    (writen k buf buf.length).1 = true ∧ (writen k buf buf.length).2.1.length = buf.length ∧
      (writen k buf buf.length).2.2.writes = (shares buf.length k.writes).2 ∧
      ((writen k buf buf.length).2.1 = buf ↔ Repeats buf 0 (shares buf.length k.writes).1) := by
  have hsum : (shares buf.length k.writes).1.sum = buf.length := sum_shares hw
  obtain ⟨h1, h2, h3⟩ := writen_shares k (le_refl buf.length)
  refine ⟨h1.mpr hsum, by rw [h2, length_flatMap_take hsum.le, hsum], h3, ?_⟩
  rw [h2]
  exact flatMap_take_eq_iff ((Nat.zero_add _).trans hsum)

/-! ### pgr_mbuf_send -/

/-- `w` has gone from the pending stream, and in its place as many octets, `d`, to `outfd`, and `l` to the log. -/
structure Conveyed (m : Mbuf) (k : Kernel) (w d l : List Octet) (m' : Mbuf) (k' : Kernel) : Prop
    extends Effect m k w d m' k' where
  /-- `l` is logged. -/
  log : m'.log = m.log ++ l
  /-- The cache is in order. -/
  cached : m'.Cached
  /-- As much has been sent as has gone. -/
  length_sent : d.length = w.length
  /-- And as much has been logged. -/
  length_log : l.length = w.length

theorem Conveyed.refl {m : Mbuf} (h : m.Wf) (hc : m.Cached) (k : Kernel) : Conveyed m k [] [] [] m k :=
  ⟨.refl h k, by simp, hc, rfl, rfl⟩

theorem Conveyed.trans {m m' m'' : Mbuf} {k k' k'' : Kernel} {w w' d d' l l' : List Octet}
    (h : Conveyed m k w d l m' k') (h' : Conveyed m' k' w' d' l' m'' k'') :
    Conveyed m k (w ++ w') (d ++ d') (l ++ l') m'' k'' :=
  ⟨h.toEffect.trans h'.toEffect, by rw [h'.log, h.log, List.append_assoc], h'.cached,
    by rw [List.length_append, List.length_append, h.length_sent, h'.length_sent],
    by rw [List.length_append, List.length_append, h.length_log, h'.length_log]⟩

/-- Where nothing is sent, what is kept stays. -/
theorem Conveyed.of_kept {m m' : Mbuf} {k k' : Kernel} (he : Effect m k [] [] m' k') (hk : Kept m m')
    (hc : m.Cached) : Conveyed m k [] [] [] m' k' := ⟨he, by rw [hk.log, List.append_nil], hk.cached hc, rfl, rfl⟩

/-- It is `w` that has been sent and logged just when this is so of each of two parts. -/
theorem Conveyed.exact_append {m m' : Mbuf} {k k' : Kernel} {w w' d d' l l' : List Octet}
    (h : Conveyed m k w d l m' k') :
    d ++ d' = w ++ w' ∧ l ++ l' = w ++ w' ↔ (d = w ∧ l = w) ∧ d' = w' ∧ l' = w' := by
  constructor
  · rintro ⟨hd, hl⟩
    obtain ⟨hd, hd'⟩ := List.append_inj hd h.length_sent
    obtain ⟨hl, hl'⟩ := List.append_inj hl h.length_log
    exact ⟨⟨hd, hl⟩, hd', hl'⟩
  · rintro ⟨⟨rfl, rfl⟩, rfl, rfl⟩
    exact ⟨rfl, rfl⟩

/-- A piece is written to `outfd` and to the cache, and then goes from the pending stream. -/
theorem conveyed_cached {m m' : Mbuf} {f : File} (h : m.Wf) (hf : m.cache = some f) (hc : m.Cached) {k : Kernel}
    (hw : k.WritesSome) {w : List Octet} (hgone : ∀ k' : Kernel, k'.unread = k.unread → Effect m k' w [] m' k')
    (hstart : m'.start = 0) :
    let k₁ := (writenTo k m.outfd w w.length).2
    let r := m.writenCache k₁ w w.length
    (writenTo k m.outfd w w.length).1 = true ∧ r.1 = true ∧ ∃ d l,
      Conveyed m k w d l { m' with cache := r.2.1.cache } r.2.2 ∧
      ∀ rest, (d = w ∧ l = w) ∧ AllRepeat rest r.2.2.writes ↔ AllRepeat (w :: w :: rest) k.writes := by
  intro k₁ r
  obtain ⟨hend, hstart'⟩ := hc f hf
  have hto : k.Wrote m.outfd (writen k w w.length).2.1 k₁ :=
    ((writen_asked k w w.length).wrote m.outfd).trans (Kernel.emit_wrote _ _ _)
  obtain ⟨h1, h2, h3, h4⟩ := writen_whole hw w
  have hasked := writen_asked k₁ w w.length
  obtain ⟨h5, h6, h7, h8⟩ := writen_whole (hto.follows.writesSome hw) w
  have hk₁ : k₁.writes = (shares w.length k.writes).2 := h3
  rw [hk₁] at h7 h8
  refine ⟨h1, h5, (writen k w w.length).2.1, (writen k₁ w w.length).2.1, ?_, fun rest => ?_⟩
  · have hwrote := hto.trans (hasked.wrote m.outfd)
    rw [List.append_nil] at hwrote
    have he := (Effect.of_wrote h hwrote).trans (hgone _ hwrote.unread)
    rw [List.nil_append, List.append_nil] at he
    refine ⟨⟨⟨he.wf.1, he.wf.2⟩, he.infd, he.outfd, he.len, he.pending, he.sent, he.other, he.follows⟩, ?_, ?_, h2, h6⟩
    · simp [Mbuf.log, r, Mbuf.writenCache, hf, hstart, hstart', (File.write_end hend _).1]
    · intro g hg
      simp only [r, Mbuf.writenCache, hf, Option.map_some, Option.some.injEq] at hg
      subst hg
      exact ⟨(File.write_end hend _).2, hstart⟩
  · rw [AllRepeat, AllRepeat, ← h4, ← h8, and_assoc, ← h7]
    exact Iff.rfl

/-- A round of the loop, once there is a cache. -/
theorem sendWindow_conveyed {m : Mbuf} (h : m.Wf) (hsome : m.cache.isSome) (hc : m.Cached) {k : Kernel}
    (hw : k.WritesSome) :
    ∃ m₁ k₁ d l, sendWindow m k = .ok (true, m₁, k₁) ∧ Conveyed m k m.window d l m₁.empty k₁ ∧
      (∀ rest, (d = m.window ∧ l = m.window) ∧ AllRepeat rest k₁.writes ↔
        AllRepeat (m.window :: m.window :: rest) k.writes) ∧
      m₁.start = m.start ∧ m₁.fill = m.fill ∧ m₁.cache.isSome ∧ k₁.reads = k.reads ∧ k₁.unread = k.unread := by
  obtain ⟨f, hf⟩ := Option.isSome_iff_exists.mp hsome
  have hwarm : warmCache m k = .ok (m, k) := by rw [warmCache, hf]
  obtain ⟨h1, h2, d, l, hp, hiff⟩ := conveyed_cached h hf hc hw (fun k' _ => effect_empty h k') (hc f hf).2
  refine ⟨(m.writenCache (writenTo k m.outfd m.window m.window.length).2 m.window m.window.length).2.1, _, d, l, ?_,
    hp, hiff, rfl, rfl, ?_, (writen_reads _ _ _).trans (writen_reads _ _ _),
    (writen_asked _ _ _).unread.trans (writenTo_unread _ _ _ _)⟩
  · rw [length_window] at h1 h2
    simp only [sendWindow, hwarm, length_window]
    rw [h1, h2]
    rfl
  · simp [Mbuf.writenCache, hf]

/-- What is left of a message is sent and cached, once it is available. -/
theorem sendRest_conveyed {m : Mbuf} (h : m.Wf) (hsome : m.cache.isSome) (hc : m.Cached) {k : Kernel}
    (hw : k.WritesSome) {len : ℕ} (hlen : len ≤ m.available) (wrOk : Bool) :
    ∃ d l, Conveyed m k (m.window.take len) d l (sendRest len wrOk m k).2.1 (sendRest len wrOk m k).2.2 ∧
      (d = m.window.take len ∧ l = m.window.take len ↔
        AllRepeat [m.window.take len, m.window.take len] k.writes) := by
  obtain ⟨f, hf⟩ := Option.isSome_iff_exists.mp hsome
  have hl : (m.window.take len).length = len := List.length_take_of_le (by rwa [length_window])
  have hpiece : ∀ k, slice m.buf m.start (m.start + len) = (pending m k).take len := fun k =>
    slice_eq_take_pending h k hlen
  have hwindow : m.window.take len = slice m.buf m.start (m.start + len) := by
    rw [hpiece k, pending, List.take_append_of_le_length (by rwa [length_window])]
  have hgone : ∀ k' : Kernel, k'.unread = k.unread → Effect m k' (m.window.take len) [] (m.dropFront len) k' := by
    intro k' _
    rw [hwindow, hpiece k']
    exact effect_dropFront h k' hlen
  rcases Nat.eq_zero_or_pos len with h0 | h0
  · subst h0
    simp only [sendRest, lt_irrefl, if_false, List.take_zero]
    exact ⟨[], [], .refl h hc k, by simp [AllRepeat, shares, Repeats]⟩
  · obtain ⟨h1, h2, d, l, hp, hiff⟩ := conveyed_cached h hf hc hw hgone (hc f hf).2
    rw [hl] at h2 hp
    refine ⟨d, l, ?_, ?_⟩
    · rw [hwindow] at h2 hp
      simp only [sendRest, if_pos h0, hf, h2, not_true_eq_false, if_false]
      rw [hwindow]
      exact hp
    · have := hiff []
      rwa [show AllRepeat [] _ ↔ True from Iff.rfl, and_true] at this

/-- Where there is no cache, a message that is available is sent, and what is kept stays in the buffer. -/
theorem sendRest_uncached {m : Mbuf} (h : m.Wf) (hc : m.cache = none) {k : Kernel} (hw : k.WritesSome) {len : ℕ}
    (hlen : len ≤ m.available) (wrOk : Bool) :
    ∃ d, Conveyed m k (m.window.take len) d (m.window.take len)
        (sendRest len wrOk m k).2.1 (sendRest len wrOk m k).2.2 ∧
      (d = m.window.take len ↔ AllRepeat [m.window.take len] k.writes) := by
  have hl : (m.window.take len).length = len := List.length_take_of_le (by rwa [length_window])
  have hstart := h.start_le
  have hlen' : len ≤ m.fill - m.start := hlen
  have hwindow : m.window.take len = slice m.buf m.start (m.start + len) := by
    rw [Mbuf.window, take_slice, min_eq_right (by omega)]
  rcases Nat.eq_zero_or_pos len with h0 | h0
  · subst h0
    simp only [sendRest, lt_irrefl, if_false, List.take_zero]
    exact ⟨[], .refl h (cached_of_none hc) k, by simp [AllRepeat, shares, Repeats]⟩
  · have hto : k.Wrote m.outfd (writen k (m.window.take len) len).2.1 (writenTo k m.outfd (m.window.take len) len).2 :=
      ((writen_asked k _ len).wrote m.outfd).trans (Kernel.emit_wrote _ _ _)
    have hout := writen_whole hw (m.window.take len)
    rw [hl] at hout
    have hsplit : slice m.buf m.start (m.start + len) ++ slice m.buf (m.start + len) m.fill =
        slice m.buf m.start m.fill := slice_append _ (by omega) (by omega)
    refine ⟨(writen k (m.window.take len) len).2.1, ?_, ?_⟩
    · rw [hwindow] at hto hout ⊢
      simp only [sendRest, if_pos h0, hc]
      refine ⟨⟨⟨by simp only; omega, h.fill_le⟩, rfl, rfl, rfl, ?_, hto.sent, fun _ _ => by rw [hto.unread],
        hto.follows⟩, ?_, fun f hf => ?_, by rw [hout.2.1, length_slice, Nat.add_sub_cancel_left], rfl⟩
      · simp only [pending, Mbuf.window, hto.unread]
        rw [← List.append_assoc, hsplit]
      · simp [Mbuf.log, hc, slice_append]
      · cases hf
    · rw [hout.2.2.2, AllRepeat, hl]
      exact (and_iff_left trivial).symm

/-- Each piece twice: `outfd` and the cache are both written. -/
def twice (ps : List (List Octet)) : List (List Octet) := ps.flatMap fun p => [p, p]

/-- **The loop of `pgr_mbuf_send`**, and what follows it, once there is a cache. -/
theorem sendLoop_conveyed (len : ℕ) (wrOk : Bool) {m : Mbuf} (h : m.Wf) (hsome : m.cache.isSome) (hc : m.Cached)
    (hroom : 0 < m.len) {k : Kernel} (hw : k.WritesSome) :
    ∃ w d l, Conveyed m k w d l (finish (sendLoop len wrOk m k)).2.1 (finish (sendLoop len wrOk m k)).2.2 ∧
      w.length ≤ len ∧ (k.ReadsOk → w = (pending m k).take len) ∧
      (d = w ∧ l = w ↔ AllRepeat (twice (pieces m.infd (m.len - m.start) len m.window k).1) k.writes) := by
  fun_induction sendLoop len wrOk m k with
  | case1 len wrOk m k hlt r hwin =>
    obtain ⟨m₁, k₁, d, l, hsw, -⟩ := sendWindow_conveyed h hsome hc hw
    cases hsw.symm.trans hwin
  | case2 len wrOk m k hlt wrOk₁ m₁ k₁ hwin k₂ hread =>
    obtain ⟨m', k', d, l, hsw, hp, hiff, hstart, -, -, hreads, hunread⟩ := sendWindow_conveyed h hsome hc hw
    cases hsw.symm.trans hwin
    obtain ⟨k₃, hread', -⟩ := read_congr hreads hunread hread
    rw [show m₁.infd = m.infd from hp.infd, show m₁.len = m.len from hp.len, hstart] at hread'
    have hput := effect_put hp.wf (k₁.read_got hread)
    have hall := hp.trans (.of_kept (by simpa using hput) (.refl _) hp.cached)
    simp only [List.append_nil] at hall
    refine ⟨m.window, d, l, hall, by rw [length_window]; exact hlt.le, fun hok => ?_, ?_⟩
    · exact absurd hread' (Kernel.read_ne_none hok)
    · rw [pieces_failed (by rwa [length_window]) hread', twice, List.flatMap_singleton, ← hiff []]
      exact (and_iff_left trivial).symm
  | case3 len wrOk m k hlt wrOk₁ m₁ k₁ hwin k₂ hread =>
    obtain ⟨m', k', d, l, hsw, hp, hiff, hstart, -, -, hreads, hunread⟩ := sendWindow_conveyed h hsome hc hw
    cases hsw.symm.trans hwin
    obtain ⟨k₃, hread', -⟩ := read_congr hreads hunread hread
    rw [show m₁.infd = m.infd from hp.infd, show m₁.len = m.len from hp.len, hstart] at hread'
    have hput := effect_put hp.wf (k₁.read_got hread)
    have hall := hp.trans (.of_kept (by simpa using hput) (.refl _) hp.cached)
    simp only [List.append_nil] at hall
    refine ⟨m.window, d, l, hall, by rw [length_window]; exact hlt.le, fun _ => ?_, ?_⟩
    · -- the buffer has room, so nothing is left to be read
      obtain ⟨f, hf⟩ := Option.isSome_iff_exists.mp hsome
      have h0 := (hc f hf).2
      have hend := (Kernel.read_eof hread').resolve_left (by omega)
      rw [pending, hend, List.append_nil, List.take_of_length_le (by rw [length_window]; exact hlt.le)]
    · rw [pieces_cut (by rwa [length_window]) hread', twice, List.flatMap_singleton, ← hiff []]
      exact (and_iff_left trivial).symm
  | case4 len wrOk m k hlt wrOk₁ m₁ k₁ hwin got k₂ hread hne ih =>
    obtain ⟨m', k', d, l, hsw, hp, hiff, hstart, hfill, hcache, hreads, hunread⟩ := sendWindow_conveyed h hsome hc hw
    cases hsw.symm.trans hwin
    obtain ⟨k₃, hread', hr, hu⟩ := read_congr hreads hunread hread
    rw [show m₁.infd = m.infd from hp.infd, show m₁.len = m.len from hp.len, hstart] at hread'
    have hav : m₁.available = m.available := by rw [Mbuf.available, Mbuf.available, hfill, hstart]
    have hgot : k₁.Got m₁.infd (m₁.len - m₁.start) got k₂ := Kernel.read_got hread
    have hput := hp.trans (.of_kept (effect_put hp.wf hgot) (kept_put hp.wf got) hp.cached)
    simp only [List.append_nil] at hput
    have hwindow : (m₁.empty.put got).window = got := by
      rw [window_put hp.wf, window_empty, List.nil_append]
    obtain ⟨w, d', l', hp', hle, hok, hiff'⟩ := ih hput.wf hcache hput.cached
      (by rw [show (m₁.empty.put got).len = m.len from hp.len]; exact hroom) (hput.follows.writesSome hw)
    have hwl : m.window.length = m.available := length_window m
    refine ⟨m.window ++ w, d ++ d', l ++ l', hput.trans hp', by rw [List.length_append]; omega, fun hall => ?_, ?_⟩
    · rw [hok (hput.follows.readsOk hall), ← hput.pending, hav, List.take_append, hwl,
        List.take_of_length_le (show m.window.length ≤ len by omega)]
    · rw [hp.exact_append, hiff', hwindow, show (m₁.empty.put got).infd = m.infd from hp.infd,
        show (m₁.empty.put got).len = m.len from hp.len, show (m₁.empty.put got).start = m₁.start from rfl, hstart, hav,
        read_writes hread, hiff, pieces_more (by rwa [length_window]) hread' hne, length_window,
        pieces_congr m.infd (m.len - m.start) (len - m.available) got hr hu]
      exact Iff.rfl
  | case5 len wrOk m k hge =>
    obtain ⟨d, l, hp, hiff⟩ := sendRest_conveyed h hsome hc hw (not_lt.mp hge) wrOk
    refine ⟨m.window.take len, d, l, hp, List.length_take_le _ _, fun _ => ?_, ?_⟩
    · rw [pending, List.take_append_of_le_length (by rw [length_window]; exact not_lt.mp hge)]
    · rw [pieces_whole (by rwa [length_window]), twice, List.flatMap_singleton, hiff]

/-- A cache that is warmed up contains what `writen` has made of what has been sent. -/
theorem warmCache_log {m m₁ : Mbuf} (hc : m.cache = none) {k k₁ : Kernel} (hwarm : warmCache m k = .ok (m₁, k₁)) :
    m₁.Cached ∧ m₁.log = (writen k.tmpfile.2 (slice m.buf 0 m.start) m.start).2.1 ∧
      k₁ = (writen k.tmpfile.2 (slice m.buf 0 m.start) m.start).2.2 := by
  unfold warmCache at hwarm
  simp only [hc] at hwarm
  split_ifs at hwarm with h1 h2 h3
  · cases hwarm
    refine ⟨fun f hf => ?_, ?_, rfl⟩
    · simp only [Mbuf.writenCache, Option.map_some, Option.some.injEq] at hf
      subst hf
      exact ⟨(File.write_end rfl _).2, rfl⟩
    · simp [Mbuf.log, Mbuf.writenCache, File.write]
  · cases hwarm
    have h0 : m.start = 0 := by omega
    refine ⟨fun f hf => ?_, ?_, ?_⟩
    · simp only [Option.some.injEq] at hf
      subst hf
      exact ⟨rfl, h0⟩
    · rw [writen, if_pos h0, Mbuf.log, h0]
      rfl
    · rw [writen, if_pos h0]

/-- Warming up the cache sends nothing, and leaves the log as it is just when the writing of it repeats. -/
theorem warmCache_share {m : Mbuf} (h : m.Wf) (hc : m.cache = none) {k : Kernel} (hw : k.WritesSome)
    (hopen : k.tmpfile.1 = true) (hlt : m.available < size m) :
    ∃ m₁ k₁, warmCache m k = .ok (m₁, k₁) ∧ Effect m k [] [] m₁ k₁ ∧ m₁.window = m.window ∧ m₁.Cached ∧
      m₁.cache.isSome ∧ m₁.start = 0 ∧ m₁.log.length = m.log.length ∧ k₁.reads = k.reads ∧ k₁.unread = k.unread ∧
      ∀ rest, m₁.log = m.log ∧ AllRepeat rest k₁.writes ↔ AllRepeat (slice m.buf 0 m.start :: rest) k.writes := by
  have hasked := k.tmpfile_asked
  have hlen : (slice m.buf 0 m.start).length = m.start := by rw [length_slice, Nat.sub_zero]
  obtain ⟨h1, h2, h3, h4⟩ := writen_whole (hasked.follows.writesSome hw) (slice m.buf 0 m.start)
  rw [hlen] at h1 h2 h3 h4
  have hwarmed : (warmed m k).1 = true := by
    rw [warmed_eq hc hlt, hopen, sum_shares hw, decide_eq_true rfl]
    rfl
  obtain ⟨m₁, k₁, hwarm, hwf, hsome, hstart, hl, hinfd, houtfd, hwin, hwrites, hreads, hunread, hsent⟩ :=
    warmCache_of_warmed h hc hlt hwarmed
  obtain ⟨hcached, hlog, hk₁⟩ := warmCache_log hc hwarm
  have hold : m.log = slice m.buf 0 m.start := by rw [Mbuf.log, hc]; rfl
  refine ⟨m₁, k₁, hwarm, ⟨hwf, hinfd, houtfd, hl, ?_, ?_, fun _ _ => by rw [hunread], ?_⟩, hwin, hcached, hsome, hstart,
    ?_,
    hreads, hunread, fun rest => ?_⟩
  · rw [List.nil_append, pending, pending, hwin, hinfd, hunread]
  · rw [hsent, List.map_nil, List.append_nil]
  · rw [hk₁]
    exact hasked.follows.trans (writen_asked _ _ _).follows
  · rw [hlog, h2, hold, hlen]
  · rw [AllRepeat, hlog, hold, hlen, h4, hk₁, h3]
    exact Iff.rfl

/-- The buffers that `pgr_mbuf_send` gives `writen`, one after the other: what has been sent, if there is to be a
cache for it, and then the pieces of the message. -/
def sendCalls (m : Mbuf) (k : Kernel) : List (List Octet) :=
  if m.available < 5 then []
  else if m.cache.isSome then twice (sendPieces m k).1
  else if m.available < size m then
    if k.tmpfile.1 then slice m.buf 0 m.start :: twice (sendPieces m k).1 else []
  else (sendPieces m k).1

/-- `pgr_mbuf_send` delivers what has gone from the pending stream, and keeps it for `pgr_mbuf_resend`. It is the
message, unless a `read` or the disk fails. -/
def SendExact (m : Mbuf) (k : Kernel) : Prop :=
  ∃ w, Sent m k w (pgrMbufSend m k).2.1 (pgrMbufSend m k).2.2 ∧ w.length ≤ size m ∧
    (k.ReadsOk → k.DiskOk → w = (pending m k).take (size m))

/-- When the buffer has been made ready, and the log may have been spoilt, what has been sent and logged is what
has gone just when it is `w`, and the log is as it was. -/
theorem Conveyed.sent_iff {m m₁ m' : Mbuf} {k k₁ k' : Kernel} {w d l : List Octet} (h : Conveyed m₁ k₁ w d l m' k')
    (he : Effect m k [] [] m₁ k₁) (hlen : m₁.log.length = m.log.length) (v : List Octet) :
    Sent m k v m' k' ↔ v = w ∧ (d = w ∧ l = w) ∧ m₁.log = m.log := by
  have hall := he.trans h.toEffect
  rw [List.nil_append, List.nil_append] at hall
  constructor
  · intro hs
    have hv : v = w := List.append_cancel_right (hs.pending.trans hall.pending.symm)
    have hd := List.append_cancel_left (hs.toEffect.sent.symm.trans hall.sent)
    have hd := (List.map_injective_iff.mpr (Prod.mk_right_injective m.outfd)) hd
    obtain ⟨hlog, hl⟩ := List.append_inj (hs.log.symm.trans h.log) hlen.symm
    exact ⟨hv, ⟨hd.symm.trans hv, hl.symm.trans hv⟩, hlog.symm⟩
  · rintro ⟨rfl, ⟨rfl, rfl⟩, hlog⟩
    exact ⟨hall, by rw [h.log, hlog], h.cached⟩

/-- So `pgr_mbuf_send` is exact. -/
theorem Conveyed.sendExact_iff {m m₁ : Mbuf} {k k₁ : Kernel} {w d l : List Octet}
    (h : Conveyed m₁ k₁ w d l (pgrMbufSend m k).2.1 (pgrMbufSend m k).2.2) (he : Effect m k [] [] m₁ k₁)
    (hlen : m₁.log.length = m.log.length) (hle : w.length ≤ size m)
    (hok : k.ReadsOk → k.DiskOk → w = (pending m k).take (size m)) :
    SendExact m k ↔ (d = w ∧ l = w) ∧ m₁.log = m.log := by
  constructor
  · rintro ⟨v, hs, -⟩
    exact ((h.sent_iff he hlen v).mp hs).2
  · intro hiff
    exact ⟨w, (h.sent_iff he hlen w).mpr ⟨rfl, hiff⟩, hle, hok⟩

/-- **`pgr_mbuf_send`** is exact just when the buffers that it writes repeat. -/
theorem sendExact_iff {m : Mbuf} (h : m.Wf) (hc : m.Cached) {k : Kernel} (hw : k.WritesSome) :
    SendExact m k ↔ AllRepeat (sendCalls m k) k.writes := by
  by_cases hav : m.available < 5
  · have hsize : size m = 0 := if_pos hav
    have hp : Conveyed m k [] [] [] (pgrMbufSend m k).2.1 (pgrMbufSend m k).2.2 := by
      rw [pgrMbufSend_short hav]
      exact .refl h hc k
    rw [hp.sendExact_iff (.refl h k) rfl (Nat.zero_le _) (fun _ _ => by rw [hsize, List.take_zero]), sendCalls,
      if_pos hav]
    simp [AllRepeat]
  · have hroom : 0 < m.len := by have := h.fill_le; unfold Mbuf.available at hav; omega
    have hsend : pgrMbufSend m k = finish (sendLoop (size m) true m k) := by
      rw [pgrMbufSend, if_neg hav]
      rfl
    rw [sendCalls, if_neg hav]
    cases hcache : m.cache with
    | some f =>
      have hsome : m.cache.isSome := by rw [hcache]; rfl
      obtain ⟨w, d, l, hp, hle, hok, hiff⟩ := sendLoop_conveyed (size m) true h hsome hc hroom hw
      rw [← hsend] at hp
      rw [hp.sendExact_iff (.refl h k) rfl hle (fun hr _ => hok hr), and_iff_left rfl, hiff, sendPieces, hcache]
      rfl
    | none =>
      by_cases hlt : m.available < size m
      · rw [if_neg (by simp), if_pos hlt]
        by_cases hopen : k.tmpfile.1 = true
        · obtain ⟨m₁, k₁, hwarm, he, hwin, hcached, hsome, hstart, hlog, hreads, hunread, hiff₁⟩ :=
            warmCache_share h hcache hw hopen hlt
          have hav₁ : m₁.available = m.available := by rw [← length_window, hwin, length_window]
          obtain ⟨w, d, l, hp, hle, hok, hiff⟩ := sendLoop_conveyed (size m) true he.wf hsome hcached
            (by rw [he.len]; exact hroom) (he.follows.writesSome hw)
          rw [← sendLoop_warmCache hwarm hsome hav₁ _ _ hlt, ← hsend] at hp
          rw [hp.sendExact_iff he hlog hle (fun hr _ => by rw [hok (he.follows.readsOk hr), ← he.pending]; rfl), hiff,
            and_comm, hiff₁, if_pos hopen, sendPieces, hcache, hstart, he.infd, he.len, hwin, Nat.sub_zero,
            pieces_congr m.infd m.len (size m) m.window hreads hunread]
          rfl
        · have hfail : pgrMbufSend m k = (1, m, k.tmpfile.2) := by
            rw [hsend, sendLoop_eq hlt, sendWindow, warmCache, hcache]
            simp only [hopen]
            rfl
          have hp : Conveyed m k [] [] [] (pgrMbufSend m k).2.1 (pgrMbufSend m k).2.2 := by
            rw [hfail]
            exact .of_kept (.of_wrote h (k.tmpfile_asked.wrote _)) (.refl m) hc
          rw [hp.sendExact_iff (.refl h k) rfl (Nat.zero_le _) (fun _ hd => absurd (hd.1 0) hopen), if_neg hopen]
          simp [AllRepeat]
      · have hloop : pgrMbufSend m k = sendRest (size m) true m k := by
          rw [hsend, sendLoop, if_neg hlt]
          rfl
        obtain ⟨d, hp, hiff⟩ := sendRest_uncached h hcache hw (not_lt.mp hlt) true
        have hle : size m ≤ m.window.length := by rw [length_window]; exact not_lt.mp hlt
        rw [← hloop] at hp
        rw [hp.sendExact_iff (.refl h k) rfl (List.length_take_le _ _)
          (fun _ _ => by rw [pending, List.take_append_of_le_length hle]), and_iff_left rfl, and_iff_left rfl, hiff,
          if_neg (by simp), if_neg hlt, sendPieces, pieces_whole (not_lt.mpr hle)]

/-! ### pgr_mbuf_resend -/

/-- The blocks in which the octets of a file are read, until a `read` fails. -/
def blocks (left : List Octet) (rs : Stream' ReadChoice) : List (List Octet) :=
  if _hne : left = [] then []
  else match rs.head with
    | .fail => []
    | .upto c => left.take (min 2048 (max 1 c)) :: blocks (left.drop (min 2048 (max 1 c))) rs.tail
termination_by left.length
decreasing_by
  have := List.length_pos_iff.mpr _hne
  rw [List.length_drop]
  omega

/-- They are the octets, or the first of them. -/
theorem blocks_prefix (left : List Octet) (rs : Stream' ReadChoice) : (blocks left rs).flatten <+: left := by
  fun_induction blocks left rs with
  | case1 => exact List.prefix_rfl
  | case2 => exact List.nil_prefix
  | case3 left rs hne c hc ih =>
    rw [List.flatten_cons]
    exact (List.prefix_append_right_inj _).mpr ih |>.trans (by rw [List.take_append_drop])

/-- `writen` reads no file. -/
theorem writen_fileReads (k : Kernel) (buf : List Octet) (len : ℕ) : (writen k buf len).2.2.fileReads = k.fileReads :=
  writen_keeps (fun k d => by unfold Kernel.accept; split <;> rfl) k buf len

/-- A round of the loop over the cache: a block is read, unless that fails, and written. -/
theorem resendCache_round {offset : ℕ} {f : File} (fd : Fd) {k : Kernel} (hw : k.WritesSome)
    (hoff : f.offset + offset = f.octets.length) (h0 : 0 < offset) :
    (∃ k', ¬ k.DiskOk ∧ k.Asked k' ∧ resendCache offset f fd k = (false, f, k') ∧
        blocks (f.octets.drop f.offset) k.fileReads = []) ∨
      ∃ block k₁, k.Asked k₁ ∧ k₁.writes = k.writes ∧ 0 < block.length ∧ block.length ≤ offset ∧
        f.octets.drop f.offset = block ++ f.octets.drop (f.offset + block.length) ∧
        resendCache offset f fd k = resendCache (offset - block.length) { f with offset := f.offset + block.length } fd
          (writenTo k₁ fd block block.length).2 ∧
        blocks (f.octets.drop f.offset) k.fileReads =
          block :: blocks (f.octets.drop (f.offset + block.length)) k₁.fileReads := by
  have hne : f.octets.drop f.offset ≠ [] := List.ne_nil_of_length_pos (by rw [List.length_drop]; omega)
  have hasked : k.Asked { k with fileReads := k.fileReads.tail } :=
    ⟨rfl, rfl, fun _ => List.suffix_rfl, List.prefix_rfl, ⟨0, rfl⟩, ⟨0, rfl⟩, ⟨0, rfl⟩, ⟨1, rfl⟩⟩
  rw [resendCache, if_pos h0, File.read, blocks, dif_neg hne]
  cases hc : k.fileReads.head with
  | fail => exact .inl ⟨_, fun hd => hd.2 0 hc, hasked, rfl, rfl⟩
  | upto c =>
    obtain ⟨block, hblock⟩ : ∃ block, (f.octets.drop f.offset).take (min 2048 (max 1 c)) = block := ⟨_, rfl⟩
    have hlen : block.length = min (min 2048 (max 1 c)) offset := by
      rw [← hblock, List.length_take, List.length_drop]
      omega
    have hb : block ≠ [] := List.ne_nil_of_length_pos (by omega)
    have hrest : (f.octets.drop f.offset).drop (min 2048 (max 1 c)) = f.octets.drop (f.offset + block.length) := by
      rw [List.drop_drop]
      rcases le_total (min 2048 (max 1 c)) offset with hle | hle
      · rw [hlen, min_eq_left hle]
      · rw [List.drop_eq_nil_of_le (by omega), List.drop_eq_nil_of_le (by omega)]
    have hok : (writenTo { k with fileReads := k.fileReads.tail } fd block block.length).1 = true :=
      (writen_whole (hasked.follows.writesSome hw) block).1
    refine .inr ⟨block, _, hasked, rfl, by omega, by omega, ?_, ?_, ?_⟩
    · have hsplit := List.take_append_drop (min 2048 (max 1 c)) (f.octets.drop f.offset)
      rw [hblock, hrest] at hsplit
      exact hsplit.symm
    · simp only [hblock, dif_neg hb]
      rw [if_neg (not_not.mpr hok)]
    · simp only [hblock, hrest]

/-- **The loop over the cache** writes, in place of the blocks, as many octets, and the blocks just when each
repeats. -/
theorem resendCache_share {offset : ℕ} {f : File} (fd : Fd) {k : Kernel} (hw : k.WritesSome)
    (hoff : f.offset + offset = f.octets.length) :
    ∃ d, k.Wrote fd d (resendCache offset f fd k).2.2 ∧
      d.length = (blocks (f.octets.drop f.offset) k.fileReads).flatten.length ∧
      (d = (blocks (f.octets.drop f.offset) k.fileReads).flatten ↔
        AllRepeat (blocks (f.octets.drop f.offset) k.fileReads) k.writes) ∧
      ((resendCache offset f fd k).1 = true →
        (blocks (f.octets.drop f.offset) k.fileReads).flatten = f.octets.drop f.offset ∧
          (resendCache offset f fd k).2.1 = { f with offset := f.octets.length }) ∧
      (k.DiskOk → (resendCache offset f fd k).1 = true) := by
  induction offset using Nat.strong_induction_on generalizing f k with
  | _ offset ih =>
    by_cases h0 : 0 < offset
    · obtain ⟨k', hdisk, hasked, hr, hbs⟩ | ⟨block, k₁, hasked, hwr, hpos, hle, hsplit, hr, hbs⟩ :=
        resendCache_round fd hw hoff h0
      · rw [hr, hbs]
        exact ⟨[], hasked.wrote fd, rfl, by simp [AllRepeat], nofun, fun hd => absurd hd hdisk⟩
      · have hto : k₁.Wrote fd (writen k₁ block block.length).2.1 (writenTo k₁ fd block block.length).2 :=
          ((writen_asked k₁ block _).wrote fd).trans (Kernel.emit_wrote _ _ _)
        have hfollows := hasked.follows.trans hto.follows
        obtain ⟨h1, h2, h3, h4⟩ := writen_whole (hasked.follows.writesSome hw) block
        obtain ⟨d, hd1, hd2, hd3, hd4, hd5⟩ := ih (offset - block.length) (by omega)
          (f := { f with offset := f.offset + block.length }) (hfollows.writesSome hw) (by simp only; omega)
        rw [show (writenTo k₁ fd block block.length).2.fileReads =
          k₁.fileReads from writen_fileReads _ _ _] at hd2 hd3 hd4
        rw [show (writenTo k₁ fd block block.length).2.writes = _ from h3] at hd3
        rw [hr, hbs, List.flatten_cons, AllRepeat, ← hwr, hsplit]
        refine ⟨(writen k₁ block block.length).2.1 ++ d, ?_, ?_, ?_, fun hrc => ?_, fun hd => hd5 (hfollows.diskOk hd)⟩
        · exact ((hasked.wrote fd).trans hto).trans hd1
        · rw [List.length_append, List.length_append, h2, hd2]
        · rw [← h4, ← hd3]
          constructor
          · exact fun heq => List.append_inj heq h2
          · rintro ⟨he, he'⟩
            rw [he, he']
        · obtain ⟨he, he'⟩ := hd4 hrc
          exact ⟨by rw [he], he'⟩
    · have hend : f.offset = f.octets.length := by omega
      have hnil : f.octets.drop f.offset = [] := List.drop_eq_nil_of_le hend.ge
      rw [resendCache, if_neg h0, blocks, dif_pos hnil, hnil]
      exact ⟨[], (Kernel.Asked.refl k).wrote fd, rfl, by simp [AllRepeat], fun _ => ⟨rfl, by rw [← hend]⟩, fun _ => rfl⟩

/-- The loop that does move on writes all. -/
theorem writeLoop_of_writesSome {k : Kernel} (hw : k.WritesSome) (fd : Fd) (data : List Octet) :
    (writeLoop k fd data).1 = true := by
  fun_induction writeLoop k fd data with
  | case1 => rfl
  | case2 k data hd k' h =>
    obtain ⟨k₁, hacc, -⟩ := k.accept_share hw hd
    rw [Kernel.write, hacc] at h
    cases h
  | case3 k data hd k' h =>
    obtain ⟨k₁, hacc, -, -, hpos, hle⟩ := k.accept_share hw hd
    rw [Kernel.write, hacc] at h
    have hlen := congrArg List.length (Option.some.inj (Prod.mk.inj h).1)
    rw [List.length_take, List.length_nil] at hlen
    omega
  | case4 k data hd got k' h hg r ih => exact ih ((k.write_wrote h).2.follows.writesSome hw)

/-- So the loop of `pgr_mbuf_relay` goes on writing. -/
theorem relayLoop_writesSome {len : ℕ} {ok : Bool} (hok : ok = true) {m : Mbuf} {k : Kernel} (hw : k.WritesSome)
    {len' : ℕ} {ok' : Bool} {m' : Mbuf} {k' : Kernel} (hr : relayLoop len ok m k = .ok (len', ok', m', k')) :
    ok' = true ∧ k'.WritesSome := by
  fun_induction relayLoop len ok m k with
  | case1 | case2 => cases hr
  | case3 len ok m k hlt r got k₂ hread hne ih =>
    have hwrite : r = writeLoop k m.outfd m.window := if_pos hok
    have hwrote : k.Wrote m.outfd r.2.1 r.2.2 := hwrite ▸ (writeLoop_spec k m.outfd m.window).2.2
    have hfollows := hwrote.follows.trans (Kernel.read_got hread).follows
    exact ih (hwrite ▸ writeLoop_of_writesSome hw m.outfd m.window) (hfollows.writesSome hw) hr
  | case4 =>
    cases hr
    exact ⟨hok, hw⟩

/-- **`pgr_mbuf_relay`** relays a message that comes as a whole, however little each `write` takes. -/
theorem pgrMbufRelay_writesSome {m : Mbuf} (h : m.Wf) (hav : 5 ≤ m.available) {k : Kernel} (hr : k.ReadsOk)
    (hw : k.WritesSome) (hall : size m ≤ (pending m k).length) : (pgrMbufRelay m k).1 = 0 := by
  have hroom : m.start < m.len := by have := h.fill_le; unfold Mbuf.available at hav; omega
  have hloop := relayLoop_spec (size m) true h hroom (k := k)
  rw [pgrMbufRelay, if_neg (by omega)]
  cases hres : relayLoop (size m) true m k with
  | error r =>
    rw [hres] at hloop
    obtain ⟨-, u, w, ok', -, hlt, hread⟩ := hloop
    rw [hread hr] at hlt
    omega
  | ok r =>
    obtain ⟨len, wrOk, m₁, k₁⟩ := r
    obtain ⟨rfl, hw₁⟩ := relayLoop_writesSome rfl hw hres
    by_cases h0 : 0 < len
    · simp only [relayRest, if_pos h0, relayWrite, if_true, writeLoop_of_writesSome hw₁]
    · simp only [relayRest, if_neg h0, if_true]

/-- The buffers that `pgr_mbuf_resend` gives `writen`, one after the other: the blocks of the cache. -/
def resendCalls (m : Mbuf) (k : Kernel) : List (List Octet) :=
  m.cache.elim [] fun f => blocks f.octets k.fileReads

/-- `pgr_mbuf_resend` delivers the log, or the beginning of it if the disk fails. -/
def ResendExact (m : Mbuf) (k : Kernel) : Prop :=
  ∃ d, (pgrMbufResend m k).2.2.sent = k.sent ++ d.map (Prod.mk m.outfd) ∧ d <+: m.log ∧
    ((pgrMbufResend m k).1 = 0 → d = m.log) ∧ (k.DiskOk → (pgrMbufResend m k).1 = 0)

/-- What is in the buffer is resent as it is. -/
theorem resendBuf_eq {m : Mbuf} {k : Kernel} (hw : k.WritesSome) :
    (pgrMbufResend.resendBuf m k).1 = 0 ∧
      (pgrMbufResend.resendBuf m k).2.2.sent = k.sent ++ (slice m.buf 0 m.start).map (Prod.mk m.outfd) := by
  have hall := writeLoop_of_writesSome hw m.outfd (slice m.buf 0 m.start)
  obtain ⟨-, hok, hwrote⟩ := writeLoop_spec k m.outfd (slice m.buf 0 m.start)
  rw [hok.mp hall] at hwrote
  exact ⟨if_pos hall, hwrote.sent⟩

/-- **`pgr_mbuf_resend`** is exact just when the blocks of the cache repeat. -/
theorem resendExact_iff {m : Mbuf} (hc : m.Cached) {k : Kernel} (hw : k.WritesSome) :
    ResendExact m k ↔ AllRepeat (resendCalls m k) k.writes := by
  cases hcache : m.cache with
  | none =>
    have hlog : m.log = slice m.buf 0 m.start := by rw [Mbuf.log, hcache]; rfl
    obtain ⟨hrc, hsent⟩ := resendBuf_eq (m := m) hw
    have hres : pgrMbufResend m k = pgrMbufResend.resendBuf m k := by rw [pgrMbufResend, hcache]
    rw [resendCalls, hcache]
    refine iff_of_true ⟨m.log, ?_, List.prefix_rfl, fun _ => rfl, fun _ => ?_⟩ trivial
    · rw [hres, hlog, hsent]
    · rw [hres, hrc]
  | some f =>
    obtain ⟨hend, hstart⟩ := hc f hcache
    have hlog : m.log = f.octets := by
      rw [Mbuf.log, hcache, hstart, slice_self, List.append_nil]
      rfl
    have hwhole : ({ f with offset := 0 } : File).offset + f.offset =
      ({ f with offset := 0 } : File).octets.length := by
      simp only
      omega
    obtain ⟨d, hd1, hd2, hd3, hd4, hd5⟩ := resendCache_share m.outfd hw hwhole
    have hpre := blocks_prefix f.octets k.fileReads
    rw [List.drop_zero] at hd2 hd3 hd4
    rw [resendCalls, hcache, Option.elim_some, ← hd3]
    have hsame : ∀ {d' : List Octet}, k.sent ++ d.map (Prod.mk m.outfd) = k.sent ++ d'.map (Prod.mk m.outfd) → d = d' :=
      fun h => List.map_injective_iff.mpr (Prod.mk_right_injective m.outfd) (List.append_cancel_left h)
    generalize hr : resendCache f.offset { f with offset := 0 } m.outfd k = r at hd1 hd4 hd5
    obtain ⟨done, f', k'⟩ := r
    cases done with
    | true =>
      obtain ⟨hall, -⟩ := hd4 rfl
      have hres : pgrMbufResend m k = pgrMbufResend.resendBuf { m with cache := some f' } k' := by
        rw [pgrMbufResend, hcache]
        simp only [hr, not_true_eq_false, if_false]
      obtain ⟨hrc, hsent⟩ := resendBuf_eq (m := { m with cache := some f' }) (hd1.follows.writesSome hw)
      rw [← hres] at hrc hsent
      rw [hstart, slice_self, List.map_nil, List.append_nil, hd1.sent] at hsent
      constructor
      · rintro ⟨d', hsent', -, hlog', -⟩
        rw [hsame (hsent.symm.trans hsent'), hlog' hrc, hlog, hall]
      · intro heq
        rw [hall, ← hlog] at heq
        exact ⟨d, hsent, by rw [heq], fun _ => heq, fun _ => hrc⟩
    | false =>
      have hres : pgrMbufResend m k = (1, { m with cache := some f' }, k') := by
        rw [pgrMbufResend, hcache]
        simp only [hr, Bool.false_eq_true, not_false_eq_true, if_true]
      rw [ResendExact, hres, hlog]
      constructor
      · rintro ⟨d', hsent', hpre', -⟩
        obtain rfl := hsame (hd1.sent.symm.trans hsent')
        exact (List.prefix_of_prefix_length_le hpre' hpre hd2.le).eq_of_length hd2
      · intro heq
        exact ⟨d, hd1.sent, by rw [heq]; exact hpre, fun h => absurd h one_ne_zero,
          fun hd => absurd (hd5 hd) Bool.false_ne_true⟩

/-! ### Short writes -/

/-- `writen` delivers the buffer. -/
def WritenExact (k : Kernel) (fd : Fd) (buf : List Octet) : Prop :=
  (writenTo k fd buf buf.length).1 = true ∧ (writenTo k fd buf buf.length).2.sent = k.sent ++ buf.map (Prod.mk fd)

theorem writenExact_iff {k : Kernel} (hw : k.WritesSome) (fd : Fd) (buf : List Octet) :
    WritenExact k fd buf ↔ AllRepeat [buf] k.writes := by
  obtain ⟨h1, -, -, h4⟩ := writen_whole hw buf
  rw [AllRepeat, ← h4, WritenExact, writenTo, h1, Kernel.emit, (writen_asked k buf _).sent]
  simp [AllRepeat, (List.map_injective_iff.mpr (Prod.mk_right_injective fd)).eq_iff]

/-- **Short writes** do no harm just when each part that a later `write` takes of a buffer repeats the beginning of
it: to `writen`, and to the functions that send and resend messages with it. -/
theorem shortWrites_iff {k : Kernel} (hw : k.WritesSome) :
    (∀ (fd : Fd) (buf : List Octet), WritenExact k fd buf ↔ AllRepeat [buf] k.writes) ∧
      ∀ m : Mbuf, m.Wf → m.Cached → (SendExact m k ↔ AllRepeat (sendCalls m k) k.writes) ∧
        (ResendExact m k ↔ AllRepeat (resendCalls m k) k.writes) :=
  ⟨writenExact_iff hw, fun _ h hc => ⟨sendExact_iff h hc hw, resendExact_iff hc hw⟩⟩

/-- A kernel that takes one octet first, and from then on all. -/
def sipping : Kernel := { Kernel.eager fun _ => [] with writes := Stream'.cons (.upto 1) (Stream'.const .all) }

theorem sipping_writesSome : sipping.WritesSome := by
  intro i
  cases i with
  | zero => exact ⟨nofun, by decide⟩
  | succ i => exact ⟨nofun, nofun⟩

/-- Two octets that are the same do not show it. -/
theorem shortWrites_same : WritenExact sipping 3 [7, 7] ∧
    (SendExact header sipping ↔ AllRepeat (sendCalls header sipping) sipping.writes) ∧
      (ResendExact header sipping ↔ AllRepeat (resendCalls header sipping) sipping.writes) := by
  obtain ⟨hwriten, hsend⟩ := shortWrites_iff sipping_writesSome
  refine ⟨(hwriten 3 [7, 7]).mpr ?_, hsend header header_wf (cached_of_none rfl)⟩
  have hshares : shares 2 sipping.writes = ([1, 1], Stream'.const .all) := by
    rw [shares, shares, shares]
    rfl
  refine ⟨?_, trivial⟩
  change Repeats [7, 7] 0 (shares 2 sipping.writes).1
  rw [hshares]
  exact ⟨rfl, rfl, trivial⟩

/-- Two that are not do: the first is delivered twice. -/
theorem not_shortWrites : ¬ ∀ (k : Kernel) (fd : Fd) (buf : List Octet),
    k.WritesSome → buf ≠ [] → WritenExact k fd buf :=
  fun hall => absurd (hall sipping 3 [1, 2] sipping_writesSome (by decide)).2 (by decide +kernel)

end PgRouter.Wire
