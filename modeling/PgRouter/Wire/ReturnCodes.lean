import PgRouter.Wire.Pending

/-!
# What a return value of zero says

The callers of `msg.c` know of a message only what the functions return: `0` is to mean
that the message is dealt with. Of `pgr_mbuf_relay` this is true, whatever the kernel does
(`relay_law`). Of `pgr_mbuf_send` and `pgr_mbuf_discard` it is not: both return the result
of a `read`, and that is `0` when the input ends inside the message; and `pgr_mbuf_send`
forgets that a `write` has failed when it comes to the next piece of the message.

## What the kernel does to a message

How a message is cut into pieces is decided by the `read`s alone (`pieces`), and how much of
each piece is taken by the choices of `write` alone (`answers`). A failure that the program
sees makes it return something else than `0`; where there is none (`Unnoticed`), `0` is
returned, and it is right just when the message has come whole and each of its pieces has
been taken: no `write` for it has failed, and after a short one only what repeats the
beginning of the piece has gone out (`Answer.Exact`).
-/

namespace PgRouter.Wire

open Foundation

/-! ### Relaying -/

/-- **The relay law.** However the message is cut into pieces by the `read`s, and whatever
comes of the `write`s, `pgr_mbuf_relay` takes the message, and nothing else, from the pending
stream, writes a prefix of it, and returns `0` just when this is the whole of it. -/
theorem relay_law {m : Mbuf} (h : m.Wf) (hav : 5 ≤ m.available) {k : Kernel} (hr : k.ReadsOk)
    (hall : size m ≤ (pending m k).length) {rc : ℤ} {m' : Mbuf} {k' : Kernel}
    (hres : pgrMbufRelay m k = (rc, m', k')) :
    m'.start = m.start ∧ slice m'.buf 0 m.start = slice m.buf 0 m.start ∧
      pending m' k' = (pending m k).drop (size m) ∧
      ∃ w, k'.sent = k.sent ++ w.map (Prod.mk m.outfd) ∧ w <+: (pending m k).take (size m) ∧
        (rc = 0 ↔ w = (pending m k).take (size m)) := by
  obtain ⟨u, w, he, hk, hp, -, -, hrc, hu, -⟩ := pgrMbufRelay_spec h hav hres
  have hu := hu hr
  have hlen : u.length = size m := by rw [hu, List.length_take_of_le hall]
  refine ⟨hk.start, hk.below, by rw [he.pending_eq, hlen], w, he.sent, hu ▸ hp, ?_⟩
  rw [hrc, ← hu]
  exact ⟨fun hw => hw.2, fun hw => ⟨hlen, hw⟩⟩

/-- A buffer of 16 octets in which the header of a query of ten octets has come. -/
def header : Mbuf := (pgrMbufSetfd (pgrMbufNew 16) 3 4).put [0x51, 0, 0, 0, 9]

theorem header_wf : header.Wf := ⟨by decide, by decide⟩

theorem relay_law_header :
    let k := Kernel.eager fun _ => [0x62, 0x65, 0x67, 0x69, 0, 0x53, 0, 0, 0, 4]
    let r := pgrMbufRelay header k
    r.2.1.start = 0 ∧ slice r.2.1.buf 0 0 = [] ∧ pending r.2.1 r.2.2 = [0x53, 0, 0, 0, 4] ∧
      ∃ w, r.2.2.sent = w.map (Prod.mk 4) ∧ w <+: [0x51, 0, 0, 0, 9, 0x62, 0x65, 0x67, 0x69, 0] ∧
        (r.1 = 0 ↔ w = [0x51, 0, 0, 0, 9, 0x62, 0x65, 0x67, 0x69, 0]) := by
  intro k r
  exact @relay_law header header_wf (by decide) k (Kernel.eager_readsOk _) (by decide) r.1 r.2.1 r.2.2 rfl

/-! ### The pieces of a message -/

/-- How the reading of a message ends. -/
inductive Ending where
  /-- What is left of the message is there. -/
  | whole
  /-- The input ends inside the message. -/
  | cut
  /-- A `read` fails. -/
  | failed
  deriving DecidableEq

/-- The pieces in which a message comes of which `len` octets are left, when `window` is
available and each `read` asks for `room` octets, and how it ends. -/
def pieces (fd : Fd) (room len : ℕ) (window : List Octet) (k : Kernel) : List (List Octet) × Ending :=
  if window.length < len then
    match _hr : k.read fd room with
    | (none, _) => ([window], .failed)
    | (some got, k') =>
      if _hg : got = [] then ([window], .cut)
      else
        let r := pieces fd room (len - window.length) got k'
        (window :: r.1, r.2)
  else ([window.take len], .whole)
termination_by (k.unread fd).length
decreasing_by exact (k.read_got _hr).unread_lt _hg

section

variable {fd : Fd} {room len : ℕ} {window : List Octet} {k k' : Kernel}

theorem pieces_failed (hlt : window.length < len) (hread : k.read fd room = (none, k')) :
    pieces fd room len window k = ([window], .failed) := by
  rw [pieces, if_pos hlt]
  split
  · rfl
  · rename_i h
    cases hread.symm.trans h

theorem pieces_cut (hlt : window.length < len) (hread : k.read fd room = (some [], k')) :
    pieces fd room len window k = ([window], .cut) := by
  rw [pieces, if_pos hlt]
  split <;> rename_i h <;> cases hread.symm.trans h
  rw [dif_pos rfl]

theorem pieces_more (hlt : window.length < len) {got : List Octet} (hread : k.read fd room = (some got, k'))
    (hne : got ≠ []) :
    pieces fd room len window k = (window :: (pieces fd room (len - window.length) got k').1,
      (pieces fd room (len - window.length) got k').2) := by
  rw [pieces, if_pos hlt]
  split <;> rename_i h <;> cases hread.symm.trans h
  rw [dif_neg hne]

theorem pieces_whole (hge : ¬ window.length < len) : pieces fd room len window k = ([window.take len], .whole) := by
  rw [pieces, if_neg hge]

/-- The first piece is what is available. -/
theorem exists_pieces (hlt : window.length < len) : ∃ ps, (pieces fd room len window k).1 = window :: ps := by
  rcases hread : k.read fd room with ⟨_ | got, k'⟩
  · exact ⟨[], by rw [pieces_failed hlt hread]⟩
  · by_cases hne : got = []
    · subst hne
      exact ⟨[], by rw [pieces_cut hlt hread]⟩
    · exact ⟨_, by rw [pieces_more hlt hread hne]⟩

/-- There is at least one piece. -/
theorem pieces_ne_nil : (pieces fd room len window k).1 ≠ [] := by
  by_cases hlt : window.length < len
  · obtain ⟨ps, hps⟩ := @exists_pieces fd room len window k hlt
    rw [hps]
    exact List.cons_ne_nil _ _
  · rw [pieces_whole hlt]
    exact List.cons_ne_nil _ _

end

/-- The pieces are the message, if it comes whole; and if it is cut, there is less than the
message. -/
theorem pieces_spec (fd : Fd) {room : ℕ} (hroom : 0 < room) (len : ℕ) (window : List Octet) (k : Kernel) :
    ((pieces fd room len window k).2 = .whole → len ≤ (window ++ k.unread fd).length ∧
      (pieces fd room len window k).1.flatten = (window ++ k.unread fd).take len) ∧
    ((pieces fd room len window k).2 = .cut → (window ++ k.unread fd).length < len) := by
  fun_induction pieces fd room len window k with
  | case1 len window k hlt k' hread => exact ⟨nofun, nofun⟩
  | case2 len window k hlt k' hread =>
    refine ⟨nofun, fun _ => ?_⟩
    rw [(Kernel.read_eof hread).resolve_left (by omega), List.append_nil]
    exact hlt
  | case3 len window k hlt got k' hread hne r ih =>
    have hs : got ++ k'.unread fd = k.unread fd := (Kernel.read_got hread).split
    rw [hs] at ih
    refine ⟨fun hw => ?_, fun hc => ?_⟩
    · obtain ⟨hle, hfl⟩ := ih.1 hw
      refine ⟨by rw [List.length_append]; omega, ?_⟩
      rw [List.flatten_cons, hfl, List.take_append, List.take_of_length_le hlt.le]
    · have := ih.2 hc
      rw [List.length_append]
      omega
  | case4 len window k hge =>
    refine ⟨fun _ => ⟨by rw [List.length_append]; omega, ?_⟩, nofun⟩
    rw [List.flatten_singleton, List.take_append_of_le_length (by omega)]

theorem read_writes {k k' : Kernel} {fd : Fd} {n : ℕ} {r : Option (List Octet)} (h : k.read fd n = (r, k')) :
    k'.writes = k.writes := by
  unfold Kernel.read at h
  split at h <;> cases h <;> rfl

/-- What a `read` does depends on what is to be read and on the choices for `read` only. -/
theorem read_congr {k k' : Kernel} (hr : k.reads = k'.reads) (hu : k.unread = k'.unread) {fd : Fd} {n : ℕ}
    {r : Option (List Octet)} {k₁ : Kernel} (hread : k.read fd n = (r, k₁)) :
    ∃ k₂, k'.read fd n = (r, k₂) ∧ k₁.reads = k₂.reads ∧ k₁.unread = k₂.unread := by
  unfold Kernel.read at hread ⊢
  rw [hr, hu] at hread
  split at hread <;> cases hread <;> exact ⟨_, rfl, rfl, rfl⟩

/-- And so do the pieces. -/
theorem pieces_congr (fd : Fd) (room len : ℕ) (window : List Octet) {k k' : Kernel} (hr : k.reads = k'.reads)
    (hu : k.unread = k'.unread) : pieces fd room len window k = pieces fd room len window k' := by
  induction hn : (k.unread fd).length using Nat.strong_induction_on generalizing len window k k' with
  | _ n ih =>
    by_cases hlt : window.length < len
    · rcases hread : k.read fd room with ⟨_ | got, k₁⟩ <;> obtain ⟨k₂, hread', hr', hu'⟩ := read_congr hr hu hread
      · rw [pieces_failed hlt hread, pieces_failed hlt hread']
      · by_cases hne : got = []
        · subst hne
          rw [pieces_cut hlt hread, pieces_cut hlt hread']
        · rw [pieces_more hlt hread hne, pieces_more hlt hread' hne,
            ih _ (hn ▸ (Kernel.read_got hread).unread_lt hne) _ _ hr' hu' rfl]
    · rw [pieces_whole hlt, pieces_whole hlt]

/-! ### pgr_mbuf_discard -/

/-- The loop ends as the message does. -/
theorem discardLoop_ending (len : ℕ) {m : Mbuf} (h : m.Wf) (k : Kernel) :
    match (pieces m.infd (m.len - m.start) len m.window k).2 with
    | .whole => ∃ r, discardLoop len m k = .ok r
    | .cut => ∃ m' k', discardLoop len m k = .error (0, m', k')
    | .failed => ∃ m' k', discardLoop len m k = .error (-1, m', k') := by
  fun_induction discardLoop len m k with
  | case1 len m k hlt k₁ hread =>
    rw [pieces_failed (by rwa [length_window]) hread]
    exact ⟨_, _, rfl⟩
  | case2 len m k hlt k₁ hread =>
    rw [pieces_cut (by rwa [length_window]) hread]
    exact ⟨_, _, rfl⟩
  | case3 len m k hlt got k₁ hread hne ih =>
    have hwin : (m.empty.put got).window = got := by
      rw [window_put (empty_wf h), window_empty, List.nil_append]
    have ih := ih (effect_put (empty_wf h) (Kernel.read_got hread)).wf
    rw [hwin] at ih
    rw [pieces_more (by rwa [length_window]) hread hne, length_window]
    exact ih
  | case4 len m k hge =>
    rw [pieces_whole (by rwa [length_window])]
    exact ⟨_, rfl⟩

/-- `pgr_mbuf_discard` returns `0` unless a `read` fails. -/
theorem pgrMbufDiscard_eq_zero_iff {m : Mbuf} (h : m.Wf) (hav : 5 ≤ m.available) (k : Kernel) :
    (pgrMbufDiscard m k).1 = 0 ↔ (pieces m.infd (m.len - m.start) (size m) m.window k).2 ≠ .failed := by
  have hloop := discardLoop_ending (size m) h k
  unfold pgrMbufDiscard
  rw [if_neg (by omega)]
  cases he : (pieces m.infd (m.len - m.start) (size m) m.window k).2 <;> rw [he] at hloop
  case whole =>
    obtain ⟨r, hr⟩ := hloop
    simp [hr]
  case cut =>
    obtain ⟨m', k', hr⟩ := hloop
    simp [hr]
  case failed =>
    obtain ⟨m', k', hr⟩ := hloop
    simp [hr]

/-! ### What becomes of the pieces -/

/-- How many of `len` octets a `write` takes. -/
def WriteChoice.share (len : ℕ) : WriteChoice → ℕ
  | .fail => 0
  | .upto n => min n len
  | .all => len

/-- How many octets each `write` takes until `len` have been taken, or one takes none, and the choices that are left
then. -/
def shares (len : ℕ) (ws : Stream' WriteChoice) : List ℕ × Stream' WriteChoice :=
  if len = 0 then ([], ws)
  else if ws.head.share len = 0 then ([], ws.tail)
  else
    let r := shares (len - ws.head.share len) ws.tail
    (ws.head.share len :: r.1, r.2)
termination_by len

/-- Parts of these numbers of octets, which follow one another in `buf` from `i` on, are each the beginning of `buf`. -/
def Repeats (buf : List Octet) : ℕ → List ℕ → Prop
  | _, [] => True
  | i, n :: ns => (buf.drop i).take n = buf.take n ∧ Repeats buf (i + n) ns

theorem WriteChoice.share_le (len : ℕ) (w : WriteChoice) : w.share len ≤ len := by
  cases w with
  | fail => exact Nat.zero_le len
  | upto n => exact Nat.min_le_right n len
  | all => exact le_rfl

/-- What a `write` takes is a beginning of the buffer. -/
theorem Kernel.accept_take (k : Kernel) (buf : List Octet) (len : ℕ) (hw : k.writes.head ≠ .fail) :
    ∃ k', k.accept (buf.take len) = (some (buf.take (k.writes.head.share len)), k') ∧ k'.writes = k.writes.tail := by
  unfold Kernel.accept
  cases hc : k.writes.head with
  | fail => exact absurd hc hw
  | upto n => exact ⟨{ k with writes := k.writes.tail }, by simp only [List.take_take, WriteChoice.share], rfl⟩
  | all => exact ⟨_, rfl, rfl⟩

/-- **`writen`** gives each `write` the beginning of the buffer, and each takes as much of it as the choices say. -/
theorem writen_shares (k : Kernel) {buf : List Octet} {len : ℕ} (hlen : len ≤ buf.length) :
    ((writen k buf len).1 = true ↔ (shares len k.writes).1.sum = len) ∧
      (writen k buf len).2.1 = (shares len k.writes).1.flatMap buf.take ∧
      (writen k buf len).2.2.writes = (shares len k.writes).2 := by
  induction len using Nat.strong_induction_on generalizing k with
  | _ len ih =>
    by_cases h0 : len = 0
    · subst h0
      rw [writen, if_pos rfl, shares, if_pos rfl]
      exact ⟨iff_of_true rfl rfl, rfl, rfl⟩
    have hle := k.writes.head.share_le len
    by_cases hfail : k.writes.head = .fail
    · have hacc : k.accept (buf.take len) = (none, { k with writes := k.writes.tail }) := by rw [Kernel.accept, hfail]
      rw [writen, if_neg h0, hacc, shares, if_neg h0, hfail, WriteChoice.share, if_pos rfl]
      exact ⟨iff_of_false Bool.false_ne_true (Ne.symm h0), rfl, rfl⟩
    obtain ⟨k', hacc, hwrites⟩ := k.accept_take buf len hfail
    generalize hn : k.writes.head.share len = n at hacc hle
    have hgot : (buf.take n).length = n := List.length_take_of_le (hle.trans hlen)
    rw [writen, if_neg h0, hacc, shares, if_neg h0, hn]
    by_cases hzero : n = 0
    · subst hzero
      rw [if_pos rfl]
      simp only [List.take_zero]
      exact ⟨iff_of_false Bool.false_ne_true (Ne.symm h0), rfl, hwrites⟩
    · have hne : buf.take n ≠ [] := List.ne_nil_of_length_pos (by omega)
      obtain ⟨h1, h2, h3⟩ := ih (len - n) (by omega) k' ((Nat.sub_le len n).trans hlen)
      rw [hwrites] at h1 h2 h3
      rw [if_neg hzero]
      simp only [hne, dite_false, hgot, List.sum_cons, List.flatMap_cons]
      exact ⟨h1.trans (by omega), by rw [h2], h3⟩

/-- No more is taken than there is. -/
theorem sum_shares_le (len : ℕ) (ws : Stream' WriteChoice) : (shares len ws).1.sum ≤ len := by
  induction len using Nat.strong_induction_on generalizing ws with
  | _ len ih =>
    have hle := ws.head.share_le len
    rw [shares]
    split_ifs with h0 hzero
    · exact Nat.zero_le len
    · exact Nat.zero_le len
    · have := ih (len - ws.head.share len) (by omega) ws.tail
      rw [List.sum_cons]
      omega

theorem length_flatMap_take {buf : List Octet} {ns : List ℕ} (h : ns.sum ≤ buf.length) :
    (ns.flatMap buf.take).length = ns.sum := by
  induction ns with
  | nil => rfl
  | cons n ns ih =>
    rw [List.sum_cons] at h ⊢
    rw [List.flatMap_cons, List.length_append, ih (by omega), List.length_take_of_le (by omega)]

/-- Beginnings of the buffer are what it contains from `i` on just when they repeat. -/
theorem flatMap_take_eq_iff {buf : List Octet} {ns : List ℕ} {i : ℕ} (h : i + ns.sum = buf.length) :
    ns.flatMap buf.take = buf.drop i ↔ Repeats buf i ns := by
  induction ns generalizing i with
  | nil =>
    rw [List.sum_nil] at h
    exact iff_of_true (List.drop_eq_nil_of_le (by omega)).symm trivial
  | cons n ns ih =>
    rw [List.sum_cons] at h
    have hsplit : buf.drop i = (buf.drop i).take n ++ buf.drop (i + n) := by
      rw [← List.drop_drop, List.take_append_drop]
    have hlen : (buf.take n).length = ((buf.drop i).take n).length := by
      rw [List.length_take_of_le (by omega), List.length_take_of_le (by rw [List.length_drop]; omega)]
    rw [Repeats, ← ih (i := i + n) (by omega), List.flatMap_cons]
    constructor
    · intro heq
      rw [hsplit] at heq
      obtain ⟨h1, h2⟩ := List.append_inj heq hlen
      exact ⟨h1.symm, h2⟩
    · rintro ⟨h1, h2⟩
      rw [hsplit, h1, h2]

/-- What the `write`s for one piece take of it. -/
structure Answer where
  /-- The piece. -/
  piece : List Octet
  /-- How many octets each `write` to `outfd` takes. -/
  out : List ℕ
  /-- How many octets each `write` to the cache takes, if there is a cache. -/
  cache : Option (List ℕ)

namespace Answer

/-- What `outfd` accepts. -/
def taken (a : Answer) : List Octet := a.out.flatMap a.piece.take

/-- No `write` to `outfd` fails. -/
def Ok (a : Answer) : Prop := a.out.sum = a.piece.length

/-- No `write` to the cache fails. -/
def Cached (a : Answer) : Prop := ∀ ns ∈ a.cache, ns.sum = a.piece.length

/-- What `outfd` accepts is the piece: no `write` fails, and each part that is taken repeats the beginning of the
piece. -/
def Exact (a : Answer) : Prop := a.Ok ∧ Repeats a.piece 0 a.out

theorem taken_eq_iff {a : Answer} (h : a.out.sum ≤ a.piece.length) : a.taken = a.piece ↔ a.Exact := by
  have hlen : a.taken.length = a.out.sum := length_flatMap_take h
  constructor
  · intro heq
    have hok : a.Ok := by rw [Ok, ← hlen, heq]
    exact ⟨hok, (flatMap_take_eq_iff ((Nat.zero_add _).trans hok)).mp heq⟩
  · rintro ⟨hok, hrepeats⟩
    exact (flatMap_take_eq_iff ((Nat.zero_add _).trans hok)).mpr hrepeats

end Answer

/-- A piece is written to `outfd` and, if there is one, to the cache. -/
def answer (caches : Bool) (piece : List Octet) (ws : Stream' WriteChoice) : Answer × Stream' WriteChoice :=
  let out := shares piece.length ws
  let cache := shares piece.length out.2
  if caches then (⟨piece, out.1, some cache.1⟩, cache.2) else (⟨piece, out.1, none⟩, out.2)

/-- The pieces are written one after the other. -/
def answers (caches : Bool) : List (List Octet) → Stream' WriteChoice → List Answer
  | [], _ => []
  | piece :: rest, ws => (answer caches piece ws).1 :: answers caches rest (answer caches piece ws).2

/-- What goes wrong, if anything, goes unnoticed: no `read` fails, no `write` to the cache,
and not the last `write` of the message to `outfd`. -/
structure Unnoticed (e : Ending) (as : List Answer) : Prop where
  /-- No `read` fails. -/
  read : e ≠ .failed
  /-- No `write` to the cache fails. -/
  cached : ∀ a ∈ as, a.Cached
  /-- If the message comes whole, the last piece of it is written without a failure. -/
  last : e = .whole → ∀ a ∈ as.getLast?, a.Ok

/-- No failure with a piece other than the last is noticed, unless it is one of the cache. -/
theorem unnoticed_cons {e : Ending} {a : Answer} {as : List Answer} (h : as ≠ []) :
    Unnoticed e (a :: as) ↔ a.Cached ∧ Unnoticed e as := by
  have hlast : (a :: as).getLast? = as.getLast? := by
    obtain ⟨b, bs, rfl⟩ := List.exists_cons_of_ne_nil h
    exact List.getLast?_cons_cons
  constructor
  · rintro ⟨h1, h2, h3⟩
    rw [hlast] at h3
    exact ⟨h2 a List.mem_cons_self, h1, fun b hb => h2 b (List.mem_cons_of_mem a hb), h3⟩
  · rintro ⟨h0, h1, h2, h3⟩
    rw [← hlast] at h3
    exact ⟨h1, List.forall_mem_cons.mpr ⟨h0, h2⟩, h3⟩

/-- What `write` does not change, it does not change either. -/
theorem writen_keeps {β : Type} {g : Kernel → β} (hg : ∀ k d, g (k.accept d).2 = g k) (k : Kernel) (buf : List Octet)
    (len : ℕ) : g (writen k buf len).2.2 = g k := by
  have haccept : ∀ {k k' : Kernel} {d : List Octet} {r : Option (List Octet)}, k.accept d = (r, k') → g k' = g k := by
    intro k k' d r h
    rw [← hg k d, h]
  fun_induction writen k buf len with
  | case1 => rfl
  | case2 k len _ k' h => exact haccept h
  | case3 k len _ k' h => exact haccept h
  | case4 k len _ got k' h _ r ih => exact ih.trans (haccept h)

/-- It reads nothing. -/
theorem writen_reads (k : Kernel) (buf : List Octet) (len : ℕ) : (writen k buf len).2.2.reads = k.reads :=
  writen_keeps (fun k d => by unfold Kernel.accept; split <;> rfl) k buf len

theorem answers_ne_nil {caches : Bool} {ps : List (List Octet)} (h : ps ≠ []) (ws : Stream' WriteChoice) :
    answers caches ps ws ≠ [] := by
  obtain ⟨p, rest, rfl⟩ := List.exists_cons_of_ne_nil h
  exact List.cons_ne_nil _ _

/-! ### pgr_mbuf_send -/

/-- What a call that was to deal with a message has come to: `0` is returned just when
nothing that goes wrong is noticed, and then `fd` has been given what is taken of the pieces. -/
structure Told (out : Outcome) (k : Kernel) (fd : Fd) (e : Ending) (as : List Answer) : Prop where
  /-- The return value. -/
  rc : out.1 = 0 ↔ Unnoticed e as
  /-- What is written. -/
  sent : out.1 = 0 → out.2.2.sent = k.sent ++ (as.flatMap Answer.taken).map (Prod.mk fd)

/-- A failure says that something was noticed. -/
theorem Told.failure {rc : ℤ} (hrc : rc ≠ 0) {m : Mbuf} {k k' : Kernel} {fd : Fd} {e : Ending} {as : List Answer}
    (h : ¬ Unnoticed e as) : Told (rc, m, k') k fd e as :=
  ⟨iff_of_false hrc h, fun h0 => absurd h0 hrc⟩

/-- What follows the loop of `pgr_mbuf_send`. -/
def finish : Except Outcome (ℕ × Bool × Mbuf × Kernel) → Outcome
  | .error r => r
  | .ok (len, wrOk, m, k) => sendRest len wrOk m k

theorem unnoticed_singleton {a : Answer} : Unnoticed .whole [a] ↔ a.Cached ∧ a.Ok :=
  ⟨fun h => ⟨h.cached a List.mem_cons_self, h.last rfl a rfl⟩,
    fun h => ⟨nofun, by simpa using h.1, fun _ b hb => by cases hb; exact h.2⟩⟩

/-- One piece is written to `outfd` and to the cache, as `answer` says. -/
theorem writeBoth_answer (m : Mbuf) (k : Kernel) (fd : Fd) (w : List Octet) :
    let k₁ := (writenTo k fd w w.length).2
    let k₂ := (m.writenCache k₁ w w.length).2.2
    ((writenTo k fd w w.length).1 = true ↔ (answer true w k.writes).1.Ok) ∧
      ((m.writenCache k₁ w w.length).1 = true ↔ (answer true w k.writes).1.Cached) ∧
      k₂.sent = k.sent ++ (answer true w k.writes).1.taken.map (Prod.mk fd) ∧
      k₂.writes = (answer true w k.writes).2 ∧ k₂.reads = k.reads ∧ k₂.unread = k.unread := by
  intro k₁ k₂
  have ha := writen_asked k w w.length
  have ha' := writen_asked k₁ w w.length
  have hk₁ : k₁ = (writen k w w.length).2.2.emit fd (writen k w w.length).2.1 := rfl
  have hk₂ : k₂ = (writen k₁ w w.length).2.2 := rfl
  obtain ⟨h1, h2, h3⟩ := writen_shares k (le_refl w.length)
  obtain ⟨h4, -, h6⟩ := writen_shares k₁ (le_refl w.length)
  rw [show k₁.writes = (shares w.length k.writes).2 from h3] at h4 h6
  refine ⟨h1, h4.trans ⟨fun h ns hns => ?_, fun h => h _ rfl⟩, ?_, h6, ?_, ?_⟩
  · cases hns
    exact h
  · rw [hk₂, ha'.sent, hk₁, Kernel.emit, ha.sent, h2]
    rfl
  · rw [hk₂, writen_reads, hk₁]
    exact writen_reads k w w.length
  · rw [hk₂, ha'.unread, hk₁]
    exact ha.unread

/-- The rest of the message is one piece. -/
theorem sendRest_told {m : Mbuf} (h : m.Wf) (k : Kernel) {len : ℕ} (hlen : len ≤ m.available) {wrOk : Bool}
    (hok : len = 0 → wrOk = true) :
    Told (sendRest len wrOk m k) k m.outfd .whole (answers m.cache.isSome [m.window.take len] k.writes) := by
  have hle := h.start_le
  have hlen' : len ≤ m.fill - m.start := hlen
  have hpiece : slice m.buf m.start (m.start + len) = m.window.take len := by
    rw [Mbuf.window, take_slice, min_eq_right (by omega)]
  have hl : (m.window.take len).length = len := List.length_take_of_le (by rwa [length_window])
  rcases Nat.eq_zero_or_pos len with h0 | h0
  · subst h0
    have hnone : ∀ ws, shares 0 ws = ([], ws) := fun ws => by rw [shares, if_pos rfl]
    cases hok rfl
    simp only [sendRest, lt_irrefl, if_false, if_true, List.take_zero]
    refine ⟨?_, ?_⟩ <;> cases m.cache.isSome <;>
      simp [answers, answer, hnone, unnoticed_singleton, Answer.Cached, Answer.Ok, Answer.taken]
  · obtain ⟨h1, h2, h3, -⟩ := writeBoth_answer m k m.outfd (m.window.take len)
    rw [hl] at h1 h2 h3
    cases hcache : m.cache with
    | none =>
      have hsent : (writen k (m.window.take len) len).2.2.sent = k.sent := (writen_asked _ _ _).sent
      obtain ⟨h4, h5, -⟩ := writen_shares k hl.ge
      simp only [sendRest, if_pos h0, hpiece, hcache]
      refine ⟨?_, fun _ => ?_⟩
      · simp only [answers, answer, Option.isSome_none, Bool.false_eq_true, if_false, unnoticed_singleton]
        rw [show (writenTo k m.outfd (m.window.take len) len).1 = (writen k (m.window.take len) len).1 from rfl]
        simp [Answer.Cached, Answer.Ok, hl, h4]
      · simp [answers, answer, writenTo, hl, Kernel.emit, hsent, Answer.taken, h5]
    | some f =>
      simp only [sendRest, if_pos h0, hpiece, hcache, Option.isSome_some, answers]
      by_cases hca : (answer true (m.window.take len) k.writes).1.Cached
      · rw [if_neg (not_not.mpr (h2.mpr hca))]
        refine ⟨?_, fun _ => ?_⟩
        · rw [unnoticed_singleton, and_iff_right hca, ← h1]
          simp
        · rw [h3]
          simp
      · rw [if_pos (mt h2.mp hca)]
        exact .failure (by decide) fun hu => hca (unnoticed_singleton.mp hu).1

theorem Told.cons {out : Outcome} {k k' : Kernel} {fd : Fd} {e : Ending} {a : Answer} {as : List Answer}
    (h : Told out k' fd e as) (hne : as ≠ []) (ha : a.Cached)
    (hs : k'.sent = k.sent ++ a.taken.map (Prod.mk fd)) : Told out k fd e (a :: as) where
  rc := by rw [h.rc, unnoticed_cons hne, and_iff_right ha]
  sent := fun h0 => by
    rw [h.sent h0, hs, List.flatMap_cons, List.map_append, List.append_assoc]

/-- A round of the loop, once there is a cache, is what `answer` says of what is available. -/
theorem sendWindow_answer {m : Mbuf} (hc : m.cache.isSome) (k : Kernel) :
    let a := answer true m.window k.writes
    match sendWindow m k with
    | .error r => ¬ a.1.Cached ∧ r.1 = 1
    | .ok (_, m', k') => a.1.Cached ∧ m'.cache.isSome ∧ m'.start = m.start ∧ m'.fill = m.fill ∧ m'.len = m.len ∧
      m'.infd = m.infd ∧ m'.outfd = m.outfd ∧ k'.sent = k.sent ++ a.1.taken.map (Prod.mk m.outfd) ∧
      k'.writes = a.2 ∧ k'.reads = k.reads ∧ k'.unread = k.unread := by
  intro a
  obtain ⟨f, hf⟩ := Option.isSome_iff_exists.mp hc
  have hwarm : warmCache m k = .ok (m, k) := by rw [warmCache, hf]
  obtain ⟨-, h2, h3⟩ := writeBoth_answer m k m.outfd m.window
  rw [length_window] at h2 h3
  simp only [sendWindow, hwarm]
  by_cases hca : a.1.Cached
  · rw [if_neg (not_not.mpr (h2.mpr hca))]
    exact ⟨hca, by simp [Mbuf.writenCache, hf], rfl, rfl, rfl, rfl, rfl, h3⟩
  · rw [if_pos (mt h2.mp hca)]
    exact ⟨hca, rfl⟩

/-- Once there is a cache, the loop writes one piece after the other. -/
theorem sendLoop_told (len : ℕ) (wrOk : Bool) {m : Mbuf} (h : m.Wf) (hc : m.cache.isSome) (k : Kernel)
    (hok : len = 0 → wrOk = true) :
    Told (finish (sendLoop len wrOk m k)) k m.outfd (pieces m.infd (m.len - m.start) len m.window k).2
      (answers true (pieces m.infd (m.len - m.start) len m.window k).1 k.writes) := by
  fun_induction sendLoop len wrOk m k with
  | case1 len wrOk m k hlt r hwin =>
    have hsw := sendWindow_answer hc k
    rw [hwin] at hsw
    obtain ⟨rc, m', k'⟩ := r
    obtain ⟨hca, rfl⟩ : _ ∧ rc = 1 := hsw
    obtain ⟨ps, hps⟩ := exists_pieces (show m.window.length < len by rwa [length_window])
    rw [hps]
    exact .failure (by decide) fun hu => hca (hu.cached _ List.mem_cons_self)
  | case2 len wrOk m k hlt wrOk₁ m₁ k₁ hwin k₂ hread =>
    have hsw := sendWindow_answer hc k
    rw [hwin] at hsw
    obtain ⟨hca, -, hstart, -, hlen, hinfd, -, -, -, hreads, hunread⟩ := hsw
    obtain ⟨k₃, hread', -⟩ := read_congr hreads hunread hread
    rw [hinfd, hlen, hstart] at hread'
    rw [pieces_failed (by rwa [length_window]) hread']
    exact .failure (by decide) fun hu => hu.read rfl
  | case3 len wrOk m k hlt wrOk₁ m₁ k₁ hwin k₂ hread =>
    have hsw := sendWindow_answer hc k
    rw [hwin] at hsw
    obtain ⟨hca, -, hstart, -, hlen, hinfd, -, hsent, -, hreads, hunread⟩ := hsw
    obtain ⟨k₃, hread', -⟩ := read_congr hreads hunread hread
    rw [hinfd, hlen, hstart] at hread'
    rw [pieces_cut (by rwa [length_window]) hread']
    refine ⟨⟨fun _ => ⟨by simp, by simpa [answers] using hca, by simp⟩, fun _ => rfl⟩, fun _ => ?_⟩
    rw [finish, (Kernel.read_got hread).sent, hsent]
    simp [answers]
  | case4 len wrOk m k hlt wrOk₁ m₁ k₁ hwin got k₂ hread hne ih =>
    have hsw := sendWindow_answer hc k
    rw [hwin] at hsw
    obtain ⟨hca, hcache, hstart, hfill, hlen, hinfd, houtfd, hsent, hwrites, hreads, hunread⟩ := hsw
    obtain ⟨k₃, hread', hr, hu⟩ := read_congr hreads hunread hread
    rw [hinfd, hlen, hstart] at hread'
    have hav : m₁.available = m.available := by rw [Mbuf.available, Mbuf.available, hfill, hstart]
    have h₁ : m₁.Wf := ⟨by rw [hfill, hstart]; exact h.start_le, by rw [hfill, hlen]; exact h.fill_le⟩
    have hgot : k₁.Got m₁.infd (m₁.len - m₁.start) got k₂ := Kernel.read_got hread
    have hwindow : (m₁.empty.put got).window = got := by
      rw [window_put (empty_wf h₁), window_empty, List.nil_append]
    have ih := ih (effect_put (empty_wf h₁) hgot).wf hcache (by omega)
    rw [hwindow, show (m₁.empty.put got).infd = m₁.infd from rfl, show (m₁.empty.put got).len = m₁.len from rfl,
      show (m₁.empty.put got).start = m₁.start from rfl, show (m₁.empty.put got).outfd = m₁.outfd from rfl, hinfd,
      hlen, hstart, houtfd, hav, (read_writes hread).trans hwrites] at ih
    rw [pieces_more (by rwa [length_window]) hread' hne, length_window, answers, hav,
      ← pieces_congr m.infd (m.len - m.start) (len - m.available) got hr hu]
    exact ih.cons (answers_ne_nil pieces_ne_nil _) hca (hgot.sent.trans hsent)
  | case5 len wrOk m k hge =>
    have := sendRest_told h k (not_lt.mp hge) hok
    rw [hc] at this
    rwa [pieces_whole (by rwa [length_window])]

/-- Whether there can be a cache, if one is needed that is not there, and the choices of `write` that are left then:
`tmpfile` succeeds, and what has been sent is written to the cache as a whole. -/
def warmed (m : Mbuf) (k : Kernel) : Bool × Stream' WriteChoice :=
  if m.cache.isNone ∧ m.available < size m then
    (k.tmpfile.1 && decide ((shares m.start k.writes).1.sum = m.start), (shares m.start k.writes).2)
  else (true, k.writes)

/-- The pieces in which `pgr_mbuf_send` reads the message. A new cache leaves it the whole
of the buffer. -/
def sendPieces (m : Mbuf) (k : Kernel) : List (List Octet) × Ending :=
  pieces m.infd (if m.cache.isSome then m.len - m.start else m.len) (size m) m.window k

/-- What becomes of them. -/
def sendAnswers (m : Mbuf) (k : Kernel) : List Answer :=
  answers (m.cache.isSome || decide (m.available < size m)) (sendPieces m k).1 (warmed m k).2

/-- A round of the loop of `pgr_mbuf_send`. -/
theorem sendLoop_eq {len : ℕ} {m : Mbuf} (hlt : m.available < len) (wrOk : Bool) (k : Kernel) :
    sendLoop len wrOk m k = match sendWindow m k with
      | .error r => .error r
      | .ok (wrOk, m', k') => match k'.read m'.infd (m'.len - m'.start) with
        | (none, k'') => .error (-1, m'.empty, k'')
        | (some got, k'') =>
          if got = [] then .error (0, m'.empty, k'')
          else sendLoop (len - m'.available) wrOk (m'.empty.put got) k'' := by
  rw [sendLoop, if_pos hlt]
  split <;> rename_i h <;> simp only [h]
  split <;> rename_i h' <;> simp only [h']
  split_ifs <;> rfl

/-- The loop warms up the cache before all else. -/
theorem sendLoop_warmCache {m m₁ : Mbuf} {k k₁ : Kernel} (hw : warmCache m k = .ok (m₁, k₁))
    (hc : m₁.cache.isSome) (hav : m₁.available = m.available) (len : ℕ) (wrOk : Bool) (hlt : m.available < len) :
    sendLoop len wrOk m k = sendLoop len wrOk m₁ k₁ := by
  obtain ⟨f, hf⟩ := Option.isSome_iff_exists.mp hc
  have hsw : sendWindow m k = sendWindow m₁ k₁ := by
    rw [sendWindow, sendWindow, hw, warmCache, hf]
  rw [sendLoop_eq hlt, sendLoop_eq (by rwa [hav]), hsw]

theorem warmed_eq {m : Mbuf} (hc : m.cache = none) (hlt : m.available < size m) (k : Kernel) :
    warmed m k = (k.tmpfile.1 && decide ((shares m.start k.writes).1.sum = m.start), (shares m.start k.writes).2) :=
  if_pos ⟨by rw [hc]; rfl, hlt⟩

/-- What has been sent is written to the cache. -/
theorem writen_warm (m : Mbuf) (k : Kernel) :
    ((writen k.tmpfile.2 (slice m.buf 0 m.start) m.start).1 = true ↔ (shares m.start k.writes).1.sum = m.start) ∧
      (writen k.tmpfile.2 (slice m.buf 0 m.start) m.start).2.2.writes = (shares m.start k.writes).2 := by
  have hlen : m.start ≤ (slice m.buf 0 m.start).length := by simp
  obtain ⟨h1, -, h3⟩ := writen_shares k.tmpfile.2 hlen
  exact ⟨h1, h3⟩

/-- A cache that is warmed up is as good as one that was there. -/
theorem warmCache_of_warmed {m : Mbuf} (h : m.Wf) (hc : m.cache = none) (hlt : m.available < size m) {k : Kernel}
    (hw : (warmed m k).1 = true) :
    ∃ m₁ k₁, warmCache m k = .ok (m₁, k₁) ∧ m₁.Wf ∧ m₁.cache.isSome ∧ m₁.start = 0 ∧ m₁.len = m.len ∧
      m₁.infd = m.infd ∧ m₁.outfd = m.outfd ∧ m₁.window = m.window ∧ k₁.writes = (warmed m k).2 ∧
      k₁.reads = k.reads ∧ k₁.unread = k.unread ∧ k₁.sent = k.sent := by
  have ha := writen_asked k.tmpfile.2 (slice m.buf 0 m.start) m.start
  have hr := writen_reads k.tmpfile.2 (slice m.buf 0 m.start) m.start
  obtain ⟨hok, hwrites⟩ := writen_warm m k
  rw [warmed_eq hc hlt] at hw ⊢
  obtain ⟨hopen, hsum⟩ := (Bool.and_eq_true _ _).mp hw
  replace hok := hok.mpr (of_decide_eq_true hsum)
  simp only [warmCache, hc, hopen, not_true_eq_false, if_false]
  by_cases h0 : 0 < m.start
  · have hmove : slice (blit m.buf 0 (slice m.buf m.start m.fill)) 0 (m.fill - m.start) =
        slice m.buf m.start m.fill := slice_blit_move _ (by omega)
    simp only [if_pos h0, Mbuf.writenCache, hok, not_true_eq_false, if_false]
    exact ⟨_, _, rfl, ⟨Nat.zero_le _, (Nat.sub_le _ _).trans h.fill_le⟩, rfl, rfl, rfl, rfl, rfl, hmove, hwrites, hr,
      ha.unread, ha.sent⟩
  · have hs : m.start = 0 := by omega
    have hnone : writen k.tmpfile.2 (slice m.buf 0 m.start) m.start = (true, [], k.tmpfile.2) := by
      rw [writen, if_pos hs]
    rw [hnone] at hwrites
    rw [if_neg h0]
    exact ⟨_, _, rfl, ⟨h.1, h.2⟩, rfl, hs, rfl, rfl, rfl, rfl, hwrites, rfl, rfl, rfl⟩

/-- Where there can be none, `pgr_mbuf_send` fails. -/
theorem warmCache_of_not_warmed {m : Mbuf} (hc : m.cache = none) (hlt : m.available < size m) {k : Kernel}
    (hw : ¬ (warmed m k).1 = true) : ∃ m₁ k₁, warmCache m k = .error (1, m₁, k₁) := by
  rw [warmed_eq hc hlt, Bool.and_eq_true, not_and, decide_eq_true_iff, ← (writen_warm m k).1] at hw
  simp only [warmCache, hc]
  by_cases hopen : k.tmpfile.1 = true
  · have hok := hw hopen
    simp only [hopen, not_true_eq_false, if_false]
    by_cases h0 : 0 < m.start
    · rw [if_pos h0]
      exact ⟨_, _, if_pos hok⟩
    · have hs : m.start = 0 := by omega
      rw [hs, writen, if_pos rfl] at hok
      exact absurd rfl hok
  · rw [if_pos hopen]
    exact ⟨_, _, rfl⟩

/-- **`pgr_mbuf_send`** returns `0` just when nothing that goes wrong is noticed. -/
theorem pgrMbufSend_told {m : Mbuf} (h : m.Wf) (hav : 5 ≤ m.available) (k : Kernel) :
    ((pgrMbufSend m k).1 = 0 ↔ (warmed m k).1 = true ∧ Unnoticed (sendPieces m k).2 (sendAnswers m k)) ∧
      ((pgrMbufSend m k).1 = 0 → (pgrMbufSend m k).2.2.sent =
        k.sent ++ ((sendAnswers m k).flatMap Answer.taken).map (Prod.mk m.outfd)) := by
  have hsend : pgrMbufSend m k = finish (sendLoop (size m) true m k) := by
    rw [pgrMbufSend, if_neg (by omega)]
    rfl
  rw [hsend]
  cases hc : m.cache with
  | some f =>
    have hsome : m.cache.isSome := by rw [hc]; rfl
    have hwarmed : warmed m k = (true, k.writes) := if_neg (by simp [hc])
    have ht := sendLoop_told (size m) true h hsome k fun _ => rfl
    rw [sendAnswers, sendPieces, hwarmed, if_pos hsome, hsome, Bool.true_or]
    exact ⟨by rw [ht.rc, and_iff_right rfl], ht.sent⟩
  | none =>
    by_cases hlt : m.available < size m
    · by_cases hw : (warmed m k).1 = true
      · obtain ⟨m₁, k₁, hwarm, h₁, hsome, hstart, hlen, hinfd, houtfd, hwin, hwrites, hreads, hunread, hsent⟩ :=
          warmCache_of_warmed h hc hlt hw
        have hav₁ : m₁.available = m.available := by rw [← length_window, hwin, length_window]
        have ht := sendLoop_told (size m) true h₁ hsome k₁ fun _ => rfl
        rw [hstart, hlen, hinfd, houtfd, hwin, Nat.sub_zero, pieces_congr m.infd m.len (size m) m.window hreads hunread,
          hwrites] at ht
        rw [sendAnswers, sendPieces, hc, sendLoop_warmCache hwarm hsome hav₁ _ _ hlt]
        simp only [Option.isSome_none, Bool.false_eq_true, if_false, Bool.false_or, hlt, decide_true]
        exact ⟨by rw [ht.rc, and_iff_right hw], fun h0 => by rw [ht.sent h0, hsent]⟩
      · obtain ⟨m₁, k₁, hwarm⟩ := warmCache_of_not_warmed hc hlt hw
        have hfail : finish (sendLoop (size m) true m k) = (1, m₁, k₁) := by
          rw [sendLoop_eq hlt, sendWindow, hwarm]
          rfl
        rw [hfail]
        exact ⟨⟨nofun, fun hu => absurd hu.1 hw⟩, nofun⟩
    · have hwarmed : warmed m k = (true, k.writes) := if_neg fun hu => hlt hu.2
      have hloop : sendLoop (size m) true m k = .ok (size m, true, m, k) := by rw [sendLoop, if_neg hlt]
      have ht := sendRest_told h k (not_lt.mp hlt) fun _ => rfl
      rw [sendAnswers, sendPieces, hwarmed, pieces_whole (by rwa [length_window]), hloop, decide_eq_false hlt,
        Bool.or_false]
      exact ⟨by rw [finish, ht.rc, and_iff_right rfl], ht.sent⟩

/-! ### When the return values are true -/

theorem answer_spec (caches : Bool) (piece : List Octet) (ws : Stream' WriteChoice) :
    (answer caches piece ws).1.piece = piece ∧
      (answer caches piece ws).1.out.sum ≤ (answer caches piece ws).1.piece.length := by
  unfold answer
  split_ifs <;> exact ⟨rfl, sum_shares_le _ _⟩

/-- What `outfd` accepts is the pieces just when it accepts each of them. -/
theorem flatMap_taken_eq_iff (caches : Bool) (ps : List (List Octet)) (ws : Stream' WriteChoice) :
    ((answers caches ps ws).flatMap Answer.taken).length ≤ ps.flatten.length ∧
      ((answers caches ps ws).flatMap Answer.taken = ps.flatten ↔ ∀ a ∈ answers caches ps ws, a.Exact) := by
  induction ps generalizing ws with
  | nil => simp [answers]
  | cons piece rest ih =>
    obtain ⟨hle, hiff⟩ := ih (answer caches piece ws).2
    obtain ⟨hpiece, hsum⟩ := answer_spec caches piece ws
    have hlen : (answer caches piece ws).1.taken.length = _ := length_flatMap_take hsum
    have htaken := Answer.taken_eq_iff hsum
    rw [hpiece] at hsum htaken
    rw [answers, List.flatMap_cons, List.flatten_cons, List.length_append, List.length_append, List.forall_mem_cons,
      ← hiff, ← htaken]
    refine ⟨by omega, fun h => ?_, fun h => by rw [h.1, h.2]⟩
    have hall := congrArg List.length h
    rw [List.length_append, List.length_append] at hall
    exact List.append_inj h (by omega)

/-- All that goes wrong when a message is sent goes unnoticed. -/
def Overlooked (m : Mbuf) (k : Kernel) : Prop :=
  (warmed m k).1 = true ∧ Unnoticed (sendPieces m k).2 (sendAnswers m k)

/-- If `pgr_mbuf_send` returns `0`, `outfd` has accepted the message, as `size` measures it. -/
def SendTruthful (m : Mbuf) (k : Kernel) : Prop :=
  (pgrMbufSend m k).1 = 0 → size m ≤ (pending m k).length ∧
    (pgrMbufSend m k).2.2.sent = k.sent ++ ((pending m k).take (size m)).map (Prod.mk m.outfd)

/-- If `pgr_mbuf_discard` returns `0`, the message, as `size` measures it, has gone from the
pending stream. -/
def DiscardTruthful (m : Mbuf) (k : Kernel) : Prop :=
  (pgrMbufDiscard m k).1 = 0 → size m ≤ (pending m k).length ∧
    pending (pgrMbufDiscard m k).2.1 (pgrMbufDiscard m k).2.2 = (pending m k).drop (size m)

theorem sendTruthful_iff {m : Mbuf} (h : m.Wf) (hav : 5 ≤ m.available) (k : Kernel) :
    SendTruthful m k ↔
      (Overlooked m k → (sendPieces m k).2 = .whole ∧ ∀ a ∈ sendAnswers m k, a.Exact) := by
  obtain ⟨hrc, hsent⟩ := pgrMbufSend_told h hav k
  have hroom : 0 < if m.cache.isSome then m.len - m.start else m.len := by
    have := h.fill_le
    unfold Mbuf.available at hav
    split <;> omega
  obtain ⟨hwhole, hcut⟩ := pieces_spec m.infd hroom (size m) m.window k
  rw [← sendPieces, ← pending] at hwhole hcut
  have hall : (sendPieces m k).2 = .whole →
      ((sendAnswers m k).flatMap Answer.taken = (pending m k).take (size m) ↔
        ∀ a ∈ sendAnswers m k, a.Exact) := by
    intro he
    have hiff := (flatMap_taken_eq_iff (m.cache.isSome || decide (m.available < size m)) (sendPieces m k).1
      (warmed m k).2).2
    rwa [(hwhole he).2] at hiff
  constructor
  · intro ht ho
    have h0 := hrc.mpr ho
    obtain ⟨hle, hs⟩ := ht h0
    have he : (sendPieces m k).2 = .whole := by
      cases hend : (sendPieces m k).2 with
      | whole => rfl
      | cut => exact absurd (hcut hend) (by omega)
      | failed => exact absurd hend ho.2.read
    refine ⟨he, (hall he).mp ?_⟩
    rw [hsent h0] at hs
    exact List.map_injective_iff.mpr (Prod.mk_right_injective m.outfd) (List.append_cancel_left hs)
  · intro ho h0
    obtain ⟨he, ha⟩ := ho (hrc.mp h0)
    exact ⟨(hwhole he).1, by rw [hsent h0, (hall he).mpr ha]⟩

theorem discardTruthful_iff {m : Mbuf} (h : m.Wf) (hav : 5 ≤ m.available) (k : Kernel) :
    DiscardTruthful m k ↔ (pieces m.infd (m.len - m.start) (size m) m.window k).2 ≠ .cut := by
  have hroom : m.start < m.len := by
    have := h.fill_le
    unfold Mbuf.available at hav
    omega
  have hzero := pgrMbufDiscard_eq_zero_iff h hav k
  have hend := discardLoop_ending (size m) h k
  obtain ⟨-, hcut⟩ := pieces_spec m.infd (Nat.sub_pos_of_lt hroom) (size m) m.window k
  rw [← pending] at hcut
  constructor
  · intro ht he
    have := (ht (hzero.mpr (by simp [he]))).1
    have := hcut he
    omega
  · intro hne h0
    have he : (pieces m.infd (m.len - m.start) (size m) m.window k).2 = .whole := by
      cases he : (pieces m.infd (m.len - m.start) (size m) m.window k).2 with
      | whole => rfl
      | cut => exact absurd he hne
      | failed => exact absurd he (hzero.mp h0)
    rw [he] at hend
    obtain ⟨r, hr⟩ := hend
    obtain ⟨-, u, heff, -, hlen⟩ := pgrMbufDiscard_of_ok h hav hr
    refine ⟨?_, by rw [heff.pending_eq, hlen]⟩
    rw [← hlen]
    exact heff.used_prefix.length_le

/-- **When the return values are true.** That of `pgr_mbuf_send` is, just when the failures
that it looks at are all there are: unless one of those occurs, the message comes whole, no
`write` for any of its pieces fails, and what is taken after a short one repeats. That of
`pgr_mbuf_discard` is, just when the input does not end inside the message. -/
theorem truthful_iff {m : Mbuf} (h : m.Wf) (hav : 5 ≤ m.available) (k : Kernel) :
    (SendTruthful m k ↔
        (Overlooked m k → (sendPieces m k).2 = .whole ∧ ∀ a ∈ sendAnswers m k, a.Exact)) ∧
      (DiscardTruthful m k ↔ (pieces m.infd (m.len - m.start) (size m) m.window k).2 ≠ .cut) :=
  ⟨sendTruthful_iff h hav k, discardTruthful_iff h hav k⟩

/-- A `write` that takes all is the only one. -/
theorem shares_all {len : ℕ} (hlen : 0 < len) {ws : Stream' WriteChoice} (hw : ws.head = .all) :
    shares len ws = ([len], ws.tail) := by
  have hnone : shares 0 ws.tail = ([], ws.tail) := by rw [shares, if_pos rfl]
  rw [shares, if_neg (by omega), hw, WriteChoice.share, if_neg (by omega), Nat.sub_self, hnone]

/-- So is one that fails. -/
theorem shares_fail {len : ℕ} (hlen : 0 < len) {ws : Stream' WriteChoice} (hw : ws.head = .fail) :
    shares len ws = ([], ws.tail) := by
  rw [shares, if_neg (by omega), hw, WriteChoice.share, if_pos rfl]

theorem warmed_header {k : Kernel} (ht : k.tmpfile.1 = true) : warmed header k = (true, k.writes) := by
  have hnone : shares header.start k.writes = ([], k.writes) := by rw [shares, if_pos (show header.start = 0 from rfl)]
  rw [warmed_eq rfl (by decide), ht, hnone]
  rfl

theorem sendAnswers_header {k : Kernel} (ht : k.tmpfile.1 = true) :
    sendAnswers header k = answers true (pieces 3 16 10 [0x51, 0, 0, 0, 9] k).1 k.writes := by
  rw [sendAnswers, warmed_header ht]
  rfl

/-- Where each `write` takes all, `outfd` and the cache take each piece as it is. -/
theorem answers_all {ps : List (List Octet)} (hne : ∀ p ∈ ps, p ≠ []) :
    answers true ps (Stream'.const .all) = ps.map fun p => ⟨p, [p.length], some [p.length]⟩ := by
  induction ps with
  | nil => rfl
  | cons p ps ih =>
    obtain ⟨hp, hps⟩ := List.forall_mem_cons.mp hne
    have hall : shares p.length (Stream'.const .all) = ([p.length], Stream'.const .all) :=
      shares_all (List.length_pos_iff.mpr hp) rfl
    rw [answers, answer, if_pos rfl, hall, hall, ih hps, List.map_cons]

/-- When the rest of the query comes, it is the second piece. -/
theorem pieces_header {k k' : Kernel} (hread : k.read 3 16 = (some [0x62, 0x65, 0x67, 0x69, 0], k')) :
    pieces 3 16 10 [0x51, 0, 0, 0, 9] k = ([[0x51, 0, 0, 0, 9], [0x62, 0x65, 0x67, 0x69, 0]], .whole) := by
  rw [pieces_more (by decide) hread (by decide), pieces_whole (by decide)]
  rfl

/-- When the rest of a query comes, and all is written, both are true. -/
theorem truthful_header :
    let k := Kernel.eager fun _ => [0x62, 0x65, 0x67, 0x69, 0]
    SendTruthful header k ∧ DiscardTruthful header k := by
  intro k
  have hpieces : pieces 3 16 10 [0x51, 0, 0, 0, 9] k = _ := pieces_header rfl
  have ha : sendAnswers header k =
      [⟨[0x51, 0, 0, 0, 9], [5], some [5]⟩, ⟨[0x62, 0x65, 0x67, 0x69, 0], [5], some [5]⟩] := by
    rw [sendAnswers_header rfl, hpieces]
    exact answers_all (by decide)
  obtain ⟨hsend, hdiscard⟩ := truthful_iff header_wf (by decide) k
  refine ⟨hsend.mpr fun _ => ⟨congrArg Prod.snd hpieces, ?_⟩, hdiscard.mpr fun he => ?_⟩
  · rw [ha]
    simp [Answer.Exact, Answer.Ok, Repeats]
  · cases (congrArg Prod.snd hpieces).symm.trans he

/-- The first `write` fails, and no other. -/
def balky (k : Kernel) : Kernel := { k with writes := Stream'.cons .fail k.writes }

/-- When the input ends after the header of a query, both return `0`; and
`pgr_mbuf_send` also does when the header is not written, but the rest of the query is. -/
theorem not_truthful :
    let cut := Kernel.eager fun _ => []
    let late := balky (Kernel.eager fun _ => [0x62, 0x65, 0x67, 0x69, 0])
    ¬ SendTruthful header cut ∧ ¬ DiscardTruthful header cut ∧ ¬ SendTruthful header late := by
  intro cut late
  have hcut : pieces 3 16 10 [0x51, 0, 0, 0, 9] cut = ([[0x51, 0, 0, 0, 9]], .cut) := pieces_cut (by decide) rfl
  have hlate : pieces 3 16 10 [0x51, 0, 0, 0, 9] late = _ := pieces_header rfl
  refine ⟨fun h => ?_, fun h => (discardTruthful_iff header_wf (by decide) cut).mp h (congrArg Prod.snd hcut), fun h => ?_⟩
  · have ha : sendAnswers header cut = [⟨[0x51, 0, 0, 0, 9], [5], some [5]⟩] := by
      rw [sendAnswers_header rfl, hcut]
      exact answers_all (by decide)
    have he : (sendPieces header cut).2 = .cut := congrArg Prod.snd hcut
    have ho : Overlooked header cut := by
      refine ⟨by rw [warmed_header rfl], ?_⟩
      rw [he, ha]
      exact ⟨nofun, by simp [Answer.Cached], nofun⟩
    have := ((sendTruthful_iff header_wf (by decide) cut).mp h ho).1
    rw [he] at this
    cases this
  · have ha : sendAnswers header late = [⟨[0x51, 0, 0, 0, 9], [], some [5]⟩,
        ⟨[0x62, 0x65, 0x67, 0x69, 0], [5], some [5]⟩] := by
      have hfail : shares 5 late.writes = ([], Stream'.const .all) := shares_fail (by decide) rfl
      have hall : shares 5 (Stream'.const .all) = ([5], Stream'.const .all) := shares_all (by decide) rfl
      have hfirst : answer true [0x51, 0, 0, 0, 9] late.writes =
          (⟨[0x51, 0, 0, 0, 9], [], some [5]⟩, Stream'.const .all) := by
        rw [answer, if_pos rfl, show ([0x51, 0, 0, 0, 9] : List Octet).length = 5 from rfl, hfail, hall]
      rw [sendAnswers_header rfl, hlate, answers, hfirst, answers_all (by decide)]
      rfl
    have he : (sendPieces header late).2 = .whole := congrArg Prod.snd hlate
    have ho : Overlooked header late := by
      refine ⟨by rw [warmed_header rfl], ?_⟩
      rw [he, ha]
      exact ⟨nofun, by simp [Answer.Cached], by simp [Answer.Ok]⟩
    have := ((sendTruthful_iff header_wf (by decide) late).mp h ho).2
    rw [ha] at this
    cases (this _ List.mem_cons_self).1

end PgRouter.Wire
