import Mathlib.Algebra.Order.Ring.Int
import Mathlib.Data.List.Infix
import Mathlib.Data.Stream.Init
import Mathlib.Logic.Function.Basic
import Mathlib.Order.MinMax

/-!
# The kernel's side of the router's I/O

Everything `msg.c` and `worker.c` know of the outside world comes from `read`,
`write` and `tmpfile`. What these calls may do is not determined by the program:
a `read` returns any non-empty part of what has arrived, up to the size asked
for, or fails; a `write` takes any part of what it is given, or fails. The model
keeps these choices in three streams, one choice consumed by each call, so that
the program is a function and "for every chunking of reads and every sequence of
write results" is a quantifier over the streams.

The peers are represented by the octets they send: `unread fd` is what descriptor
`fd` will still deliver before end of file. `sent` is the trace of all octets
accepted by all descriptors, in order.
-/

namespace PgRouter.Wire

/-- A `uint8_t`. -/
abbrev Octet := UInt8

/-- A property of all octets can be computed. -/
theorem forall_octet {P : Octet → Prop} (h : ∀ i : Fin 256, P (.ofFin i)) (c : Octet) : P c := h c.toFin

/-- A descriptor, a C `int`: `MBUF_NO_FD` is `-1`. -/
abbrev Fd := ℤ

/-- What one `read` comes to. -/
inductive ReadChoice where
  /-- It returns `-1`. -/
  | fail
  /-- It delivers at most `n` octets, and at least one if there is one. -/
  | upto (n : ℕ)
  deriving DecidableEq

/-- What one `write` comes to. -/
inductive WriteChoice where
  /-- It returns `-1`. -/
  | fail
  /-- It accepts the first `n` octets, or all if there are fewer. -/
  | upto (n : ℕ)
  /-- It accepts all octets. -/
  | all
  deriving DecidableEq

/-- The kernel: what it still has to deliver, what it has accepted, and how it will
answer the calls to come. -/
structure Kernel where
  /-- What each descriptor delivers before end of file. -/
  unread : Fd → List Octet
  /-- What has been accepted, and by which descriptor. -/
  sent : List (Fd × Octet)
  /-- The outcomes of the `read` calls to come. -/
  reads : Stream' ReadChoice
  /-- The outcomes of the `write` calls to come. -/
  writes : Stream' WriteChoice
  /-- Whether the `tmpfile` calls to come succeed. -/
  tmpfiles : Stream' Bool
  /-- The outcomes of the `read` calls to come on temporary files. -/
  fileReads : Stream' ReadChoice

/-! ### The calls -/

/-- `read(fd, …, n)`: `none` is `-1`, and `some []` is `0`. -/
def Kernel.read (k : Kernel) (fd : Fd) (n : ℕ) : Option (List Octet) × Kernel :=
  match k.reads.head with
  | .fail => (none, { k with reads := k.reads.tail })
  | .upto c =>
    let got := (k.unread fd).take (min n (max 1 c))
    (some got, { k with
      reads := k.reads.tail
      unread := Function.update k.unread fd ((k.unread fd).drop got.length) })

/-- One `write` of `data`, to whatever it is written: `none` is `-1`, otherwise the
part of `data` that is accepted. -/
def Kernel.accept (k : Kernel) (data : List Octet) : Option (List Octet) × Kernel :=
  match k.writes.head with
  | .fail => (none, { k with writes := k.writes.tail })
  | .upto n => (some (data.take n), { k with writes := k.writes.tail })
  | .all => (some data, { k with writes := k.writes.tail })

/-- The octets `d` have been accepted by `fd`. -/
def Kernel.emit (k : Kernel) (fd : Fd) (d : List Octet) : Kernel :=
  { k with sent := k.sent ++ d.map (Prod.mk fd) }

/-- `write(fd, data, |data|)`. -/
def Kernel.write (k : Kernel) (fd : Fd) (data : List Octet) : Option (List Octet) × Kernel :=
  match k.accept data with
  | (none, k') => (none, k')
  | (some got, k') => (some got, k'.emit fd got)

/-- `tmpfile()`: whether it succeeds. -/
def Kernel.tmpfile (k : Kernel) : Bool × Kernel := (k.tmpfiles.head, { k with tmpfiles := k.tmpfiles.tail })

/-- What descriptor `fd` has been given. -/
def Kernel.delivered (k : Kernel) (fd : Fd) : List Octet :=
  (k.sent.filter fun p => p.1 = fd).map Prod.snd

/-! ### What the environment may be assumed to do -/

/-- Every `write` accepts all it is given. -/
def Kernel.WritesAll (k : Kernel) : Prop := ∀ i, k.writes.get i = .all

/-- No `read` of a descriptor fails. -/
def Kernel.ReadsOk (k : Kernel) : Prop := ∀ i, k.reads.get i ≠ .fail

/-- No `tmpfile` fails, and no `read` of a temporary file. -/
def Kernel.DiskOk (k : Kernel) : Prop :=
  (∀ i, k.tmpfiles.get i = true) ∧ ∀ i, k.fileReads.get i ≠ .fail

/-- A kernel with `unread` to deliver in which every call does as much as it can. -/
def Kernel.eager (unread : Fd → List Octet) : Kernel where
  unread := unread
  sent := []
  reads := Stream'.const (.upto (2 ^ 16))
  writes := Stream'.const .all
  tmpfiles := Stream'.const true
  fileReads := Stream'.const (.upto (2 ^ 16))

theorem Kernel.eager_writesAll (unread : Fd → List Octet) : (Kernel.eager unread).WritesAll := fun _ => rfl

theorem Kernel.eager_readsOk (unread : Fd → List Octet) : (Kernel.eager unread).ReadsOk := fun _ => nofun

theorem Kernel.eager_diskOk (unread : Fd → List Octet) : (Kernel.eager unread).DiskOk :=
  ⟨fun _ => rfl, fun _ => nofun⟩

/-- `k'` is `k` some calls later: octets have been delivered and accepted, and
choices consumed. -/
structure Kernel.Follows (k k' : Kernel) : Prop where
  /-- What is left to deliver is the end of what was left. -/
  unread : ∀ fd, k'.unread fd <:+ k.unread fd
  /-- What has been accepted stays accepted. -/
  sent : k.sent <+: k'.sent
  /-- The choices for `read` are consumed in order. -/
  reads : ∃ i, k'.reads = k.reads.drop i
  /-- The choices for `write` are consumed in order. -/
  writes : ∃ i, k'.writes = k.writes.drop i
  /-- The choices for `tmpfile` are consumed in order. -/
  tmpfiles : ∃ i, k'.tmpfiles = k.tmpfiles.drop i
  /-- The choices for `read` of temporary files are consumed in order. -/
  fileReads : ∃ i, k'.fileReads = k.fileReads.drop i

theorem Kernel.Follows.refl (k : Kernel) : k.Follows k :=
  ⟨fun _ => List.suffix_rfl, List.prefix_rfl, ⟨0, rfl⟩, ⟨0, rfl⟩, ⟨0, rfl⟩,
    ⟨0, rfl⟩⟩

theorem Kernel.Follows.trans {k k' k'' : Kernel} (h : k.Follows k') (h' : k'.Follows k'') :
    k.Follows k'' := by
  obtain ⟨i, hi⟩ := h.reads
  obtain ⟨i', hi'⟩ := h'.reads
  obtain ⟨j, hj⟩ := h.writes
  obtain ⟨j', hj'⟩ := h'.writes
  obtain ⟨n, hn⟩ := h.tmpfiles
  obtain ⟨n', hn'⟩ := h'.tmpfiles
  obtain ⟨r, hr⟩ := h.fileReads
  obtain ⟨r', hr'⟩ := h'.fileReads
  refine ⟨fun fd => (h'.unread fd).trans (h.unread fd), h.sent.trans h'.sent, ⟨i + i', ?_⟩,
    ⟨j + j', ?_⟩, ⟨n + n', ?_⟩, ⟨r + r', ?_⟩⟩
  · rw [hi', hi, Stream'.drop_drop]
  · rw [hj', hj, Stream'.drop_drop]
  · rw [hn', hn, Stream'.drop_drop]
  · rw [hr', hr, Stream'.drop_drop]

theorem Kernel.Follows.writesAll {k k' : Kernel} (h : k.Follows k') (hw : k.WritesAll) : k'.WritesAll := by
  intro i
  obtain ⟨n, hn⟩ := h.writes
  rw [hn, Stream'.get_drop]
  exact hw _

theorem Kernel.Follows.readsOk {k k' : Kernel} (h : k.Follows k') (hr : k.ReadsOk) : k'.ReadsOk := by
  intro i
  obtain ⟨n, hn⟩ := h.reads
  rw [hn, Stream'.get_drop]
  exact hr _

theorem Kernel.Follows.diskOk {k k' : Kernel} (h : k.Follows k') (hd : k.DiskOk) : k'.DiskOk := by
  obtain ⟨n, hn⟩ := h.tmpfiles
  obtain ⟨r, hr⟩ := h.fileReads
  refine ⟨fun i => ?_, fun i => ?_⟩
  · rw [hn, Stream'.get_drop]
    exact hd.1 _
  · rw [hr, Stream'.get_drop]
    exact hd.2 _

/-! ### What a call does -/

/-- Descriptor `fd` has delivered `d`, at most `n` octets, and nothing else has happened. -/
structure Kernel.Got (k : Kernel) (fd : Fd) (n : ℕ) (d : List Octet) (k' : Kernel) : Prop where
  /-- The octets delivered are the first of those that were left. -/
  split : d ++ k'.unread fd = k.unread fd
  /-- No more than was asked for. -/
  le : d.length ≤ n
  /-- The other descriptors have delivered nothing. -/
  other : ∀ fd' ≠ fd, k'.unread fd' = k.unread fd'
  /-- Nothing has been accepted. -/
  sent : k'.sent = k.sent
  /-- It is later. -/
  follows : k.Follows k'

/-- A `read` delivers what it returns, and nothing when it fails. -/
theorem Kernel.read_got {k k' : Kernel} {fd : Fd} {n : ℕ} {r : Option (List Octet)}
    (h : k.read fd n = (r, k')) : k.Got fd n (r.getD []) k' := by
  unfold Kernel.read at h
  split at h
  · cases h
    exact ⟨rfl, Nat.zero_le _, fun _ _ => rfl, rfl,
      fun _ => List.suffix_rfl, List.prefix_rfl, ⟨1, rfl⟩, ⟨0, rfl⟩, ⟨0, rfl⟩, ⟨0, rfl⟩⟩
  · rename_i c hc
    obtain ⟨rfl, rfl⟩ := Prod.mk.inj h
    have hsplit : ∀ m, ((k.unread fd).take m) ++ (k.unread fd).drop ((k.unread fd).take m).length =
        k.unread fd := by
      intro m
      rw [List.length_take]
      rcases le_total m (k.unread fd).length with hm | hm
      · rw [min_eq_left hm, List.take_append_drop]
      · rw [min_eq_right hm, List.take_of_length_le hm, List.drop_length, List.append_nil]
    refine ⟨?_, ?_, fun fd' hfd => ?_, rfl, fun fd' => ?_, List.prefix_rfl, ⟨1, rfl⟩, ⟨0, rfl⟩,
      ⟨0, rfl⟩, ⟨0, rfl⟩⟩
    · simp only [Option.getD_some, Function.update_self]
      exact hsplit _
    · simp only [Option.getD_some, List.length_take]; omega
    · simp [Function.update_of_ne hfd]
    · by_cases hfd : fd' = fd
      · subst hfd
        simp only [Function.update_self]
        exact List.drop_suffix _ _
      · simp only [Function.update_of_ne hfd]
        exact List.suffix_rfl

/-- A `read` that delivers something leaves less. -/
theorem Kernel.Got.unread_lt {k k' : Kernel} {fd : Fd} {n : ℕ} {d : List Octet} (h : k.Got fd n d k')
    (hd : d ≠ []) : (k'.unread fd).length < (k.unread fd).length := by
  have := List.length_pos_iff.mpr hd
  rw [← h.split, List.length_append]
  omega

/-- A `read` returns `0` only at end of file, or when nothing was asked for. -/
theorem Kernel.read_eof {k k' : Kernel} {fd : Fd} {n : ℕ} (h : k.read fd n = (some [], k')) :
    n = 0 ∨ k.unread fd = [] := by
  unfold Kernel.read at h
  split at h
  · cases h
  · have := (Option.some.inj (Prod.mk.inj h).1)
    rcases List.take_eq_nil_iff.mp this with h0 | h0
    · exact .inl (by omega)
    · exact .inr h0

/-- No `read` fails where none is to fail. -/
theorem Kernel.read_ne_none {k k' : Kernel} (hr : k.ReadsOk) {fd : Fd} {n : ℕ} :
    k.read fd n ≠ (none, k') := by
  intro h
  unfold Kernel.read at h
  split at h
  · exact hr 0 ‹_›
  · cases h

/-- One `write` has come to be, and nothing else has happened. -/
structure Kernel.Asked (k k' : Kernel) : Prop where
  /-- Nothing has been delivered. -/
  unread : k'.unread = k.unread
  /-- Nothing has been added to the trace. -/
  sent : k'.sent = k.sent
  /-- It is later. -/
  follows : k.Follows k'

theorem Kernel.Asked.refl (k : Kernel) : k.Asked k := ⟨rfl, rfl, .refl k⟩

theorem Kernel.Asked.trans {k k' k'' : Kernel} (h : k.Asked k') (h' : k'.Asked k'') : k.Asked k'' :=
  ⟨h'.unread.trans h.unread, h'.sent.trans h.sent, h.follows.trans h'.follows⟩

/-- A `write` accepts the beginning of what it is given, and nothing when it fails. -/
theorem Kernel.accept_asked {k k' : Kernel} {data : List Octet} {r : Option (List Octet)}
    (h : k.accept data = (r, k')) : r.getD [] <+: data ∧ k.Asked k' := by
  have hk : k.Asked { k with writes := k.writes.tail } :=
    ⟨rfl, rfl, fun _ => List.suffix_rfl, List.prefix_rfl, ⟨0, rfl⟩, ⟨1, rfl⟩, ⟨0, rfl⟩, ⟨0, rfl⟩⟩
  unfold Kernel.accept at h
  split at h <;> obtain ⟨rfl, rfl⟩ := Prod.mk.inj h
  · exact ⟨List.nil_prefix, hk⟩
  · exact ⟨List.take_prefix _ _, hk⟩
  · exact ⟨List.prefix_rfl, hk⟩

/-- Descriptor `fd` has accepted `w`, and nothing else has happened. -/
structure Kernel.Wrote (k : Kernel) (fd : Fd) (w : List Octet) (k' : Kernel) : Prop where
  /-- Nothing has been delivered. -/
  unread : k'.unread = k.unread
  /-- `w` has been added to the trace. -/
  sent : k'.sent = k.sent ++ w.map (Prod.mk fd)
  /-- It is later. -/
  follows : k.Follows k'

theorem Kernel.Wrote.trans {k k' k'' : Kernel} {fd : Fd} {w w' : List Octet} (h : k.Wrote fd w k')
    (h' : k'.Wrote fd w' k'') : k.Wrote fd (w ++ w') k'' :=
  ⟨h'.unread.trans h.unread, by rw [h'.sent, h.sent, List.map_append, List.append_assoc],
    h.follows.trans h'.follows⟩

theorem Kernel.Asked.wrote {k k' : Kernel} (h : k.Asked k') (fd : Fd) : k.Wrote fd [] k' :=
  ⟨h.unread, by simp [h.sent], h.follows⟩

theorem Kernel.emit_wrote (k : Kernel) (fd : Fd) (w : List Octet) : k.Wrote fd w (k.emit fd w) :=
  ⟨rfl, rfl, fun _ => List.suffix_rfl, List.prefix_append _ _, ⟨0, rfl⟩, ⟨0, rfl⟩, ⟨0, rfl⟩, ⟨0, rfl⟩⟩

/-- A `write` writes the beginning of what it is given, and nothing when it fails. -/
theorem Kernel.write_wrote {k k' : Kernel} {fd : Fd} {data : List Octet} {r : Option (List Octet)}
    (h : k.write fd data = (r, k')) : r.getD [] <+: data ∧ k.Wrote fd (r.getD []) k' := by
  unfold Kernel.write at h
  split at h <;> rename_i h' <;> obtain ⟨rfl, rfl⟩ := Prod.mk.inj h <;>
    obtain ⟨hp, ha⟩ := k.accept_asked h'
  · exact ⟨hp, ha.wrote fd⟩
  · exact ⟨hp, (ha.wrote fd).trans (Kernel.emit_wrote _ _ _)⟩

/-- Where every `write` accepts all, so does this one. -/
theorem Kernel.accept_of_writesAll {k : Kernel} (hw : k.WritesAll) (data : List Octet) :
    k.accept data = (some data, { k with writes := k.writes.tail }) := by
  have h0 : k.writes.head = .all := hw 0
  simp [Kernel.accept, h0]

/-- `tmpfile` touches no descriptor. -/
theorem Kernel.tmpfile_asked (k : Kernel) : k.Asked k.tmpfile.2 :=
  ⟨rfl, rfl, fun _ => List.suffix_rfl, List.prefix_rfl, ⟨0, rfl⟩, ⟨0, rfl⟩, ⟨1, rfl⟩, ⟨0, rfl⟩⟩

end PgRouter.Wire
