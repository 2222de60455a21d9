import PgRouter.Context
import PgRouter.Foundation.Lottery

/-!
# Choosing the backends of a session

`determine_backends` makes the master the writer, and draws the reader among the backends
that are *viable*: not the master, up, and not lagging too far behind. The first loop adds
up the weights of the viable backends, and keeps the running totals in a table in which a
backend that is not viable has `0`. A random number between `0` and the total, both
included, then picks the first backend whose entry is not below it.

## What is proved

The entry `0` keeps a backend from being picked by every number but `0`, which picks the
first backend of the table, whatever it is. So the reader is viable when the number is not
`0`, and when it is `0` only if the first backend happens to be viable
(`reader_viable_iff`), also where the total does not fit into an `int`, and wraps. The
writer is the last master of the table, whatever its status (`writerViable_iff`). If the
total fits, there are among the numbers from `1` to the total for every viable backend as
many that make it the reader as its weight says (`proportional`).
-/

namespace PgRouter.Worker

open Foundation

/-- The five assignments that point a connection to backend `b` with index `i`. -/
def pointTo (c : Context) (conn : Connection) (i : ℤ) (b : Backend) : Connection :=
  { conn with
    serial := b.serial
    index := i
    hostname := some b.hostname
    port := b.port
    timeout := c.healthTimeout * 1000 }

/-- What an `int` has of the number `n`. -/
def wrap (n : ℤ) : ℤ := n.bmod (2 ^ 32)

/-- The first loop of `determine_backends`, from index `i` on: `cumulative`, the entries of
`weights`, and the writer. An entry that is not set is `0`, by `calloc`. -/
def weighBackends (c : Context) (i : ℤ) (cumulative : ℤ) (writer : Connection) :
    List Backend → ℤ × List ℤ × Connection
  | [] => (cumulative, [], writer)
  | b :: bs =>
    if b.role = .master then
      let (total, weights, writer) := weighBackends c (i + 1) cumulative (pointTo c writer i b) bs
      (total, 0 :: weights, writer)
    else if b.status = .ok ∧ b.lag < b.threshold then
      let cumulative := wrap (cumulative + b.weight)
      let (total, weights, writer) := weighBackends c (i + 1) cumulative writer bs
      (total, cumulative :: weights, writer)
    else
      let (total, weights, writer) := weighBackends c (i + 1) cumulative writer bs
      (total, 0 :: weights, writer)

/-- The second loop of `determine_backends`, from index `i` on. -/
def pickReader (c : Context) (r : ℤ) (i : ℤ) (reader : Connection) : List Backend → List ℤ → ℤ × Connection
  | b :: bs, w :: weights => if r ≤ w then (0, pointTo c reader i b) else pickReader c r (i + 1) reader bs weights
  | _, _ => (-1, reader)

/-- `determine_backends`, where `r` is what `pgr_rand(0, cumulative)` returns: the return
value, the reader and the writer. -/
def determineBackends (c : Context) (reader writer : Connection) (r : ℤ) : ℤ × Connection × Connection :=
  let (cumulative, weights, writer) := weighBackends c 0 0 writer c.backends
  if cumulative = 0 then (-1, reader, writer)
  else
    let (rc, reader) := pickReader c r 0 reader c.backends weights
    (rc, reader, writer)

/-! ### The loops as a choice by running totals -/

/-- A backend that may be read from. -/
def Viable (b : Backend) : Prop := b.role ≠ .master ∧ b.status = .ok ∧ b.lag < b.threshold

instance (b : Backend) : Decidable (Viable b) := inferInstanceAs (Decidable (_ ∧ _ ∧ _))

/-- What a backend adds to the running total, if it takes part in the choice. -/
def share (b : Backend) : Option ℤ := if Viable b then some b.weight else none

/-- The sum of the weights of the viable backends. -/
def viableSum (c : Context) : ℤ := totalWeight (c.backends.map share)

/-- What the first loop adds up: the sum, as an `int`. -/
def viableWeight (c : Context) : ℤ := wrap (viableSum c)

@[simp] theorem wrap_zero : wrap 0 = 0 := rfl

/-- An addend may wrap before. -/
theorem wrap_add_wrap (a b : ℤ) : wrap (wrap a + b) = wrap (a + b) := Int.bmod_add_bmod

/-- What fits does not wrap. -/
theorem wrap_of_fits {n : ℤ} (hlo : 0 ≤ n) (hhi : n < 2 ^ 31) : wrap n = n :=
  Int.bmod_eq_of_le (by omega) (by omega)

theorem share_eq_some {b : Backend} {w : ℤ} : share b = some w ↔ Viable b ∧ b.weight = w := by
  unfold share
  split <;> simp_all

/-- The first loop computes the total and the table, from the total `sum` on. -/
theorem weighBackends_eq (c : Context) (i sum : ℤ) (writer : Connection) (bs : List Backend) :
    (weighBackends c i (wrap sum) writer bs).1 = wrap (sum + totalWeight (bs.map share)) ∧
      (weighBackends c i (wrap sum) writer bs).2.1 = (runningTotals sum (bs.map share)).map wrap := by
  induction bs generalizing i sum writer with
  | nil => simp [weighBackends, runningTotals]
  | cons b bs ih =>
    unfold weighBackends
    by_cases hm : b.role = .master
    · have hs : share b = none := if_neg fun h => h.1 hm
      simp [hm, hs, ih, runningTotals]
    · by_cases hv : b.status = .ok ∧ b.lag < b.threshold
      · have hs : share b = some b.weight := if_pos ⟨hm, hv⟩
        simp [hm, hv, hs, wrap_add_wrap, ih, runningTotals, add_assoc]
      · have hs : share b = none := if_neg fun h => hv h.2
        simp [hm, hv, hs, ih, runningTotals]

/-- The table of the first loop. -/
def table (c : Context) : List ℤ := (runningTotals 0 (c.backends.map share)).map wrap

@[simp] theorem length_table (c : Context) : (table c).length = c.backends.length := by simp [table]

/-- The second loop takes the first entry that is not below `r`. -/
theorem pickReader_eq_zero_iff {c : Context} {r : ℤ} (i : ℤ) {reader reader' : Connection} {bs : List Backend}
    {weights : List ℤ} (hlen : weights.length = bs.length) :
    pickReader c r i reader bs weights = (0, reader') ↔
      ∃ j b, weights.findIdx? (fun t => r ≤ t) = some j ∧ bs[j]? = some b ∧
        reader' = pointTo c reader (i + j) b := by
  induction bs generalizing i weights with
  | nil =>
    obtain rfl := List.length_eq_zero_iff.mp hlen
    simp [pickReader]
  | cons b bs ih =>
    obtain ⟨w, weights, rfl⟩ := List.exists_cons_of_length_eq_add_one hlen
    have hlen' : weights.length = bs.length := by simpa using hlen
    by_cases hle : r ≤ w
    · simp [pickReader, List.findIdx?_cons, hle, eq_comm]
    · have hindex : ∀ j : ℕ, i + 1 + j = i + (j + 1 : ℕ) := by
        intro j
        omega
      rw [pickReader, if_neg hle, ih (i + 1) hlen', List.findIdx?_cons, if_neg (by simpa using hle)]
      constructor
      · rintro ⟨j, b', hj, hb', hr⟩
        exact ⟨j + 1, b', by rw [hj, Option.map_some], hb', by rw [hr, hindex]⟩
      · rintro ⟨j, b', hj, hb', hr⟩
        obtain ⟨j', hj', rfl⟩ := Option.map_eq_some_iff.mp hj
        exact ⟨j', b', hj', hb', by rw [hr, hindex]⟩

/-- `determine_backends` returns `0` when the total is not `0` and `r`
picks an entry of the table, and it points the reader to the backend of that entry. -/
theorem determineBackends_eq_zero_iff {c : Context} (reader writer : Connection) {reader' : Connection} {r : ℤ} :
    (∃ writer', determineBackends c reader writer r = (0, reader', writer')) ↔
      viableWeight c ≠ 0 ∧ ∃ j b, (table c).findIdx? (fun t => r ≤ t) = some j ∧
        c.backends[j]? = some b ∧ reader' = pointTo c reader j b := by
  obtain ⟨htotal, htable⟩ := weighBackends_eq c 0 0 writer c.backends
  rw [wrap_zero, zero_add] at htotal
  rw [wrap_zero] at htable
  have hpick : pickReader c r 0 reader c.backends _ = (0, reader') ↔ _ := pickReader_eq_zero_iff 0 (length_table c)
  simp only [zero_add] at hpick
  simp only [determineBackends, htotal, htable, ← table.eq_1, ← viableSum.eq_1, ← viableWeight.eq_1]
  by_cases h0 : viableWeight c = 0
  · simp [h0]
  · rw [if_neg h0, ← hpick]
    simp [h0, Prod.ext_iff]

/-- What holds of the weights of all backends holds of those that take part. -/
theorem forall_share {c : Context} {P : ℤ → Prop} (hw : ∀ b ∈ c.backends, P b.weight) :
    ∀ w, some w ∈ c.backends.map share → P w := by
  intro w hmem
  obtain ⟨b, hb, hs⟩ := List.mem_map.mp hmem
  rw [← (share_eq_some.mp hs).2]
  exact hw b hb

/-- `0` picks the first backend. -/
theorem determineBackends_zero {c : Context} (hw : ∀ b ∈ c.backends, 0 ≤ b.weight ∧ b.weight < 2 ^ 31)
    (hv : viableWeight c ≠ 0) (reader writer : Connection) :
    ∃ b, c.backends[0]? = some b ∧ ∀ reader',
      (∃ writer', determineBackends c reader writer 0 = (0, reader', writer')) ↔ reader' = pointTo c reader 0 b := by
  obtain ⟨b, bs, hbs⟩ : ∃ b bs, c.backends = b :: bs := by
    refine List.exists_cons_of_ne_nil fun hnil => hv ?_
    rw [viableWeight, viableSum, hnil, List.map_nil, totalWeight_nil, wrap_zero]
  have hweights : ∀ w, some w ∈ c.backends.map share → 0 ≤ wrap w :=
    forall_share (P := fun w => 0 ≤ wrap w) fun b hb => (wrap_of_fits (hw b hb).1 (hw b hb).2).symm ▸ (hw b hb).1
  have hfirst : (table c).findIdx? (fun t => 0 ≤ t) = some 0 :=
    findIdx?_nonpos wrap_zero hweights le_rfl (by simp [hbs])
  have hget : c.backends[0]? = some b := by rw [hbs]; rfl
  refine ⟨b, hget, fun reader' => ?_⟩
  rw [determineBackends_eq_zero_iff]
  constructor
  · rintro ⟨-, j, b', hj, hb', rfl⟩
    obtain rfl : 0 = j := Option.some.inj (hfirst.symm.trans hj)
    rw [Option.some.inj (hb'.symm.trans hget), Nat.cast_zero]
  · rintro rfl
    exact ⟨hv, 0, b, hfirst, hget, rfl⟩

/-! ### The writer -/

@[simp] theorem pointTo_pointTo (c : Context) (conn : Connection) (i j : ℤ) (b b' : Backend) :
    pointTo c (pointTo c conn i b) j b' = pointTo c conn j b' := rfl

/-- Backend `b` with index `i` is the last one of the table whose role is that of a master. -/
structure IsLastMaster (bs : List Backend) (i : ℕ) (b : Backend) : Prop where
  /-- It is in the table. -/
  getElem? : bs[i]? = some b
  /-- It is a master. -/
  master : b.role = .master
  /-- There is none behind it. -/
  last : ∀ (j : ℕ) (b' : Backend), i < j → bs[j]? = some b' → b'.role ≠ .master

theorem IsLastMaster.cons {bs : List Backend} {i : ℕ} {b : Backend} (h : IsLastMaster bs i b) (b₀ : Backend) :
    IsLastMaster (b₀ :: bs) (i + 1) b where
  getElem? := h.getElem?
  master := h.master
  last := by
    intro j b' hj hget
    obtain ⟨j, rfl⟩ := Nat.exists_eq_add_one_of_ne_zero (Nat.ne_zero_of_lt hj)
    exact h.last j b' (by omega) (by rwa [List.getElem?_cons_succ] at hget)

/-- A master with none behind it is the last one. -/
theorem isLastMaster_zero {bs : List Backend} {b : Backend} (hm : b.role = .master)
    (h : ∀ b ∈ bs, b.role ≠ .master) : IsLastMaster (b :: bs) 0 b where
  getElem? := rfl
  master := hm
  last := by
    intro j b' hj hget
    obtain ⟨j, rfl⟩ := Nat.exists_eq_add_one_of_ne_zero hj.ne'
    exact h b' (List.mem_of_getElem? (by rwa [List.getElem?_cons_succ] at hget))

/-- There is only one last master. -/
theorem IsLastMaster.unique {bs : List Backend} {i j : ℕ} {b b' : Backend} (h : IsLastMaster bs i b)
    (h' : IsLastMaster bs j b') : i = j := by
  rcases Nat.lt_trichotomy i j with hlt | heq | hgt
  · exact absurd h'.master (h.last j b' hlt h'.getElem?)
  · exact heq
  · exact absurd h.master (h'.last i b hgt h.getElem?)

/-- The first loop points the writer to the last master of the table, and leaves it alone where there
is none. -/
theorem weighBackends_writer (c : Context) (i cumulative : ℤ) (writer : Connection) (bs : List Backend) :
    (∃ (j : ℕ) (b : Backend), IsLastMaster bs j b ∧
      (weighBackends c i cumulative writer bs).2.2 = pointTo c writer (i + j) b) ∨
    ((∀ b ∈ bs, b.role ≠ .master) ∧ (weighBackends c i cumulative writer bs).2.2 = writer) := by
  induction bs generalizing i cumulative writer with
  | nil => exact .inr ⟨fun b hb => absurd hb List.not_mem_nil, rfl⟩
  | cons b bs ih =>
    have hindex : ∀ j : ℕ, i + 1 + (j : ℤ) = i + ((j + 1 : ℕ) : ℤ) := fun j => by omega
    by_cases hm : b.role = .master
    · have hw : (weighBackends c i cumulative writer (b :: bs)).2.2 =
          (weighBackends c (i + 1) cumulative (pointTo c writer i b) bs).2.2 := by simp [weighBackends, hm]
      rw [hw]
      rcases ih (i + 1) cumulative (pointTo c writer i b) with ⟨j, b', hlast, heq⟩ | ⟨hnone, heq⟩
      · rw [heq, pointTo_pointTo, hindex]
        exact .inl ⟨j + 1, b', hlast.cons b, rfl⟩
      · refine .inl ⟨0, b, isLastMaster_zero hm hnone, ?_⟩
        rw [heq, Nat.cast_zero, add_zero]
    · obtain ⟨cumulative', hw⟩ : ∃ cumulative', (weighBackends c i cumulative writer (b :: bs)).2.2 =
          (weighBackends c (i + 1) cumulative' writer bs).2.2 := by
        by_cases hv : b.status = .ok ∧ b.lag < b.threshold
        · exact ⟨wrap (cumulative + b.weight), by simp [weighBackends, hm, hv]⟩
        · exact ⟨cumulative, by simp [weighBackends, hm, hv]⟩
      rw [hw]
      rcases ih (i + 1) cumulative' writer with ⟨j, b', hlast, heq⟩ | ⟨hnone, heq⟩
      · rw [heq, hindex]
        exact .inl ⟨j + 1, b', hlast.cons b, rfl⟩
      · exact .inr ⟨List.forall_mem_cons.mpr ⟨hm, hnone⟩, heq⟩

/-- The second loop does not touch the writer. -/
theorem determineBackends_writer (c : Context) (reader writer : Connection) (r : ℤ) :
    (determineBackends c reader writer r).2.2 = (weighBackends c 0 0 writer c.backends).2.2 := by
  unfold determineBackends
  dsimp only
  split
  · rfl
  · rfl

/-- Whenever `determine_backends` returns `0`, for a number between `0` and the total, which is negative
if it has wrapped to that, the writer is a backend of the table that is up and a master. -/
def WriterViable (c : Context) : Prop :=
  ∀ (reader writer reader' writer' : Connection), ∀ r ∈ Set.uIcc 0 (viableWeight c),
    determineBackends c reader writer r = (0, reader', writer') →
    ∃ (j : ℕ) (b : Backend), c.backends[j]? = some b ∧ writer' = pointTo c writer j b ∧ b.role = .master ∧
      b.status = .ok

/-- The writer is viable just when the last master of the table is up, or the total is `0`. -/
theorem writerViable_iff {c : Context} (hw : ∀ b ∈ c.backends, 0 ≤ b.weight ∧ b.weight < 2 ^ 31) :
    WriterViable c ↔ viableWeight c = 0 ∨ ∃ i b, IsLastMaster c.backends i b ∧ b.status = .ok := by
  constructor
  · intro h
    by_cases hv : viableWeight c = 0
    · exact .inl hv
    have conn := pgrConnInit (.replicate 4 0)
    obtain ⟨b₀, -, hzero⟩ := determineBackends_zero hw hv conn conn
    obtain ⟨writer', hd⟩ := (hzero _).mpr rfl
    obtain ⟨j, b, hget, hj, hm, hok⟩ := h _ _ _ _ 0 Set.left_mem_uIcc hd
    have hwriter := determineBackends_writer c conn conn 0
    rw [hd] at hwriter
    rcases weighBackends_writer c 0 0 conn c.backends with ⟨i, b', hlast, heq⟩ | ⟨hnone, -⟩
    · -- the index of the connection says which backend it points to
      have hindex : (j : ℤ) = 0 + i := congrArg Connection.index (hj.symm.trans (hwriter.trans heq))
      obtain rfl : j = i := by omega
      obtain rfl := Option.some.inj (hlast.getElem?.symm.trans hget)
      exact .inr ⟨j, b', hlast, hok⟩
    · exact absurd hm (hnone b (List.mem_of_getElem? hget))
  · rintro (hv | ⟨i, b, hlast, hok⟩) reader writer reader' writer' r - hd
    · exact absurd hv ((determineBackends_eq_zero_iff reader writer).mp ⟨writer', hd⟩).1
    · have hwriter := determineBackends_writer c reader writer r
      rw [hd] at hwriter
      rcases weighBackends_writer c 0 0 writer c.backends with ⟨j, b', hlast', heq⟩ | ⟨hnone, -⟩
      · obtain rfl := hlast.unique hlast'
        obtain rfl := Option.some.inj (hlast.getElem?.symm.trans hlast'.getElem?)
        exact ⟨i, b, hlast.getElem?, by rw [← zero_add (i : ℤ), ← heq, ← hwriter], hlast.master, hok⟩
      · exact absurd hlast.master (hnone b (List.mem_of_getElem? hlast.getElem?))

/-! ### Viability of the reader -/

/-- Whenever `determine_backends` returns `0`, the reader is a viable backend of the table. -/
def ReaderViable (c : Context) (r : ℤ) : Prop :=
  ∀ reader writer reader' writer', determineBackends c reader writer r = (0, reader', writer') →
    ∃ (j : ℕ) (b : Backend), c.backends[j]? = some b ∧ reader' = pointTo c reader j b ∧ Viable b

/-- A number above `0` picks a viable backend, whatever the weights are. -/
theorem readerViable_of_pos {c : Context} {r : ℤ} (hr : 0 < r) : ReaderViable c r := by
  intro reader writer reader' writer' h
  obtain ⟨-, j, b, hj, hb, rfl⟩ := (determineBackends_eq_zero_iff _ _).mp ⟨writer', h⟩
  obtain ⟨w, hget⟩ := takes_part_of_findIdx? wrap_zero hr hj
  rw [List.getElem?_map, hb, Option.map_some, Option.some.injEq] at hget
  exact ⟨j, b, hb, rfl, (share_eq_some.mp hget).1⟩

/-- `0` picks the first backend. -/
theorem readerViable_zero_iff {c : Context} (hw : ∀ b ∈ c.backends, 0 ≤ b.weight ∧ b.weight < 2 ^ 31) :
    ReaderViable c 0 ↔ viableWeight c = 0 ∨ ∀ b ∈ c.backends.head?, Viable b := by
  by_cases hv : viableWeight c = 0
  · refine ⟨fun _ => .inl hv, fun _ reader writer reader' writer' h => ?_⟩
    exact absurd hv ((determineBackends_eq_zero_iff _ _).mp ⟨writer', h⟩).1
  · have conn := pgrConnInit (.replicate 4 0)
    obtain ⟨b, hget, hzero⟩ := determineBackends_zero hw hv conn conn
    have hhead : c.backends.head? = some b := by rw [List.head?_eq_getElem?, hget]
    constructor
    · intro h
      obtain ⟨writer', hd⟩ := (hzero _).mpr rfl
      obtain ⟨j, b', hb', hr, hvb⟩ := h _ _ _ _ hd
      obtain rfl : 0 = j := Int.ofNat_inj.mp (congrArg Connection.index hr)
      rw [hhead, ← hget, hb']
      exact .inr fun x hx => Option.some.inj hx ▸ hvb
    · intro h reader writer reader' writer' hd
      obtain ⟨b', hget', hfirst⟩ := determineBackends_zero hw hv reader writer
      obtain rfl := Option.some.inj (hget'.symm.trans hget)
      exact ⟨0, b', hget, (hfirst reader').mp ⟨writer', hd⟩, (h.resolve_left hv) b' hhead⟩

/-- **The reader is viable** for every number that may be drawn but `0`, and for `0` just when
the first backend is viable, or the total of the weights is `0`. -/
theorem reader_viable_iff {c : Context} (hw : ∀ b ∈ c.backends, 0 ≤ b.weight ∧ b.weight < 2 ^ 31) {r : ℤ}
    (hr : 0 ≤ r) :
    ReaderViable c r ↔ r ≠ 0 ∨ viableWeight c = 0 ∨ ∀ b ∈ c.backends.head?, Viable b := by
  rcases hr.eq_or_lt with rfl | hpos
  · rw [readerViable_zero_iff hw]
    simp
  · exact ⟨fun _ => .inl hpos.ne', fun _ => readerViable_of_pos hpos⟩

/-- A master, and a slave that is viable. -/
def masterAndSlave : Context :=
  let backend : Backend := { Backend.zero with serial := 1, port := 5432, weight := 1, threshold := 8192 }
  { Context.zero with
    healthTimeout := 10
    backends :=
      [{ backend with hostname := "10.0.0.1".toUTF8.toList, role := .master },
        { backend with hostname := "10.0.0.2".toUTF8.toList, role := .slave }] }

/-- Among them every number but `0` picks the slave. -/
theorem reader_viable_masterAndSlave : ReaderViable masterAndSlave 1 :=
  (reader_viable_iff (by decide) (by decide)).mpr (by decide)

/-- `0` picks the master. -/
theorem not_reader_viable_masterAndSlave :
    ¬ ∀ (c : Context) (r : ℤ), (∀ b ∈ c.backends, 0 ≤ b.weight) → viableSum c ≤ 2 ^ 31 - 1 → 0 ≤ r →
      r ≤ viableSum c → ReaderViable c r := by
  intro hall
  obtain ⟨j, b, hb, hr, hv⟩ := hall masterAndSlave 0 (by decide) (by decide) le_rfl (by decide)
    (pgrConnInit (.replicate 4 0)) (pgrConnInit (.replicate 4 0)) _ _ rfl
  obtain rfl : 0 = j := Int.ofNat_inj.mp (congrArg Connection.index hr)
  obtain rfl := Option.some.inj hb
  exact hv.1 rfl

/-! ### Every backend has its share of the numbers -/

/-- The numbers that make the backend with index `i` the reader. -/
def picks (c : Context) (reader writer : Connection) (i : ℕ) : Finset ℤ :=
  (upTo (viableWeight c)).filter fun r =>
    (determineBackends c reader writer r).1 = 0 ∧ (determineBackends c reader writer r).2.1.index = i

/-- A number makes the backend the reader whose entry it picks. -/
theorem determineBackends_index_iff {c : Context} (hv : viableWeight c ≠ 0) (reader writer : Connection) (r : ℤ)
    (i : ℕ) :
    ((determineBackends c reader writer r).1 = 0 ∧ (determineBackends c reader writer r).2.1.index = i) ↔
      (table c).findIdx? (fun t => r ≤ t) = some i := by
  constructor
  · rintro ⟨hrc, hindex⟩
    have hd : determineBackends c reader writer r =
        (0, (determineBackends c reader writer r).2.1, (determineBackends c reader writer r).2.2) := by rw [← hrc]
    obtain ⟨-, j, b, hj, -, hr⟩ := (determineBackends_eq_zero_iff reader writer).mp ⟨_, hd⟩
    rw [hr] at hindex
    obtain rfl : j = i := Int.ofNat_inj.mp hindex
    exact hj
  · intro hi
    -- the table has an entry for every backend
    have hlen : i < c.backends.length := by
      obtain ⟨hlt, -⟩ := List.findIdx?_eq_some_iff_getElem.mp hi
      simpa using hlt
    obtain ⟨writer', hd⟩ := (determineBackends_eq_zero_iff reader writer).mpr
      ⟨hv, i, c.backends[i], hi, List.getElem?_eq_getElem hlen, rfl⟩
    rw [hd]
    exact ⟨rfl, rfl⟩

/-- Where the total fits, the table has the totals. -/
theorem table_eq {c : Context} (hw : ∀ b ∈ c.backends, 0 ≤ b.weight) (hfits : viableSum c < 2 ^ 31) :
    table c = runningTotals 0 (c.backends.map share) :=
  map_runningTotals (forall_share (P := (0 ≤ ·)) hw) fun _ hlo hhi => wrap_of_fits hlo (hhi.trans_lt hfits)

/-- **The choice is proportional** if the total fits into an `int`: no number from `1` to the total fails, and a
backend is the reader for as many of them as its weight says if it is viable, and for none otherwise. -/
theorem proportional {c : Context} (hw : ∀ b ∈ c.backends, 0 ≤ b.weight) (hfits : viableSum c < 2 ^ 31)
    (reader writer : Connection) :
    (∀ r, 1 ≤ r → r ≤ viableWeight c → (determineBackends c reader writer r).1 = 0) ∧
      ∀ (i : ℕ) (b : Backend), c.backends[i]? = some b →
        ((picks c reader writer i).card : ℤ) = if Viable b then b.weight else 0 := by
  have hnonneg : ∀ w, some w ∈ c.backends.map share → 0 ≤ w := forall_share (P := (0 ≤ ·)) hw
  have htotal : viableWeight c = totalWeight (c.backends.map share) :=
    wrap_of_fits (totalWeight_nonneg hnonneg) hfits
  constructor
  · intro r hr hle
    have hv : viableWeight c ≠ 0 := by omega
    obtain ⟨i, hi⟩ := exists_findIdx?_runningTotals hnonneg le_rfl (show 0 < r by omega)
      (by rw [zero_add, ← htotal]; exact hle)
    rw [← table_eq hw hfits] at hi
    exact ((determineBackends_index_iff hv reader writer r i).mpr hi).1
  · intro i b hget
    have hshare : (share b).getD 0 = if Viable b then b.weight else 0 := by
      unfold share
      split
      · rfl
      · rfl
    have hentry : (c.backends.map share)[i]? = some (share b) := by rw [List.getElem?_map, hget, Option.map_some]
    have hpicks : picks c reader writer i = (upTo (totalWeight (c.backends.map share))).filter fun r =>
        (runningTotals 0 (c.backends.map share)).findIdx? (fun t => r ≤ t) = some i := by
      rw [← htotal, ← table_eq hw hfits]
      refine Finset.filter_congr fun r hr => determineBackends_index_iff ?_ reader writer r i
      have := mem_upTo.mp hr
      omega
    rw [hpicks, ← hshare]
    exact card_findIdx?_runningTotals hnonneg hentry

/-- The slave has one number, and the master none. -/
theorem proportional_masterAndSlave :
    (∀ r, 1 ≤ r → r ≤ viableWeight masterAndSlave →
      (determineBackends masterAndSlave (pgrConnInit (.replicate 4 0)) (pgrConnInit (.replicate 4 0)) r).1 = 0) ∧
      ∀ (i : ℕ) (b : Backend), masterAndSlave.backends[i]? = some b →
        ((picks masterAndSlave (pgrConnInit (.replicate 4 0)) (pgrConnInit (.replicate 4 0)) i).card : ℤ) =
          if Viable b then b.weight else 0 :=
  proportional (by decide) (by decide) _ _

end PgRouter.Worker
