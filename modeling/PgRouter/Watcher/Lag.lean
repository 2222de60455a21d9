import Mathlib.Data.UInt
import PgRouter.Watcher.Rounds

/-!
# The replication lag

A round publishes for every backend how far its position in the transaction log is behind that of the
master. The positions are `lag_t`, unsigned 64-bit integers. The position of the master goes through
`master_pos`, an `int`, so that it keeps its low 32 bits only, and comes back with its sign; and a
backend that is ahead of the master makes the difference wrap.

## What is proved

The lag of a backend is right just when the backend is not ahead of the master and the position of the
master survives the `int` (`lags_published_iff`), which is below `2^31`, and from `2^64 - 2^31` on
(`ofInt_toInt_iff`).
-/

namespace PgRouter.Watcher

/-- The position survives its way through `master_pos`. -/
def FitsInt (pos : Lag) : Prop := pos.toNat < 2 ^ 31 ∨ 2 ^ 64 - 2 ^ 31 ≤ pos.toNat

instance (pos : Lag) : Decidable (FitsInt pos) := inferInstanceAs (Decidable (_ ∨ _))

/-- What comes back from an `int`. -/
theorem toNat_ofInt_toInt (pos : Lag) : (ofInt (toInt pos)).toNat = ((pos.toNat : ℤ).bmod (2 ^ 32) % 2 ^ 64).toNat := by
  have hlt : ((pos.toNat : ℤ).bmod (2 ^ 32) % 2 ^ 64).toNat < 2 ^ 64 := by omega
  rw [ofInt, toInt, Int32.toInt_ofInt, UInt64.ofInt]
  exact UInt64.toNat_ofNat_of_lt' hlt

/-- The positions that come back are those below `2^31` and those from `2^64 - 2^31` on. -/
theorem ofInt_toInt_iff (pos : Lag) : ofInt (toInt pos) = pos ↔ FitsInt pos := by
  have hlt : pos.toNat < 2 ^ 64 := pos.toNat_lt
  rw [← UInt64.toNat_inj, toNat_ofInt_toInt, FitsInt, Int.bmod_def]
  split <;> omega

/-- How far `pos` is behind `master`. -/
def behind (master pos : Lag) : Lag := if pos ≤ master then master - pos else 0

/-- The difference that the watcher computes is right when the backend is not ahead of the master and
the position of the master survives, and when the backend is ahead just where the `int` is. -/
theorem lagOf_eq_behind_iff (master pos : Lag) :
    lagOf (toInt master) pos = behind master pos ↔
      (pos ≤ master ∧ FitsInt master) ∨ (master < pos ∧ ofInt (toInt master) = pos) := by
  unfold lagOf behind
  by_cases h : pos ≤ master
  · rw [if_pos h, UInt64.sub_left_inj, ofInt_toInt_iff]
    simp [h, UInt64.not_lt.mpr h]
  · have hlt : master < pos := UInt64.not_le.mp h
    rw [if_neg h, sub_eq_zero]
    simp [h, hlt]

/-- The round publishes what it has found of the backend with index `i`: the table has kept its size,
and the backend has not been configured anew. -/
def Publishes (w : Watch) (c : Context) (i : ℕ) : Prop :=
  c.backends.length = w.context.backends.length ∧
    ∃ b b', w.context.backends[i]? = some b ∧ c.backends[i]? = some b' ∧ b.serial = b'.serial

/-- Only the backend with index `m` of the `n` backends reports as a master that is up. -/
structure OnlyMaster (f : Findings) (n m : ℕ) : Prop where
  /-- It is in the table. -/
  lt : m < n
  /-- It is up and tells that it is a master. -/
  master : (f.probe m).IsMaster
  /-- No other one is and does. -/
  other : ∀ i < n, i ≠ m → ¬ (f.probe i).IsMaster

/-- What is published of a backend: the findings, and its lag behind what the checks leave in `master_pos`. -/
theorem entry_published {w : Watch} {c : Context} {i : ℕ} (hp : Publishes w c i) (f : Findings) :
    ∃ (h : Health) (b : Backend), (refresh w.context w.health)[i]? = some h ∧ c.backends[i]? = some b ∧
      (w.publishTo f c).backends[i]? = some { b with
        status := (f.probe i).verdict
        role := (f.probe i).told.getD h.role
        lag := lagOf (w.masterPos f) (f.probe i).position } := by
  obtain ⟨hlen, b, b', hb, hb', hserial⟩ := hp
  have hlt : i < (refresh w.context w.health).length := by
    rw [length_refresh]
    exact (List.getElem?_eq_some_iff.mp hb).1
  have hh := List.getElem?_eq_getElem hlt
  have hfound : ((refresh w.context w.health)[i].found (f.probe i)).serial = b'.serial :=
    (refresh_serial hh hb).trans hserial
  refine ⟨_, b', hh, hb', ?_⟩
  unfold Watch.publishTo publish
  dsimp only
  rw [checkBackends_fst, if_neg (by simpa using hlen), List.getElem?_zipWith, hb', List.getElem?_mapIdx, hh]
  simp only [Option.map_some, Nat.zero_add, publishEntry]
  rw [if_neg (not_not.mpr hfound)]
  rfl

/-- The lag that is published. -/
theorem lag_published {w : Watch} {f : Findings} {c : Context} {m i : ℕ}
    (hm : OnlyMaster f w.context.backends.length m) (hp : Publishes w c i) :
    (w.publishTo f c).backends[i]?.map Backend.lag =
      some (lagOf (toInt (f.probe m).position) (f.probe i).position) := by
  have hmaster : w.masterPos f = toInt (f.probe m).position := by
    rw [Watch.masterPos, checkBackends_snd (m := m) (by simpa using hm.lt) (by simpa using hm.master)
      (by simpa using hm.other),
      Nat.zero_add]
  obtain ⟨h, b, -, -, hentry⟩ := entry_published hp f
  rw [hentry, hmaster, Option.map_some]

/-- **The lags that a round publishes.** In a round in which only one backend reports as a master that
is up, the lag of every backend that is up is how far it is behind the master, just when none is ahead
of the master, and the position of the master survives the `int`. (A backend that is ahead by just
what the `int` has changed is right by accident.) -/
theorem lags_published_iff (w : Watch) (f : Findings) (c : Context) (m : ℕ)
    (hm : OnlyMaster f w.context.backends.length m) :
    (∀ i, Publishes w c i → (f.probe i).verdict = .ok →
      (w.publishTo f c).backends[i]?.map Backend.lag = some (behind (f.probe m).position (f.probe i).position)) ↔
    ∀ i, Publishes w c i → (f.probe i).verdict = .ok →
      ((f.probe i).position ≤ (f.probe m).position ∧ FitsInt (f.probe m).position) ∨
      ((f.probe m).position < (f.probe i).position ∧
        ofInt (toInt (f.probe m).position) = (f.probe i).position) := by
  refine forall_congr' fun i => forall_congr' fun hp => forall_congr' fun _ => ?_
  rw [lag_published hm hp, Option.some_inj, lagOf_eq_behind_iff]

/-- Two backends, before the first round. -/
def twoBackends : Watch :=
  let backend : Backend :=
    { Backend.zero with serial := 1, port := 5432, status := .starting, weight := 1, threshold := 100 }
  ⟨{ Context.zero with healthTimeout := 10, backends := [backend, backend] }, []⟩

/-- The first is the master and the second is a slave, with their positions. -/
def masterFirst (master slave : CString) : Findings where
  probe := fun i => if i = 0 then .answers [0x66] master else .answers [0x74] slave
  masterPos := 0

theorem onlyMaster_masterFirst {master : CString} (h : (xlog master 0).1 = 0) (slave : CString) :
    OnlyMaster (masterFirst master slave) 2 0 where
  lt := by decide
  master := by simp [masterFirst, Probe.answers, Probe.IsMaster, Probe.verdict, Probe.told, Reply.single, h]
  other := by
    intro i _ hne
    simp [masterFirst, Probe.answers, Probe.IsMaster, Probe.told, Reply.single, hne]

/-- The slave at `0/1` is one behind the master at `0/2`. -/
theorem lags_published_one : ((twoBackends.publishTo (masterFirst [0x30, 0x2f, 0x32] [0x30, 0x2f, 0x31])
    twoBackends.context).backends[1]?).map Backend.lag = some 1 := by
  refine ((lags_published_iff twoBackends (masterFirst [0x30, 0x2f, 0x32] [0x30, 0x2f, 0x31]) twoBackends.context 0
    (onlyMaster_masterFirst (by decide +kernel) _)).mpr ?_ 1 ⟨rfl, _, _, rfl, rfl, rfl⟩ (by decide +kernel)).trans ?_
  · intro i hp _
    obtain ⟨-, b, -, hb, -, -⟩ := hp
    have hi : i < 2 := (List.getElem?_eq_some_iff.mp hb).1
    refine .inl ?_
    match i, hi with
    | 0, _ => decide +kernel
    | 1, _ => decide +kernel
  · decide +kernel

/-- A slave that is where the master is, at `8/0`, is published to be almost `2^64` octets behind. -/
theorem not_lags_published :
    ¬ ∀ (w : Watch) (f : Findings) (c : Context) (m : ℕ), OnlyMaster f w.context.backends.length m →
      ∀ i, Publishes w c i → (f.probe i).verdict = .ok →
        (w.publishTo f c).backends[i]?.map Backend.lag = some (behind (f.probe m).position (f.probe i).position) := by
  intro hall
  have h := hall twoBackends (masterFirst [0x38, 0x2f, 0x30] [0x38, 0x2f, 0x30]) twoBackends.context 0
    (onlyMaster_masterFirst (by decide +kernel) _) 1 ⟨rfl, _, _, rfl, rfl, rfl⟩ (by decide +kernel)
  exact absurd h (by decide +kernel)

end PgRouter.Watcher
