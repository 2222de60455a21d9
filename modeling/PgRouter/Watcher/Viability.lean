import PgRouter.Watcher.Rounds
import PgRouter.Worker.DetermineBackends

/-!
# The writer among failing masters

The watcher publishes a role with every check, and a backend that fails its check keeps the role it
last told. So masters that have failed stay in the table beside those that have taken their place.
`determine_backends` makes the last master of the table the writer, and does not look at its status.

## What is proved

After any number of rounds in which the backends answer anything at all, the role of a backend is the
one it last told and its status is what the last check found (`Tracks`). So the writer is a master
that is up just when the last backend of the table whose last word was that it is a master is up, or
when the weights of the backends that are viable as readers come to `0`, as an `int`, in which case there
is no writer either (`writer_viable_after_iff`).
-/

namespace PgRouter.Watcher

open Worker

/-- A backend as the start-up leaves it. -/
structure Started (b : Backend) : Prop where
  /-- It has been configured once. -/
  serial : b.serial = 1
  /-- Its role is not known. -/
  role : b.role = .unknown
  /-- It has not been checked. -/
  status : b.status = .starting
  /-- The weight is an `int`, and one that is negative is not accepted. -/
  weight : 0 ≤ b.weight ∧ b.weight < 2 ^ 31

/-- The role that the backend with index `i` has last told. -/
def roleAfter (rounds : List Findings) (i : ℕ) : BackendRole :=
  rounds.foldl (fun role f => (f.probe i).told.getD role) .unknown

/-- What the last check of the backend with index `i` has found. -/
def statusAfter (rounds : List Findings) (i : ℕ) : BackendStatus :=
  rounds.foldl (fun _ f => (f.probe i).verdict) .starting

/-- A backend with what it has told and what the checks have found. -/
def tracked (rounds : List Findings) (lag : ℕ → Lag) (i : ℕ) (b : Backend) : Backend :=
  { b with role := roleAfter rounds i, status := statusAfter rounds i, lag := lag i }

/-- The table says what the backends have told and what the checks have found. -/
structure Tracks (c : Context) (rounds : List Findings) (w : Watch) : Prop where
  /-- The cache is in step. -/
  inStep : InStep w.context w.health
  /-- The backends are the same. -/
  backends : ∃ lag, w.context.backends = c.backends.mapIdx (tracked rounds lag)

theorem start_tracks {c : Context} (hc : ∀ b ∈ c.backends, Started b) : Tracks c [] ⟨c, []⟩ where
  inStep := ⟨fun b hb => by rw [(hc b hb).serial]; decide, fun _ i _ _ hh => by simp at hh⟩
  backends := by
    refine ⟨fun i => (c.backends[i]?.map Backend.lag).getD 0, List.ext_getElem? fun i => ?_⟩
    rw [List.getElem?_mapIdx]
    cases hb : c.backends[i]? with
    | none => rfl
    | some b =>
      have h := hc b (List.mem_of_getElem? hb)
      simp [tracked, roleAfter, statusAfter, ← h.role, ← h.status, hb]

/-- A round enters what it finds. -/
theorem Tracks.round {c : Context} {rounds : List Findings} {w : Watch} (h : Tracks c rounds w) (f : Findings) :
    Tracks c (rounds ++ [f]) (w.round f) := by
  obtain ⟨lag, hb⟩ := h.backends
  refine ⟨h.inStep.round f, fun i => lagOf (w.masterPos f) (f.probe i).position, ?_⟩
  rw [Watch.round_backends h.inStep, hb, List.mapIdx_mapIdx]
  refine congrArg (fun g => c.backends.mapIdx g) (funext fun i => funext fun b => ?_)
  simp [tracked, published, roleAfter, statusAfter]

/-- After every number of rounds the table says what the backends have told and what the checks have
found. -/
theorem watch_tracks {c : Context} (hc : ∀ b ∈ c.backends, Started b) (rounds : List Findings) :
    Tracks c rounds (watch c rounds) := by
  induction rounds using List.reverseRecOn with
  | nil => exact start_tracks hc
  | append_singleton rounds f ih =>
    rw [watch, List.foldl_append]
    exact ih.round f

/-- **The writer after any rounds.** Whenever `determine_backends` returns `0`, the writer is a master
that is up, just when the last backend of the table whose last word was that it is a master has
passed its last check, or the weights of the viable backends, added up in an `int`, come to `0`. -/
theorem writer_viable_after_iff {c : Context} (hc : ∀ b ∈ c.backends, Started b) (rounds : List Findings) :
    WriterViable (watch c rounds).context ↔
      viableWeight (watch c rounds).context = 0 ∨
        ∃ i < c.backends.length, roleAfter rounds i = .master ∧ statusAfter rounds i = .ok ∧
          ∀ j < c.backends.length, i < j → roleAfter rounds j ≠ .master := by
  obtain ⟨lag, hb⟩ := (watch_tracks hc rounds).backends
  have hw : ∀ b ∈ (watch c rounds).context.backends, 0 ≤ b.weight ∧ b.weight < 2 ^ 31 := by
    intro b hmem
    rw [hb] at hmem
    obtain ⟨i, hi, rfl⟩ := List.mem_mapIdx.mp hmem
    exact (hc c.backends[i] (List.getElem_mem hi)).weight
  rw [writerViable_iff hw, hb]
  have hget : ∀ j, (c.backends.mapIdx (tracked rounds lag))[j]? = c.backends[j]?.map (tracked rounds lag j) :=
    fun j => List.getElem?_mapIdx
  refine or_congr_right ⟨?_, ?_⟩
  · rintro ⟨i, b, hlast, hok⟩
    obtain ⟨b₀, hb₀, rfl⟩ := Option.map_eq_some_iff.mp ((hget i).symm.trans hlast.getElem?)
    refine ⟨i, (List.getElem?_eq_some_iff.mp hb₀).1, hlast.master, hok, fun j hj hij => ?_⟩
    refine hlast.last j (tracked rounds lag j c.backends[j]) hij ?_
    rw [hget, List.getElem?_eq_getElem hj, Option.map_some]
  · rintro ⟨i, hi, hmaster, hok, hlast⟩
    refine ⟨i, tracked rounds lag i c.backends[i], ⟨?_, hmaster, fun j b hij hb' => ?_⟩, hok⟩
    · rw [hget, List.getElem?_eq_getElem hi, Option.map_some]
    · obtain ⟨b₀, hb₀, rfl⟩ := Option.map_eq_some_iff.mp ((hget j).symm.trans hb')
      exact hlast j (List.getElem?_eq_some_iff.mp hb₀).1 hij

/-- Three backends. -/
def threeBackends : Context :=
  let backend : Backend :=
    { Backend.zero with serial := 1, port := 5432, status := .starting, weight := 1, threshold := 100 }
  { Context.zero with healthTimeout := 10, backends := [backend, backend, backend] }

/-- The first backend is the master, and the others are slaves. -/
def allUp : Findings where
  probe := fun i => Probe.answers (if i = 0 then [0x66] else [0x74]) [0x30, 0x2f, 0x31]
  masterPos := 0

/-- The second backend is the master, and the others are slaves. -/
def secondMaster : Findings where
  probe := fun i => Probe.answers (if i = 1 then [0x66] else [0x74]) [0x30, 0x2f, 0x31]
  masterPos := 0

/-- The second backend has failed, and the first has been promoted. -/
def promoted : Findings where
  probe := fun i => if i = 1 then .bad else .answers (if i = 0 then [0x66] else [0x74]) [0x30, 0x2f, 0x31]
  masterPos := 0

theorem threeBackends_started : ∀ b ∈ threeBackends.backends, Started b := by
  intro b hb
  obtain rfl : b = _ := by simpa [threeBackends] using hb
  exact ⟨rfl, rfl, rfl, by decide⟩

/-- While all are up the writer is the master. -/
theorem writer_viable_after_allUp : WriterViable (watch threeBackends [allUp]).context :=
  (writer_viable_after_iff threeBackends_started [allUp]).mpr (.inr ⟨0, by decide +kernel⟩)

/-- After the promotion it is the one that has failed. -/
theorem not_writer_viable_promoted :
    ¬ ∀ (c : Context) (rounds : List Findings), (∀ b ∈ c.backends, Started b) →
      WriterViable (watch c rounds).context := by
  intro hall
  have conn := pgrConnInit (.replicate 4 0)
  have h := hall threeBackends [secondMaster, promoted] threeBackends_started
  obtain ⟨j, b, hget, hj, -, hok⟩ := h conn conn _ _ 1 (Set.mem_uIcc.mpr (.inl (by decide +kernel))) rfl
  obtain rfl : 1 = j := Int.ofNat_inj.mp (congrArg Connection.index hj)
  have hb : (watch threeBackends [secondMaster, promoted]).context.backends[1]?.map Backend.status = some .failed := by
    decide +kernel
  rw [hget, Option.map_some, hok] at hb
  cases hb

end PgRouter.Watcher
