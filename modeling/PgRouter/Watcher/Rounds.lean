import PgRouter.Context

/-!
# The watcher

`do_watcher` of `watcher.c` checks the health of the backends in rounds. A round has three parts.
Under the read lock of the context it refreshes its cache of the backends, `BACKENDS`; without a
lock it connects to each of them, asks for its role and its position in the transaction log, and
enters the findings in the cache; under the write lock of the context it publishes them.

## The model

Each part is a function, so that what other threads do to the context between the parts can stand
between the functions; in `Watch.round` they do nothing. What a backend answers is
a `Probe`. The local variable `master_pos` is not initialised: what a round finds in it is a
parameter. The strings of the cache, which are handed to libpq and the log, are left out, and so are
the branches that abort the process for want of memory.
-/

namespace PgRouter.Watcher

open Wire

/-! ### Positions in the transaction log -/

/-- A `char` as an `int`: it is signed. -/
def charInt (c : Octet) : ℤ := c.toInt8.toInt

/-- The body of the two loops of `xlog`: a digit is added to a number. The tests join with `||` what
should be joined with `&&`, and the first is passed by every character. -/
def xlogDigit (n : Lag) (p : Octet) : Option Lag :=
  if charInt 0x30 ≤ charInt p ∨ charInt p ≤ charInt 0x39 then
    some (n * 0xf + UInt64.ofInt (charInt p - charInt 0x30))
  else if charInt 0x61 ≤ charInt p ∨ charInt p ≤ charInt 0x66 then
    some (n * 0xf + UInt64.ofInt (charInt p - charInt 0x61))
  else if charInt 0x41 ≤ charInt p ∨ charInt p ≤ charInt 0x46 then
    some (n * 0xf + UInt64.ofInt (charInt p - charInt 0x41))
  else none

/-- The first loop of `xlog`: the number before the first `/`, and the string from there on. -/
def xlogHi (hi : Lag) : CString → Option (Lag × CString)
  | [] => some (hi, [])
  | p :: s =>
    if p = 0x2f then some (hi, p :: s)
    else
      match xlogDigit hi p with
      | none => none
      | some hi => xlogHi hi s

/-- The second loop of `xlog`: the number that is the rest of the string. -/
def xlogLo (lo : Lag) : CString → Option Lag
  | [] => some lo
  | p :: s =>
    match xlogDigit lo p with
    | none => none
    | some lo => xlogLo lo s

/-- `xlog`: the return value, and `*lag`, which is left as it is unless that is `0`. -/
def xlog (s : CString) (lag : Lag) : ℤ × Lag :=
  match xlogHi 0 s with
  | none => (1, lag)
  | some (_, []) => (1, lag)
  | some (hi, _ :: s) =>
    match xlogLo 0 s with
    | none => (1, lag)
    | some lo => (0, hi <<< 32 ||| lo)

/-! ### The check of a backend -/

/-- `HEALTH`, the cached health information of a backend. -/
structure Health where
  /-- `BACKEND.serial`; used to detect changes. -/
  serial : ℤ
  /-- Health check connection timeout, in seconds. -/
  timeout : ℤ
  /-- Is the backend accepting connections? -/
  ok : BackendStatus
  /-- Is the backend the write master or a slave? -/
  role : BackendRole
  /-- Position in the transaction log. -/
  pos : Lag
  deriving DecidableEq

/-- A `HEALTH` that `calloc` has allocated. -/
def Health.zero : Health := ⟨0, 0, .ok, .unknown, 0⟩

/-- The result of a query, a `PGresult`. -/
structure Reply where
  /-- Its status is `PGRES_TUPLES_OK`. -/
  tuplesOk : Bool
  /-- `PQntuples`. -/
  ntuples : ℕ
  /-- `PQnfields`. -/
  nfields : ℕ
  /-- `PQgetvalue(result, 0, 0)`. -/
  value : CString

/-- The three tests of a result: it has exactly one row and exactly one column. -/
def Reply.single (r : Reply) : Option CString :=
  if r.tuplesOk ∧ r.ntuples = 1 ∧ r.nfields = 1 then some r.value else none

/-- What the watcher finds at a backend. -/
inductive Probe where
  /-- `CONNECTION_BAD`. -/
  | bad
  /-- `CONNECTION_OK`, the result of `SELECT pg_is_in_recovery()`, and that of the query for the
  position, which depends on the role. -/
  | ok (recovery location : Reply)

/-- A backend that is up, with its answers to both queries. -/
def Probe.answers (recovery location : CString) : Probe := .ok ⟨true, 1, 1, recovery⟩ ⟨true, 1, 1, location⟩

/-- The conversion of a `lag_t` to `int`: it keeps the low 32 bits. -/
def toInt (pos : Lag) : Int32 := Int32.ofInt pos.toNat

/-- The conversion of an `int` to `lag_t`: a negative number goes to the other end. -/
def ofInt (masterPos : Int32) : Lag := UInt64.ofInt masterPos.toInt

/-- The body of the loop that gathers the health data: the cache entry of the backend, and
`master_pos`. -/
def check (h : Health) (probe : Probe) (masterPos : Int32) : Health × Int32 :=
  let h := { h with ok := .failed, pos := 0 }
  match probe with
  | .bad => (h, masterPos)
  | .ok recovery location =>
    match recovery.single with
    | none => ({ h with ok := .halfup }, masterPos)
    | some val =>
      let h := { h with role := if val.head? = some 0x74 then .slave else .master }
      match location.single with
      | none => ({ h with ok := .halfup }, masterPos)
      | some val =>
        let (rc, pos) := xlog val h.pos
        let h := { h with pos := pos }
        if rc ≠ 0 then (h, masterPos)
        else
          let masterPos := if h.role = .master then toInt h.pos else masterPos
          ({ h with ok := .ok }, masterPos)

/-! ### A round -/

/-- The refresh of a cache entry. -/
def refreshEntry (c : Context) (b : Backend) (h : Health) : Health :=
  if b.serial ≠ h.serial then { h with timeout := c.healthTimeout, serial := b.serial, role := b.role } else h

/-- The first part of a round: the cache is allocated anew when the number of backends has changed,
and refreshed. -/
def refresh (c : Context) (hs : List Health) : List Health :=
  let hs := if c.backends.length ≠ hs.length then List.replicate c.backends.length .zero else hs
  List.zipWith (refreshEntry c) c.backends hs

/-- The second part of a round, from index `i` on: every backend is checked. -/
def checkBackends (probe : ℕ → Probe) (i : ℕ) (masterPos : Int32) : List Health → List Health × Int32
  | [] => ([], masterPos)
  | h :: hs =>
    let (h, masterPos) := check h (probe i) masterPos
    let (hs, masterPos) := checkBackends probe (i + 1) masterPos hs
    (h :: hs, masterPos)

/-- `master_pos - BACKENDS[i].pos`, which is computed in `lag_t`. -/
def lagOf (masterPos : Int32) (pos : Lag) : Lag := ofInt masterPos - pos

/-- The publication of a cache entry. It is skipped if the backend has been configured anew. -/
def publishEntry (masterPos : Int32) (h : Health) (b : Backend) : Backend :=
  if h.serial ≠ b.serial then b else { b with status := h.ok, role := h.role, lag := lagOf masterPos h.pos }

/-- The third part of a round: the findings are published, unless the number of backends has
changed. -/
def publish (masterPos : Int32) (hs : List Health) (c : Context) : Context :=
  if c.backends.length ≠ hs.length then c
  else
    { c with
      okBackends := (hs.zip c.backends).countP fun (h, b) => h.serial = b.serial ∧ h.ok = .ok
      backends := List.zipWith (publishEntry masterPos) hs c.backends }

/-- The context, and the cache of the watcher. -/
structure Watch where
  /-- The context. -/
  context : Context
  /-- `BACKENDS`. -/
  health : List Health

/-- What a round meets with: what the backends answer, and what is in `master_pos`. -/
structure Findings where
  /-- The answers of the backends. -/
  probe : ℕ → Probe
  /-- `master_pos` before anything is assigned to it. -/
  masterPos : Int32

/-- A round that publishes its findings in `c`, which is what other threads have made of the
context meanwhile. -/
def Watch.publishTo (w : Watch) (f : Findings) (c : Context) : Context :=
  let (hs, masterPos) := checkBackends f.probe 0 f.masterPos (refresh w.context w.health)
  publish masterPos hs c

/-- A round. -/
def Watch.round (w : Watch) (f : Findings) : Watch :=
  let hs := refresh w.context w.health
  let (hs, masterPos) := checkBackends f.probe 0 f.masterPos hs
  { context := publish masterPos hs w.context, health := hs }

/-- The watcher of a context after a number of rounds. -/
def watch (c : Context) (rounds : List Findings) : Watch := rounds.foldl Watch.round ⟨c, []⟩

/-! ### What a check finds -/

/-- The role that a backend tells. -/
def Probe.told : Probe → Option BackendRole
  | .bad => none
  | .ok recovery _ => recovery.single.map fun val => if val.head? = some 0x74 then .slave else .master

/-- The status that a check finds. -/
def Probe.verdict : Probe → BackendStatus
  | .bad => .failed
  | .ok recovery location =>
    match recovery.single, location.single with
    | some _, some val => if (xlog val 0).1 ≠ 0 then .failed else .ok
    | _, _ => .halfup

/-- The position that a check finds. -/
def Probe.position : Probe → Lag
  | .bad => 0
  | .ok recovery location =>
    match recovery.single, location.single with
    | some _, some val => (xlog val 0).2
    | _, _ => 0

/-- The cache entry after a check. -/
def Health.found (h : Health) (p : Probe) : Health :=
  { h with ok := p.verdict, role := p.told.getD h.role, pos := p.position }

/-- The backend is up, and tells that it is a master. -/
def Probe.IsMaster (p : Probe) : Prop := p.verdict = .ok ∧ p.told = some .master

instance (p : Probe) : Decidable p.IsMaster := inferInstanceAs (Decidable (_ ∧ _))

/-- **What a check does**: the role is kept when the backend does not tell it, and `master_pos` is
assigned when the backend is up and tells that it is a master. -/
theorem check_eq (h : Health) (p : Probe) (masterPos : Int32) :
    check h p masterPos = (h.found p, if p.IsMaster then toInt p.position else masterPos) := by
  cases p with
  | bad => rfl
  | ok recovery location =>
    cases hr : recovery.single with
    | none => simp [check, Health.found, Probe.IsMaster, Probe.told, Probe.verdict, Probe.position, hr]
    | some val =>
      cases hl : location.single with
      | none => simp [check, Health.found, Probe.IsMaster, Probe.told, Probe.verdict, Probe.position, hr, hl]
      | some val' =>
        by_cases hx : (xlog val' 0).1 = 0
        · simp [check, Health.found, Probe.IsMaster, Probe.told, Probe.verdict, Probe.position, hr, hl, hx]
        · simp [check, Health.found, Probe.IsMaster, Probe.told, Probe.verdict, Probe.position, hr, hl, hx]

/-- The second part of a round enters in the cache what the checks find. -/
theorem checkBackends_fst (probe : ℕ → Probe) (i : ℕ) (masterPos : Int32) (hs : List Health) :
    (checkBackends probe i masterPos hs).1 = hs.mapIdx fun j h => h.found (probe (i + j)) := by
  induction hs generalizing i masterPos with
  | nil => rfl
  | cons h hs ih =>
    rw [checkBackends, check_eq, List.mapIdx_cons]
    simp only [ih, Nat.add_zero, Nat.add_assoc, Nat.add_comm 1]

/-- It leaves `master_pos` alone where no backend is up as a master. -/
theorem checkBackends_snd_of_none {probe : ℕ → Probe} {i : ℕ} {masterPos : Int32} {hs : List Health}
    (h : ∀ j < hs.length, ¬ (probe (i + j)).IsMaster) : (checkBackends probe i masterPos hs).2 = masterPos := by
  induction hs generalizing i masterPos with
  | nil => rfl
  | cons _ hs ih =>
    rw [checkBackends, check_eq, if_neg (by simpa using h 0 (by simp))]
    refine ih fun j hj => ?_
    rw [Nat.add_assoc, Nat.add_comm 1]
    exact h (j + 1) (by simpa using hj)

/-- Where one is, it assigns its position. -/
theorem checkBackends_snd {probe : ℕ → Probe} {i m : ℕ} {masterPos : Int32} {hs : List Health} (hm : m < hs.length)
    (hmaster : (probe (i + m)).IsMaster) (hother : ∀ j < hs.length, j ≠ m → ¬ (probe (i + j)).IsMaster) :
    (checkBackends probe i masterPos hs).2 = toInt (probe (i + m)).position := by
  induction hs generalizing i m masterPos with
  | nil => cases hm
  | cons _ hs ih =>
    have hnext : ∀ j, i + 1 + j = i + (j + 1) := fun j => by omega
    rw [checkBackends, check_eq]
    cases m with
    | zero =>
      rw [if_pos (by simpa using hmaster)]
      refine checkBackends_snd_of_none fun j hj => ?_
      rw [hnext]
      exact hother (j + 1) (by simpa using hj) (by omega)
    | succ m =>
      rw [← hnext m] at hmaster ⊢
      refine ih (by simpa using hm) hmaster fun j hj hne => ?_
      rw [hnext]
      exact hother (j + 1) (by simpa using hj) (by omega)

/-! ### What a round does -/

@[simp] theorem length_refresh (c : Context) (hs : List Health) : (refresh c hs).length = c.backends.length := by
  unfold refresh
  split <;> simp_all

/-- The cache is in step with the context: an entry with the serial number of the backend has its
role. A serial number of `0` is that of an entry that has not been filled. -/
structure InStep (c : Context) (hs : List Health) : Prop where
  /-- A backend has been configured. -/
  serial : ∀ b ∈ c.backends, b.serial ≠ 0
  /-- The roles agree. -/
  role : c.backends.length = hs.length → ∀ (i : ℕ) (h : Health) (b : Backend),
    hs[i]? = some h → c.backends[i]? = some b → h.serial = b.serial → h.role = b.role

/-- Every entry of a refreshed cache has the serial number of the backend. -/
theorem refresh_serial {c : Context} {hs : List Health} {i : ℕ} {h : Health} {b : Backend}
    (hh : (refresh c hs)[i]? = some h) (hb : c.backends[i]? = some b) : h.serial = b.serial := by
  obtain ⟨b', h₀, hb', -, rfl⟩ := List.getElem?_zipWith_eq_some.mp hh
  obtain rfl := Option.some.inj (hb'.symm.trans hb)
  unfold refreshEntry
  split
  · rfl
  · rename_i hne
    exact (not_not.mp hne).symm

/-- Every entry of a refreshed cache has the serial number and the role of the backend. -/
theorem InStep.refresh {c : Context} {hs : List Health} (hin : InStep c hs) {i : ℕ} {h : Health} {b : Backend}
    (hh : (refresh c hs)[i]? = some h) (hb : c.backends[i]? = some b) : h.serial = b.serial ∧ h.role = b.role := by
  have hentry : ∀ h₀ : Health, (h₀.serial = b.serial → h₀.role = b.role) → refreshEntry c b h₀ = h →
      h.serial = b.serial ∧ h.role = b.role := by
    rintro h₀ hrole rfl
    unfold refreshEntry
    split
    · exact ⟨rfl, rfl⟩
    · rename_i hne
      have hserial : h₀.serial = b.serial := (not_not.mp hne).symm
      exact ⟨hserial, hrole hserial⟩
  unfold Watcher.refresh at hh
  dsimp only at hh
  split at hh
  · obtain ⟨b', h₀, hb', hh₀, hf⟩ := List.getElem?_zipWith_eq_some.mp hh
    obtain rfl := Option.some.inj (hb'.symm.trans hb)
    obtain rfl : h₀ = .zero := List.eq_of_mem_replicate (List.mem_of_getElem? hh₀)
    exact hentry _ (fun h0 => absurd h0.symm (hin.serial b' (List.mem_of_getElem? hb))) hf
  · rename_i hlen
    obtain ⟨b', h₀, hb', hh₀, hf⟩ := List.getElem?_zipWith_eq_some.mp hh
    obtain rfl := Option.some.inj (hb'.symm.trans hb)
    exact hentry h₀ (hin.role (not_not.mp hlen) i h₀ b' hh₀ hb) hf

/-- What a round publishes of a backend. -/
def published (masterPos : Int32) (p : Probe) (b : Backend) : Backend :=
  { b with status := p.verdict, role := p.told.getD b.role, lag := lagOf masterPos p.position }

theorem publishEntry_found {masterPos : Int32} {p : Probe} {h : Health} {b : Backend} (hserial : h.serial = b.serial)
    (hrole : h.role = b.role) : publishEntry masterPos (h.found p) b = published masterPos p b := by
  have hfound : (h.found p).serial = b.serial := hserial
  rw [publishEntry, if_neg (not_not.mpr hfound), published, ← hrole]
  rfl

/-- What is in `master_pos` when a round publishes. -/
def Watch.masterPos (w : Watch) (f : Findings) : Int32 :=
  (checkBackends f.probe 0 f.masterPos (refresh w.context w.health)).2

/-- **What a round does**: every backend is published with what the check has found. -/
theorem Watch.round_backends {w : Watch} (hin : InStep w.context w.health) (f : Findings) :
    (w.round f).context.backends = w.context.backends.mapIdx fun i b => published (w.masterPos f) (f.probe i) b := by
  have hhealth := checkBackends_fst f.probe 0 f.masterPos (Watcher.refresh w.context w.health)
  unfold Watch.round publish
  dsimp only
  rw [hhealth, if_neg (by simp)]
  refine List.ext_getElem? fun i => ?_
  dsimp only
  rw [List.getElem?_zipWith, List.getElem?_mapIdx, List.getElem?_mapIdx]
  cases hb : w.context.backends[i]? with
  | none => simp
  | some b =>
    have hi : i < (Watcher.refresh w.context w.health).length := by
      rw [length_refresh]
      exact (List.getElem?_eq_some_iff.mp hb).1
    have hh := List.getElem?_eq_getElem hi
    obtain ⟨hserial, hrole⟩ := hin.refresh hh hb
    rw [hh]
    simp only [Option.map_some, Nat.zero_add, publishEntry_found hserial hrole, Watch.masterPos]

/-- A round keeps the cache in step. -/
theorem InStep.round {w : Watch} (hin : InStep w.context w.health) (f : Findings) :
    InStep (w.round f).context (w.round f).health := by
  have hbackends := Watch.round_backends hin f
  constructor
  · intro b hb
    rw [hbackends] at hb
    obtain ⟨i, hi, rfl⟩ := List.mem_mapIdx.mp hb
    exact hin.serial w.context.backends[i] (List.getElem_mem hi)
  · intro _ i h b hh hb hserial
    rw [hbackends, List.getElem?_mapIdx] at hb
    have hhealth : (w.round f).health = _ :=
      checkBackends_fst f.probe 0 f.masterPos (Watcher.refresh w.context w.health)
    rw [hhealth, List.getElem?_mapIdx] at hh
    obtain ⟨b₀, hb₀, rfl⟩ := Option.map_eq_some_iff.mp hb
    obtain ⟨h₀, hh₀, rfl⟩ := Option.map_eq_some_iff.mp hh
    have hrole := (hin.refresh hh₀ hb₀).2
    simp only [Health.found, published, hrole, Nat.zero_add]

end PgRouter.Watcher
