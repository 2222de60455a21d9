import PgRouter.Foundation.Locks
import PgRouter.Login.Connection
import PgRouter.Watcher.Consistency
import PgRouter.Worker.DetermineBackends

/-!
# The programs of the threads

The router has a supervisor, a watcher, a monitor and any number of workers. They share the context and
take its lock and the locks of its backends.

## The model

Each of the loops that the threads run for ever is a program for one round. The programs take and release
locks, and read and write what is shared, in the order of the source, on each of their branches. What is
decided outside is a parameter: the text of the configuration, what the backends answer, for which names
a client is looked up, whether it is accepted, and the random number. What is done between without a
lock, and without touching what is shared, is left out. The bound of a loop over the backends is read
once, for no other thread can change it while the lock of the context is held.

A function of the source that takes locks has the name here that the function without them has elsewhere.

## What is proved

A program that is not interfered with does what that function does (`determineBackends_run`,
`doWatcher_run`), and the monitor tells what is in the context (`Monitor.handleClient_run`).
-/

namespace PgRouter.Threads

open Config Foundation Text Watcher Wire

/-- A lock. -/
inductive Lock where
  /-- `c->lock`. -/
  | context
  /-- `c->backends[i].lock`. -/
  | backend (i : ℕ)
  deriving DecidableEq

/-- What the threads share. -/
structure Shared where
  /-- `CONTEXT`. -/
  context : Context
  /-- `c->fe_conns`. -/
  feConns : ℤ
  /-- `BACKENDS`, which only the watcher touches. -/
  health : List Health

/-- The program of a thread. -/
abbrev Program := Foundation.Program Shared Lock

/-- `rdlock`. -/
def rdlock (l : Lock) : Program Unit := .acquire .read l (.done ())

/-- `wrlock`. -/
def wrlock (l : Lock) : Program Unit := .acquire .write l (.done ())

/-- `unlock`. -/
def unlock (l : Lock) : Program Unit := .release l (.done ())

/-- Looks at what is shared. -/
def look : Program Shared := .get .done

/-- Changes what is shared. -/
def change (f : Shared → Shared) : Program Unit := .modify f (.done ())

/-! ### The workers -/

/-- `pgr_auth_find`. -/
def pgrAuthFind (username : CString) : Program (Option CString) := do
  rdlock .context
  let s ← look
  let md5 := PgRouter.pgrAuthFind s.context username
  unlock .context
  return md5

/-- The first loop of `determine_backends`, for `n` backends from index `i` on. -/
def weighBackends (i : ℕ) (cumulative : ℤ) (writer : Connection) : ℕ → Program (ℤ × List ℤ × Connection)
  | 0 => return (cumulative, [], writer)
  | n + 1 => do
    rdlock (.backend i)
    let s ← look
    let (cumulative, weights, writer) :=
      Worker.weighBackends s.context i cumulative writer s.context.backends[i]?.toList
    unlock (.backend i)
    let (cumulative, weights', writer) ← weighBackends (i + 1) cumulative writer n
    return (cumulative, weights ++ weights', writer)

/-- The second loop of `determine_backends`, from index `i` on, and what follows it. -/
def pickReader (r : ℤ) (i : ℕ) (reader : Connection) : List ℤ → Program (ℤ × Connection)
  | [] => do
    unlock .context
    return (-1, reader)
  | w :: weights =>
    if r ≤ w then do
      rdlock (.backend i)
      let s ← look
      let reader := (s.context.backends[i]?.map (Worker.pointTo s.context reader i)).getD reader
      unlock (.backend i)
      unlock .context
      return (0, reader)
    else pickReader r (i + 1) reader weights

/-- `determine_backends`. -/
def determineBackends (reader writer : Connection) (r : ℤ) : Program (ℤ × Connection × Connection) := do
  rdlock .context
  let s ← look
  let (cumulative, weights, writer) ← weighBackends 0 0 writer s.context.backends.length
  if cumulative = 0 then
    unlock .context
    return (-1, reader, writer)
  else
    let (rc, reader) ← pickReader r 0 reader weights
    return (rc, reader, writer)

/-- What is decided outside in a client's connection. -/
structure Visit where
  /-- The user names in the parameters that the client sends. -/
  usernames : List CString
  /-- `pgr_conn_accept` returns `0`. -/
  accepted : Bool
  /-- The reader before it is chosen. -/
  reader : Connection
  /-- The writer before it is chosen. -/
  writer : Connection
  /-- What `pgr_rand` returns. -/
  r : ℤ

/-- `pgr_conn_accept`: the names are looked up. -/
def pgrConnAccept : List CString → Program Unit
  | [] => return
  | username :: usernames => do
    let _ ← pgrAuthFind username
    pgrConnAccept usernames

/-- `handle_client` of `worker.c`. Behind the choice of the backends it takes no locks. -/
def Worker.handleClient (v : Visit) : Program Unit := do
  pgrConnAccept v.usernames
  if v.accepted then
    let _ ← determineBackends v.reader v.writer v.r
    return
  else return

/-- A round of `do_worker`, for one client. -/
def doWorker (v : Visit) : Program Unit := do
  wrlock .context
  change fun s => { s with feConns := s.feConns + 1 }
  unlock .context
  Worker.handleClient v
  wrlock .context
  change fun s => { s with feConns := s.feConns - 1 }
  unlock .context

/-! ### The monitor -/

/-- What the monitor tells of. -/
structure Report where
  /-- `ok_backends`. -/
  okBackends : ℤ
  /-- `num_backends`. -/
  numBackends : ℕ
  /-- `workers`. -/
  workers : ℤ
  /-- `fe_conns`. -/
  feConns : ℤ
  /-- The backends, of which it tells endpoint, role and status, and the lag and its threshold if they
  are up. -/
  backends : List Backend

/-- The loop of `handle_client` of `monitor.c`, for `n` backends from index `i` on. -/
def reportBackends (i : ℕ) : ℕ → Program (List Backend)
  | 0 => return []
  | n + 1 => do
    rdlock (.backend i)
    let s ← look
    unlock (.backend i)
    let bs ← reportBackends (i + 1) n
    return s.context.backends[i]?.toList ++ bs

/-- `handle_client` of `monitor.c`. -/
def Monitor.handleClient : Program Report := do
  rdlock .context
  let s ← look
  let bs ← reportBackends 0 s.context.backends.length
  unlock .context
  return ⟨s.context.okBackends, s.context.backends.length, s.context.workers, s.feConns, bs⟩

/-! ### The watcher -/

/-- The refresh of the cache entry with index `i`. -/
def refreshAt (i : ℕ) (s : Shared) : Shared :=
  match s.context.backends[i]?, s.health[i]? with
  | some b, some h => { s with health := s.health.set i (refreshEntry s.context b h) }
  | _, _ => s

/-- The loop that refreshes the cache, for `n` backends from index `i` on. -/
def refreshLoop (i : ℕ) : ℕ → Program Unit
  | 0 => return
  | n + 1 => do
    rdlock (.backend i)
    change (refreshAt i)
    unlock (.backend i)
    refreshLoop (i + 1) n

/-- The backend with index `i` has been configured anew. -/
def Shared.SerialMismatch (s : Shared) (i : ℕ) : Prop :=
  s.health[i]?.map Health.serial ≠ s.context.backends[i]?.map Backend.serial

instance (s : Shared) (i : ℕ) : Decidable (s.SerialMismatch i) := inferInstanceAs (Decidable (_ ≠ _))

/-- The findings for the backend with index `i` are published. -/
def publishAt (masterPos : Int32) (i : ℕ) (s : Shared) : Shared :=
  { s with context := s.health[i]?.elim s.context fun h => publishOne masterPos h i s.context }

/-- The loop that publishes the findings, for `n` backends from index `i` on. -/
def publishLoop (masterPos : Int32) (i : ℕ) : ℕ → Program Unit
  | 0 => return
  | n + 1 => do
    wrlock (.backend i)
    let s ← look
    if s.SerialMismatch i then
      unlock (.backend i)
    else
      change (publishAt masterPos i)
      unlock (.backend i)
    publishLoop masterPos (i + 1) n

/-- A round of `do_watcher`. -/
def doWatcher (f : Findings) : Program Unit := do
  rdlock .context
  change fun s =>
    if s.context.backends.length ≠ s.health.length then
      { s with health := List.replicate s.context.backends.length .zero }
    else s
  let s ← look
  refreshLoop 0 s.health.length
  unlock .context
  let s ← look
  let (hs, masterPos) := checkBackends f.probe 0 f.masterPos s.health
  change fun s => { s with health := hs }
  wrlock .context
  let s ← look
  if s.context.backends.length ≠ s.health.length then
    unlock .context
  else
    change fun s => { s with context := { s.context with okBackends := 0 } }
    publishLoop masterPos 0 s.health.length
    unlock .context

/-! ### The supervisor -/

/-- What the supervisor does on `SIGHUP`, when the file has the text `text`. -/
def reload (text : List Octet) : Program Unit := do
  wrlock .context
  let s ← look
  match pgrConfigure s.context text true with
  | none => .abort
  | some (rc, c) =>
    change fun s => { s with context := c }
    if rc ≠ 0 then
      unlock .context
    else
      unlock .context

/-! ### The threads -/

/-- A thread, of a router with `n` workers. -/
inductive ThreadId (n : ℕ) where
  /-- The supervisor. -/
  | supervisor
  /-- The watcher. -/
  | watcher
  /-- The monitor. -/
  | monitor
  /-- A worker. -/
  | worker (i : Fin n)
  deriving DecidableEq

/-- The programs that a thread runs one after the other. -/
def programs {n : ℕ} : ThreadId n → Set (Program Unit)
  | .supervisor => Set.range reload
  | .watcher => Set.range doWatcher
  | .monitor => {Functor.discard Monitor.handleClient}
  | .worker _ => Set.range doWorker

/-! ### Programs without interference -/

@[simp] theorem run_rdlock (l : Lock) (s : Shared) : (rdlock l).run s = some ((), s) := rfl

@[simp] theorem run_wrlock (l : Lock) (s : Shared) : (wrlock l).run s = some ((), s) := rfl

@[simp] theorem run_unlock (l : Lock) (s : Shared) : (unlock l).run s = some ((), s) := rfl

@[simp] theorem run_look (s : Shared) : look.run s = some (s, s) := rfl

@[simp] theorem run_change (f : Shared → Shared) (s : Shared) : (change f).run s = some ((), f s) := rfl

/-- The first backend, and the others. -/
theorem weighBackends_cons (c : Context) (i cumulative : ℤ) (writer : Connection) (b : Backend) (bs : List Backend) :
    Worker.weighBackends c i cumulative writer (b :: bs) =
      let (cumulative, weights, writer) := Worker.weighBackends c i cumulative writer [b]
      let (cumulative, weights', writer) := Worker.weighBackends c (i + 1) cumulative writer bs
      (cumulative, weights ++ weights', writer) := by
  simp only [Worker.weighBackends]
  split_ifs <;> rfl

theorem weighBackends_run {s : Shared} {i n : ℕ} (hn : i + n = s.context.backends.length) (cumulative : ℤ)
    (writer : Connection) : (weighBackends i cumulative writer n).run s =
      some (Worker.weighBackends s.context i cumulative writer (s.context.backends.drop i), s) := by
  induction n generalizing i cumulative writer with
  | zero =>
    rw [Nat.add_zero] at hn
    rw [hn, List.drop_length]
    rfl
  | succ n ih =>
    have hi : i < s.context.backends.length := by omega
    rw [List.drop_eq_getElem_cons hi, weighBackends_cons]
    simp [weighBackends, List.getElem?_eq_getElem hi, ih (show i + 1 + n = _ by omega)]

theorem pickReader_run {s : Shared} {i : ℕ} {weights : List ℤ} (hlen : i + weights.length = s.context.backends.length)
    (r : ℤ) (reader : Connection) : (pickReader r i reader weights).run s =
      some (Worker.pickReader s.context r i reader (s.context.backends.drop i) weights, s) := by
  induction weights generalizing i with
  | nil =>
    rw [List.length_nil, Nat.add_zero] at hlen
    rw [hlen, List.drop_length]
    rfl
  | cons w weights ih =>
    rw [List.length_cons] at hlen
    have hi : i < s.context.backends.length := by omega
    rw [List.drop_eq_getElem_cons hi, pickReader, Worker.pickReader]
    split_ifs
    · simp [List.getElem?_eq_getElem hi]
    · exact_mod_cast ih (i := i + 1) (by omega)

/-- `determine_backends` chooses the backends. -/
theorem determineBackends_run (reader writer : Connection) (r : ℤ) (s : Shared) :
    (determineBackends reader writer r).run s = some (Worker.determineBackends s.context reader writer r, s) := by
  have hlen := (Worker.weighBackends_eq s.context 0 0 writer s.context.backends).2
  rw [Worker.wrap_zero] at hlen
  have hweigh := weighBackends_run (s := s) (i := 0) (Nat.zero_add _) 0 writer
  rw [List.drop_zero] at hweigh
  unfold Worker.determineBackends
  generalize Worker.weighBackends s.context 0 0 writer s.context.backends = x at hlen hweigh
  obtain ⟨cumulative, weights, writer'⟩ := x
  obtain rfl : weights = _ := hlen
  by_cases h0 : cumulative = 0
  · simp [determineBackends, hweigh, h0]
  · have hpick : ∀ weights : List ℤ, 0 + weights.length = s.context.backends.length →
        (pickReader r 0 reader weights).run s =
          some (Worker.pickReader s.context r (0 : ℕ) reader (s.context.backends.drop 0) weights, s) :=
      fun weights hlen => pickReader_run hlen r reader
    simp [determineBackends, hweigh, h0, hpick]

/-- The monitor reads the backends. -/
theorem reportBackends_run {s : Shared} {i n : ℕ} (hn : i + n = s.context.backends.length) :
    (reportBackends i n).run s = some (s.context.backends.drop i, s) := by
  induction n generalizing i with
  | zero =>
    rw [Nat.add_zero] at hn
    rw [hn, List.drop_length]
    rfl
  | succ n ih =>
    have hi : i < s.context.backends.length := by omega
    rw [List.drop_eq_getElem_cons hi]
    simp [reportBackends, List.getElem?_eq_getElem hi, ih (show i + 1 + n = _ by omega)]

theorem Monitor.handleClient_run (s : Shared) : Monitor.handleClient.run s =
    some (⟨s.context.okBackends, s.context.backends.length, s.context.workers, s.feConns, s.context.backends⟩, s) := by
  simp [Monitor.handleClient, reportBackends_run (Nat.zero_add _)]

/-- The cache when its first `i` entries are refreshed. -/
def refreshedTo (s : Shared) (i : ℕ) : Shared :=
  { s with health := (List.zipWith (refreshEntry s.context) s.context.backends s.health).take i ++ s.health.drop i }

theorem refreshAt_refreshedTo {s : Shared} (hlen : s.context.backends.length = s.health.length) {i : ℕ}
    (hi : i < s.health.length) : refreshAt i (refreshedTo s i) = refreshedTo s (i + 1) := by
  have hi' : i < s.context.backends.length := hlen ▸ hi
  have hnext : (List.zipWith (refreshEntry s.context) s.context.backends s.health)[i]? =
      some (refreshEntry s.context s.context.backends[i] s.health[i]) := by
    rw [List.getElem?_zipWith, List.getElem?_eq_getElem hi', List.getElem?_eq_getElem hi]
  have hget : (refreshedTo s i).health[i]? = some s.health[i] :=
    getElem?_take_append_drop (List.getElem?_eq_some_iff.mp hnext).1 (List.getElem?_eq_getElem hi)
  have hset : (refreshedTo s i).health.set i (refreshEntry s.context s.context.backends[i] s.health[i]) =
      (refreshedTo s (i + 1)).health := set_take_append_drop hnext (List.getElem?_eq_getElem hi)
  have hb : (refreshedTo s i).context.backends[i]? = some s.context.backends[i] := List.getElem?_eq_getElem hi'
  simp only [refreshAt, hb, hget]
  exact congrArg (fun hs => { s with health := hs }) hset

theorem refreshLoop_run {s : Shared} (hlen : s.context.backends.length = s.health.length) {i n : ℕ}
    (hn : i + n = s.health.length) :
    (refreshLoop i n).run (refreshedTo s i) = some ((), refreshedTo s s.health.length) := by
  induction n generalizing i with
  | zero =>
    rw [Nat.add_zero] at hn
    rw [hn]
    rfl
  | succ n ih =>
    simp [refreshLoop, refreshAt_refreshedTo hlen (show i < s.health.length by omega),
      ih (show i + 1 + n = _ by omega)]

/-- A backend that has been configured anew is skipped. -/
theorem publishAt_of_mismatch {s : Shared} {i : ℕ} (h : s.SerialMismatch i) (masterPos : Int32) :
    publishAt masterPos i s = s := by
  unfold publishAt
  cases hh : s.health[i]? with
  | none => rfl
  | some e =>
    have hskip : publishOne masterPos e i s.context = s.context := by
      unfold publishOne
      cases hb : s.context.backends[i]? with
      | none => rfl
      | some b => exact if_pos fun hserial => h (by rw [hh, hb, Option.map_some, Option.map_some, hserial])
    rw [Option.elim_some, hskip]

theorem publishLoop_run {s : Shared} (hlen : s.context.backends.length = s.health.length) (masterPos : Int32)
    {i n : ℕ} (hn : i + n = s.health.length) :
    (publishLoop masterPos i n).run { s with context := publishedTo masterPos s.health s.context i } =
      some ((), { s with context := publish masterPos s.health s.context }) := by
  induction n generalizing i with
  | zero =>
    rw [Nat.add_zero] at hn
    rw [hn, publishedTo_length masterPos hlen]
    rfl
  | succ n ih =>
    obtain ⟨h, hi⟩ : ∃ h, s.health[i]? = some h := ⟨_, List.getElem?_eq_getElem (show i < s.health.length by omega)⟩
    have hnext : publishAt masterPos i { s with context := publishedTo masterPos s.health s.context i } =
        { s with context := publishedTo masterPos s.health s.context (i + 1) } := by
      simp only [publishAt, hi, Option.elim_some, publishOne_publishedTo masterPos hlen hi]
    have ih := ih (i := i + 1) (by omega)
    by_cases hmis : ({ s with context := publishedTo masterPos s.health s.context i } : Shared).SerialMismatch i
    · rw [publishAt_of_mismatch hmis] at hnext
      rw [← hnext] at ih
      simp [publishLoop, hmis, ih]
    · simp [publishLoop, hmis, hnext, ih]

/-- The cache as `refresh` leaves it. -/
theorem refreshedTo_length {s : Shared} (hlen : s.context.backends.length = s.health.length) :
    refreshedTo s s.health.length =
      { s with health := List.zipWith (refreshEntry s.context) s.context.backends s.health } := by
  rw [refreshedTo, List.drop_length, List.append_nil, List.take_of_length_le]
  rw [List.length_zipWith]
  omega

/-- The cache after it has been allocated anew, if it was. -/
theorem length_allocated (c : Context) (hs : List Health) :
    c.backends.length =
      (if c.backends.length ≠ hs.length then List.replicate c.backends.length .zero else hs).length := by
  split_ifs with hne
  · rw [List.length_replicate]
  · exact not_not.mp hne

/-- The watcher makes its round. -/
theorem doWatcher_run (f : Findings) (s : Shared) : (doWatcher f).run s =
    some ((), ⟨(Watch.round ⟨s.context, s.health⟩ f).context, s.feConns,
      (Watch.round ⟨s.context, s.health⟩ f).health⟩) := by
  let hs :=
    if s.context.backends.length ≠ s.health.length then List.replicate s.context.backends.length .zero else s.health
  let s₁ : Shared := { s with health := hs }
  have hlen : s₁.context.backends.length = s₁.health.length := length_allocated s.context s.health
  have hfirst : (if s.context.backends.length ≠ s.health.length then
      { s with health := List.replicate s.context.backends.length .zero } else s) = s₁ := by
    unfold s₁ hs
    split_ifs <;> rfl
  have hrefresh : (refreshLoop 0 s₁.health.length).run s₁ =
      some ((), { s with health := refresh s.context s.health }) := by
    have h := refreshLoop_run hlen (Nat.zero_add _)
    rwa [refreshedTo_length hlen] at h
  let found := checkBackends f.probe 0 f.masterPos (refresh s.context s.health)
  let s₂ : Shared := { s with health := found.1 }
  have hlen₂ : s₂.context.backends.length = s₂.health.length := by
    change _ = found.1.length
    rw [checkBackends_fst, List.length_mapIdx, length_refresh]
  have hpublish := publishLoop_run hlen₂ found.2 (Nat.zero_add _)
  have hstart : publishedTo found.2 s₂.health s₂.context 0 = { s.context with okBackends := 0 } := rfl
  rw [hstart] at hpublish
  have hround : Watch.round ⟨s.context, s.health⟩ f = ⟨publish found.2 found.1 s.context, found.1⟩ := rfl
  rw [hround]
  simp only [doWatcher, Program.bind_eq, Program.run_bind, run_rdlock, run_change, run_look, run_unlock, run_wrlock,
    Option.bind_some, hfirst, hrefresh]
  rw [if_neg (not_not.mpr hlen₂)]
  simp only [Program.run_bind, run_change, run_unlock, Option.bind_some]
  rw [hpublish]
  rfl

/-- The supervisor loads the configuration again. -/
theorem reload_run {text : List Octet} {s : Shared} {rc : ℤ} {c : Context}
    (h : pgrConfigure s.context text true = some (rc, c)) :
    (reload text).run s = some ((), { s with context := c }) := by
  simp [reload, h]

end PgRouter.Threads
