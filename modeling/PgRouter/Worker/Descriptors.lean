import PgRouter.Foundation.Run
import PgRouter.Foundation.Table
import PgRouter.Wire.Kernel

/-!
# The descriptors of the workers

All threads of the router share one table of descriptors: `accept` and `socket` return the lowest number
that is free, and `close` makes a number free, whoever has obtained it. So a thread must close only
what it has obtained, and only once: afterwards the number may be another thread's.

## The model

A worker goes through `do_worker` and `handle_client`, as far as these obtain and close descriptors
(`Thread`, `System.work`): it accepts a client, connects to the reader and to the writer, and closes the
descriptors of its three connections by `pgr_conn_deinit`. It then closes the descriptor of the client
again. Whether what it tries in a step succeeds is given by a `Bool`, so that sessions end in every way;
any number of workers take their steps in any order. In between, descriptors are obtained and closed
elsewhere: by the other threads, and for the temporary files of the buffers.

## What is proved

As long as no worker gets to the second `close` of a client that it has accepted, everything that a worker
closes is its own, and no longer (`owned_iff`): at that `close` the number is not the worker's, but may be
another's (`not_owned`).
-/

namespace PgRouter.Worker

open Foundation Wire

universe u

/-! ### Workers -/

/-- The number of a descriptor, if it is one. -/
def number (fd : Fd) : Option ℕ := if 0 ≤ fd then some fd.toNat else none

/-- A connection to a backend. -/
inductive Side where
  /-- To the reader. -/
  | reader
  /-- To the writer. -/
  | writer
  deriving DecidableEq

/-- Where a worker is. -/
inductive Place where
  /-- At the `accept` of `do_worker`. -/
  | accepting
  /-- Between `pgr_conn_accept` and `pgr_conn_copy`, in `handle_client`. -/
  | handshake
  /-- At the `socket` of `pgr_connect`. -/
  | socket (b : Side)
  /-- At the `connect` of `pgr_connect`. -/
  | connect (b : Side)
  /-- In the exchange of messages of `pgr_conn_connect`. -/
  | login (b : Side)
  /-- In the loop of `handle_client`. -/
  | serving
  /-- At `pgr_conn_deinit` of a connection to a backend. -/
  | deinit (b : Side)
  /-- At `pgr_conn_deinit` of the connection to the client. -/
  | deinitFrontend
  /-- At the `close` of `do_worker`. -/
  | closeClient
  deriving DecidableEq

/-- A worker: where it is, and its variables. -/
structure Thread where
  /-- Where it is. -/
  place : Place
  /-- `connfd`, in `do_worker`. -/
  connfd : Fd
  /-- `frontend.fd`, in `handle_client`. -/
  frontend : Fd
  /-- `reader.fd`. -/
  reader : Fd
  /-- `writer.fd`. -/
  writer : Fd
  /-- `fd`, in `pgr_connect`. -/
  fd : Fd
  deriving DecidableEq

/-- A worker before its first session. -/
def Thread.new : Thread := ⟨.accepting, -1, -1, -1, -1, -1⟩

/-- The connection to a backend. -/
def Thread.backend (t : Thread) : Side → Fd
  | .reader => t.reader
  | .writer => t.writer

/-- `c->fd = fd`, of the connection to a backend. -/
def Thread.setBackend (t : Thread) (b : Side) (fd : Fd) : Thread :=
  match b with
  | .reader => { t with reader := fd }
  | .writer => { t with writer := fd }

/-- `accept` has returned, and the connections are initialised. -/
def Thread.handleClient (t : Thread) (fd : Fd) : Thread :=
  { t with place := .handshake, connfd := fd, frontend := fd, reader := -1, writer := -1 }

/-- After `pgr_conn_connect` of a connection has returned `0`. -/
def Side.next : Side → Place
  | .reader => .socket .writer
  | .writer => .serving

/-- After `pgr_conn_deinit` of a connection. -/
def Side.after : Side → Place
  | .reader => .deinit .writer
  | .writer => .deinitFrontend

/-- The workers, and the table of descriptors. The owner of a number is a worker or something else. -/
structure System (W : Type u) where
  /-- The table. -/
  table : Table (Option W)
  /-- The workers. -/
  threads : W → Thread

/-- What happens next. -/
inductive Move (W : Type u) where
  /-- A step of a worker. `done` says whether what it tries succeeds. -/
  | worker (w : W) (done : Bool)
  /-- A descriptor is obtained elsewhere. -/
  | obtained
  /-- A descriptor is closed elsewhere, where it has been obtained. -/
  | closed (i : ℕ)

namespace System

variable {W : Type u} [DecidableEq W]

/-- The worker `w` has become `t`. -/
def setThread (s : System W) (w : W) (t : Thread) : System W := { s with threads := Function.update s.threads w t }

/-- `accept` or `socket`, in the worker `w`. -/
def give (s : System W) (w : W) : System W := { s with table := s.table.give (some w) }

/-- `close(fd)`. Nothing happens to a number that is negative or not open. -/
def close (s : System W) (fd : Fd) : System W :=
  match number fd with
  | some i => { s with table := s.table.giveBack i }
  | none => s

/-- A step of the worker `w`. -/
def work (s : System W) (w : W) (done : Bool) : System W :=
  let t := s.threads w
  match t.place with
  | .accepting =>
    if done then (s.give w).setThread w (t.handleClient s.table.lowest)
    else s.setThread w (t.handleClient (-1))
  | .handshake => s.setThread w { t with place := if done then .socket .reader else .deinit .reader }
  | .socket b =>
    if done then (s.give w).setThread w { t with place := .connect b, fd := s.table.lowest }
    else s.setThread w { t.setBackend b (-1) with place := .deinit .reader }
  | .connect b =>
    if done then s.setThread w { t.setBackend b t.fd with place := .login b }
    else (s.close t.fd).setThread w { t.setBackend b (-1) with place := .deinit .reader }
  | .login b => s.setThread w { t with place := if done then b.next else .deinit .reader }
  | .serving => s.setThread w { t with place := if done then .serving else .deinit .reader }
  | .deinit b => (s.close (t.backend b)).setThread w { t with place := b.after }
  | .deinitFrontend => (s.close t.frontend).setThread w { t with place := .closeClient }
  | .closeClient => (s.close t.connfd).setThread w { t with place := .accepting }

/-- What happens next, happens. -/
def step (s : System W) : Move W → System W
  | .worker w done => s.work w done
  | .obtained => { s with table := s.table.give none }
  | .closed i => if s.table.owner i = some none then { s with table := s.table.giveBack i } else s

/-- The number that the worker `w` closes in its step. -/
def closing (s : System W) (w : W) (done : Bool) : Option ℕ :=
  let t := s.threads w
  match t.place with
  | .connect _ => if done then none else number t.fd
  | .deinit b => number (t.backend b)
  | .deinitFrontend => number t.frontend
  | .closeClient => number t.connfd
  | _ => none

/-- The worker `w` is at the `close` of `do_worker`, for a client that it has accepted. -/
def AtLast (s : System W) (w : W) : Prop := (s.threads w).place = .closeClient ∧ 0 ≤ (s.threads w).connfd

/-- The workers are as in `do_worker` before any session, and have no descriptors yet. -/
structure Initial (s : System W) : Prop where
  /-- The workers. -/
  threads : ∀ w, s.threads w = Thread.new
  /-- The table. -/
  owner : ∀ i w, s.table.owner i ≠ some (some w)

end System

/-! ### What a worker has -/

namespace Thread

/-- The variables for the descriptors that the worker has obtained and not closed. Before they are
obtained, they are `-1`. -/
def fds (t : Thread) : List Fd :=
  match t.place with
  | .accepting => []
  | .connect _ => [t.fd, t.frontend, t.reader, t.writer]
  | .deinit .writer => [t.frontend, t.writer]
  | .deinitFrontend => [t.frontend]
  | .closeClient => []
  | _ => [t.frontend, t.reader, t.writer]

/-- The numbers that the worker has obtained and not closed. -/
def held (t : Thread) : List ℕ := t.fds.filterMap number

/-- What has not been connected is `-1`. -/
def Fresh (t : Thread) : Prop :=
  match t.place with
  | .handshake | .socket .reader | .connect .reader => t.reader = -1 ∧ t.writer = -1
  | .login .reader | .socket .writer | .connect .writer => t.writer = -1
  | _ => True

end Thread

namespace Thread

variable {t : Thread} {b : Side}

theorem setBackend_self {fd : Fd} (h : t.backend b = fd) : t.setBackend b fd = t := by
  subst h
  cases b <;> rfl

theorem Fresh.backend_socket (h : t.Fresh) (hplace : t.place = .socket b) : t.backend b = -1 := by
  cases b <;> simp only [Fresh, hplace] at h
  · exact h.1
  · exact h

theorem Fresh.backend_connect (h : t.Fresh) (hplace : t.place = .connect b) : t.backend b = -1 := by
  cases b <;> simp only [Fresh, hplace] at h
  · exact h.1
  · exact h

end Thread

@[simp] theorem number_neg_one : number (-1) = none := rfl

@[simp] theorem number_natCast (i : ℕ) : number (i : Fd) = some i := by
  rw [number, if_pos (Int.natCast_nonneg i), Int.toNat_natCast]

theorem number_eq_none {fd : Fd} (h : ¬0 ≤ fd) : number fd = none := if_neg h

theorem number_of_nonneg {fd : Fd} (h : 0 ≤ fd) : number fd = some fd.toNat := if_pos h

/-- A connection to a backend that is made takes over the number of its socket. -/
theorem Thread.held_connected {t : Thread} {b : Side} (hplace : t.place = .connect b) (hnone : t.backend b = -1) :
    t.held.Perm { t.setBackend b t.fd with place := Place.login b }.held := by
  cases b with
  | reader =>
    have hreader : t.reader = -1 := hnone
    simp only [held, fds, setBackend, hplace, hreader]
    exact (List.Perm.swap t.frontend t.fd [t.writer]).filterMap number
  | writer =>
    have hwriter : t.writer = -1 := hnone
    simp only [held, fds, setBackend, hplace, hwriter]
    exact (List.perm_append_singleton t.fd [t.frontend, t.reader]).symm.filterMap number

namespace System

variable {W : Type u} {s : System W}

@[simp] theorem close_threads (s : System W) (fd : Fd) : (s.close fd).threads = s.threads := by
  unfold close
  cases number fd <;> rfl

theorem close_of_none {fd : Fd} (h : number fd = none) : s.close fd = s := by rw [close, h]

theorem close_table_of_some {fd : Fd} {i : ℕ} (h : number fd = some i) :
    (s.close fd).table = s.table.giveBack i := by rw [close, h]

/-- The numbers of every worker are those that its variables say. -/
structure Exact (s : System W) : Prop where
  /-- What is not connected is `-1`. -/
  fresh : ∀ w, (s.threads w).Fresh
  /-- The numbers. -/
  holds : ∀ w, s.table.Holds (some w) (s.threads w).held

theorem Initial.exact (h : s.Initial) : s.Exact := by
  refine ⟨fun w => ?_, fun w => ⟨?_, fun i => ?_⟩⟩
  · rw [h.threads]
    trivial
  · rw [h.threads]
    exact List.nodup_nil
  · rw [h.threads]
    exact iff_of_false (h.owner i w) List.not_mem_nil

variable [DecidableEq W] {w : W} {done : Bool}

@[simp] theorem setThread_self (s : System W) (w : W) (t : Thread) : (s.setThread w t).threads w = t :=
  Function.update_self ..

@[simp] theorem setThread_table (s : System W) (w : W) (t : Thread) : (s.setThread w t).table = s.table := rfl

theorem setThread_of_ne (s : System W) (t : Thread) {v w : W} (h : v ≠ w) :
    (s.setThread w t).threads v = s.threads v := Function.update_of_ne h ..

/-- A step does not change the other workers. -/
theorem work_of_ne (s : System W) (done : Bool) {v w : W} (h : v ≠ w) :
    (s.work w done).threads v = s.threads v := by
  unfold work
  dsimp only
  split <;> first | split_ifs | skip
  all_goals
    refine (setThread_of_ne _ _ h).trans ?_
    first | rfl | rw [close_threads]

/-! ### The steps of a worker -/

variable (s w done) in
/-- What a step of a worker changes: nothing in the table, or it obtains a number, or it gives back one
of its own. -/
inductive Effect : Prop where
  /-- The table stays as it is. -/
  | keep (table : (s.work w done).table = s.table) (closing : s.closing w done = none)
      (held : (s.threads w).held.Perm ((s.work w done).threads w).held)
  /-- The worker obtains a number. -/
  | give (table : (s.work w done).table = s.table.give (some w)) (closing : s.closing w done = none)
      (held : (s.table.lowest :: (s.threads w).held).Perm ((s.work w done).threads w).held)
  /-- The worker closes a number that it has. -/
  | giveBack (i : ℕ) (table : (s.work w done).table = s.table.giveBack i) (closing : s.closing w done = some i)
      (held : (s.threads w).held.Perm (i :: ((s.work w done).threads w).held))

/-- A step that only changes the variables. -/
theorem Effect.of_setThread {t : Thread} (hwork : s.work w done = s.setThread w t)
    (hclosing : s.closing w done = none) (hheld : (s.threads w).held.Perm t.held) : Effect s w done :=
  .keep (by rw [hwork, setThread_table]) hclosing (by rwa [hwork, setThread_self])

/-- A step that obtains a number. -/
theorem Effect.of_give {t : Thread} (hwork : s.work w done = (s.give w).setThread w t)
    (hclosing : s.closing w done = none) (hheld : (s.table.lowest :: (s.threads w).held).Perm t.held) :
    Effect s w done :=
  .give (by rw [hwork, setThread_table, System.give]) hclosing (by rwa [hwork, setThread_self])

/-- A step that closes one of the descriptors of the worker. -/
theorem Effect.of_close (t : Thread) (fd : Fd) (hwork : s.work w done = (s.close fd).setThread w t)
    (hclosing : s.closing w done = number fd) (hfds : (s.threads w).fds.Perm (fd :: t.fds)) : Effect s w done := by
  have hheld : (s.threads w).held.Perm ((fd :: t.fds).filterMap number) := hfds.filterMap number
  cases hnumber : number fd with
  | none =>
    rw [List.filterMap_cons_none hnumber] at hheld
    refine .of_setThread (t := t) ?_ (hclosing.trans hnumber) hheld
    rw [hwork, close_of_none hnumber]
  | some i =>
    rw [List.filterMap_cons_some hnumber] at hheld
    refine .giveBack i ?_ (hclosing.trans hnumber) ?_
    · rw [hwork, setThread_table, close_table_of_some hnumber]
    · rwa [hwork, setThread_self]

/-- Every step of a worker is of these kinds, unless it is the last of a session whose client was accepted. -/
theorem effect (hfresh : (s.threads w).Fresh) (hlast : ¬s.AtLast w) : Effect s w done := by
  cases hplace : (s.threads w).place with
  | accepting =>
    cases done with
    | false =>
      refine .of_setThread (t := (s.threads w).handleClient (-1)) ?_ ?_ ?_
      · simp only [work, hplace, Bool.false_eq_true, if_false]
      · simp only [closing, hplace]
      · simp only [Thread.held, Thread.fds, Thread.handleClient, hplace]
        rfl
    | true =>
      refine .of_give (t := (s.threads w).handleClient s.table.lowest) ?_ ?_ ?_
      · simp only [work, hplace, if_true]
      · simp only [closing, hplace]
      · simp [Thread.held, Thread.fds, Thread.handleClient, hplace, List.filterMap_cons]
  | handshake =>
    refine .of_setThread (t := { s.threads w with place := if done then .socket .reader else .deinit .reader }) ?_ ?_ ?_
    · simp only [work, hplace]
    · simp only [closing, hplace]
    · cases done <;> simp only [Thread.held, Thread.fds, hplace] <;> rfl
  | socket b =>
    have hnone := hfresh.backend_socket hplace
    cases done with
    | false =>
      refine .of_setThread (t := { s.threads w with place := .deinit .reader }) ?_ ?_ ?_
      · simp only [work, hplace, Bool.false_eq_true, if_false, Thread.setBackend_self hnone]
      · simp only [closing, hplace]
      · simp only [Thread.held, Thread.fds, hplace]
        rfl
    | true =>
      refine .of_give (t := { s.threads w with place := .connect b, fd := s.table.lowest }) ?_ ?_ ?_
      · simp only [work, hplace, if_true]
      · simp only [closing, hplace]
      · simp only [Thread.held, Thread.fds, hplace]
        rw [List.filterMap_cons_some (number_natCast _)]
  | connect b =>
    have hnone := hfresh.backend_connect hplace
    cases done with
    | false =>
      refine .of_close { s.threads w with place := .deinit .reader } (s.threads w).fd ?_ ?_ ?_
      · simp only [work, hplace, Bool.false_eq_true, if_false, Thread.setBackend_self hnone]
      · simp only [closing, hplace, Bool.false_eq_true, if_false]
      · simp only [Thread.fds, hplace]
        rfl
    | true =>
      refine .of_setThread (t := { (s.threads w).setBackend b (s.threads w).fd with place := .login b }) ?_ ?_ ?_
      · simp only [work, hplace, if_true]
      · simp only [closing, hplace, if_true]
      · exact Thread.held_connected hplace hnone
  | login b =>
    refine .of_setThread (t := { s.threads w with place := if done then b.next else .deinit .reader }) ?_ ?_ ?_
    · simp only [work, hplace]
    · simp only [closing, hplace]
    · cases b <;> cases done <;> simp only [Thread.held, Thread.fds, hplace] <;> rfl
  | serving =>
    refine .of_setThread (t := { s.threads w with place := if done then .serving else .deinit .reader }) ?_ ?_ ?_
    · simp only [work, hplace]
    · simp only [closing, hplace]
    · cases done <;> simp only [Thread.held, Thread.fds, hplace] <;> rfl
  | deinit b =>
    refine .of_close { s.threads w with place := b.after } ((s.threads w).backend b) ?_ ?_ ?_
    · simp only [work, hplace]
    · simp only [closing, hplace]
    · cases b with
      | reader =>
        simp only [Thread.fds, Thread.backend, Side.after, hplace]
        exact List.Perm.swap ..
      | writer =>
        simp only [Thread.fds, Thread.backend, Side.after, hplace]
        exact List.Perm.swap ..
  | deinitFrontend =>
    refine .of_close { s.threads w with place := .closeClient } (s.threads w).frontend ?_ ?_ ?_
    · simp only [work, hplace]
    · simp only [closing, hplace]
    · simp only [Thread.fds, hplace]
      rfl
  | closeClient =>
    have hnumber : number (s.threads w).connfd = none := number_eq_none fun hfd => hlast ⟨hplace, hfd⟩
    refine .of_setThread (t := { s.threads w with place := .accepting }) ?_ ?_ ?_
    · simp only [work, hplace, close_of_none hnumber]
    · simp only [closing, hplace, hnumber]
    · simp only [Thread.held, Thread.fds, hplace]
      rfl

/-- What has not been connected stays `-1`. -/
theorem work_fresh (hfresh : (s.threads w).Fresh) : ((s.work w done).threads w).Fresh := by
  cases hplace : (s.threads w).place with
  | accepting => cases done <;> simp [work, hplace, Thread.handleClient, Thread.Fresh]
  | handshake => cases done <;> simp_all [work, Thread.Fresh]
  | socket b => cases b <;> cases done <;> simp_all [work, Thread.Fresh, Thread.setBackend]
  | connect b => cases b <;> cases done <;> simp_all [work, Thread.Fresh, Thread.setBackend]
  | login b => cases b <;> cases done <;> simp_all [work, Thread.Fresh, Side.next]
  | serving => cases done <;> simp [work, hplace, Thread.Fresh]
  | deinit b => cases b <;> simp [work, hplace, Thread.Fresh, Side.after]
  | deinitFrontend => simp [work, hplace, Thread.Fresh]
  | closeClient => simp [work, hplace, Thread.Fresh]

/-! ### The descriptors of all workers -/

/-- What is obtained elsewhere is no worker's. -/
theorem Exact.obtained (h : s.Exact) : (s.step .obtained).Exact :=
  ⟨h.fresh, fun w => (h.holds w).give_of_ne fun heq => by cases heq⟩

/-- What is closed elsewhere was no worker's. -/
theorem Exact.closed (h : s.Exact) (i : ℕ) : (s.step (.closed i)).Exact := by
  simp only [step]
  split_ifs with howner
  · exact ⟨h.fresh, fun w => (h.holds w).giveBack_of_ne howner fun heq => by cases heq⟩
  · exact h

/-- A worker's step, other than the last of a session whose client was accepted, closes nothing but a
number of the worker. -/
theorem Exact.closing (h : s.Exact) (hlast : ¬s.AtLast w) {i : ℕ} (hi : s.closing w done = some i) :
    s.table.owner i = some (some w) := by
  cases effect (h.fresh w) hlast with
  | keep htable hclosing hheld => rw [hclosing] at hi; cases hi
  | give htable hclosing hheld => rw [hclosing] at hi; cases hi
  | giveBack j htable hclosing hheld =>
    obtain rfl : j = i := Option.some.inj (hclosing.symm.trans hi)
    exact ((h.holds w).perm hheld).owner

/-- The numbers remain those that the variables say. -/
theorem Exact.worker (h : s.Exact) (hlast : ¬s.AtLast w) (done : Bool) : (s.step (.worker w done)).Exact := by
  have hfresh : ∀ v, ((s.work w done).threads v).Fresh := fun v => by
    rcases eq_or_ne v w with rfl | hne
    · exact work_fresh (h.fresh v)
    · rw [work_of_ne s done hne]
      exact h.fresh v
  refine ⟨hfresh, fun v => ?_⟩
  change (s.work w done).table.Holds (some v) ((s.work w done).threads v).held
  have heffect : Effect s w done := effect (h.fresh w) hlast
  rcases eq_or_ne v w with rfl | hne
  · cases heffect with
    | keep htable hclosing hheld =>
      rw [htable]
      exact (h.holds v).perm hheld
    | give htable hclosing hheld =>
      rw [htable]
      exact (h.holds v).give.perm hheld
    | giveBack i htable hclosing hheld =>
      rw [htable]
      exact ((h.holds v).perm hheld).giveBack
  · have hsome : some w ≠ some v := fun heq => hne (Option.some.inj heq).symm
    rw [work_of_ne s done hne]
    cases heffect with
    | keep htable hclosing hheld =>
      rw [htable]
      exact h.holds v
    | give htable hclosing hheld =>
      rw [htable]
      exact (h.holds v).give_of_ne hsome
    | giveBack i htable hclosing hheld =>
      rw [htable]
      exact (h.holds v).giveBack_of_ne (h.closing hlast hclosing) hsome

/-! ### Runs -/

/-- The worker `w` closes nothing but what it has obtained and not closed. -/
def ClosesOwn (s : System W) (w : W) (done : Bool) : Prop :=
  ∀ i ∈ s.closing w done, s.table.owner i = some (some w)

/-- Beside a run: how often each worker has closed the number of its client since it has accepted it. -/
def note (s : System W) (n : W → ℕ) : Move W → W → ℕ
  | .worker w done => Function.update n w <|
      if (s.threads w).place = .accepting then 0
      else if s.closing w done = some (s.threads w).connfd.toNat then n w + 1 else n w
  | _ => n

/-- What is asked of a step: the worker closes nothing but its own, and if its session with a client that
it has accepted is over by this step, it has closed the number of the client once. -/
def Asked (x : System W × (W → ℕ)) : Move W → Prop
  | .worker w done => x.1.ClosesOwn w done ∧ (x.1.AtLast w → x.1.note x.2 (.worker w done) w = 1)
  | _ => True

/-- The next step is not the last of a session with a client that was accepted. -/
def NotLast (x : System W × (W → ℕ)) : Move W → Prop
  | .worker w _ => ¬x.1.AtLast w
  | _ => True

/-- A step, and the record of it. -/
def record (x : System W × (W → ℕ)) (m : Move W) : System W × (W → ℕ) := (x.1.step m, x.1.note x.2 m)

/-- The numbers remain those that the variables say. -/
theorem Exact.step (h : s.Exact) {n : W → ℕ} {m : Move W} (hm : NotLast (s, n) m) : (s.step m).Exact := by
  cases m with
  | worker w done => exact h.worker hm done
  | obtained => exact h.obtained
  | closed i => exact h.closed i

omit [DecidableEq W] in
/-- At the last step of a session whose client was accepted, the worker has no number left. -/
theorem Exact.not_closesOwn (h : s.Exact) (hlast : s.AtLast w) (done : Bool) : ¬s.ClosesOwn w done := by
  intro hown
  obtain ⟨hplace, hfd⟩ := hlast
  have hclosing : s.closing w done = some (s.threads w).connfd.toNat := by
    simp only [System.closing, hplace, number_of_nonneg hfd]
  have hheld : (s.threads w).held = [] := by simp only [Thread.held, Thread.fds, hplace, List.filterMap_nil]
  have hmem := ((h.holds w).owner_iff _).mp (hown _ hclosing)
  rw [hheld] at hmem
  exact List.not_mem_nil hmem

/-- A step is as asked if and only if it is not the last of a session whose client was accepted. -/
theorem Exact.asked_iff (h : s.Exact) (n : W → ℕ) (m : Move W) : Asked (s, n) m ↔ NotLast (s, n) m := by
  cases m with
  | worker w done =>
    refine ⟨fun hasked hlast => h.not_closesOwn hlast done hasked.1, fun hlast => ⟨fun i hi => ?_, fun habs => ?_⟩⟩
    · exact h.closing hlast hi
    · exact absurd habs hlast
  | obtained => exact Iff.rfl
  | closed i => exact Iff.rfl

/-- Every worker closes only what it has obtained and not closed, and a client that it has accepted once
in a session, if and only if no worker gets to the `close` of `do_worker` with a client that it has
accepted: for any number of workers, any order of their steps, and every way for sessions to end. -/
theorem owned_iff (s : System W) (hs : s.Initial) (moves : List (Move W)) :
    Along record Asked (s, fun _ => 0) moves ↔ Along record NotLast (s, fun _ => 0) moves := by
  let Inv (x : System W × (W → ℕ)) : Prop := x.1.Exact
  have hkeep : ∀ x m, Inv x → NotLast x m → Inv (record x m) := fun x m hx hm => Exact.step hx hm
  have hiff : ∀ x m, Inv x → (Asked x m ↔ NotLast x m) := fun x m hx => Exact.asked_iff hx x.2 m
  constructor
  · intro hasked
    exact Along.of_invariant (fun x m hx hm => hkeep x m hx ((hiff x m hx).mp hm))
      (fun x m hx hm => (hiff x m hx).mp hm) hs.exact hasked
  · intro hlast
    exact Along.of_invariant hkeep (fun x m hx hm => (hiff x m hx).mpr hm) hs.exact hlast

/-! ### Two workers -/

instance (s : System W) (w : W) : Decidable (s.AtLast w) := instDecidableAnd

instance (s : System W) (w : W) (done : Bool) : Decidable (s.ClosesOwn w done) :=
  Option.decidableForallMem (s.closing w done)

instance (x : System W × (W → ℕ)) : DecidablePred (Asked x)
  | .worker w done =>
    inferInstanceAs (Decidable (x.1.ClosesOwn w done ∧ (x.1.AtLast w → x.1.note x.2 (.worker w done) w = 1)))
  | .obtained => .isTrue trivial
  | .closed _ => .isTrue trivial

instance (x : System W × (W → ℕ)) : DecidablePred (NotLast x)
  | .worker w _ => inferInstanceAs (Decidable ¬x.1.AtLast w)
  | .obtained => .isTrue trivial
  | .closed _ => .isTrue trivial

/-- Two workers before any session. Three descriptors are open elsewhere. -/
def two : System Bool := ⟨⟨[some none, some none, some none]⟩, fun _ => Thread.new⟩

theorem two_initial : two.Initial := by
  refine ⟨fun _ => rfl, fun i w => ?_⟩
  match i with
  | 0 | 1 | 2 => exact fun h => by cases h
  | i + 3 => exact fun h => by cases h

/-- A session of the worker `w` whose handshake fails, up to `pgr_conn_deinit` of its client. -/
def failed (w : Bool) : List (Move Bool) :=
  [.worker w true, .worker w false, .worker w true, .worker w true, .worker w true]

theorem owned_two : two.Initial ∧ Along record Asked (two, fun _ => 0) (failed false) :=
  ⟨two_initial, (owned_iff two two_initial (failed false)).mpr (by decide)⟩

/-- A worker's session fails, and the other worker accepts a client, which gets the same number. The `close`
of `do_worker` then closes the other worker's client. -/
theorem not_owned :
    let moves := failed false ++ [.worker true true]
    let s := moves.foldl System.step two
    two.Initial ∧ s.closing false true = some 3 ∧ s.table.owner 3 = some (some true) ∧
      ¬Along record Asked (two, fun _ => 0) (moves ++ [.worker false true]) :=
  ⟨two_initial, by decide, by decide, by decide⟩

end System

end PgRouter.Worker
