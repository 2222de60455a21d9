import PgRouter.Foundation.Atomicity
import PgRouter.Monitor.Report
import PgRouter.Threads.Discipline

/-!
# The threads by whole sections

The threads of the router have the context and the number of the clients in common. The watcher has its cache
to itself, and each thread its own connections. What is in common is guarded by the lock of the context.

## The model

The programs are those of `Threads.Programs`, over the common part and what a thread has of its own (`Own`).
What a look-up, a choice of the backends and a report of the monitor have come to is noted (`Event`), for
it can be seen from outside. The steps are smaller where that matters: `c->fe_conns++` looks at the counter
and then writes it, and the monitor looks at the context again before each line that it writes.

## What is proved

The programs are guarded by the lock of the context (`programs_guarded`): so what the threads do in any order of
their steps they also do one section after the other (`serializable`). Where none is in a section, a thread may run
a part of its program, and go on with it when others have run (`NotedReachable.part`, `NotedReachable.resume`).
-/

namespace PgRouter.Threads

open Config Foundation Text Watcher Wire

/-- What the threads have in common. -/
structure Common where
  /-- `CONTEXT`. -/
  context : Context
  /-- `c->fe_conns`. -/
  feConns : ℤ

/-- What can be seen of a thread from outside. -/
inductive Event where
  /-- `pgr_auth_find` has returned `md5` for `username`. -/
  | lookedUp (username : CString) (md5 : Option CString)
  /-- `determine_backends` has returned `rc`, and left `reader` and `writer`. -/
  | chose (v : Visit) (rc : ℤ) (reader writer : Connection)
  /-- `handle_client` of `monitor.c` has written to `connfd`. -/
  | told (connfd : Fd) (before after : Kernel)

/-- What a thread has of its own. -/
structure Own where
  /-- `BACKENDS`, of the watcher. -/
  health : List Health
  /-- The kernel's side of its connections. -/
  kernel : Kernel
  /-- What can be seen of it, in order. -/
  events : List Event

/-- The program of a thread. -/
abbrev Private := Foundation.Program (Common × Own) Lock

/-- What a thread sees of what is shared. -/
def sharedOf (s : Common × Own) : Shared := ⟨s.1.context, s.1.feConns, s.2.health⟩

/-- It writes to that. -/
def withShared (s : Common × Own) (x : Shared) : Common × Own :=
  (⟨x.context, x.feConns⟩, { s.2 with health := x.health })

/-- A program over what is shared. -/
def inShared {α : Type} (p : Program α) : Private α := p.zoom sharedOf withShared

/-- Something can be seen. -/
def note (e : Event) : Private Unit := .modify (fun s => (s.1, { s.2 with events := s.2.events ++ [e] })) (.done ())

/-- The kernel's side of the thread's connections. -/
def kernelOf : Private Kernel := .get fun s => .done s.2.kernel

/-- `pgr_sendf`. -/
def sendf (connfd : Fd) (text : List Octet) : Private Unit :=
  .modify (fun s => (s.1, { s.2 with kernel := (Monitor.pgrSendf s.2.kernel connfd text).2 })) (.done ())

namespace Noted

/-! ### The programs -/

/-- `pgr_conn_accept`: the names are looked up. -/
def pgrConnAccept : List CString → Private Unit
  | [] => return
  | username :: usernames => do
    let md5 ← inShared (pgrAuthFind username)
    note (.lookedUp username md5)
    pgrConnAccept usernames

/-- `handle_client` of `worker.c`. -/
def Worker.handleClient (v : Visit) : Private Unit := do
  pgrConnAccept v.usernames
  if v.accepted then
    let (rc, reader, writer) ← inShared (determineBackends v.reader v.writer v.r)
    note (.chose v rc reader writer)
  else return

/-- `c->fe_conns` changes by `d`. -/
def addClients (d : ℤ) : Private Unit := do
  inShared (wrlock .context)
  let s ← inShared look
  inShared (change fun s' => { s' with feConns := s.feConns + d })
  inShared (unlock .context)

/-- A round of `do_worker`, for one client. -/
def doWorker (v : Visit) : Private Unit := do
  addClients 1
  Worker.handleClient v
  addClients (-1)

/-- The line for a backend, which is there. -/
def tellBackend (connfd : Fd) : Option Backend → Private Unit
  | some b => sendf connfd (Monitor.backendLine b)
  | none => return

/-- The loop of `handle_client` of `monitor.c`, for `n` backends from index `i` on. -/
def tellBackends (connfd : Fd) (i : ℕ) : ℕ → Private Unit
  | 0 => return
  | n + 1 => do
    inShared (rdlock (.backend i))
    let s ← inShared look
    tellBackend connfd s.context.backends[i]?
    inShared (unlock (.backend i))
    tellBackends connfd (i + 1) n

/-- `handle_client` of `monitor.c`. -/
def Monitor.handleClient (connfd : Fd) : Private Unit := do
  inShared (rdlock .context)
  let s ← inShared look
  sendf connfd (Monitor.backendsLine s.context.okBackends s.context.backends.length)
  let s ← inShared look
  sendf connfd (Monitor.workersLine s.context.workers)
  let s ← inShared look
  sendf connfd (Monitor.clientsLine s.feConns)
  let s ← inShared look
  tellBackends connfd 0 s.context.backends.length
  inShared (unlock .context)

/-- A round of `do_monitor`, for one client. -/
def doMonitor (connfd : Fd) : Private Unit := do
  let before ← kernelOf
  Monitor.handleClient connfd
  let after ← kernelOf
  note (.told connfd before after)

/-- The programs that a thread runs one after the other. -/
def programs {n : ℕ} : ThreadId n → Set (Private Unit)
  | .supervisor => Set.range fun text => inShared (reload text)
  | .watcher => Set.range fun f => inShared (doWatcher f)
  | .monitor => Set.range doMonitor
  | .worker _ => Set.range doWorker

end Noted

/-! ### The programs are guarded -/

/-- The program is guarded by the lock of the context. -/
abbrev Guarded {α : Type} (held : Foundation.Held Lock) (p : Private α) (held' : Foundation.Held Lock) : Prop :=
  p.Guarded .context held held'

section

variable {held : Foundation.Held Lock}

theorem look_guarded (inside : held ≠ []) : Guarded held (inShared look) held :=
  .get (fun h => absurd h inside) fun _ => .done _

/-- What is in common is left alone, if the lock is not held alone. -/
theorem change_guarded {f : Shared → Shared}
    (common : (Lock.context, Mode.write) ∉ held → ∀ s, (f s).context = s.context ∧ (f s).feConns = s.feConns)
    (inside : held ≠ []) : Guarded held (inShared (change f)) held := by
  refine .modify (fun h s => ?_) (fun h => absurd h inside) (.done _)
  obtain ⟨hcontext, hconns⟩ := common h (sharedOf s)
  simp only [withShared, hcontext, hconns]
  rfl

theorem rdlock_context_guarded : Guarded [] (inShared (rdlock .context)) [(.context, .read)] := .enter (.done _)

theorem wrlock_context_guarded : Guarded [] (inShared (wrlock .context)) [(.context, .write)] := .enter (.done _)

theorem rdlock_backend_guarded (inside : held ≠ []) (i : ℕ) :
    Guarded held (inShared (rdlock (.backend i))) ((.backend i, .read) :: held) := .inner nofun inside (.done _)

theorem wrlock_backend_guarded (inside : held ≠ []) (i : ℕ) :
    Guarded held (inShared (wrlock (.backend i))) ((.backend i, .write) :: held) := .inner nofun inside (.done _)

theorem unlock_guarded (l : Lock) (m : Mode) : Guarded ((l, m) :: held) (inShared (unlock l)) held := .release (.done _)

theorem note_guarded (e : Event) : Guarded held (note e) held :=
  .modify (fun _ _ => rfl) (fun _ _ _ _ => rfl) (.done _)

theorem kernelOf_guarded : Guarded held kernelOf held := .get (fun _ _ _ _ => rfl) fun _ => .done _

theorem sendf_guarded (connfd : Fd) (text : List Octet) : Guarded held (sendf connfd text) held :=
  .modify (fun _ _ => rfl) (fun _ _ _ _ => rfl) (.done _)

end

/-- A program over what is shared, part by part. -/
theorem inShared_bind {α β : Type} (p : Program α) (g : α → Program β) :
    inShared (p.bind g) = (inShared p).bind fun a => inShared (g a) := Program.zoom_bind _ _ p g

theorem pgrAuthFind_guarded (username : CString) : Guarded [] (inShared (pgrAuthFind username)) [] := by
  simp only [pgrAuthFind, Program.bind_eq, inShared_bind]
  refine rdlock_context_guarded.bind fun _ => (look_guarded (List.cons_ne_nil _ _)).bind fun s => ?_
  exact (unlock_guarded _ _).bind fun _ => .done _

theorem weighBackends_guarded (m : Mode) (n i : ℕ) (cumulative : ℤ) (writer : Connection) :
    Guarded [(.context, m)] (inShared (weighBackends i cumulative writer n)) [(.context, m)] := by
  induction n generalizing i cumulative writer with
  | zero => exact .done _
  | succ n ih =>
    simp only [weighBackends, Program.bind_eq, inShared_bind]
    refine (rdlock_backend_guarded (List.cons_ne_nil _ _) i).bind fun _ => ?_
    refine (look_guarded (List.cons_ne_nil _ _)).bind fun s => (unlock_guarded _ _).bind fun _ => ?_
    exact (ih _ _ _).bind fun _ => .done _

theorem pickReader_guarded (m : Mode) (r : ℤ) (i : ℕ) (reader : Connection) (weights : List ℤ) :
    Guarded [(.context, m)] (inShared (pickReader r i reader weights)) [] := by
  induction weights generalizing i with
  | nil => exact (unlock_guarded _ _).bind fun _ => .done _
  | cons w weights ih =>
    rw [pickReader]
    split_ifs
    · simp only [Program.bind_eq, inShared_bind]
      refine (rdlock_backend_guarded (List.cons_ne_nil _ _) i).bind fun _ => ?_
      refine (look_guarded (List.cons_ne_nil _ _)).bind fun s => (unlock_guarded _ _).bind fun _ => ?_
      exact (unlock_guarded _ _).bind fun _ => .done _
    · exact ih (i + 1)

theorem determineBackends_guarded (reader writer : Connection) (r : ℤ) :
    Guarded [] (inShared (determineBackends reader writer r)) [] := by
  simp only [determineBackends, Program.bind_eq, inShared_bind]
  refine rdlock_context_guarded.bind fun _ => (look_guarded (List.cons_ne_nil _ _)).bind fun s => ?_
  refine (weighBackends_guarded _ _ _ _ _).bind fun r => ?_
  obtain ⟨cumulative, weights, writer⟩ := r
  dsimp only
  split_ifs
  · exact (unlock_guarded _ _).bind fun _ => .done _
  · rw [inShared_bind]
    exact (pickReader_guarded _ _ _ _ _).bind fun _ => .done _

theorem refreshLoop_guarded (n i : ℕ) :
    Guarded [(.context, .read)] (inShared (refreshLoop i n)) [(.context, .read)] := by
  induction n generalizing i with
  | zero => exact .done _
  | succ n ih =>
    simp only [refreshLoop, Program.bind_eq, inShared_bind]
    refine (rdlock_backend_guarded (List.cons_ne_nil _ _) i).bind fun _ => ?_
    refine (change_guarded (fun _ s => ?_) (List.cons_ne_nil _ _)).bind fun _ => (unlock_guarded _ _).bind fun _ => ih _
    unfold refreshAt
    split <;> exact ⟨rfl, rfl⟩

theorem publishLoop_guarded (masterPos : Int32) (n i : ℕ) :
    Guarded [(.context, .write)] (inShared (publishLoop masterPos i n)) [(.context, .write)] := by
  induction n generalizing i with
  | zero => exact .done _
  | succ n ih =>
    simp only [publishLoop, Program.bind_eq, inShared_bind]
    refine (wrlock_backend_guarded (List.cons_ne_nil _ _) i).bind fun _ => ?_
    refine (look_guarded (List.cons_ne_nil _ _)).bind fun s => ?_
    split_ifs
    · rw [inShared_bind]
      exact (unlock_guarded _ _).bind fun _ => ih _
    · simp only [inShared_bind]
      refine (change_guarded (fun h => absurd ?_ h) (List.cons_ne_nil _ _)).bind fun _ => ?_
      · exact List.mem_cons_of_mem _ List.mem_cons_self
      · exact (unlock_guarded _ _).bind fun _ => ih _

/-- Between its sections the watcher looks at its cache only. -/
theorem doWatcher_guarded (f : Findings) : Guarded [] (inShared (doWatcher f)) [] := by
  simp only [doWatcher, Program.bind_eq, inShared_bind]
  refine rdlock_context_guarded.bind fun _ => ?_
  refine (change_guarded (fun _ s => ?_) (List.cons_ne_nil _ _)).bind fun _ => ?_
  · split_ifs <;> exact ⟨rfl, rfl⟩
  refine (look_guarded (List.cons_ne_nil _ _)).bind fun s => (refreshLoop_guarded _ _).bind fun _ => ?_
  refine (unlock_guarded _ _).bind fun _ => .get (fun _ _ _ _ => rfl) fun s => ?_
  refine .modify (fun _ _ => rfl) (fun _ _ _ _ => rfl) (wrlock_context_guarded.bind fun _ => ?_)
  refine (look_guarded (List.cons_ne_nil _ _)).bind fun s => ?_
  split_ifs
  · exact unlock_guarded _ _
  · simp only [inShared_bind]
    refine (change_guarded (fun h => absurd List.mem_cons_self h) (List.cons_ne_nil _ _)).bind fun _ => ?_
    exact (publishLoop_guarded _ _ _).bind fun _ => unlock_guarded _ _

theorem reload_guarded (text : List Octet) :
    Guarded [] (inShared (reload text)) [] := by
  simp only [reload, Program.bind_eq, inShared_bind]
  refine wrlock_context_guarded.bind fun _ => (look_guarded (List.cons_ne_nil _ _)).bind fun s => ?_
  split
  · exact .abort
  · simp only [inShared_bind]
    refine (change_guarded (fun h => absurd List.mem_cons_self h) (List.cons_ne_nil _ _)).bind fun _ => ?_
    split_ifs
    · exact unlock_guarded _ _
    · exact unlock_guarded _ _

namespace Noted

theorem pgrConnAccept_guarded (usernames : List CString) : Guarded [] (pgrConnAccept usernames) [] := by
  induction usernames with
  | nil => exact .done _
  | cons username usernames ih =>
    exact (pgrAuthFind_guarded username).bind fun md5 => (note_guarded _).bind fun _ => ih

theorem Worker.handleClient_guarded (v : Visit) : Guarded [] (Worker.handleClient v) [] := by
  refine (pgrConnAccept_guarded _).bind fun _ => ?_
  split_ifs
  · exact (determineBackends_guarded _ _ _).bind fun _ => note_guarded _
  · exact .done _

theorem addClients_guarded (d : ℤ) : Guarded [] (addClients d) [] := by
  refine wrlock_context_guarded.bind fun _ => (look_guarded (List.cons_ne_nil _ _)).bind fun s => ?_
  refine (change_guarded (fun h => absurd List.mem_cons_self h) (List.cons_ne_nil _ _)).bind fun _ => ?_
  exact unlock_guarded _ _

theorem doWorker_guarded (v : Visit) : Guarded [] (doWorker v) [] :=
  (addClients_guarded 1).bind fun _ => (Worker.handleClient_guarded v).bind fun _ => addClients_guarded (-1)

theorem tellBackend_guarded {held : Foundation.Held Lock} (connfd : Fd) (b : Option Backend) :
    Guarded held (tellBackend connfd b) held := by
  cases b with
  | none => exact .done _
  | some b => exact sendf_guarded _ _

theorem tellBackends_guarded (connfd : Fd) (n i : ℕ) :
    Guarded [(.context, .read)] (tellBackends connfd i n) [(.context, .read)] := by
  induction n generalizing i with
  | zero => exact .done _
  | succ n ih =>
    refine (rdlock_backend_guarded (List.cons_ne_nil _ _) i).bind fun _ => ?_
    refine (look_guarded (List.cons_ne_nil _ _)).bind fun s => (tellBackend_guarded _ _).bind fun _ => ?_
    exact (unlock_guarded _ _).bind fun _ => ih _

theorem Monitor.handleClient_guarded (connfd : Fd) : Guarded [] (Monitor.handleClient connfd) [] := by
  refine rdlock_context_guarded.bind fun _ => ?_
  refine (look_guarded (List.cons_ne_nil _ _)).bind fun s => (sendf_guarded _ _).bind fun _ => ?_
  refine (look_guarded (List.cons_ne_nil _ _)).bind fun s => (sendf_guarded _ _).bind fun _ => ?_
  refine (look_guarded (List.cons_ne_nil _ _)).bind fun s => (sendf_guarded _ _).bind fun _ => ?_
  refine (look_guarded (List.cons_ne_nil _ _)).bind fun s => (tellBackends_guarded _ _ _).bind fun _ => ?_
  exact unlock_guarded _ _

theorem doMonitor_guarded (connfd : Fd) : Guarded [] (doMonitor connfd) [] := by
  refine kernelOf_guarded.bind fun before => (Monitor.handleClient_guarded connfd).bind fun _ => ?_
  exact kernelOf_guarded.bind fun after => note_guarded _

/-- **Every program is guarded by the lock of the context.** -/
theorem programs_guarded {n : ℕ} (t : ThreadId n) :
    ∀ p ∈ programs t, Guarded [] p [] := by
  intro p hp
  cases t with
  | supervisor =>
    obtain ⟨text, rfl⟩ := hp
    exact reload_guarded text
  | watcher =>
    obtain ⟨f, rfl⟩ := hp
    exact doWatcher_guarded f
  | monitor =>
    obtain ⟨connfd, rfl⟩ := hp
    exact doMonitor_guarded connfd
  | worker i =>
    obtain ⟨v, rfl⟩ := hp
    exact doWorker_guarded v

end Noted

/-! ### The programs take the locks in order -/

namespace Noted

/-- The program takes the locks in order. -/
abbrev Balanced (held : Held) (p : Private Unit) (held' : Held) : Prop := p.Balanced May held held'

theorem pgrConnAccept_balanced (usernames : List CString) : Balanced [] (pgrConnAccept usernames) [] := by
  induction usernames with
  | nil => exact .done _
  | cons username usernames ih => exact (pgrAuthFind_balanced username).zoom.bind fun md5 => .modify ih

theorem Worker.handleClient_balanced (v : Visit) : Balanced [] (Worker.handleClient v) [] := by
  refine (pgrConnAccept_balanced _).bind fun _ => ?_
  split_ifs
  · exact (determineBackends_balanced _ _ _).zoom.bind fun _ => .modify (.done ())
  · exact .done _

theorem addClients_balanced (d : ℤ) : Balanced [] (addClients d) [] :=
  .acquire .context (.get fun _ => .modify (.release (.done ())))

theorem doWorker_balanced (v : Visit) : Balanced [] (doWorker v) [] :=
  (addClients_balanced 1).bind fun _ => (Worker.handleClient_balanced v).bind fun _ => addClients_balanced (-1)

theorem tellBackend_balanced (connfd : Fd) (b : Option Backend) (held : Held) :
    Balanced held (tellBackend connfd b) held := by
  cases b with
  | none => exact .done _
  | some b => exact .modify (.done ())

theorem tellBackends_balanced (connfd : Fd) (m : Mode) (n i : ℕ) :
    Balanced [(.context, m)] (tellBackends connfd i n) [(.context, m)] := by
  induction n generalizing i with
  | zero => exact .done _
  | succ n ih =>
    refine (rdlock_backend_balanced m i).zoom.bind fun _ => (look_balanced _).zoom.bind fun s => ?_
    exact (tellBackend_balanced _ _ _).bind fun _ => (unlock_balanced _ _ _).zoom.bind fun _ => ih _

theorem Monitor.handleClient_balanced (connfd : Fd) : Balanced [] (Monitor.handleClient connfd) [] := by
  refine .acquire .context (.get fun _ => .modify (.get fun _ => .modify (.get fun _ => .modify (.get fun _ => ?_))))
  exact (tellBackends_balanced _ _ _ _).bind fun _ => .release (.done ())

theorem doMonitor_balanced (connfd : Fd) : Balanced [] (doMonitor connfd) [] :=
  .get fun _ => (Monitor.handleClient_balanced connfd).bind fun _ => .get fun _ => .modify (.done ())

theorem programs_balanced {n : ℕ} (t : ThreadId n) :
    ∀ p ∈ programs t, Balanced [] p [] := by
  intro p hp
  cases t with
  | supervisor =>
    obtain ⟨text, rfl⟩ := hp
    exact (reload_balanced text).zoom
  | watcher =>
    obtain ⟨f, rfl⟩ := hp
    exact (doWatcher_balanced f).zoom
  | monitor =>
    obtain ⟨connfd, rfl⟩ := hp
    exact doMonitor_balanced connfd
  | worker i =>
    obtain ⟨v, rfl⟩ := hp
    exact doWorker_balanced v

end Noted

/-! ### Every state of the router -/

/-- What the threads have of their own when they are started. -/
def ownStart {n : ℕ} (kernels : ThreadId n → Kernel) (t : ThreadId n) : Own := ⟨[], kernels t, []⟩

/-- A state of the threads of a router with `n` workers. -/
abbrev NotedRouter (n : ℕ) := Foundation.Threads (Common × (ThreadId n → Own)) Lock (ThreadId n)

/-- The states that the threads can reach in any order of their steps, from when they are started on a context. -/
def NotedReachable {n : ℕ} (c : Context) (kernels : ThreadId n → Kernel) (x : NotedRouter n) :
    Prop :=
  Foundation.Threads.Reachable (fun t => Program.at t '' Noted.programs t) (⟨c, 0⟩, ownStart kernels) x

/-- A state of the threads, in which each section is one step. -/
abbrev SerialRouter (n : ℕ) := Foundation.Serial Common Own Lock (ThreadId n)

/-- The states that the threads can reach by whole sections. -/
def SerialReachable {n : ℕ} (c : Context) (kernels : ThreadId n → Kernel) (X : SerialRouter n) :
    Prop :=
  Foundation.Serial.Reachable .context Noted.programs ⟨c, 0⟩ (ownStart kernels) X

/-! ### Where no thread is in a section -/

/-- The state in which each thread has to do what it has in `X`, and none is in a section. -/
def paused {n : ℕ} (X : SerialRouter n) : NotedRouter n := ⟨(X.common, X.own), fun t => ⟨[], (X.code t).at t⟩⟩

section

variable {n : ℕ} {c : Context} {kernels : ThreadId n → Kernel} {X : SerialRouter n} {t : ThreadId n}

theorem paused_goOn (X : SerialRouter n) (t : ThreadId n) (p : Private Unit) (s : Common × Own) :
    ({ (paused X).goOn t [] (p.at t) with shared := (s.1, Function.update X.own t s.2) } : NotedRouter n) =
      paused (X.goOn t p s) := by
  refine congrArg (Foundation.Threads.mk _) (funext fun u => ?_)
  by_cases hu : u = t
  · subst hu
    refine (Foundation.Threads.goOn_self _ _ _ _).trans ?_
    simp [Foundation.Serial.goOn]
  · refine (Foundation.Threads.goOn_of_ne hu _ _).trans ?_
    simp [Foundation.Serial.goOn, paused, Function.update_of_ne hu]

/-- A thread that has no work begins with a program. -/
theorem NotedReachable.begin (run : NotedReachable c kernels (paused X)) (idle : X.code t = .done ())
    {p : Private Unit} (mem : p ∈ Noted.programs t) :
    NotedReachable c kernels (paused (X.goOn t p (X.seen t))) := by
  have here : (paused X).thread t = ⟨[], .done ()⟩ := by
    change (⟨[], (X.code t).at t⟩ : Foundation.Thread _ _) = _
    rw [idle]
    rfl
  have hstep := Relation.ReflTransGen.tail run (.begin here ⟨p, mem, rfl⟩)
  have hshared : (X.common, X.own) = ((X.seen t).1, Function.update X.own t (X.seen t).2) := by
    rw [Foundation.Serial.seen, Function.update_eq_self]
  rw [← paused_goOn, ← hshared]
  exact hstep

/-- A thread goes on with a part of its program, while the others wait where they are. -/
theorem NotedReachable.resume (run : NotedReachable c kernels (paused X)) {α : Type} {p : Private α}
    {g : α → Private Unit} (here : X.code t = p.bind g) (balanced : p.Balanced May [] []) {a : α} {s : Common × Own}
    (hrun : p.run (X.seen t) = some (a, s)) : NotedReachable c kernels (paused (X.goOn t (g a) s)) := by
  have hfresh : ∀ held l, May held l → ∀ q ∈ held, q.1 ≠ l := by
    intro held l hmay q hq heq
    have hlt := May.rank_lt held l hmay q hq
    rw [heq] at hlt
    exact absurd hlt (lt_irrefl _)
  have hwhole : (p.at t).run (paused X).shared = some (a, (s.1, Function.update X.own t s.2)) := by
    rw [Program.at, Program.run_zoom (fun _ _ => by simp) (fun _ _ _ => by simp) (fun _ => by simp)]
    change (p.run (X.seen t)).map _ = _
    rw [hrun]
    rfl
  have here : (paused X).thread t = ⟨[], (p.at t).bind fun a => (g a).at t⟩ := by
    change (⟨[], (X.code t).at t⟩ : Foundation.Thread _ _) = _
    rw [here, Program.at, Program.zoom_bind]
    rfl
  have hrest : Relation.ReflTransGen (Foundation.Threads.Step fun t => Program.at t '' Noted.programs t) _ _ :=
    Foundation.Threads.run_alone hfresh balanced.zoom here (fun _ _ => rfl) hwhole
  rw [← paused_goOn]
  exact run.trans hrest

/-- It begins with a program, and runs the first part of it. -/
theorem NotedReachable.part (run : NotedReachable c kernels (paused X)) (idle : X.code t = .done ()) {α : Type}
    {p : Private α} {g : α → Private Unit} (mem : p.bind g ∈ Noted.programs t) (balanced : p.Balanced May [] [])
    {a : α} {s : Common × Own} (hrun : p.run (X.seen t) = some (a, s)) :
    NotedReachable c kernels (paused (X.goOn t (g a) s)) := by
  have hseen : (X.goOn t (p.bind g) (X.seen t)).seen t = X.seen t := by
    simp [Foundation.Serial.goOn, Foundation.Serial.seen]
  have hrest := (run.begin idle mem).resume (t := t) (p := p) (g := g) (by simp [Foundation.Serial.goOn]) balanced
    (hseen.symm ▸ hrun)
  have hgoOn : (X.goOn t (p.bind g) (X.seen t)).goOn t (g a) s = X.goOn t (g a) s := by
    simp [Foundation.Serial.goOn]
  rwa [hgoOn] at hrest

/-- It runs a whole program. -/
theorem NotedReachable.whole (run : NotedReachable c kernels (paused X)) (idle : X.code t = .done ())
    {p : Private Unit} (mem : p ∈ Noted.programs t) {s : Common × Own} (hrun : p.run (X.seen t) = some ((), s)) :
    NotedReachable c kernels (paused (X.goOn t (.done ()) s)) :=
  run.part idle (p := p) (g := .done) (by rwa [Program.bind_done]) (Noted.programs_balanced t p mem) hrun

/-- No thread has begun. -/
theorem NotedReachable.start (c : Context) (kernels : ThreadId n → Kernel) :
    NotedReachable c kernels (paused (.start ⟨c, 0⟩ (ownStart kernels))) := .refl

/-- A worker counts its client. -/
theorem NotedReachable.count (run : NotedReachable c kernels (paused X)) {i : Fin n}
    (idle : X.code (.worker i) = .done ()) (v : Visit) :
    NotedReachable c kernels (paused (X.goOn (.worker i)
      ((Noted.Worker.handleClient v).bind fun _ => Noted.addClients (-1))
      ({ X.common with feConns := X.common.feConns + 1 }, X.own (.worker i)))) :=
  run.part idle ⟨v, rfl⟩ (Noted.addClients_balanced 1) rfl

end

/-- **The router is serializable.** However many workers there are, whatever is decided outside, and whatever
the order of the steps: what the threads have reached is also reached by sections that are run one after
the other without interruption. Each thread that is in no section has the same cache, has written the same
and been seen to do the same, and has the same still to do, and when no thread writes, the context and the
number of the clients are the same. -/
theorem serializable {n : ℕ} {c : Context} {kernels : ThreadId n → Kernel} {x : NotedRouter n}
    (run : NotedReachable c kernels x) : ∃ X : SerialRouter n, SerialReachable c kernels X ∧
      (∀ t, (x.thread t).held = [] → X.own t = x.shared.2 t ∧ (x.thread t).code = (X.code t).at t) ∧
      ((∀ t, (Lock.context, Mode.write) ∉ (x.thread t).held) → X.common = x.shared.1) := by
  obtain ⟨X, hX, htracked⟩ := Foundation.Threads.exists_serial Noted.programs_guarded run
  refine ⟨X, hX, fun t hnil => ?_, htracked.common⟩
  obtain ⟨code, hcode, htracks⟩ := htracked.thread t
  rw [hnil] at htracks
  obtain rfl : X.code t = code := htracks.next
  exact ⟨htracks.own, hcode⟩

/-- Two workers have counted their clients, the one before the other has gone on. -/
theorem serializable_counted : ∃ (x : NotedRouter 2) (X : SerialRouter 2), x.shared.1.feConns = 2 ∧
    SerialReachable .zero (fun _ => .eager fun _ => []) X ∧ X.common = x.shared.1 := by
  have h₁ := (NotedReachable.start .zero fun _ : ThreadId 2 => .eager fun _ => []).count (i := 0) rfl someVisit
  have h₂ := h₁.count (i := 1) rfl someVisit
  obtain ⟨X, hX, -, hcommon⟩ := serializable h₂
  exact ⟨_, X, rfl, hX, hcommon fun _ => List.not_mem_nil⟩

end PgRouter.Threads
