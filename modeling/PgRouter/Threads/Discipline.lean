import PgRouter.Threads.Programs

/-!
# The locks of the threads

Which locks the programs of the threads take while they have others, and that the threads cannot block
each other for good.

## What is proved

The lock of the context is taken when no lock is held, and that of a backend when the lock of the context
is the only one (`May`). Every program keeps to that and releases what it takes, on each of its branches
(`programs_balanced`). So in every state that can be reached each thread is orderly, and no threads are
deadlocked (`lock_discipline`).
-/

namespace PgRouter.Threads

open Config Foundation Text Watcher Wire

/-- The locks that a thread has. -/
abbrev Held := Foundation.Held Lock

/-- The order of the locks: which may be taken by a thread that has others. -/
inductive May : Held → Lock → Prop
  /-- The lock of the context, if no lock is held. -/
  | context : May [] .context
  /-- The lock of a backend, if only the lock of the context is held. -/
  | backend (m : Mode) (i : ℕ) : May [(.context, m)] (.backend i)

/-- The program keeps to the order of the locks. -/
abbrev Balanced {α : Type} (held : Held) (p : Program α) (held' : Held) : Prop := p.Balanced May held held'

/-! ### The programs keep to the order -/

theorem look_balanced (held : Held) : Balanced held look held := .get fun s => .done s

theorem change_balanced (f : Shared → Shared) (held : Held) : Balanced held (change f) held := .modify (.done ())

theorem unlock_balanced (l : Lock) (m : Mode) (held : Held) : Balanced ((l, m) :: held) (unlock l) held :=
  .release (.done ())

theorem rdlock_context_balanced : Balanced [] (rdlock .context) [(.context, .read)] := .acquire .context (.done ())

theorem wrlock_context_balanced : Balanced [] (wrlock .context) [(.context, .write)] := .acquire .context (.done ())

theorem rdlock_backend_balanced (m : Mode) (i : ℕ) :
    Balanced [(.context, m)] (rdlock (.backend i)) [(.backend i, .read), (.context, m)] :=
  .acquire (.backend m i) (.done ())

theorem wrlock_backend_balanced (m : Mode) (i : ℕ) :
    Balanced [(.context, m)] (wrlock (.backend i)) [(.backend i, .write), (.context, m)] :=
  .acquire (.backend m i) (.done ())

/-- A user is looked up when no lock is held. -/
theorem pgrAuthFind_balanced (username : CString) : Balanced [] (pgrAuthFind username) [] := by
  refine rdlock_context_balanced.bind fun _ => (look_balanced _).bind fun s => ?_
  exact (unlock_balanced _ _ _).bind fun _ => .done _

theorem weighBackends_balanced (m : Mode) (n i : ℕ) (cumulative : ℤ) (writer : Connection) :
    Balanced [(.context, m)] (weighBackends i cumulative writer n) [(.context, m)] := by
  induction n generalizing i cumulative writer with
  | zero => exact .done _
  | succ n ih =>
    refine (rdlock_backend_balanced m i).bind fun _ => (look_balanced _).bind fun s => ?_
    refine (unlock_balanced _ _ _).bind fun _ => ?_
    exact (ih _ _ _).bind fun _ => .done _

/-- The lock of the context is released behind the loop, and in it before the function returns. -/
theorem pickReader_balanced (m : Mode) (r : ℤ) (i : ℕ) (reader : Connection) (weights : List ℤ) :
    Balanced [(.context, m)] (pickReader r i reader weights) [] := by
  induction weights generalizing i with
  | nil => exact (unlock_balanced _ _ _).bind fun _ => .done _
  | cons w weights ih =>
    rw [pickReader]
    split_ifs
    · refine (rdlock_backend_balanced m i).bind fun _ => (look_balanced _).bind fun s => ?_
      refine (unlock_balanced _ _ _).bind fun _ => ?_
      exact (unlock_balanced _ _ _).bind fun _ => .done _
    · exact ih (i + 1)

theorem determineBackends_balanced (reader writer : Connection) (r : ℤ) :
    Balanced [] (determineBackends reader writer r) [] := by
  refine rdlock_context_balanced.bind fun _ => (look_balanced _).bind fun s => ?_
  refine (weighBackends_balanced _ _ _ _ _).bind fun ⟨cumulative, weights, writer⟩ => ?_
  dsimp only
  split_ifs
  · exact (unlock_balanced _ _ _).bind fun _ => .done _
  · exact (pickReader_balanced _ _ _ _ _).bind fun _ => .done _

theorem pgrConnAccept_balanced (usernames : List CString) : Balanced [] (pgrConnAccept usernames) [] := by
  induction usernames with
  | nil => exact .done _
  | cons username usernames ih => exact (pgrAuthFind_balanced username).bind fun _ => ih

theorem Worker.handleClient_balanced (v : Visit) : Balanced [] (Worker.handleClient v) [] := by
  refine (pgrConnAccept_balanced _).bind fun _ => ?_
  split_ifs
  · exact (determineBackends_balanced _ _ _).bind fun _ => .done _
  · exact .done _

theorem doWorker_balanced (v : Visit) : Balanced [] (doWorker v) [] := by
  refine wrlock_context_balanced.bind fun _ => (change_balanced _ _).bind fun _ => ?_
  refine (unlock_balanced _ _ _).bind fun _ => (Worker.handleClient_balanced v).bind fun _ => ?_
  refine wrlock_context_balanced.bind fun _ => (change_balanced _ _).bind fun _ => ?_
  exact unlock_balanced _ _ _

theorem reportBackends_balanced (m : Mode) (n i : ℕ) :
    Balanced [(.context, m)] (reportBackends i n) [(.context, m)] := by
  induction n generalizing i with
  | zero => exact .done _
  | succ n ih =>
    refine (rdlock_backend_balanced m i).bind fun _ => (look_balanced _).bind fun s => ?_
    refine (unlock_balanced _ _ _).bind fun _ => ?_
    exact (ih _).bind fun _ => .done _

theorem Monitor.handleClient_balanced : Balanced [] Monitor.handleClient [] := by
  refine rdlock_context_balanced.bind fun _ => (look_balanced _).bind fun s => ?_
  refine (reportBackends_balanced _ _ _).bind fun _ => ?_
  exact (unlock_balanced _ _ _).bind fun _ => .done _

theorem refreshLoop_balanced (m : Mode) (n i : ℕ) : Balanced [(.context, m)] (refreshLoop i n) [(.context, m)] := by
  induction n generalizing i with
  | zero => exact .done _
  | succ n ih =>
    refine (rdlock_backend_balanced m i).bind fun _ => (change_balanced _ _).bind fun _ => ?_
    exact (unlock_balanced _ _ _).bind fun _ => ih _

/-- The lock of a backend is released also where it is skipped. -/
theorem publishLoop_balanced (m : Mode) (masterPos : Int32) (n i : ℕ) :
    Balanced [(.context, m)] (publishLoop masterPos i n) [(.context, m)] := by
  induction n generalizing i with
  | zero => exact .done _
  | succ n ih =>
    refine (wrlock_backend_balanced m i).bind fun _ => (look_balanced _).bind fun s => ?_
    split_ifs
    · exact (unlock_balanced _ _ _).bind fun _ => ih _
    · refine (change_balanced _ _).bind fun _ => ?_
      exact (unlock_balanced _ _ _).bind fun _ => ih _

theorem doWatcher_balanced (f : Findings) : Balanced [] (doWatcher f) [] := by
  refine rdlock_context_balanced.bind fun _ => (change_balanced _ _).bind fun _ => ?_
  refine (look_balanced _).bind fun s => (refreshLoop_balanced _ _ _).bind fun _ => ?_
  refine (unlock_balanced _ _ _).bind fun _ => (look_balanced _).bind fun s => ?_
  refine (change_balanced _ _).bind fun _ => wrlock_context_balanced.bind fun _ => ?_
  refine (look_balanced _).bind fun s => ?_
  split_ifs
  · exact unlock_balanced _ _ _
  · refine (change_balanced _ _).bind fun _ => (publishLoop_balanced _ _ _ _).bind fun _ => ?_
    exact unlock_balanced _ _ _

theorem reload_balanced (text : List Octet) : Balanced [] (reload text) [] := by
  refine wrlock_context_balanced.bind fun _ => (look_balanced _).bind fun s => ?_
  split
  · exact .abort
  · refine (change_balanced _ _).bind fun _ => ?_
    split_ifs
    · exact unlock_balanced _ _ _
    · exact unlock_balanced _ _ _

/-- **Every program takes its locks in order, and releases them.** -/
theorem programs_balanced {n : ℕ} (t : ThreadId n) :
    ∀ p ∈ programs t, Balanced [] p [] := by
  intro p hp
  cases t with
  | supervisor =>
    obtain ⟨text, rfl⟩ := hp
    exact reload_balanced text
  | watcher =>
    obtain ⟨f, rfl⟩ := hp
    exact doWatcher_balanced f
  | monitor =>
    obtain rfl := hp
    exact Monitor.handleClient_balanced.bind fun _ => .done ()
  | worker i =>
    obtain ⟨v, rfl⟩ := hp
    exact doWorker_balanced v

/-! ### The order of the locks -/

/-- The place of a lock in the order. -/
def Lock.rank : Lock → ℕ
  | context => 0
  | backend _ => 1

theorem Lock.rank_le (l : Lock) : l.rank ≤ 1 := by
  cases l with
  | context => exact Nat.zero_le _
  | backend i => exact le_rfl

/-- A lock that may be taken is behind those that are held. -/
theorem May.rank_lt (held : Held) (l : Lock) (h : May held l) : ∀ p ∈ held, p.1.rank < l.rank := by
  cases h with
  | context => exact fun p hp => absurd hp List.not_mem_nil
  | backend m i =>
    intro p hp
    obtain rfl := List.mem_singleton.mp hp
    exact Nat.zero_lt_one

/-- The locks that a thread can have: none, that of the context, or that and one of a backend. -/
inductive Held.Possible : Held → Prop
  /-- No lock. -/
  | none : Possible []
  /-- The lock of the context. -/
  | context (m : Mode) : Possible [(.context, m)]
  /-- The lock of a backend, which was taken after that of the context. -/
  | backend (m : Mode) (i : ℕ) (m' : Mode) : Possible [(.backend i, m'), (.context, m)]

theorem possible_of_allowed {held : Held} (h : Foundation.Held.Allowed May held) : Held.Possible held := by
  cases h with
  | nil => exact .none
  | @cons held l m allowed =>
    cases allowed with
    | context => exact .context m
    | backend m' i => exact .backend m' i m

/-- A thread that does not break the rules. -/
structure Orderly (t : Thread Shared Lock) : Prop where
  /-- It has at most the lock of the context and, taken after it, that of one backend. -/
  held : Held.Possible t.held
  /-- When it takes the lock of the context it has no lock. -/
  context : ∀ m k, t.code = .acquire m .context k → t.held = []
  /-- When it takes the lock of a backend it has the lock of the context, and no other. -/
  backend : ∀ m i k, t.code = .acquire m (.backend i) k → ∃ m', t.held = [(.context, m')]
  /-- A lock that it releases is the one that it has taken last. -/
  release : ∀ l k, t.code = .release l k → ∃ m, t.held.head? = some (l, m)
  /-- When it is over it has no lock. -/
  done : t.code = .done () → t.held = []

theorem orderly_of_disciplined {t : Thread Shared Lock} (h : t.Disciplined May) : Orderly t where
  held := possible_of_allowed h.allowed
  context := by
    intro m k hcode
    have hmay := h.may_of_acquire hcode
    generalize t.held = held at hmay
    cases hmay with
    | context => rfl
  backend := by
    intro m i k hcode
    have hmay := h.may_of_acquire hcode
    generalize t.held = held at hmay
    cases hmay with
    | backend m' i => exact ⟨m', rfl⟩
  release := fun l k hcode => h.head?_of_release hcode
  done := h.held_of_done

/-! ### Every state of the router -/

/-- A state of the threads of a router with `n` workers. -/
abbrev Router (n : ℕ) := Foundation.Threads Shared Lock (ThreadId n)

/-- The states that the threads can reach, from when they are started on a context. -/
def Reachable {n : ℕ} (c : Context) (x : Router n) : Prop :=
  Foundation.Threads.Reachable programs ⟨c, 0, []⟩ x

/-- **The locks of the threads.** However many workers there are, whatever order the threads take turns
in, and whatever is decided outside, every thread is orderly, and there are no threads each of which is
blocked by one of them, where a waiting writer blocks new readers. -/
theorem lock_discipline {n : ℕ} {c : Context} {x : Router n} (run : Reachable c x) :
    (∀ t, Orderly (x.thread t)) ∧ ∀ S, ¬ x.Deadlocked S :=
  ⟨fun t => orderly_of_disciplined (Foundation.Threads.reachable_disciplined programs_balanced run t),
    Foundation.Threads.not_deadlocked programs_balanced May.rank_lt Lock.rank_le run⟩

/-- A client's connection. -/
def someVisit : Visit := ⟨[], false, pgrConnInit (.replicate 4 0), pgrConnInit (.replicate 4 0), 0⟩

/-- The monitor has the lock of the context, a worker waits to write, and so the watcher to read. -/
theorem lock_discipline_waiting : ∃ x : Router 1, x.BlockedBy .watcher (.worker 0) ∧ x.BlockedBy (.worker 0) .monitor ∧
    (∀ t, Orderly (x.thread t)) ∧ ∀ S, ¬ x.Deadlocked S := by
  let x₀ : Router 1 := .start ⟨.zero, 0, []⟩
  let x₁ := x₀.goOn .monitor [] (Functor.discard Monitor.handleClient)
  let x₂ := x₁.goOn (.worker 0) [] (doWorker someVisit)
  let x₃ := x₂.goOn .watcher [] (doWatcher ⟨fun _ => .bad, 0⟩)
  have h₁ : Foundation.Threads.Step programs x₀ x₁ := .begin rfl rfl
  have h₂ : Foundation.Threads.Step programs x₁ x₂ := .begin rfl ⟨someVisit, rfl⟩
  have h₃ : Foundation.Threads.Step programs x₂ x₃ := .begin rfl ⟨_, rfl⟩
  have hnone : ∀ u, (x₃.thread u).held = [] := by
    intro u
    cases u with
    | supervisor => rfl
    | watcher => rfl
    | monitor => rfl
    | worker i =>
      obtain rfl : i = 0 := Subsingleton.elim i 0
      rfl
  have h₄ : Foundation.Threads.Step programs x₃ (x₃.goOn .monitor [(.context, .read)] _) :=
    .acquire rfl fun u m' hmem => absurd (hnone u ▸ hmem) List.not_mem_nil
  refine ⟨_, ?_, ?_, lock_discipline ((((Relation.ReflTransGen.single h₁).tail h₂).tail h₃).tail h₄)⟩
  · exact ⟨.read, .context, _, rfl, .inr ⟨rfl, _, rfl⟩⟩
  · exact ⟨.write, .context, _, rfl, .inl ⟨.read, List.mem_singleton.mpr rfl, .inl rfl⟩⟩

/-- A thread that waits does so in the end for one that can go on. -/
theorem waits_for_unblocked {n : ℕ} {c : Context} {x : Router n} (run : Reachable c x)
    (t : ThreadId n) : ∃ u, Relation.ReflTransGen x.BlockedBy t u ∧ ∀ v, ¬ x.BlockedBy u v :=
  Foundation.Threads.exists_not_blocked programs_balanced May.rank_lt Lock.rank_le run t

end PgRouter.Threads
