import Mathlib.Algebra.Order.BigOperators.Group.Finset
import PgRouter.Config.Reload
import PgRouter.Threads.Sections
import PgRouter.Worker.DetermineBackends

/-!
# What can be seen of the threads

The watcher writes to the context backend by backend, the configuration may be loaded again at any time, and
workers come and go with their clients. What the monitor tells, what a worker chooses and what a look-up
returns depends on none of the states between.

## What is proved

A context is published if the watcher and the supervisor can have left it, without a section being under way
(`Published`). In every state of the router the context is published when no thread writes to it, and no more
clients are counted than there are workers that are busy (`common_published`). Whatever the order of the
steps, every look-up returns what was in the database at the start (`lookedUp_stable`), every report of the
monitor can be read and is a report of one published context (`report_consistent`), and every choice is a choice
among the backends of one (`chosen_together`).
-/

namespace PgRouter.Threads

open Config Foundation Text Watcher Wire

/-! ### The sections -/

/-- The first section of a round of the watcher. -/
def refreshSection : Program Unit := do
  rdlock .context
  change fun s =>
    if s.context.backends.length ≠ s.health.length then
      { s with health := List.replicate s.context.backends.length .zero }
    else s
  let s ← look
  refreshLoop 0 s.health.length
  unlock .context

/-- The second section. -/
def publishSection (masterPos : Int32) : Program Unit := do
  wrlock .context
  let s ← look
  if s.context.backends.length ≠ s.health.length then
    unlock .context
  else
    change fun s => { s with context := { s.context with okBackends := 0 } }
    publishLoop masterPos 0 s.health.length
    unlock .context

/-- A round of the watcher: two sections, and between them the checks. -/
theorem doWatcher_eq (f : Findings) : doWatcher f = refreshSection.bind fun _ => look.bind fun s =>
    (change fun x => { x with health := (checkBackends f.probe 0 f.masterPos s.health).1 }).bind fun _ =>
      publishSection (checkBackends f.probe 0 f.masterPos s.health).2 := by
  simp only [doWatcher, refreshSection, publishSection, Program.bind_eq, Program.bind_assoc]

/-- A program that takes no locks but those of the backends, and releases only these. -/
theorem look_keeps : look.Keeps Lock.context := fun _ => trivial

theorem change_keeps (f : Shared → Shared) : (change f).Keeps Lock.context := trivial

theorem unlock_closes : (unlock .context).Closes Lock.context := ⟨fun _ => ⟨(), rfl⟩, fun h => absurd rfl h⟩

theorem unlock_backend_keeps (i : ℕ) : (unlock (.backend i)).Keeps Lock.context := ⟨nofun, trivial⟩

theorem rdlock_keeps (l : Lock) : (rdlock l).Keeps Lock.context := trivial

theorem wrlock_keeps (l : Lock) : (wrlock l).Keeps Lock.context := trivial

theorem pgrAuthFind_isSection (username : CString) : (pgrAuthFind username).IsSection Lock.context :=
  ⟨.read, _, rfl, look_keeps.closes fun _ => unlock_closes.map _⟩

theorem weighBackends_keeps (n i : ℕ) (cumulative : ℤ) (writer : Connection) :
    (weighBackends i cumulative writer n).Keeps Lock.context := by
  induction n generalizing i cumulative writer with
  | zero => trivial
  | succ n ih =>
    refine (rdlock_keeps _).bind fun _ => look_keeps.bind fun s => (unlock_backend_keeps i).bind fun _ => ?_
    exact (ih _ _ _).bind fun _ => trivial

theorem pickReader_closes (r : ℤ) (i : ℕ) (reader : Connection) (weights : List ℤ) :
    (pickReader r i reader weights).Closes Lock.context := by
  induction weights generalizing i with
  | nil => exact unlock_closes.map _
  | cons w weights ih =>
    rw [pickReader]
    split_ifs
    · refine (rdlock_keeps _).closes fun _ => look_keeps.closes fun s => (unlock_backend_keeps i).closes fun _ => ?_
      exact unlock_closes.map _
    · exact ih (i + 1)

theorem determineBackends_isSection (reader writer : Connection) (r : ℤ) :
    (determineBackends reader writer r).IsSection Lock.context := by
  refine ⟨.read, _, rfl, look_keeps.closes fun s => ?_⟩
  refine (weighBackends_keeps _ _ _ _).closes fun ⟨cumulative, weights, w⟩ => ?_
  dsimp only
  split_ifs
  · exact unlock_closes.map _
  · exact (pickReader_closes _ _ _ _).map _

theorem refreshLoop_keeps (n i : ℕ) : (refreshLoop i n).Keeps Lock.context := by
  induction n generalizing i with
  | zero => trivial
  | succ n ih =>
    exact (rdlock_keeps _).bind fun _ => (change_keeps _).bind fun _ => (unlock_backend_keeps i).bind fun _ => ih _

theorem publishLoop_keeps (masterPos : Int32) (n i : ℕ) : (publishLoop masterPos i n).Keeps Lock.context := by
  induction n generalizing i with
  | zero => trivial
  | succ n ih =>
    refine (wrlock_keeps _).bind fun _ => look_keeps.bind fun s => ?_
    split_ifs
    · exact (unlock_backend_keeps i).bind fun _ => ih _
    · exact (change_keeps _).bind fun _ => (unlock_backend_keeps i).bind fun _ => ih _

theorem refreshSection_isSection : refreshSection.IsSection Lock.context :=
  ⟨.read, _, rfl, (change_keeps _).closes fun _ => look_keeps.closes fun _ => (refreshLoop_keeps _ _).closes fun _ =>
    unlock_closes⟩

theorem publishSection_isSection (masterPos : Int32) : (publishSection masterPos).IsSection Lock.context := by
  refine ⟨.write, _, rfl, look_keeps.closes fun s => ?_⟩
  split_ifs
  · exact unlock_closes
  · exact (change_keeps _).closes fun _ => (publishLoop_keeps _ _ _).closes fun _ => unlock_closes

/-! ### What a section does -/

theorem inShared_run {α : Type} (p : Program α) (s : Common × Own) :
    (inShared p).run s = (p.run (sharedOf s)).map fun (a, x) => (a, withShared s x) := by
  have hview : ∀ s x, sharedOf (withShared s x) = x := fun _ _ => rfl
  have hput : ∀ s x y, withShared (withShared s x) y = withShared s y := fun _ _ _ => rfl
  exact Program.run_zoom hview hput (fun _ => rfl) p s

theorem pgrAuthFind_run (username : CString) (s : Shared) :
    (pgrAuthFind username).run s = some (PgRouter.pgrAuthFind s.context username, s) := rfl

/-- The cache is refreshed. -/
theorem refreshSection_run (s : Shared) :
    refreshSection.run s = some ((), { s with health := refresh s.context s.health }) := by
  let hs :=
    if s.context.backends.length ≠ s.health.length then List.replicate s.context.backends.length .zero else s.health
  let s₁ : Shared := { s with health := hs }
  have hfirst : (if s.context.backends.length ≠ s.health.length then
      { s with health := List.replicate s.context.backends.length .zero } else s) = s₁ := by
    unfold s₁ hs
    split_ifs <;> rfl
  have hlen : s₁.context.backends.length = s₁.health.length := length_allocated s.context s.health
  have hrefresh : (refreshLoop 0 s₁.health.length).run s₁ =
      some ((), { s with health := refresh s.context s.health }) := by
    have h := refreshLoop_run hlen (Nat.zero_add _)
    rwa [refreshedTo_length hlen] at h
  simp only [refreshSection, Program.bind_eq, Program.run_bind, run_rdlock, run_change, run_look, run_unlock,
    Option.bind_some, hfirst, hrefresh]

/-- The findings are published. -/
theorem publishSection_run (masterPos : Int32) (s : Shared) :
    (publishSection masterPos).run s = some ((), { s with context := publish masterPos s.health s.context }) := by
  simp only [publishSection, Program.bind_eq, Program.run_bind, run_wrlock, run_look, Option.bind_some]
  by_cases hlen : s.context.backends.length = s.health.length
  · have hpublish := publishLoop_run hlen masterPos (Nat.zero_add _)
    have hstart : publishedTo masterPos s.health s.context 0 = { s.context with okBackends := 0 } := rfl
    rw [hstart] at hpublish
    rw [if_neg (not_not.mpr hlen)]
    simp only [Program.run_bind, run_change, run_unlock, Option.bind_some]
    rw [hpublish]
    rfl
  · rw [if_pos hlen, publish, if_pos hlen]
    rfl

namespace Noted

theorem addClients_isSection (d : ℤ) : (addClients d).IsSection Lock.context :=
  ⟨.write, _, rfl, fun _ => ⟨fun _ => ⟨(), rfl⟩, fun h => absurd rfl h⟩⟩

theorem addClients_run (d : ℤ) (s : Common × Own) :
    (addClients d).run s = some ((), ({ s.1 with feConns := s.1.feConns + d }, s.2)) := rfl

theorem tellBackend_keeps (connfd : Fd) (b : Option Backend) : (tellBackend connfd b).Keeps Lock.context := by
  cases b with
  | none => trivial
  | some b => trivial

theorem tellBackends_keeps (connfd : Fd) (n i : ℕ) : (tellBackends connfd i n).Keeps Lock.context := by
  induction n generalizing i with
  | zero => trivial
  | succ n ih =>
    refine Program.Keeps.bind (p := inShared (rdlock (.backend i))) trivial fun _ => ?_
    refine Program.Keeps.bind (p := inShared look) (fun _ => trivial) fun s => (tellBackend_keeps _ _).bind fun _ => ?_
    exact Program.Keeps.bind (p := inShared (unlock (.backend i))) (unlock_backend_keeps i).zoom fun _ => ih _

/-- The lines for the backends are written. -/
theorem tellBackends_run (connfd : Fd) {s : Common × Own} {i n : ℕ} (hn : i + n = s.1.context.backends.length) :
    (tellBackends connfd i n).run s = some ((), (s.1, { s.2 with
      kernel := ((s.1.context.backends.drop i).map Monitor.backendLine).foldl
        (fun k line => (Monitor.pgrSendf k connfd line).2) s.2.kernel })) := by
  induction n generalizing s i with
  | zero =>
    rw [Nat.add_zero] at hn
    rw [hn, List.drop_length]
    rfl
  | succ n ih =>
    have hi : i < s.1.context.backends.length := by omega
    let s' : Common × Own := (s.1, { s.2 with
      kernel := (Monitor.pgrSendf s.2.kernel connfd (Monitor.backendLine s.1.context.backends[i])).2 })
    have hstep : (tellBackends connfd i (n + 1)).run s = (tellBackends connfd (i + 1) n).run s' := by
      have hb : (sharedOf s).context.backends[i]? = some s.1.context.backends[i] := List.getElem?_eq_getElem hi
      change ((tellBackend connfd (sharedOf s).context.backends[i]?).bind fun _ =>
        (inShared (unlock (.backend i))).bind fun _ => tellBackends connfd (i + 1) n).run s = _
      rw [hb]
      rfl
    have hn' : i + 1 + n = s.1.context.backends.length := by omega
    rw [hstep, ih (s := s') hn', List.drop_eq_getElem_cons hi, List.map_cons,
      List.foldl_cons]

theorem Monitor.handleClient_isSection (connfd : Fd) : (Monitor.handleClient connfd).IsSection Lock.context := by
  refine ⟨.read, _, rfl, fun _ => fun _ => fun _ => fun _ => ?_⟩
  exact (tellBackends_keeps _ _ _).closes fun _ => ⟨fun _ => ⟨(), rfl⟩, fun h => absurd rfl h⟩

/-- A client of the monitor is told what is in the context. -/
theorem Monitor.handleClient_run (connfd : Fd) (s : Common × Own) : (Monitor.handleClient connfd).run s =
    some ((), (s.1, { s.2 with
      kernel := PgRouter.Monitor.monitorHandleClient s.2.kernel s.1.context s.1.feConns connfd })) := by
  let send (text : List Octet) (s : Common × Own) : Common × Own :=
    (s.1, { s.2 with kernel := (PgRouter.Monitor.pgrSendf s.2.kernel connfd text).2 })
  let s' := send (PgRouter.Monitor.clientsLine s.1.feConns) (send (PgRouter.Monitor.workersLine s.1.context.workers)
    (send (PgRouter.Monitor.backendsLine s.1.context.okBackends s.1.context.backends.length) s))
  have htell := tellBackends_run connfd (s := s') (i := 0) (Nat.zero_add _)
  change ((tellBackends connfd 0 s.1.context.backends.length).bind fun _ => inShared (unlock .context)).run s' = _
  rw [Program.run_bind, htell]
  rfl

theorem doMonitor_run (connfd : Fd) (s : Common × Own) :
    let after := PgRouter.Monitor.monitorHandleClient s.2.kernel s.1.context s.1.feConns connfd
    (doMonitor connfd).run s =
      some ((), (s.1, { s.2 with kernel := after, events := s.2.events ++ [.told connfd s.2.kernel after] })) := by
  change ((Monitor.handleClient connfd).bind fun _ => kernelOf.bind fun after =>
    note (.told connfd s.2.kernel after)).run s = _
  rw [Program.run_bind, Monitor.handleClient_run]
  rfl

end Noted

/-! ### What is published -/

/-- The watcher and the supervisor can have left the context `c'`, when they were started on `c`, and no section
that writes is under way. -/
def Published (c c' : Context) : Prop :=
  ∃ r : Watcher.Router, Relation.ReflTransGen Watcher.Step (.start c) r ∧ r.Readable ∧ r.context = c'

/-- What is seen of a thread of a router with `n` workers, which was started on `c`, is seen in one published
context. -/
def Event.Sound (n : ℕ) (c : Context) : Event → Prop
  | lookedUp username md5 => md5 = PgRouter.pgrAuthFind c username
  | chose v rc reader writer =>
    ∃ c', Published c c' ∧ Worker.determineBackends c' v.reader v.writer v.r = (rc, reader, writer)
  | told connfd before after =>
    ∃ c', Published c c' ∧ ∃ feConns : ℤ, 0 ≤ feConns ∧ feConns ≤ n ∧
      after = Monitor.monitorHandleClient before c' feConns connfd

/-- What is noted of a thread beside what it has of its own. -/
structure Mark where
  /-- Where the watcher is. -/
  phase : Phase
  /-- The worker has counted its client. -/
  counted : Bool

/-- What is noted of a thread that is over. -/
def Mark.idle : Mark := ⟨.waiting, false⟩

/-- What is true of the serial system, when the router has `n` workers and was started on `c`. -/
structure Inv {n : ℕ} (c : Context) (p : Common) (s : ThreadId n → Own × Mark) : Prop where
  /-- The context and the cache are what the watcher and the supervisor have left. -/
  watched : Relation.ReflTransGen Watcher.Step (.start c)
    ⟨p.context, (s .watcher).1.health, (s .watcher).2.phase⟩
  /-- No section that writes is under way. -/
  readable : ∀ masterPos i, (s .watcher).2.phase ≠ .publishing masterPos i
  /-- Each worker has counted at most one client. -/
  counted : p.feConns = ∑ i : Fin n, if (s (.worker i)).2.counted then 1 else 0
  /-- What has been seen is sound. -/
  sound : ∀ t, ∀ e ∈ (s t).1.events, e.Sound n c

/-- A thread that has no work. -/
def Idle {n : ℕ} (_ : ThreadId n) (a : Own × Mark) : Prop := a.2 = .idle

namespace Inv

variable {n : ℕ} {c : Context} {p : Common} {s : ThreadId n → Own × Mark}

theorem published (h : Inv c p s) : Published c p.context := ⟨_, h.watched, h.readable, rfl⟩

/-- There are at most as many clients as workers. -/
theorem feConns_mem (h : Inv c p s) : 0 ≤ p.feConns ∧ p.feConns ≤ n := by
  rw [h.counted]
  constructor
  · exact Finset.sum_nonneg fun i _ => by split_ifs <;> decide
  · calc (∑ i : Fin n, if (s (.worker i)).2.counted then 1 else 0 : ℤ)
      _ ≤ ∑ _i : Fin n, 1 := Finset.sum_le_sum fun i _ => by split_ifs <;> decide
      _ = n := by simp

/-- A thread does something of its own. -/
theorem own (h : Inv c p s) {t : ThreadId n} {a : Own × Mark} (ht : s t = a) {o : Own}
    (hhealth : o.health = a.1.health) (hevents : ∀ e ∈ o.events, e ∈ a.1.events ∨ e.Sound n c) :
    Inv c p (Function.update s t (o, a.2)) := by
  subst ht
  have hmark : ∀ u, (Function.update s t (o, (s t).2) u).2 = (s u).2 := by
    intro u
    by_cases hu : u = t
    · subst hu
      simp
    · rw [Function.update_of_ne hu]
  have hcache : (Function.update s t (o, (s t).2) .watcher).1.health = (s .watcher).1.health := by
    by_cases hu : ThreadId.watcher = t
    · subst hu
      simpa using hhealth
    · rw [Function.update_of_ne hu]
  constructor
  · rw [hmark, hcache]
    exact h.watched
  · rw [hmark]
    exact h.readable
  · simp only [hmark]
    exact h.counted
  · intro u e he
    by_cases hu : u = t
    · subst hu
      rw [Function.update_self] at he
      exact (hevents e he).elim (h.sound u e) id
    · rw [Function.update_of_ne hu] at he
      exact h.sound u e he

/-- A worker counts its client, or no longer does. -/
theorem count (h : Inv c p s) {i : Fin n} {o : Own} {φ : Mark} (ht : s (.worker i) = (o, φ)) (counted : Bool)
    {d : ℤ} (hd : (if counted then 1 else 0 : ℤ) = (if φ.counted then 1 else 0) + d) :
    Inv c { p with feConns := p.feConns + d }
      (Function.update s (.worker i) (o, { φ with counted := counted })) := by
  have hother : ∀ j ≠ i, Function.update s (.worker i) (o, { φ with counted := counted }) (.worker j) = s (.worker j) :=
    fun j hj => Function.update_of_ne (fun heq => hj (ThreadId.worker.inj heq)) _ _
  have hsum : (∑ j : Fin n, if (Function.update s (.worker i) (o, { φ with counted := counted }) (.worker j)).2.counted
      then 1 else 0 : ℤ) = (∑ j : Fin n, if (s (.worker j)).2.counted then 1 else 0) + d := by
    rw [← Finset.add_sum_erase _ _ (Finset.mem_univ i), ← Finset.add_sum_erase Finset.univ
      (fun j => if (s (.worker j)).2.counted then (1 : ℤ) else 0) (Finset.mem_univ i)]
    have hrest : ∀ j ∈ Finset.univ.erase i,
        (if (Function.update s (.worker i) (o, { φ with counted := counted }) (.worker j)).2.counted
          then 1 else 0 : ℤ) = if (s (.worker j)).2.counted then 1 else 0 := fun j hj => by
      rw [hother j (Finset.ne_of_mem_erase hj)]
    rw [Finset.sum_congr rfl hrest, Function.update_self, ht]
    dsimp only
    rw [hd]
    ring
  constructor
  · exact h.watched
  · exact h.readable
  · exact (congrArg (· + d) h.counted).trans hsum.symm
  · intro u e he
    by_cases hu : u = .worker i
    · subst hu
      rw [Function.update_self] at he
      exact h.sound _ e (by rwa [ht])
    · rw [Function.update_of_ne hu] at he
      exact h.sound u e he

/-- The watcher goes on. -/
theorem watch (h : Inv c p s) {o o' : Own} {φ φ' : Mark} {c' : Context} (ht : s .watcher = (o, φ))
    (hsteps : Relation.ReflTransGen Watcher.Step ⟨p.context, o.health, φ.phase⟩ ⟨c', o'.health, φ'.phase⟩)
    (hreadable : ∀ masterPos i, φ'.phase ≠ .publishing masterPos i) (hevents : o'.events = o.events) :
    Inv c { p with context := c' } (Function.update s .watcher (o', φ')) := by
  have hwatched := h.watched
  rw [ht] at hwatched
  constructor
  · rw [Function.update_self]
    exact hwatched.trans hsteps
  · rw [Function.update_self]
    exact hreadable
  · exact h.counted
  · intro u e he
    by_cases hu : u = .watcher
    · subst hu
      rw [Function.update_self, hevents] at he
      exact h.sound _ e (by rwa [ht])
    · rw [Function.update_of_ne hu] at he
      exact h.sound u e he

/-- The configuration is loaded again. -/
theorem reload (h : Inv c p s) {text : List Octet} {rc : ℤ} {c' : Context}
    (loaded : pgrConfigure p.context text true = some (rc, c')) : Inv c { p with context := c' } s :=
  ⟨h.watched.tail (.reload text h.readable loaded), h.readable, h.counted, h.sound⟩

end Inv

/-! ### What stays -/

/-- When the configuration is loaded again, what can be updated is. -/
theorem pgrConfigure_reload {c c' : Context} {text : List Octet} {rc : ℤ}
    (h : pgrConfigure c text true = some (rc, c')) : c' = c ∨ ∃ p, c' = update c p := by
  obtain ⟨⟨rc₀, p⟩, -, h⟩ := Option.bind_eq_some_iff.mp h
  dsimp only at h
  by_cases hrc : rc₀ ≠ 0
  · rw [if_pos hrc] at h
    exact .inl (Prod.mk.inj (Option.some.inj h)).2.symm
  · rw [if_neg hrc] at h
    obtain ⟨c₁, hc₁, h⟩ := Option.bind_eq_some_iff.mp h
    exact .inr ⟨p, (Prod.mk.inj (Option.some.inj h)).2.symm.trans (updateStartup_reload_iff.mp hc₁).1⟩

/-- A backend without what the watcher finds of it. -/
def withoutFindings (b : Backend) : Backend := { b with role := .unknown, status := .ok, lag := 0 }

/-- The findings on a backend do not touch its settings. -/
theorem withoutFindings_publishEntry (masterPos : Int32) (h : Health) (b : Backend) :
    withoutFindings (publishEntry masterPos h b) = withoutFindings b := by
  unfold publishEntry
  split_ifs <;> rfl

/-- Neither the watcher nor the supervisor touches the database of the users, or the settings of a backend. -/
theorem step_settled {r r' : Watcher.Router} (h : Watcher.Step r r') :
    r'.context.authdb = r.context.authdb ∧
      r'.context.backends.map withoutFindings = r.context.backends.map withoutFindings := by
  cases h with
  | refresh | check | abandon | lock | unlock => exact ⟨rfl, rfl⟩
  | @publish c hs masterPos i h entry =>
    change (publishOne masterPos h i c).authdb = c.authdb ∧
      (publishOne masterPos h i c).backends.map withoutFindings = c.backends.map withoutFindings
    unfold publishOne
    cases hb : c.backends[i]? with
    | none => exact ⟨rfl, rfl⟩
    | some b =>
      have hset : (c.backends.set i (publishEntry masterPos h b)).map withoutFindings =
          c.backends.map withoutFindings := by
        obtain ⟨hi, rfl⟩ := List.getElem?_eq_some_iff.mp hb
        rw [List.map_set, withoutFindings_publishEntry, ← List.map_set, List.set_getElem_self]
      dsimp only
      by_cases hserial : h.serial ≠ b.serial
      · rw [if_pos hserial]
        exact ⟨rfl, rfl⟩
      · rw [if_neg hserial]
        exact ⟨rfl, hset⟩
  | reload text free loaded =>
    rcases pgrConfigure_reload loaded with rfl | ⟨p, rfl⟩ <;> exact ⟨rfl, rfl⟩

/-- So they are as at the start in every context that is published. -/
theorem Published.settled {c c' : Context} (h : Published c c') :
    c'.authdb = c.authdb ∧ c'.backends.map withoutFindings = c.backends.map withoutFindings := by
  obtain ⟨r, hrun, -, rfl⟩ := h
  induction hrun with
  | refl => exact ⟨rfl, rfl⟩
  | tail _ hstep ih =>
    obtain ⟨hauthdb, hbackends⟩ := step_settled hstep
    exact ⟨hauthdb.trans ih.1, hbackends.trans ih.2⟩

/-- When no section is under way the counter is right. -/
theorem Published.consistent {text : List Octet} {c c' : Context}
    (loaded : pgrConfigure .zero text false = some (0, c)) (h : Published (pgrContext c) c') :
    Consistent c' := by
  obtain ⟨r, hrun, readable, rfl⟩ := h
  have hinv : Invariant r := by
    clear readable
    induction hrun with
    | refl => exact start_invariant loaded
    | tail _ hstep ih => exact ih.step hstep
  rcases r with ⟨c₀, hs, _ | _ | masterPos | ⟨masterPos, i⟩⟩
  · exact hinv
  · exact hinv.1
  · exact hinv.1
  · exact absurd rfl (readable masterPos i)

/-- What a backend has from the configuration is as at the start. -/
theorem Published.map_eq {β : Type} {c c' : Context} (h : Published c c')
    {f : Backend → β} (hf : ∀ b, f (withoutFindings b) = f b) : c'.backends.map f = c.backends.map f := by
  have hmap : ∀ bs : List Backend, bs.map f = (bs.map withoutFindings).map f := by
    intro bs
    rw [List.map_map]
    exact List.map_congr_left fun b _ => (hf b).symm
  rw [hmap, h.settled.2, ← hmap]

/-- The host of a backend is what comes before the colon. -/
theorem hostname_of_configured {text : List Octet} {c : Context}
    (loaded : pgrConfigure .zero text false = some (0, c)) : ∀ b ∈ c.backends, ch ':' ∉ b.hostname := by
  have hhost : ∀ (s : CString) (b : Backend), ch ':' ∉ (hostport s b).2.hostname := by
    intro s b
    have hname : (hostport s b).2.hostname = s.takeWhile (· ≠ ch ':') := by
      unfold hostport
      split
      · rfl
      · split <;> rfl
    rw [hname]
    intro hmem
    simpa using List.mem_takeWhile_imp hmem
  obtain ⟨⟨rc₀, p⟩, -, loaded⟩ := Option.bind_eq_some_iff.mp loaded
  dsimp only at loaded
  by_cases hrc : rc₀ ≠ 0
  · rw [if_pos hrc] at loaded
    obtain ⟨-, rfl⟩ := Prod.mk.inj (Option.some.inj loaded)
    exact fun b hb => absurd hb List.not_mem_nil
  · rw [if_neg hrc] at loaded
    obtain ⟨c₁, -, loaded⟩ := Option.bind_eq_some_iff.mp loaded
    obtain ⟨hfill, rfl⟩ := Prod.mk.inj (Option.some.inj loaded)
    intro b hb
    change b ∈ (fillAll p (p.backends.headD (makeBackend none)) p.backends.tail).2 at hb
    rw [fillAll_ok hfill] at hb
    obtain ⟨b₀, -, rfl⟩ := List.mem_map.mp hb
    exact hhost _ _

/-! ### The threads keep the invariant -/

section

variable {n : ℕ} {c : Context}

/-- A thread of a router with `n` workers that was started on `c` keeps the invariant while it runs a program. -/
abbrev Upholds {n : ℕ} (c : Context) (t : ThreadId n) (a : Own × Mark) (p : Private Unit) :
    Prop :=
  Foundation.Serial.Upholds Lock.context (Inv c) Idle t a p

variable {t : ThreadId n} {φ : Mark}

theorem note_upholds {o : Own} {e : Event} {g : Unit → Private Unit} (he : e.Sound n c)
    (h : ∀ o, Upholds c t (o, φ) (g ())) : Upholds c t (o, φ) ((note e).bind g) := by
  refine .modify φ (fun p s hI hs => hI.own hs rfl fun e' he' => ?_) fun p s hI hs => h _
  rcases List.mem_append.mp he' with hold | hnew
  · exact .inl hold
  · obtain rfl := List.mem_singleton.mp hnew
    exact .inr he

/-- Something can be seen in the end. -/
theorem note_last_upholds {o : Own} {e : Event} (he : e.Sound n c) :
    Upholds c t (o, .idle) (note e) := by
  rw [← Program.bind_done (note e)]
  exact note_upholds he fun o => .done rfl

/-- A section of a program over what is shared that leaves it alone. -/
theorem inShared_upholds {α : Type} {o : Own} {p : Program α} (hp : p.IsSection Lock.context) {f : Context → α}
    (hrun : ∀ s : Shared, p.run s = some (f s.context, s)) {g : α → Private Unit}
    (h : ∀ c', Published c c' → ∀ o, Upholds c t (o, φ) (g (f c'))) :
    Upholds c t (o, φ) ((inShared p).bind g) := by
  refine .of_section (hp.zoom _ _) φ fun p₀ s hI hs => ⟨f p₀.context, (p₀, o), ?_, ?_, h _ hI.published o⟩
  · rw [inShared_run, hrun]
    rfl
  · exact hI.own hs rfl fun e he => .inl he

namespace Noted

theorem pgrConnAccept_upholds {o : Own} {g : Unit → Private Unit} (h : ∀ o, Upholds c t (o, φ) (g ()))
    (usernames : List CString) : Upholds c t (o, φ) ((pgrConnAccept usernames).bind g) := by
  induction usernames generalizing o with
  | nil => exact h o
  | cons username usernames ih =>
    simp only [pgrConnAccept, Program.bind_eq, Program.bind_assoc]
    refine inShared_upholds (pgrAuthFind_isSection username) (f := fun c' => PgRouter.pgrAuthFind c' username)
      (pgrAuthFind_run username) fun c' hc' o => note_upholds ?_ fun o => ih
    change PgRouter.pgrAuthFind c' username = PgRouter.pgrAuthFind c username
    rw [PgRouter.pgrAuthFind, hc'.settled.1]
    rfl

theorem Worker.handleClient_upholds {o : Own} {g : Unit → Private Unit} (h : ∀ o, Upholds c t (o, φ) (g ()))
    (v : Visit) : Upholds c t (o, φ) ((Worker.handleClient v).bind g) := by
  simp only [Worker.handleClient, Program.bind_eq, Program.bind_assoc]
  refine pgrConnAccept_upholds (fun o => ?_) v.usernames
  split_ifs
  · simp only [Program.bind_assoc]
    refine inShared_upholds (determineBackends_isSection _ _ _)
      (f := fun c' => PgRouter.Worker.determineBackends c' v.reader v.writer v.r)
      (determineBackends_run _ _ _) fun c' hc' o => note_upholds ?_ h
    exact ⟨c', hc', rfl⟩
  · exact h o

/-- A worker counts its client, and no longer does when it is done with it. -/
theorem doWorker_upholds {i : Fin n} {o : Own} (v : Visit) : Upholds c (.worker i) (o, .idle) (doWorker v) := by
  refine .of_section (addClients_isSection 1) ⟨.waiting, true⟩ fun p s hI hs => ⟨(), _, addClients_run _ _, ?_, ?_⟩
  · exact hI.count hs true rfl
  refine Worker.handleClient_upholds (fun o => ?_) v
  rw [← Program.bind_done (addClients (-1))]
  refine .of_section (addClients_isSection (-1)) .idle fun p s hI hs => ⟨(), _, addClients_run _ _, ?_, .done rfl⟩
  exact hI.count hs false rfl

theorem doMonitor_upholds {o : Own} (connfd : Fd) :
    Upholds (n := n) c .monitor (o, .idle) (doMonitor connfd) := by
  refine .get fun _ _ _ _ => ?_
  change Upholds c .monitor (o, .idle) ((Monitor.handleClient connfd).bind fun _ =>
    kernelOf.bind fun after => note (.told connfd o.kernel after))
  refine .of_section (Monitor.handleClient_isSection connfd) .idle fun p s hI hs =>
    ⟨(), _, Monitor.handleClient_run _ _, hI.own hs rfl fun e he => .inl he, ?_⟩
  refine .get fun _ _ _ _ => ?_
  exact note_last_upholds ⟨p.context, hI.published, p.feConns, hI.feConns_mem.1, hI.feConns_mem.2, rfl⟩

end Noted

/-- The watcher makes a round: it refreshes its cache, checks the backends, and publishes what it has found in what
has become of the context meanwhile. -/
theorem doWatcher_upholds {o : Own} (f : Findings) :
    Upholds (n := n) c .watcher (o, .idle) (inShared (doWatcher f)) := by
  have hrefresh : ∀ (p : Common) (o : Own), (inShared refreshSection).run (p, o) =
      some ((), (p, { o with health := refresh p.context o.health })) := by
    intro p o
    rw [inShared_run, refreshSection_run]
    rfl
  have hpublish : ∀ (masterPos : Int32) (p : Common) (o : Own), (inShared (publishSection masterPos)).run (p, o) =
      some ((), ({ p with context := publish masterPos o.health p.context }, o)) := by
    intro masterPos p o
    rw [inShared_run, publishSection_run]
    rfl
  rw [doWatcher_eq, inShared_bind]
  refine .of_section (refreshSection_isSection.zoom _ _) ⟨.refreshed, false⟩ fun p s hI hs =>
    ⟨(), _, hrefresh p o, hI.watch hs (.single .refresh) (fun _ _ => nofun) rfl, ?_⟩
  refine .get fun _ _ _ _ => ?_
  let found := checkBackends f.probe 0 f.masterPos (refresh p.context o.health)
  refine .modify ⟨.checked found.2, false⟩ (fun p s hI hs => ?_) fun _ _ _ _ => ?_
  · exact hI.watch hs (.single (.check f)) (fun _ _ => nofun) rfl
  change Upholds c .watcher _ (inShared (publishSection found.2))
  rw [← Program.bind_done (inShared (publishSection found.2))]
  refine .of_section ((publishSection_isSection _).zoom _ _) .idle fun p s hI hs =>
    ⟨(), _, hpublish found.2 p _, hI.watch hs ?_ (fun _ _ => nofun) rfl, .done rfl⟩
  change Relation.ReflTransGen Watcher.Step ⟨p.context, found.1, .checked found.2⟩
    ⟨publish found.2 found.1 p.context, found.1, .waiting⟩
  by_cases hlen : p.context.backends.length = found.1.length
  · exact publish_run found.2 hlen
  · rw [publish, if_pos hlen]
    exact .single (.abandon hlen)

/-- Loading the configuration again is one section, in which the process may end. -/
theorem reload_eq_acquire (text : List Octet) : ∃ k, inShared (reload text) = .acquire .write .context k ∧
    ∀ p o, k.finish Lock.context (p, o) = match pgrConfigure p.context text true with
      | none => (.abort, (p, o))
      | some (_, c') => (.done (), ({ p with context := c' }, o)) := by
  refine ⟨_, rfl, fun p o => ?_⟩
  change (inShared (match pgrConfigure p.context text true with
    | none => .abort
    | some (rc, c) => (change fun s => { s with context := c }).bind fun _ =>
      if rc ≠ 0 then unlock .context else unlock .context)).finish Lock.context (p, o) = _
  cases pgrConfigure p.context text true with
  | none => rfl
  | some loaded =>
    simp only [ite_self]
    rfl

/-- The supervisor loads the configuration again, or the process ends. -/
theorem reload_upholds {o : Own} (text : List Octet) :
    Upholds (n := n) c .supervisor (o, .idle) (inShared (reload text)) := by
  obtain ⟨k, hk, hfinish⟩ := reload_eq_acquire text
  rw [hk]
  refine .run .idle (fun p s hI hs => ?_) fun p s hI hs => ?_
  · have hown := hI.own hs rfl fun e he => .inl he
    rw [hfinish]
    cases hloaded : pgrConfigure p.context text true with
    | none => exact hown
    | some loaded =>
      obtain ⟨rc, c'⟩ := loaded
      exact hown.reload hloaded
  · rw [hfinish]
    cases pgrConfigure p.context text true with
    | none => exact .abort
    | some loaded => exact .done rfl

/-- **Every program keeps the invariant.** -/
theorem Noted.programs_upholds (t : ThreadId n) (a : Own × Mark) (ha : Idle t a) :
    ∀ p ∈ Noted.programs t, Upholds c t a p := by
  obtain ⟨o, φ⟩ := a
  obtain rfl : φ = .idle := ha
  intro p hp
  cases t with
  | supervisor =>
    obtain ⟨text, rfl⟩ := hp
    exact reload_upholds text
  | watcher =>
    obtain ⟨f, rfl⟩ := hp
    exact doWatcher_upholds f
  | monitor =>
    obtain ⟨connfd, rfl⟩ := hp
    exact Noted.doMonitor_upholds connfd
  | worker i =>
    obtain ⟨v, rfl⟩ := hp
    exact Noted.doWorker_upholds v

end

/-! ### Every state of the router -/

section

variable {n : ℕ} {c : Context} {kernels : ThreadId n → Kernel} {x : NotedRouter n}

/-- The invariant holds in the state of the serial system that tracks the threads. -/
theorem exists_upheld (run : NotedReachable c kernels x) : ∃ (X : SerialRouter n) (s : ThreadId n → Own × Mark),
    Foundation.Threads.Tracked Lock.context x X ∧ Foundation.Serial.Upheld Lock.context (Inv c) Idle X s := by
  obtain ⟨X, hX, htracked⟩ := Foundation.Threads.exists_serial Noted.programs_guarded run
  have hstart : Inv c ⟨c, 0⟩ fun t => (ownStart kernels t, Mark.idle) :=
    ⟨.refl, fun _ _ => nofun, by simp [Mark.idle], fun t e he => absurd he List.not_mem_nil⟩
  obtain ⟨s, hs⟩ := Foundation.Serial.reachable_induction Noted.programs_upholds hstart (fun _ => rfl) hX
  exact ⟨X, s, htracked, hs⟩

/-- What is seen of a thread is seen in one published context. -/
theorem seen_sound (run : NotedReachable c kernels x) {t : ThreadId n} (outside : (x.thread t).held = [])
    {e : Event} (he : e ∈ (x.shared.2 t).events) : e.Sound n c := by
  obtain ⟨X, s, htracked, hs⟩ := exists_upheld run
  obtain ⟨code, -, htracks⟩ := htracked.thread t
  rw [outside] at htracks
  refine hs.invariant.sound t e ?_
  rw [hs.own t, show X.own t = x.shared.2 t from htracks.own]
  exact he

/-- **What is in common when no thread writes.** In whatever order the threads take their steps: the context is one
that the watcher and the supervisor have published, and the number of the clients is between `0` and that of the
workers which have something to do. -/
theorem common_published (run : NotedReachable c kernels x)
    (free : ∀ t, (Lock.context, Mode.write) ∉ (x.thread t).held) :
    Published c x.shared.1.context ∧ 0 ≤ x.shared.1.feConns ∧
      ∀ busy : Finset (Fin n), (∀ i, (x.thread (.worker i)).code ≠ .done () → i ∈ busy) →
        x.shared.1.feConns ≤ busy.card := by
  obtain ⟨X, s, htracked, hs⟩ := exists_upheld run
  rw [← htracked.common free]
  refine ⟨hs.invariant.published, hs.invariant.feConns_mem.1, fun busy hbusy => ?_⟩
  -- a worker that is over has counted no client
  have hidle : ∀ i ∉ busy, (if (s (.worker i)).2.counted then 1 else 0 : ℤ) = 0 := by
    intro i hi
    obtain ⟨code, hcode, htracks⟩ := htracked.thread (.worker i)
    have hdone : (x.thread (.worker i)).code = .done () := not_not.mp fun hne => hi (hbusy i hne)
    obtain rfl := Program.at_eq_done (hcode.symm.trans hdone)
    obtain ⟨-, hX, -⟩ := htracks.of_done
    have hupholds := hs.upholds (.worker i)
    rw [show X.code (.worker i) = .done () from hX] at hupholds
    cases hupholds with
    | done idle =>
      rw [show (s (.worker i)).2 = .idle from idle]
      rfl
  calc X.common.feConns
    _ = ∑ i : Fin n, if (s (.worker i)).2.counted then 1 else 0 := hs.invariant.counted
    _ = ∑ i ∈ busy, if (s (.worker i)).2.counted then 1 else 0 :=
      (Finset.sum_subset (Finset.subset_univ busy) fun i _ hi => hidle i hi).symm
    _ ≤ ∑ _i ∈ busy, 1 := Finset.sum_le_sum fun i _ => by split_ifs <;> decide
    _ = busy.card := by simp

/-- The supervisor loads a configuration that can be read. -/
theorem NotedReachable.reload {X : SerialRouter n} (run : NotedReachable c kernels (paused X))
    (idle : X.code .supervisor = .done ()) {text : List Octet} {c' : Context}
    (loaded : pgrConfigure X.common.context text true = some (0, c')) :
    NotedReachable c kernels
      (paused (X.goOn .supervisor (.done ()) ({ X.common with context := c' }, X.own .supervisor))) := by
  refine run.whole idle ⟨text, rfl⟩ ?_
  rw [inShared_run, reload_run loaded]
  rfl

/-- A worker has counted its client, and the configuration has then been loaded again. -/
theorem common_published_counted : ∃ x : NotedRouter 1, x.shared.1.feConns = 1 ∧ x.shared.1.context.workers = 5 ∧
    Published .zero x.shared.1.context ∧ 0 ≤ x.shared.1.feConns ∧
      ∀ busy : Finset (Fin 1), (∀ i, (x.thread (.worker i)).code ≠ .done () → i ∈ busy) →
        x.shared.1.feConns ≤ busy.card := by
  have loaded : pgrConfigure .zero (octets "workers 5;") true = some (0, { Context.zero with workers := 5 }) := by
    decide +kernel
  have h₁ := (NotedReachable.start .zero fun _ : ThreadId 1 => .eager fun _ => []).count (i := 0) rfl someVisit
  have h₂ := h₁.reload rfl loaded
  exact ⟨_, rfl, rfl, common_published h₂ fun _ => List.not_mem_nil⟩

/-- **A look-up** of whatever worker returns what was in the database at the start, however often the configuration
has been loaded again meanwhile. -/
theorem lookedUp_stable (run : NotedReachable c kernels x) {i : Fin n}
    (outside : (x.thread (.worker i)).held = []) {username : CString} {md5 : Option CString}
    (seen : .lookedUp username md5 ∈ (x.shared.2 (.worker i)).events) : md5 = PgRouter.pgrAuthFind c username :=
  seen_sound run outside seen

/-- A user that is looked up by a worker, after the configuration has been loaded again. -/
theorem lookedUp_stable_alice :
    some [0x62] = PgRouter.pgrAuthFind { Context.zero with authdb := [([0x61], [0x62])] } [0x61] := by
  let v : Visit := { someVisit with usernames := [[0x61]] }
  let c : Context := { Context.zero with authdb := [([0x61], [0x62])] }
  have loaded : pgrConfigure c (octets "workers 5;") true = some (0, { c with workers := 5 }) := by decide +kernel
  have h₁ := (NotedReachable.start c fun _ : ThreadId 1 => .eager fun _ => []).count (i := 0) rfl v
  have h₂ := h₁.reload rfl loaded
  have h₃ := h₂.resume (t := .worker 0) (p := Noted.Worker.handleClient v) rfl (Noted.Worker.handleClient_balanced v)
    rfl
  exact lookedUp_stable h₃ (i := 0) rfl List.mem_cons_self

/-- **A report of the monitor.** Whatever the threads do while it is written, however little each `write` takes, if
none fails: a client gets a text from which it can read what was in one published context. The number of the
backends that are up is that of those which it is told are up, it is told of each backend that is configured,
and of no more clients than there are workers. -/
theorem report_consistent {text : List Octet} (loaded : pgrConfigure .zero text false = some (0, c))
    (run : NotedReachable (pgrContext c) kernels x) (outside : (x.thread .monitor).held = []) {connfd : Fd}
    {before after : Kernel} (seen : .told connfd before after ∈ (x.shared.2 .monitor).events)
    (writes : before.WritesSome) :
    ∃ c' told page, Published (pgrContext c) c' ∧ before.Wrote connfd told after ∧
      Monitor.readPage told = some page ∧ page.backends = c'.backends.map .of ∧
      page.okBackends = page.backends.countP (fun e => e.status = .ok) ∧
      page.backends.map (fun e => (e.hostname, e.port)) = c.backends.map (fun b => (b.hostname, b.port)) ∧
      0 ≤ page.clients ∧ page.clients ≤ n := by
  obtain ⟨c', hc', feConns, hpos, hle, rfl⟩ := seen_sound run outside seen
  have hendpoints : c'.backends.map (fun b => (b.hostname, b.port)) = c.backends.map fun b => (b.hostname, b.port) := by
    have hstart : (pgrContext c).backends.map (fun b => (b.hostname, b.port)) =
        c.backends.map fun b => (b.hostname, b.port) := by
      rw [pgrContext, List.map_map]
      rfl
    rw [hc'.map_eq fun _ => rfl, hstart]
  have hhosts : ∀ b ∈ c'.backends, ch ':' ∉ b.hostname := by
    intro b hb
    have hmem : (b.hostname, b.port) ∈ c.backends.map fun b => (b.hostname, b.port) := by
      rw [← hendpoints]
      exact List.mem_map_of_mem hb
    obtain ⟨b₀, hb₀, heq⟩ := List.mem_map.mp hmem
    rw [← (Prod.mk.inj heq).1]
    exact hostname_of_configured loaded b₀ hb₀
  refine ⟨c', Monitor.pageText c' feConns, .of c' feConns, hc',
    Monitor.monitorHandleClient_wrote writes c' feConns connfd, Monitor.readPage_pageText hhosts feConns, rfl,
    ?_, ?_, hpos, hle⟩
  · change c'.okBackends = ((c'.backends.map Monitor.Entry.of).countP _ : ℕ)
    rw [List.countP_map, hc'.consistent loaded]
    rfl
  · rw [← hendpoints]
    change (c'.backends.map Monitor.Entry.of).map _ = _
    rw [List.map_map]
    rfl

/-- The watcher makes a round. -/
theorem NotedReachable.watch {X : SerialRouter n} (run : NotedReachable c kernels (paused X))
    (idle : X.code .watcher = .done ()) (f : Findings) :
    let w := Watch.round ⟨X.common.context, (X.own .watcher).health⟩ f
    NotedReachable c kernels (paused (X.goOn .watcher (.done ())
      ({ X.common with context := w.context }, { X.own .watcher with health := w.health }))) := by
  refine run.whole idle ⟨f, rfl⟩ ?_
  rw [inShared_run, doWatcher_run]
  rfl

/-- The monitor is asked once, of a router with a backend, when a worker has counted its client and the watcher has
made a round. -/
theorem report_consistent_oneBackend : ∃ told page, Monitor.readPage told = some page ∧
    page.backends.map (fun e => (e.hostname, e.port)) = [(octets "x", 1)] ∧ 0 ≤ page.clients ∧ page.clients ≤ 1 := by
  have loaded : pgrConfigure .zero (octets "backend x:1 \x7b \x7d ") false =
      some (0, { Context.zero with backends := [oneBackend] }) := by decide +kernel
  let c := pgrContext { Context.zero with backends := [oneBackend] }
  have h₁ := (NotedReachable.start c fun _ : ThreadId 1 => .eager fun _ => []).count (i := 0) rfl someVisit
  have h₂ := h₁.watch rfl ⟨fun _ => .answers [0x66] [0x30, 0x2f, 0x31], 0⟩
  have h₃ := h₂.whole (t := .monitor) rfl ⟨9, rfl⟩ (Noted.doMonitor_run 9 _)
  have writes : (Kernel.eager fun _ => []).WritesSome :=
    fun _ => show WriteChoice.all ≠ .fail ∧ WriteChoice.all ≠ .upto 0 by decide
  obtain ⟨-, told, page, -, -, hpage, -, -, hbackends, hpos, hle⟩ :=
    report_consistent loaded h₃ rfl List.mem_cons_self writes
  exact ⟨told, page, hpage, hbackends, hpos, hle⟩

/-- **A choice of the backends.** Whatever the threads do while a worker chooses: if it succeeds and the number drawn is
not `0`, then in one published context the reader is a backend that may be read from, and the writer is the last
master of the same context, if there is one. -/
theorem chosen_together (run : NotedReachable c kernels x)
    {i : Fin n} (outside : (x.thread (.worker i)).held = []) {v : Visit} (drawn : 0 < v.r) {reader writer : Connection}
    (seen : .chose v 0 reader writer ∈ (x.shared.2 (.worker i)).events) :
    ∃ c', Published c c' ∧
      (∃ (j : ℕ) (b : Backend), c'.backends[j]? = some b ∧ reader = Worker.pointTo c' v.reader j b ∧ Worker.Viable b) ∧
      ((∃ (j : ℕ) (b : Backend), Worker.IsLastMaster c'.backends j b ∧ writer = Worker.pointTo c' v.writer j b) ∨
        (∀ b ∈ c'.backends, b.role ≠ .master) ∧ writer = v.writer) := by
  obtain ⟨c', hc', hchoice⟩ := seen_sound run outside seen
  have hwriter := Worker.determineBackends_writer c' v.reader v.writer v.r
  rw [hchoice] at hwriter
  refine ⟨c', hc', Worker.readerViable_of_pos drawn _ _ _ _ hchoice, ?_⟩
  rcases Worker.weighBackends_writer c' 0 0 v.writer c'.backends with ⟨j, b, hlast, heq⟩ | ⟨hnone, heq⟩
  · refine .inl ⟨j, b, hlast, ?_⟩
    rw [← zero_add (j : ℤ), ← heq]
    exact hwriter
  · exact .inr ⟨hnone, hwriter.trans heq⟩

/-- A client that is accepted without a look-up. -/
theorem Noted.Worker.handleClient_run {v : Visit} (nobody : v.usernames = []) (accepted : v.accepted = true)
    (s : Common × Own) :
    let d := PgRouter.Worker.determineBackends s.1.context v.reader v.writer v.r
    (Noted.Worker.handleClient v).run s =
      some ((), (s.1, { s.2 with events := s.2.events ++ [.chose v d.1 d.2.1 d.2.2] })) := by
  have hchoose : (inShared (determineBackends v.reader v.writer v.r)).run s =
      some (PgRouter.Worker.determineBackends s.1.context v.reader v.writer v.r, s) := by
    rw [inShared_run, determineBackends_run]
    rfl
  simp only [Noted.Worker.handleClient, nobody, Noted.pgrConnAccept, accepted, if_true, Program.pure_eq,
    Program.bind_eq, Program.run_bind, Program.run_done, Option.bind_some, hchoose]
  rfl

/-- A worker chooses between a master and a slave, after the watcher has found them so. -/
theorem chosen_together_masterAndSlave : ∃ reader writer c', Published Worker.masterAndSlave c' ∧
    (∃ (j : ℕ) (b : Backend), c'.backends[j]? = some b ∧ reader = Worker.pointTo c' (pgrConnInit (.replicate 4 0)) j b ∧
      Worker.Viable b) ∧
    ((∃ (j : ℕ) (b : Backend), Worker.IsLastMaster c'.backends j b ∧
      writer = Worker.pointTo c' (pgrConnInit (.replicate 4 0)) j b) ∨
      (∀ b ∈ c'.backends, b.role ≠ .master) ∧ writer = pgrConnInit (.replicate 4 0)) := by
  let v : Visit := { someVisit with accepted := true, r := 1 }
  let f : Findings := ⟨fun i => .answers (if i = 0 then [0x66] else [0x74]) [0x30, 0x2f, 0x31], 0⟩
  have h₁ := (NotedReachable.start Worker.masterAndSlave fun _ : ThreadId 1 => .eager fun _ => []).count (i := 0) rfl v
  have h₂ := h₁.watch rfl f
  have h₃ := h₂.resume (t := .worker 0) (p := Noted.Worker.handleClient v) rfl (Noted.Worker.handleClient_balanced v)
    (Noted.Worker.handleClient_run rfl rfl _)
  let d := Worker.determineBackends (Watch.round ⟨Worker.masterAndSlave, []⟩ f).context v.reader v.writer 1
  have hd : d.1 = 0 := by decide +kernel
  exact ⟨d.2.1, d.2.2, chosen_together h₃ (i := 0) (v := v) rfl one_pos (by rw [← hd]; exact List.mem_cons_self)⟩

end

end PgRouter.Threads
