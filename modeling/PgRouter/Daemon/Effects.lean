import PgRouter.Daemon.Daemonize

/-!
# What a step of a router can do

The cases of a step (`Effect`): what it does with the files, and what it makes of the process. A step that does nothing
with the files changes one process only (`Proc.Goes`). Every property of all runs is shown case by case from this.
-/

namespace PgRouter.Daemon

open Foundation Text Wire

universe u v

variable {ν : Type u} {ι : Type v}

/-- The calls that only go on, and where to. -/
def PLAIN : List (Place × Place) :=
  [(.lookingUpUser, .lookingUpGroup), (.lookingUpGroup, .changing), (.changing, .piping), (.piping, .forking),
    (.removing, .exiting), (.closing, .serving)]

/-- The places before `fork`. -/
def EARLY : List Place := [.opening, .lookingUpUser, .lookingUpGroup, .changing, .piping, .forking]

/-- The places of a child from where it tells the parent what has failed, and where it goes on. -/
def TELLING : List (Place × Place) :=
  [(.locking, .exiting), (.leaving, .exiting), (.owning, .removing), (.grouping, .removing), (.switching, .removing)]

/-- What becomes of the process `p` with a call that does nothing with files. -/
inductive Proc.Goes (p : Proc ν ι) : Proc ν ι → Prop
  /-- Without a pidfile none is opened. -/
  | unnamed (hplace : p.place = .opening) (hfile : p.start.pidfile = none) : Goes p { p with place := .lookingUpUser }
  /-- It goes on. -/
  | on {x : Place} (hplace : (p.place, x) ∈ PLAIN) : Goes p { p with place := x }
  /-- Without a pidfile none is locked. -/
  | unlocked (hplace : p.place = .locking) (hfd : p.fd = none) : Goes p { p with place := .leaving }
  /-- It leaves the session. -/
  | left (hplace : p.place = .leaving) : Goes p { p with place := if p.fd.isSome then .writing else p.settle }
  /-- Its number is not written. -/
  | unwritten (hplace : p.place = .writing) : Goes p { p with place := p.afterWriting }
  /-- It has the group. -/
  | same (hplace : p.place = .grouping) (hgid : p.start.grGid = p.gid.real) : Goes p { p with place := .switching }
  /-- It changes the group. -/
  | grouped {x : Ids} (hplace : p.place = .grouping)
      (hgid : p.gid.set (p.uid.effective = 0) p.start.grGid = some x) : Goes p { p with place := .switching, gid := x }
  /-- It is the user. -/
  | stays (hplace : p.place = .switching) (huid : p.start.pwUid = p.uid.real) : Goes p { p with place := .closing }
  /-- It changes the user. -/
  | switched {x : Ids} (hplace : p.place = .switching)
      (huid : p.uid.set (p.uid.effective = 0) p.start.pwUid = some x) : Goes p { p with place := .closing, uid := x }
  /-- It fails before `fork`. -/
  | prints {d : List Octet} (hplace : p.place ∈ EARLY) : Goes p { p with place := .exiting, printed := p.printed ++ d }
  /-- It fails, and tells the parent. -/
  | tells {x : Place} {d : List Octet} (hplace : (p.place, x) ∈ TELLING) (hlen : d.length ≤ 8191) :
      Goes p { p with place := x, told := p.told ++ d }
  /-- It cannot read from the pipe. -/
  | misreads (hplace : p.place = .waiting) : Goes p { p with place := .underrun }

variable [DecidableEq ν] [DecidableEq ι]

/-- What a step of the process `i` does. -/
inductive Effect (s : System ν ι) (i : ι) : System ν ι → Prop
  /-- A router is started. -/
  | starts {c : Start ν} {pid : ℕ} (hnew : s.procs i = none) : Effect s i (s.put i (c.begin pid))
  /-- It does nothing with files. -/
  | goes {p q : Proc ν ι} (hp : s.procs i = some p) (hgoes : p.Goes q) : Effect s i (s.put i q)
  /-- It opens its pidfile. -/
  | opens {p : Proc ν ι} {file : Pidfile ν} {o : ℕ × ℕ} (hp : s.procs i = some p) (hplace : p.place = .opening)
      (hfile : p.start.pidfile = some file) :
      Effect s i ((s.withFiles (s.files.create file.opened o).2).put i
        { p with place := .lookingUpUser, fd := some (s.files.create file.opened o).1 })
  /-- It forks. -/
  | forks {p : Proc ν ι} {child : ι} {pid : ℕ} (hp : s.procs i = some p) (hplace : p.place = .forking)
      (hnew : s.procs child = none) :
      Effect s i ((s.put i { p with place := .waiting, child := some child }).put child
        { p with pid := pid, place := .locking })
  /-- It locks its pidfile. -/
  | locks {p : Proc ν ι} {f : ℕ} {fs : Files ν ι (ℕ × ℕ) Octet} (hp : s.procs i = some p) (hplace : p.place = .locking)
      (hfd : p.fd = some f) (hlock : s.files.setlk i f = some fs) :
      Effect s i ((s.withFiles fs).put i { p with place := .leaving })
  /-- It writes to its pidfile. -/
  | writes {p : Proc ν ι} {f n : ℕ} (hp : s.procs i = some p) (hplace : p.place = .writing) (hfd : p.fd = some f) :
      Effect s i ((s.withFiles (s.files.write f ((pidLine p.pid).take n))).put i
        { p with place := p.afterWriting, wrote := n = (pidLine p.pid).length })
  /-- Its pidfile is given to the user. -/
  | owns {p : Proc ν ι} {f : ℕ} (hp : s.procs i = some p) (hplace : p.place = .owning) (hfd : p.fd = some f) :
      Effect s i ((s.withFiles (s.files.chown f (p.start.pwUid, p.start.grGid))).put i { p with place := .grouping })
  /-- It removes its pidfile. -/
  | removes {p : Proc ν ι} {file : Pidfile ν} (hp : s.procs i = some p) (hplace : p.place = .removing)
      (hfile : p.start.pidfile = some file) (hentry : (s.files.entry file.removed).isSome) :
      Effect s i ((s.withFiles (s.files.unlink file.removed)).put i { p with place := .exiting })
  /-- It reads from the pipe. -/
  | hears {p q : Proc ν ι} {child : ι} {n : ℕ} (hp : s.procs i = some p) (hplace : p.place = .waiting)
      (hchild : p.child = some child) (hq : s.procs child = some q)
      (hlen : ((q.told.drop p.heard.length).take n).length = n) :
      Effect s i (s.put i { p with
        place := if n = 8192 then .overrun else .waiting
        heard := p.heard ++ (q.told.drop p.heard.length).take n
        printed := p.printed ++ (q.told.drop p.heard.length).take n })
  /-- It has read everything, and ends. -/
  | leaves {p q : Proc ν ι} {child : ι} (hp : s.procs i = some p) (hplace : p.place = .waiting)
      (hchild : p.child = some child) (hq : s.procs child = some q) (hclosed : q.place.closed)
      (heard : p.heard = q.told) : Effect s i (s.quit i p (.exited 0))
  /-- It ends because it has failed. -/
  | exits {p : Proc ν ι} (hp : s.procs i = some p) (hplace : p.place = .exiting) : Effect s i (s.quit i p (.exited 2))
  /-- It is killed. -/
  | dies {p : Proc ν ι} (hp : s.procs i = some p) (hthere : p.place.gone = false) : Effect s i (s.quit i p .killed)

namespace Effect

variable {s s' : System ν ι} {i : ι} {p : Proc ν ι}

theorem of_succeed (hp : s.procs i = some p) (h : s.succeed i p = some s') : Effect s i s' := by
  unfold System.succeed at h
  cases hplace : p.place with
  | opening =>
    simp only [hplace] at h
    cases hfile : p.start.pidfile with
    | none =>
      simp only [hfile, Option.some.injEq] at h
      exact h ▸ .goes hp (.unnamed hplace hfile)
    | some file =>
      simp only [hfile, Option.some.injEq] at h
      exact h ▸ .opens hp hplace hfile
  | lookingUpUser | lookingUpGroup | changing | piping | closing =>
    simp only [hplace, Option.some.injEq] at h
    exact h ▸ .goes hp (.on (by rw [hplace]; decide))
  | waiting =>
    simp only [hplace, Option.bind_eq_some_iff] at h
    obtain ⟨q, ⟨child, hchild, hq⟩, h⟩ := h
    split_ifs at h with heof
    exact Option.some.inj h ▸ .leaves hp hplace hchild hq heof.1 heof.2
  | locking =>
    simp only [hplace] at h
    cases hfd : p.fd with
    | none =>
      simp only [hfd, Option.some.injEq] at h
      have heffect := Effect.goes hp (.unlocked hplace hfd)
      rw [← h]
      simpa only [hfd] using heffect
    | some f =>
      simp only [hfd, Option.map_eq_some_iff] at h
      obtain ⟨fs, hlock, rfl⟩ := h
      have heffect := Effect.locks hp hplace hfd hlock
      simpa only [hfd] using heffect
  | leaving =>
    simp only [hplace, Option.some.injEq] at h
    exact h ▸ .goes hp (.left hplace)
  | owning =>
    simp only [hplace, Option.map_eq_some_iff] at h
    obtain ⟨f, hfd, rfl⟩ := h
    exact .owns hp hplace hfd
  | grouping =>
    simp only [hplace] at h
    split_ifs at h with hgid
    · exact Option.some.inj h ▸ .goes hp (.same hplace hgid)
    · obtain ⟨x, hx, rfl⟩ := Option.map_eq_some_iff.mp h
      exact .goes hp (.grouped hplace hx)
  | switching =>
    simp only [hplace] at h
    split_ifs at h with huid
    · exact Option.some.inj h ▸ .goes hp (.stays hplace huid)
    · obtain ⟨x, hx, rfl⟩ := Option.map_eq_some_iff.mp h
      exact .goes hp (.switched hplace hx)
  | removing =>
    simp only [hplace, Option.bind_eq_some_iff] at h
    obtain ⟨file, hfile, h⟩ := h
    split_ifs at h with hentry
    exact Option.some.inj h ▸ .removes hp hplace hfile hentry
  | exiting =>
    simp only [hplace, Option.some.injEq] at h
    exact h ▸ .exits hp hplace
  | forking | writing | serving | killed | overrun | underrun => simp only [hplace, reduceCtorEq] at h
  | exited status => simp only [hplace, reduceCtorEq] at h

theorem of_fail {strerror : ℕ → CString} {errno n : ℕ} (hp : s.procs i = some p)
    (h : s.fail strerror i p errno n = some s') : Effect s i s' := by
  have hlen : ∀ x, ((informed strerror p.start errno x).take n).length ≤ 8191 := fun x =>
    (List.length_take_le' _ _).trans (List.length_take_le _ _)
  unfold System.fail at h
  cases hplace : p.place with
  | opening =>
    simp only [hplace] at h
    split_ifs at h
    exact Option.some.inj h ▸ .goes hp (.prints (by rw [hplace]; decide))
  | lookingUpUser | lookingUpGroup | changing | piping | forking =>
    simp only [hplace, Option.some.injEq] at h
    exact h ▸ .goes hp (.prints (by rw [hplace]; decide))
  | locking =>
    simp only [hplace] at h
    split_ifs at h
    exact Option.some.inj h ▸ .goes hp (.tells (by rw [hplace]; decide) (hlen _))
  | leaving | owning =>
    simp only [hplace, Option.some.injEq] at h
    exact h ▸ .goes hp (.tells (by rw [hplace]; decide) (hlen _))
  | grouping | switching =>
    simp only [hplace] at h
    split_ifs at h
    exact Option.some.inj h ▸ .goes hp (.tells (by rw [hplace]; decide) (hlen _))
  | writing =>
    simp only [hplace, Option.some.injEq] at h
    exact h ▸ .goes hp (.unwritten hplace)
  | removing =>
    simp only [hplace, Option.some.injEq] at h
    exact h ▸ .goes hp (.on (by rw [hplace]; decide))
  | waiting =>
    simp only [hplace, Option.some.injEq] at h
    exact h ▸ .goes hp (.misreads hplace)
  | closing | serving | exiting | killed | overrun | underrun => simp only [hplace, reduceCtorEq] at h
  | exited status => simp only [hplace, reduceCtorEq] at h

theorem of_transfer {n : ℕ} (hp : s.procs i = some p) (h : s.transfer i p n = some s') : Effect s i s' := by
  unfold System.transfer at h
  cases hplace : p.place with
  | waiting =>
    simp only [hplace, Option.bind_eq_some_iff] at h
    obtain ⟨q, ⟨child, hchild, hq⟩, h⟩ := h
    obtain ⟨hpart, h⟩ := Option.ite_none_right_eq_some.mp h
    exact Option.some.inj h ▸ .hears hp hplace hchild hq hpart.1
  | writing =>
    simp only [hplace, Option.bind_eq_some_iff] at h
    obtain ⟨f, hfd, h⟩ := h
    split_ifs at h
    exact Option.some.inj h ▸ .writes hp hplace hfd
  | opening | lookingUpUser | lookingUpGroup | changing | piping | forking | locking | leaving | owning | grouping
  | switching | removing | closing | serving | exiting | killed | overrun | underrun =>
    simp only [hplace, reduceCtorEq] at h
  | exited status => simp only [hplace, reduceCtorEq] at h

end Effect

/-- Every step is one of these. -/
theorem System.step_effect {strerror : ℕ → CString} {s s' : System ν ι} {i : ι} {e : Event ν ι}
    (h : s.step strerror i e = some s') : Effect s i s' := by
  unfold System.step at h
  cases hp : s.procs i with
  | none =>
    cases e with
    | starts c pid =>
      simp only [hp, Option.some.injEq] at h
      exact h ▸ .starts hp
    | succeeds | fails | forks | moves | killed => simp only [hp, reduceCtorEq] at h
  | some p =>
    cases e with
    | starts c pid => simp only [hp, reduceCtorEq] at h
    | succeeds => exact .of_succeed hp (by simpa only [hp] using h)
    | fails errno n => exact .of_fail hp (by simpa only [hp] using h)
    | forks child pid =>
      simp only [hp] at h
      split_ifs at h with hfork
      exact Option.some.inj h ▸ .forks hp hfork.1 hfork.2
    | moves n => exact .of_transfer hp (by simpa only [hp] using h)
    | killed =>
      simp only [hp] at h
      split_ifs at h with hgone
      exact Option.some.inj h ▸ .dies hp (Bool.not_eq_true _ ▸ hgone)

end PgRouter.Daemon
